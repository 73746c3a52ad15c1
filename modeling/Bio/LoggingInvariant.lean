import Bio.LoggingService

/-!
# Loggers under all interleavings

* `LogState.Registry`: the list of loggers, their memory and their handles agree, and each logger has
  a service and a mailbox of its own. Its step lemma is `Registry.step`.
* `LogState.SameLoggers`: what most actions leave of the loggers.
* `remove_outcome`: `bio_notify_service` in `bio_remove_logger` always finds the mailbox open.

Result: `inv_of_reachable`.
-/

namespace Bio

/-! ## Links -/

section Links

variable {loggers : List Handle} {itr h y : Handle}

/-- The links from one of them on, with the list head as the end. -/
def linksFrom (loggers : List Handle) : Option Handle → List Handle
  | some itr => itr :: linksAfter loggers itr
  | none => []

theorem mem_of_linksAfter (hh : h ∈ linksAfter loggers itr) : h ∈ loggers := by
  induction loggers with
  | nil => cases hh
  | cons link links ih =>
    rw [linksAfter] at hh
    split at hh
    · exact List.mem_cons_of_mem _ hh
    · exact List.mem_cons_of_mem _ (ih hh)

theorem linksAfter_append (hitr : itr ∈ loggers) (y : Handle) :
    linksAfter (loggers ++ [y]) itr = linksAfter loggers itr ++ [y] := by
  induction loggers with
  | nil => cases hitr
  | cons link links ih =>
    rw [List.cons_append, linksAfter, linksAfter]
    split
    · rfl
    · next hne => exact ih ((List.mem_cons.mp hitr).resolve_left (Ne.symm hne))

/-- Unlinking another logger keeps the rest of the links. -/
theorem mem_linksAfter_erase (hitr : itr ≠ y) (hne : h ≠ y) (hh : h ∈ linksAfter loggers itr) :
    h ∈ linksAfter (loggers.erase y) itr := by
  induction loggers with
  | nil => cases hh
  | cons link links ih =>
    rw [linksAfter] at hh
    by_cases hy : link = y
    · rw [if_neg (fun heq => hitr (heq.symm.trans hy))] at hh
      rw [hy, List.erase_cons_head]
      exact hh
    · rw [List.erase_cons_tail (by simpa using hy), linksAfter]
      split
      · next heq =>
        rw [if_pos heq] at hh
        exact (List.mem_erase_of_ne hne).mpr hh
      · next hitr' =>
        rw [if_neg hitr'] at hh
        exact ih hh

/-- `itr->next` is the first of the links behind `itr`. -/
theorem linksFrom_next (hnodup : loggers.Nodup) :
    linksFrom loggers (linksAfter loggers itr).head? = linksAfter loggers itr := by
  induction loggers with
  | nil => rfl
  | cons link links ih =>
    obtain ⟨hlink, hnodup⟩ := List.nodup_cons.mp hnodup
    have hskip : ∀ y ∈ links, linksAfter (link :: links) y = linksAfter links y := by
      intro y hy
      rw [linksAfter, if_neg (ne_of_mem_of_not_mem hy hlink).symm]
    rw [linksAfter]
    split
    · match links, hskip with
      | [], _ => rfl
      | y :: ys, hskip =>
        rw [List.head?_cons, linksFrom, hskip y List.mem_cons_self, linksAfter, if_pos rfl]
    · have hih := ih hnodup
      cases hnext : (linksAfter links itr).head? with
      | none =>
        rw [hnext] at hih
        exact hih
      | some y =>
        rw [hnext] at hih
        rw [linksFrom, hskip y (mem_of_linksAfter (List.mem_of_head? hnext))]
        exact hih

theorem linksFrom_head : linksFrom loggers loggers.head? = loggers := by
  match loggers with
  | [] => rfl
  | link :: links => rw [List.head?_cons, linksFrom, linksAfter, if_pos rfl]

theorem next_mem {next : Handle} (h : (linksAfter loggers itr).head? = some next) :
    next ∈ loggers := mem_of_linksAfter (List.mem_of_head? h)

end Links

/-! ## The registry -/

namespace LogState

variable {α : Type*} {m m' : LogState α} {c d h b : Handle} {svc : LogService α}

/-- The service is there and has not been told to end. -/
structure Attached (m : LogState α) (s : Service) : Prop where
  service : ∃ svc, m.services s.coro = some svc ∧ svc.mailbox = s.mailbox
  unsent : none ∉ m.mail.sent s.mailbox

/-- The service of a logger or of a call of `bio_add_logger`. -/
def serviceFor (m : LogState α) : Handle ⊕ Handle → Option Service
  | .inl h => (m.impls h).map LoggerImpl.service
  | .inr c => (m.adding c).map AddFrame.service

/-- The loggers in the list, their memory and their handles. -/
structure Registry (m : LogState α) : Prop where
  nodup : m.loggers.Nodup
  listed : ∀ h, h ∈ m.loggers ↔ (m.impls h).isSome = true
  attached : ∀ u s, m.serviceFor u = some s → m.Attached s
  apart : ∀ u v s s', m.serviceFor u = some s → m.serviceFor v = some s' →
    s.mailbox = s'.mailbox → u = v
  serviceOf : ∀ h s, m.serviceFor (.inl h) = some s → m.serviceOf h = some s
  resolves : ∀ h, m.resolves h = true → h ∈ m.loggers
  removing : ∀ k h, m.removing k = some h → h ∈ m.loggers ∧ m.resolves h = false
  sole : ∀ k k' h, m.removing k = some h → m.removing k' = some h → k = k'
  begun : ∀ h, (m.serviceOf h).isSome = true → m.resolves h = false → h ∈ m.removals
  removals : ∀ h ∈ m.removals, (m.serviceOf h).isSome = true ∧ m.resolves h = false
  known : ∀ h s, m.serviceOf h = some s → h ∈ m.sched.issued ∧
    ∃ svc, m.services s.coro = some svc ∧ svc.mailbox = s.mailbox
  told : ∀ h s, m.serviceOf h = some s → h ∉ m.loggers → none ∈ m.mail.sent s.mailbox
  once : ∀ b, (m.mail.sent b).countP Option.isNone ≤ 1

theorem Registry.service (hr : m.Registry) (hh : h ∈ m.loggers) :
    ∃ impl, m.impls h = some impl ∧ m.serviceFor (.inl h) = some impl.service := by
  obtain ⟨impl, himpl⟩ := Option.isSome_iff_exists.mp ((hr.listed h).mp hh)
  exact ⟨impl, himpl, by rw [serviceFor, himpl]; rfl⟩

theorem Registry.issued (hr : m.Registry) (hh : h ∈ m.loggers) : h ∈ m.sched.issued := by
  obtain ⟨impl, _, hs⟩ := hr.service hh
  exact (hr.known h _ (hr.serviceOf h _ hs)).1

/-- The services keep their mailboxes. -/
def KeepsServices (m m' : LogState α) : Prop :=
  ∀ c svc, m.services c = some svc → ∃ svc', m'.services c = some svc' ∧ svc'.mailbox = svc.mailbox

theorem KeepsServices.of_eq (h : m'.services = m.services) : KeepsServices m m' :=
  fun _ svc hsvc => ⟨svc, h ▸ hsvc, rfl⟩

theorem KeepsServices.mailbox (hkeep : KeepsServices m m') {s : Service}
    (h : ∃ svc, m.services s.coro = some svc ∧ svc.mailbox = s.mailbox) :
    ∃ svc, m'.services s.coro = some svc ∧ svc.mailbox = s.mailbox := by
  obtain ⟨svc, hsvc, hmailbox⟩ := h
  obtain ⟨svc', hsvc', hsame⟩ := hkeep _ svc hsvc
  exact ⟨svc', hsvc', hsame.trans hmailbox⟩

/-- The loggers are the same up to their `min_level`, and a message may have been sent that is not
`NULL`. -/
structure SameLoggers (m m' : LogState α) : Prop where
  impls : ∀ h, (m'.impls h).map LoggerImpl.service = (m.impls h).map LoggerImpl.service
  resolves : m'.resolves = m.resolves
  loggers : m'.loggers = m.loggers
  adding : m'.adding = m.adding
  removing : m'.removing = m.removing
  serviceOf : m'.serviceOf = m.serviceOf
  removals : m'.removals = m.removals
  services : KeepsServices m m'
  sent : ∀ b, m'.mail.sent b = m.mail.sent b ∨
    ∃ x : α, m'.mail.sent b = m.mail.sent b ++ [some x]

theorem SameLoggers.none_iff (hs : SameLoggers m m') (b : Handle) :
    none ∈ m'.mail.sent b ↔ none ∈ m.mail.sent b := by
  rcases hs.sent b with heq | ⟨x, heq⟩ <;> rw [heq]
  simp

theorem SameLoggers.serviceFor (hs : SameLoggers m m') (u : Handle ⊕ Handle) :
    m'.serviceFor u = m.serviceFor u := by
  cases u with
  | inl h => exact hs.impls h
  | inr c => rw [LogState.serviceFor, LogState.serviceFor, hs.adding]

theorem Registry.same (hr : m.Registry) (hs : SameLoggers m m')
    (hissued : m.sched.issued ⊆ m'.sched.issued) : m'.Registry := by
  have hlisted : ∀ h, (m'.impls h).isSome = (m.impls h).isSome := by
    intro h
    rw [← Option.isSome_map, hs.impls h, Option.isSome_map]
  refine ⟨?_, fun h => ?_, fun u s ho => ?_, fun u v s s' ho ho' => ?_, fun h s hh => ?_, ?_, ?_, ?_,
    ?_, ?_, fun h s hh => ?_, fun h s hh hnone => ?_, fun b => ?_⟩
  · rw [hs.loggers]
    exact hr.nodup
  · rw [hs.loggers, hlisted]
    exact hr.listed h
  · obtain ⟨hsvc, hunsent⟩ := hr.attached u s (hs.serviceFor u ▸ ho)
    exact ⟨hs.services.mailbox hsvc, mt (hs.none_iff _).mp hunsent⟩
  · exact hr.apart u v s s' (hs.serviceFor u ▸ ho) (hs.serviceFor v ▸ ho')
  · rw [hs.serviceOf]
    exact hr.serviceOf h s (hs.serviceFor _ ▸ hh)
  · rw [hs.loggers, hs.resolves]
    exact hr.resolves
  · rw [hs.loggers, hs.resolves, hs.removing]
    exact hr.removing
  · rw [hs.removing]
    exact hr.sole
  · rw [hs.serviceOf, hs.resolves, hs.removals]
    exact hr.begun
  · rw [hs.serviceOf, hs.resolves, hs.removals]
    exact hr.removals
  · rw [hs.serviceOf] at hh
    obtain ⟨hmem, hsvc⟩ := hr.known h s hh
    exact ⟨hissued hmem, hs.services.mailbox hsvc⟩
  · rw [hs.serviceOf] at hh
    rw [hs.loggers] at hnone
    exact (hs.none_iff _).mpr (hr.told h s hh hnone)
  · rcases hs.sent b with heq | ⟨x, heq⟩ <;> rw [heq]
    · exact hr.once b
    · rw [List.countP_append]
      exact hr.once b

/-! ## What the actions leave of the loggers -/

theorem issued_perform {s : Sched} {a : Action} (he : Sched.machine.enabled s a) :
    s.issued ⊆ (Sched.machine.perform s a).issued :=
  fun x => ((Sched.Effect.of_step he).stays_closed).issued x

theorem issued_send (q : MailboxState (Option α)) (b : Handle) (x : Option α) :
    (q.send b x).1.sched.issued = q.sched.issued := by
  rcases MailboxState.send_cases q b x with ⟨heq, _⟩ | ⟨box, box', _, _, heq⟩ <;> rw [heq]
  dsimp only [MailboxState.wake]
  split
  · exact (Sched.raiseSignal_frame q.sched box.signal).2.2.1
  · rfl

theorem issued_suspend (s : Sched) (c : Handle) : s.issued ⊆ (s.suspend c).issued :=
  (Sched.suspend_frame s c).2.2.2.1 ▸ List.Subset.refl _

/-- Only a message that is not `NULL` is sent, if any. -/
theorem sent_send (q : MailboxState (Option α)) (b : Handle) (message : α) (h : Handle) :
    (q.send b (some message)).1.sent h = q.sent h ∨
      ∃ x : α, (q.send b (some message)).1.sent h = q.sent h ++ [some x] := by
  rcases MailboxState.perform_sent q (.send b (some message)) h with heq | ⟨x, hx, heq⟩
  · exact .inl heq
  · cases hx
    exact .inr ⟨message, heq⟩

theorem keepsServices_setStage (hsvc : m.services c = some svc) {stage : LogStage α}
    (h : m'.services = Function.update m.services c (some { svc with stage := stage })) :
    KeepsServices m m' := by
  intro d svcd hd
  rw [h]
  by_cases hdc : d = c
  · subst hdc
    obtain rfl := Option.some.inj (hsvc.symm.trans hd)
    exact ⟨_, Function.update_self .., rfl⟩
  · exact ⟨svcd, (Function.update_of_ne hdc ..).trans hd, rfl⟩

/-- The locals of a call of `bio_vlog` change, and a message may have been sent. -/
theorem sameLoggers_vlog (m : LogState α) (c : Handle) (f : Option (VlogFrame α))
    (mail : MailboxState (Option α)) (hsent : ∀ b, mail.sent b = m.mail.sent b ∨
      ∃ x : α, mail.sent b = m.mail.sent b ++ [some x]) :
    SameLoggers m (setVlog { m with mail := mail } c f) :=
  ⟨fun _ => rfl, rfl, rfl, rfl, rfl, rfl, rfl, .of_eq rfl, hsent⟩

theorem sameLoggers_setVlog (m : LogState α) (c : Handle) (f : Option (VlogFrame α)) :
    SameLoggers m (m.setVlog c f) :=
  sameLoggers_vlog m c f m.mail fun _ => .inl rfl

theorem sameLoggers_setSched (m : LogState α) (s : Sched) : SameLoggers m (m.setSched s) :=
  ⟨fun _ => rfl, rfl, rfl, rfl, rfl, rfl, rfl, .of_eq rfl, fun _ => .inl rfl⟩

/-- The coroutine of a logger goes on. -/
theorem sameLoggers_stage (hsvc : m.services c = some svc) (mail : MailboxState (Option α))
    (hsent : ∀ b, mail.sent b = m.mail.sent b) (stage : LogStage α)
    (calls : Handle → List (Option α)) :
    SameLoggers m { setStage { m with mail := mail } c svc stage with calls := calls } :=
  ⟨fun _ => rfl, rfl, rfl, rfl, rfl, rfl, rfl, keepsServices_setStage hsvc rfl,
    fun b => .inl (hsent b)⟩

theorem sameLoggers_dispatch (hsvc : m.services c = some svc) {mail : MailboxState (Option α)}
    (hsent : ∀ b, mail.sent b = m.mail.sent b) (message : Option (Option (Option α))) :
    SameLoggers m (dispatch { m with mail := mail } c svc message) := by
  cases message with
  | none => exact sameLoggers_stage hsvc mail hsent .closing m.calls
  | some data => exact sameLoggers_stage hsvc mail hsent (.calling data.join) _

/-- An action of a mailbox that is not a call of `bio_send_message`. -/
theorem sent_quiet {q : MailboxState (Option α)} {a : MailboxAction (Option α)}
    (h : ∀ b x, a ≠ .send b x) (b : Handle) :
    ((MailboxState.machine (Option α)).perform q a).sent b = q.sent b := by
  rcases MailboxState.perform_sent q a b with heq | ⟨x, hx, _⟩
  · exact heq
  · exact absurd hx (h b x)

theorem sameLoggers_serviceStep (hsvc : m.services c = some svc) (signal : Handle) :
    SameLoggers m (m.serviceStep c svc signal) := by
  have hrecv : ∀ b, (m.mail.recv svc.mailbox signal).1.sent b = m.mail.sent b :=
    sent_quiet (q := m.mail) (a := .recv svc.mailbox signal) fun _ _ => nofun
  have hresume : ∀ b, m.mail.resumeRecv.sent b = m.mail.sent b :=
    sent_quiet (q := m.mail) (a := .resumeRecv) fun _ _ => nofun
  have hclose : ∀ b, (m.mail.close svc.mailbox).sent b = m.mail.sent b :=
    sent_quiet (q := m.mail) (a := .close svc.mailbox) fun _ _ => nofun
  unfold LogState.serviceStep
  split
  · exact sameLoggers_stage hsvc (m.setSched (m.sched.raiseSignal svc.readySignal).1).mail
      (fun _ => rfl) .looping m.calls
  · split
    · next mail hmail =>
      rw [hmail] at hrecv
      exact sameLoggers_stage hsvc mail hrecv .receiving m.calls
    · next mail message hmail =>
      rw [hmail] at hrecv
      exact sameLoggers_dispatch hsvc hrecv message
  · exact sameLoggers_dispatch hsvc hresume _
  · exact sameLoggers_stage hsvc m.mail (fun _ => rfl) _ m.calls
  · exact sameLoggers_stage hsvc (m.mail.close svc.mailbox) hclose .done m.calls
  · exact sameLoggers_setSched m m.sched

theorem sameLoggers_vlogStep (m : LogState α) (c : Handle) (f : VlogFrame α) (garbage : LoggerImpl)
    (garbageNext : Option Handle) : SameLoggers m (m.vlogStep c f garbage garbageNext) := by
  unfold LogState.vlogStep
  split
  · exact ⟨fun _ => rfl, rfl, rfl, rfl, rfl, rfl, rfl, .of_eq rfl, fun _ => .inl rfl⟩
  · dsimp only
    split
    · split
      · exact sameLoggers_setVlog m c _
      · split
        · exact sameLoggers_setVlog m c _
        · exact sameLoggers_setVlog m c _
    · exact sameLoggers_setVlog m c _
  · next message h next _ =>
    dsimp only
    split
    · have hsent := sent_send m.mail (m.readLogger h garbage).service.mailbox message
      split
      · exact sameLoggers_vlog m c _ _ hsent
      · exact sameLoggers_vlog m c _
          { (m.mail.send _ (some message)).1 with sched := Sched.suspend _ c } hsent
    · exact sameLoggers_setVlog m c _

/-- Closing the handle of a logger leaves the rest as it was. -/
theorem removeLogger_frame (m : LogState α) (k : Option Handle) (logger : Handle) :
    ∃ resolves removing removals, m.removeLogger k logger =
      { m with resolves := resolves, removing := removing, removals := removals } := by
  unfold LogState.removeLogger
  split
  · exact ⟨_, _, _, rfl⟩
  · exact ⟨m.resolves, m.removing, m.removals, rfl⟩

/-! ## Handles stay issued -/

theorem Staffed.issued_serviceStep (h : m.Staffed) {signal : Handle} (hs : m.Serving c svc signal) :
    m.sched.issued ⊆ (m.serviceStep c svc signal).sched.issued := by
  cases hstage : svc.stage with
  | looping =>
    have hissued := (h.inv.sched_step (hs.recv_enabled h (by rw [hstage]; rfl)).1).2
    rw [LogState.serviceStep, hstage]
    dsimp only
    split
    · next mail hmail =>
      have hmail' : (MailboxState.machine (Option α)).perform m.mail (.recv svc.mailbox signal) =
        mail := congrArg Prod.fst hmail
      rwa [hmail'] at hissued
    · next mail message hmail =>
      have hmail' : (MailboxState.machine (Option α)).perform m.mail (.recv svc.mailbox signal) =
        mail := congrArg Prod.fst hmail
      rw [hmail'] at hissued
      cases message <;> exact hissued
  | receiving =>
    have hissued : m.sched.issued ⊆ m.mail.resumeRecv.sched.issued := by
      rcases MailboxState.resumeRecv_cases m.mail with heq | ⟨b, d, _, heq⟩
      · rw [heq]
        exact List.Subset.refl _
      · rw [heq]
        show m.sched.issued ⊆ (m.mail.take b).1.sched.issued
        rw [MailboxState.take_sched]
        exact List.Subset.refl _
    rw [LogState.serviceStep, hstage]
    dsimp only
    cases (m.mail.take svc.mailbox).2 <;> exact hissued
  | closing =>
    rw [LogState.serviceStep, hstage]
    exact (h.inv.sched_step (a := MailboxAction.close svc.mailbox)
      ⟨hs.phase, hs.not_inRecv h (by rw [hstage]; rfl)⟩).2
  | starting =>
    rw [LogState.serviceStep, hstage]
    show m.sched.issued ⊆ (m.sched.raiseSignal svc.readySignal).1.issued
    rw [(Sched.raiseSignal_frame m.sched svc.readySignal).2.2.1]
    exact List.Subset.refl _
  | _ =>
    rw [LogState.serviceStep, hstage]
    exact List.Subset.refl _

theorem issued_vlogStep (m : LogState α) (c : Handle) (f : VlogFrame α) (garbage : LoggerImpl)
    (garbageNext : Option Handle) :
    m.sched.issued ⊆ (m.vlogStep c f garbage garbageNext).sched.issued := by
  unfold LogState.vlogStep
  split
  · exact List.Subset.refl _
  · dsimp only
    split
    · split
      · exact List.Subset.refl _
      · split <;> exact List.Subset.refl _
    · exact List.Subset.refl _
  · next message h next _ =>
    dsimp only
    split
    · have hsent := issued_send m.mail (m.readLogger h garbage).service.mailbox (some message)
      split
      · exact hsent ▸ List.Subset.refl _
      · exact List.Subset.trans (hsent ▸ List.Subset.refl _) (issued_suspend _ _)
    · exact List.Subset.refl _

theorem issued_removeStep (m : LogState α) :
    m.sched.issued ⊆ (m.removeStep m.sched.phase.mcoRunning).sched.issued := by
  unfold LogState.removeStep
  split
  · split
    · next impl _ =>
      split
      · have hsent := issued_send m.mail impl.service.mailbox none
        have hsub : m.sched.issued ⊆ (m.mail.send impl.service.mailbox none).1.sched.issued :=
          hsent ▸ List.Subset.refl _
        dsimp only
        split
        · exact hsub
        · refine List.Subset.trans hsub ?_
          cases m.sched.phase.mcoRunning with
          | none => exact List.Subset.refl _
          | some c => exact issued_suspend _ c
      · exact List.Subset.refl _
    · exact List.Subset.refl _
  · exact List.Subset.refl _

variable {mailbox readySignal coro : Handle}

theorem Staffed.issued_addLogger (h : m.Staffed) (minLevel : LogLevel)
    (ha : m.Adds c mailbox readySignal coro) :
    m.sched.issued ⊆ (m.addLogger c minLevel mailbox readySignal coro).sched.issued ∧
      mailbox ∈ (m.addLogger c minLevel mailbox readySignal coro).sched.issued := by
  have hprep := h.prepare ha
  have hwait := issued_perform (Sched.wait_enabled hprep.running [readySignal] true)
  rw [Sched.perform_wait hprep.running] at hwait
  refine ⟨fun x hx => hwait ?_, hwait hprep.mailboxIssued⟩
  exact List.mem_cons_of_mem _ (Sched.makeSignal_issued (List.mem_cons_of_mem _ hx))

theorem Staffed.issued_step (h : m.Staffed) {a : LogAction α} (he : (machine α).enabled m a) :
    m.sched.issued ⊆ ((machine α).perform m a).sched.issued := by
  cases a with
  | sched a => exact issued_perform he.1
  | addLogger minLevel mailbox readySignal coro =>
    obtain ⟨c, ha, heq⟩ := adds_of_enabled he
    rw [heq]
    exact (h.issued_addLogger minLevel ha).1
  | finishAdd handle =>
    obtain ⟨c, f, hp, hf, hfresh, heq⟩ := add_of_enabled he
    rw [heq]
    simp only [LogState.finishAdd, hf]
    exact List.subset_cons_self ..
  | removeLogger logger =>
    obtain ⟨_, _, _, heq⟩ := removeLogger_frame m m.sched.phase.mcoRunning logger
    show m.sched.issued ⊆ (m.removeLogger _ logger).sched.issued
    rw [heq]
    exact List.Subset.refl _
  | removeStep => exact issued_removeStep m
  | setMinLogLevel logger level =>
    show m.sched.issued ⊆ (m.setMinLogLevel logger level).sched.issued
    unfold LogState.setMinLogLevel
    split <;> exact List.Subset.refl _
  | vlog level text =>
    obtain ⟨c, hp, heq⟩ := begin_of_enabled he
    rw [heq]
    exact List.Subset.refl _
  | vlogStep garbage garbageNext =>
    obtain ⟨c, f, hp, hf, heq⟩ := vlog_of_enabled he
    rw [heq]
    exact issued_vlogStep m _ f garbage garbageNext
  | serviceStep signal =>
    obtain ⟨c, svc, hs, heq⟩ := serving_of_enabled he
    rw [heq]
    exact h.issued_serviceStep hs

/-! ## What a call of `bio_notify_service` finds -/

/-- A service that has not been told to end has not called `log_fn` with `NULL`. -/
theorem Staffed.not_ended (h : m.Staffed) (hsvc : m.services c = some svc)
    (hunsent : none ∉ m.mail.sent svc.mailbox) : svc.stage.ended = false := by
  have hok := h.services c svc hsvc
  by_contra hended
  obtain ⟨l, _, hcalls⟩ := hok.ended (by simpa using hended)
  have hreceived : some none ∈ m.mail.received svc.mailbox := by simp [hok.received, hcalls]
  have hsent := (h.inv.fifo svc.mailbox).subset hreceived
  exact hunsent (by simpa using hsent)

theorem Staffed.not_dead (h : m.Staffed) (hin : m.sched.Inside c) : m.sched.coroState c ≠ .dead := by
  have hi := (Sched.inv_of_reachable h.sched).1
  refine mt (fun hstate => ?_) hin.live
  have hnone := (hi.view.dead_iff c).mp hstate
  simpa [Sched.view, Sched.pendingOf] using hnone

theorem Staffed.canNotify (h : m.Staffed) {s : Service} (ha : m.Attached s) :
    m.canNotify s = true := by
  obtain ⟨svc, hsvc, hmailbox⟩ := ha.service
  have hok := h.services s.coro svc hsvc
  have hdone := LogStage.not_done (h.not_ended hsvc (hmailbox ▸ ha.unsent))
  rw [LogState.canNotify, ← hmailbox, hok.isOpen hdone, Bool.true_and, decide_eq_true_iff]
  exact h.not_dead (hok.inside hdone)

/-! ## The registry under the actions -/

theorem sameLoggers_setMinLogLevel (m : LogState α) (logger : Handle) (level : LogLevel) :
    SameLoggers m (m.setMinLogLevel logger level) := by
  unfold LogState.setMinLogLevel
  split
  · refine ⟨fun h => ?_, rfl, rfl, rfl, rfl, rfl, rfl, .of_eq rfl, fun _ => .inl rfl⟩
    dsimp only
    rw [Function.update_apply]
    split
    · next heq =>
      rw [heq, Option.map_map]
      rfl
    · rfl
  · exact ⟨fun _ => rfl, rfl, rfl, rfl, rfl, rfl, rfl, .of_eq rfl, fun _ => .inl rfl⟩

/-- A new service belongs to a call of `bio_add_logger`. -/
theorem Registry.addLogger (hr : m.Registry) (h : m.Staffed) {minLevel : LogLevel}
    (ha : m.Adds c mailbox readySignal coro) :
    (m.addLogger c minLevel mailbox readySignal coro).Registry := by
  have hissued := (h.issued_addLogger minLevel ha).1
  have hnone : m.services coro = none := by
    by_contra hsome
    obtain ⟨svcd, hd⟩ := Option.ne_none_iff_exists'.mp hsome
    exact ha.freshCoro.2 (h.services coro svcd hd).coroIssued
  set m' := m.addLogger c minLevel mailbox readySignal coro
  have hkeep : KeepsServices m m' := by
    intro d svcd hd
    refine ⟨svcd, (Function.update_of_ne ?_ ..).trans hd, rfl⟩
    rintro rfl
    rw [hnone] at hd
    cases hd
  have hservices : m'.services coro = some ⟨mailbox, readySignal, .starting⟩ :=
    Function.update_self ..
  have hservice : ∀ u s, m'.serviceFor u = some s →
      u = .inr c ∧ s = ⟨coro, mailbox⟩ ∨ m.serviceFor u = some s := by
    intro u s hs
    cases u with
    | inl h => exact .inr hs
    | inr d =>
      have hs' : (Function.update m.adding c _ d).map AddFrame.service = some s := hs
      rw [Function.update_apply] at hs'
      split at hs'
      · next heq => exact .inl ⟨heq ▸ rfl, (Option.some.inj hs').symm⟩
      · exact .inr hs'
  have hother : ∀ u s, m.serviceFor u = some s → s.mailbox ≠ mailbox := by
    rintro u s hs rfl
    obtain ⟨svcd, hd, hmailbox⟩ := (hr.attached u s hs).service
    exact ha.freshMailbox.2 (hmailbox ▸ (h.services _ svcd hd).issued)
  refine ⟨hr.nodup, hr.listed, fun u s hs => ?_, fun u v s s' hs hs' heq => ?_, hr.serviceOf,
    hr.resolves, hr.removing, hr.sole, hr.begun, hr.removals, fun x s hx => ?_, hr.told, hr.once⟩
  · rcases hservice u s hs with ⟨rfl, rfl⟩ | hold
    · refine ⟨⟨_, hservices, rfl⟩, ?_⟩
      show none ∉ m.mail.sent mailbox
      rw [(h.inv.unused mailbox ha.freshMailbox.2).1]
      exact List.not_mem_nil
    · obtain ⟨hsvc, hunsent⟩ := hr.attached u s hold
      exact ⟨hkeep.mailbox hsvc, hunsent⟩
  · rcases hservice u s hs with ⟨rfl, rfl⟩ | hold <;>
      rcases hservice v s' hs' with ⟨rfl, rfl⟩ | hold'
    · rfl
    · exact absurd heq.symm (hother v s' hold')
    · exact absurd heq (hother u s hold)
    · exact hr.apart u v s s' hold hold' heq
  · obtain ⟨hmem, hsvc⟩ := hr.known x s hx
    exact ⟨hissued hmem, hkeep.mailbox hsvc⟩

/-- The service moves on to a new logger. -/
theorem Registry.finishAdd (hr : m.Registry) {f : AddFrame} {handle : Handle}
    (hf : m.adding c = some f) (hfresh : m.sched.Fresh handle) :
    (m.finishAdd c handle).Registry := by
  have hnew : m.serviceOf handle = none := by
    by_contra hsome
    obtain ⟨s, hs⟩ := Option.ne_none_iff_exists'.mp hsome
    exact hfresh.2 (hr.known handle s hs).1
  have hlisted : handle ∉ m.loggers := fun hmem => hfresh.2 (hr.issued hmem)
  have hadder : m.serviceFor (.inr c) = some f.service := by rw [serviceFor, hf]; rfl
  simp only [LogState.finishAdd, hf]
  set m' : LogState α := { m.setSched (m.sched.perform (.issue handle)) with
    impls := Function.update m.impls handle (some ⟨f.minLevel, f.service⟩)
    resolves := Function.update m.resolves handle true
    loggers := m.loggers ++ [handle]
    adding := Function.update m.adding c none
    serviceOf := Function.update m.serviceOf handle (some f.service) }
  have hservice : ∀ u s, m'.serviceFor u = some s →
      u = .inl handle ∧ s = f.service ∨ u ≠ .inl handle ∧ u ≠ .inr c ∧ m.serviceFor u = some s := by
    intro u s hs
    cases u with
    | inl x =>
      have hs' : (Function.update m.impls handle _ x).map LoggerImpl.service = some s := hs
      rw [Function.update_apply] at hs'
      split at hs'
      · next heq => exact .inl ⟨heq ▸ rfl, (Option.some.inj hs').symm⟩
      · next hne => exact .inr ⟨fun heq => hne (Sum.inl.inj heq), by simp, hs'⟩
    | inr d =>
      have hs' : (Function.update m.adding c none d).map AddFrame.service = some s := hs
      rw [Function.update_apply] at hs'
      split at hs'
      · cases hs'
      · next hne => exact .inr ⟨by simp, fun heq => hne (Sum.inr.inj heq), hs'⟩
  have hlook : ∀ x, x ≠ handle → m'.serviceOf x = m.serviceOf x ∧ m'.resolves x = m.resolves x ∧
      m'.impls x = m.impls x := fun x hx =>
    ⟨Function.update_of_ne hx .., Function.update_of_ne hx .., Function.update_of_ne hx ..⟩
  have hself : m'.serviceOf handle = some f.service ∧ m'.resolves handle = true ∧
      m'.impls handle = some ⟨f.minLevel, f.service⟩ :=
    ⟨Function.update_self .., Function.update_self .., Function.update_self ..⟩
  have hold : ∀ x ∈ m.loggers, x ≠ handle := fun x hx heq => hlisted (heq ▸ hx)
  refine ⟨?_, fun x => ?_, fun u s hs => ?_, fun u v s s' hs hs' heq => ?_, fun x s hs => ?_,
    fun x hx => ?_, fun k x hx => ?_, hr.sole, fun x hx hres => ?_, fun x hx => ?_, fun x s hx => ?_,
    fun x s hx hnone => ?_, hr.once⟩
  · exact List.nodup_append.mpr ⟨hr.nodup, List.nodup_singleton _, fun x hx y hy =>
      List.mem_singleton.mp hy ▸ hold x hx⟩
  · rw [List.mem_append, List.mem_singleton]
    by_cases hx : x = handle
    · rw [hx, hself.2.2]
      exact iff_of_true (.inr rfl) rfl
    · rw [(hlook x hx).2.2, ← hr.listed x]
      exact or_iff_left hx
  · rcases hservice u s hs with ⟨_, rfl⟩ | ⟨_, _, hs'⟩
    · exact ⟨(hr.attached _ _ hadder).1, (hr.attached _ _ hadder).2⟩
    · exact ⟨(hr.attached u s hs').1, (hr.attached u s hs').2⟩
  · rcases hservice u s hs with ⟨rfl, rfl⟩ | ⟨_, hu, hu'⟩ <;>
      rcases hservice v s' hs' with ⟨rfl, rfl⟩ | ⟨_, hv, hv'⟩
    · rfl
    · exact absurd (hr.apart _ v _ s' hadder hv' heq).symm hv
    · exact absurd (hr.apart u _ s _ hu' hadder heq) hu
    · exact hr.apart u v s s' hu' hv' heq
  · rcases hservice _ s hs with ⟨hx, rfl⟩ | ⟨hx, _, hs'⟩
    · rw [Sum.inl.inj hx]
      exact hself.1
    · rw [(hlook x fun heq => hx (heq ▸ rfl)).1]
      exact hr.serviceOf x s hs'
  · rw [List.mem_append, List.mem_singleton]
    by_cases hx' : x = handle
    · exact .inr hx'
    · exact .inl (hr.resolves x ((hlook x hx').2.1 ▸ hx))
  · obtain ⟨hmem, hres⟩ := hr.removing k x hx
    exact ⟨List.mem_append_left _ hmem, (hlook x (hold x hmem)).2.1.trans hres⟩
  · have hne : x ≠ handle := by
      rintro rfl
      rw [hself.2.1] at hres
      cases hres
    exact hr.begun x ((hlook x hne).1 ▸ hx) ((hlook x hne).2.1 ▸ hres)
  · obtain ⟨hsome, hres⟩ := hr.removals x hx
    have hne : x ≠ handle := by
      rintro rfl
      rw [hnew] at hsome
      cases hsome
    rw [(hlook x hne).1, (hlook x hne).2.1]
    exact ⟨hsome, hres⟩
  · by_cases hx' : x = handle
    · rw [hx', hself.1] at hx
      obtain rfl := Option.some.inj hx
      exact ⟨hx' ▸ List.mem_cons_self, (hr.attached _ _ hadder).1⟩
    · obtain ⟨hmem, hsvc⟩ := hr.known x s ((hlook x hx').1 ▸ hx)
      exact ⟨List.mem_cons_of_mem _ hmem, hsvc⟩
  · rw [List.mem_append, not_or, List.mem_singleton] at hnone
    exact hr.told x s ((hlook x hnone.2).1 ▸ hx) hnone.1

/-- The removal of a logger begins. -/
theorem Registry.removeLogger (hr : m.Registry) (k : Option Handle) (logger : Handle) :
    (m.removeLogger k logger).Registry := by
  unfold LogState.removeLogger
  split
  · next hresolves =>
    have hres : ∀ x, Function.update m.resolves logger false x = true → m.resolves x = true := by
      intro x hx
      rw [Function.update_apply] at hx
      split at hx
      · cases hx
      · exact hx
    have hclosed : ∀ x, m.resolves x = false → Function.update m.resolves logger false x = false := by
      intro x hx
      rw [Function.update_apply]
      split
      · rfl
      · exact hx
    have hremoving : ∀ k' x, Function.update m.removing k (some logger) k' = some x →
        k' = k ∧ x = logger ∨ k' ≠ k ∧ m.removing k' = some x := by
      intro k' x hx
      exact Table.insert_some hx
    have hfirst : ∀ k', m.removing k' ≠ some logger := by
      intro k' hk'
      rw [(hr.removing k' logger hk').2] at hresolves
      cases hresolves
    refine ⟨hr.nodup, hr.listed, fun u s hs => ⟨(hr.attached u s hs).1, (hr.attached u s hs).2⟩,
      hr.apart, hr.serviceOf, fun x hx => hr.resolves x (hres x hx), fun k' x hx => ?_,
      fun k₁ k₂ x h₁ h₂ => ?_, fun x hx hnot => ?_, fun x hx => ?_, hr.known, hr.told, hr.once⟩
    · rcases hremoving k' x hx with ⟨_, rfl⟩ | ⟨_, hold⟩
      · exact ⟨hr.resolves x hresolves, Function.update_self ..⟩
      · exact ⟨(hr.removing k' x hold).1, hclosed x (hr.removing k' x hold).2⟩
    · rcases hremoving k₁ x h₁ with ⟨rfl, rfl⟩ | ⟨_, hold₁⟩ <;>
        rcases hremoving k₂ _ h₂ with ⟨hk, hx⟩ | ⟨_, hold₂⟩
      · exact hk.symm
      · exact absurd hold₂ (hfirst k₂)
      · exact absurd (hx ▸ hold₁) (hfirst k₁)
      · exact hr.sole k₁ k₂ x hold₁ hold₂
    · rw [List.mem_append, List.mem_singleton]
      by_cases heq : x = logger
      · exact .inr heq
      · exact .inl (hr.begun x hx ((Function.update_of_ne heq ..).symm.trans hnot))
    · rcases List.mem_append.mp hx with hold | hnew
      · exact ⟨(hr.removals x hold).1, hclosed x (hr.removals x hold).2⟩
      · obtain rfl := List.mem_singleton.mp hnew
        obtain ⟨impl, _, hs⟩ := hr.service (hr.resolves x hresolves)
        exact ⟨by rw [hr.serviceOf x _ hs]; rfl, Function.update_self ..⟩
  · exact hr

/-- `NULL` is sent and the logger is unlinked. -/
theorem Registry.unlink (hr : m.Registry) {k : Option Handle} {logger : Handle} {impl : LoggerImpl}
    (hk : m.removing k = some logger) (himpl : m.impls logger = some impl)
    {mail : MailboxState (Option α)} (hissued : m.sched.issued ⊆ mail.sched.issued)
    (hsent : mail.sent = Function.update m.mail.sent impl.service.mailbox
      (m.mail.sent impl.service.mailbox ++ [none])) :
    (LogState.unlink { m with mail := mail } k logger).Registry := by
  have hself : m.serviceFor (.inl logger) = some impl.service := by rw [serviceFor, himpl]; rfl
  have hmem : ∀ x, x ∈ m.loggers.erase logger ↔ x ≠ logger ∧ x ∈ m.loggers := fun x =>
    hr.nodup.mem_erase_iff
  set m' := LogState.unlink { m with mail := mail } k logger
  have hservice : ∀ u s, m'.serviceFor u = some s → u ≠ .inl logger ∧ m.serviceFor u = some s := by
    intro u s hs
    cases u with
    | inl x =>
      have hs' : (Function.update m.impls logger none x).map LoggerImpl.service = some s := hs
      rw [Function.update_apply] at hs'
      split at hs'
      · cases hs'
      · next hne => exact ⟨fun heq => hne (Sum.inl.inj heq), hs'⟩
    | inr d => exact ⟨nofun, hs⟩
  have hnone : ∀ b, none ∈ m.mail.sent b → none ∈ m'.mail.sent b := by
    intro b hb
    show none ∈ mail.sent b
    rw [hsent, Function.update_apply]
    split
    · exact List.mem_append_right _ (List.mem_singleton_self _)
    · exact hb
  have hremoving : ∀ k' x, m'.removing k' = some x → x ≠ logger ∧ m.removing k' = some x := by
    intro k' x hx
    have hx' : Function.update m.removing k none k' = some x := hx
    rw [Function.update_apply] at hx'
    split at hx'
    · cases hx'
    · next hne =>
      refine ⟨?_, hx'⟩
      rintro rfl
      exact hne (hr.sole k' k x hx' hk)
  refine ⟨hr.nodup.erase _, fun x => ?_, fun u s hs => ?_, fun u v s s' hs hs' => ?_, fun x s hs => ?_,
    fun x hx => ?_, fun k' x hx => ?_, fun k₁ k₂ x h₁ h₂ => ?_, hr.begun, hr.removals,
    fun x s hx => ⟨hissued (hr.known x s hx).1, (hr.known x s hx).2⟩, fun x s hx hnot => ?_,
    fun b => ?_⟩
  · show x ∈ m.loggers.erase logger ↔ (Function.update m.impls logger none x).isSome = true
    rw [hmem, hr.listed, Function.update_apply]
    split
    · next heq => exact iff_of_false (fun hx => hx.1 heq) (by simp)
    · next hne => exact and_iff_right hne
  · obtain ⟨hne, hold⟩ := hservice u s hs
    refine ⟨(hr.attached u s hold).1, ?_⟩
    show none ∉ mail.sent s.mailbox
    rw [hsent, Function.update_of_ne fun heq => hne (hr.apart u _ s _ hold hself heq)]
    exact (hr.attached u s hold).2
  · exact hr.apart u v s s' (hservice u s hs).2 (hservice v s' hs').2
  · exact hr.serviceOf x s (hservice _ s hs).2
  · refine (hmem x).mpr ⟨?_, hr.resolves x hx⟩
    rintro rfl
    have hres := (hr.removing k x hk).2
    rw [show m.resolves x = true from hx] at hres
    cases hres
  · obtain ⟨hne, hold⟩ := hremoving k' x hx
    exact ⟨(hmem x).mpr ⟨hne, (hr.removing k' x hold).1⟩, (hr.removing k' x hold).2⟩
  · exact hr.sole k₁ k₂ x (hremoving k₁ x h₁).2 (hremoving k₂ x h₂).2
  · by_cases hx' : x = logger
    · have hs : s = impl.service := by
        rw [hx', show m'.serviceOf logger = some impl.service from hr.serviceOf logger _ hself] at hx
        exact (Option.some.inj hx).symm
      show none ∈ mail.sent s.mailbox
      rw [hs, hsent, Function.update_self]
      exact List.mem_append_right _ (List.mem_singleton_self _)
    · exact hnone _ (hr.told x s hx fun hin => hnot ((hmem x).mpr ⟨hx', hin⟩))
  · show (mail.sent b).countP Option.isNone ≤ 1
    rw [hsent, Function.update_apply]
    split
    · have hzero : (m.mail.sent impl.service.mailbox).countP Option.isNone = 0 := by
        rw [List.countP_eq_zero]
        rintro x hx hnil
        rw [Option.isNone_iff_eq_none.mp hnil] at hx
        exact (hr.attached _ _ hself).unsent hx
      rw [List.countP_append, hzero]
      rfl
    · exact hr.once b

/-- An attempt of `bio_remove_logger` to send `NULL`. -/
theorem remove_outcome (h : m.Staffed) (hr : m.Registry) {k : Option Handle} {logger : Handle}
    (hk : m.removing k = some logger) : ∃ impl, m.impls logger = some impl ∧
      (m.mail.canSend impl.service.mailbox = true ∧
        m.removeStep k =
          LogState.unlink { m with mail := (m.mail.send impl.service.mailbox none).1 } k logger ∧
        (m.mail.send impl.service.mailbox none).1.sent =
          Function.update m.mail.sent impl.service.mailbox
            (m.mail.sent impl.service.mailbox ++ [none]) ∨
      m.mail.canSend impl.service.mailbox = false ∧
        m.removeStep k = m.setSched (yield m.sched k)) := by
  obtain ⟨impl, himpl, hs⟩ := hr.service (hr.removing k logger hk).1
  have hnotify := h.canNotify (hr.attached _ _ hs)
  refine ⟨impl, himpl, ?_⟩
  rw [MailboxState.canSend_eq m.mail impl.service.mailbox none]
  simp only [removeStep, hk, himpl, hnotify, if_true]
  rcases MailboxState.send_cases m.mail impl.service.mailbox none with
    ⟨hsame, hrefused⟩ | ⟨box, box', _, _, hsent⟩
  · exact .inr ⟨hrefused, by rw [hrefused, hsame]; rfl⟩
  · exact .inl ⟨by rw [hsent], by rw [hsent]; rfl, by rw [hsent]⟩

theorem Registry.removeStep (hr : m.Registry) (h : m.Staffed) {k : Option Handle} {logger : Handle}
    (hk : m.removing k = some logger)
    (hissued : m.sched.issued ⊆ (m.removeStep k).sched.issued) : (m.removeStep k).Registry := by
  obtain ⟨impl, himpl, ⟨_, hstep, hsent⟩ | ⟨_, hstep⟩⟩ := remove_outcome h hr hk
  · rw [hstep] at hissued ⊢
    exact hr.unlink hk himpl hissued hsent
  · rw [hstep] at hissued ⊢
    exact hr.same (sameLoggers_setSched m _) hissued

theorem removing_of_enabled (he : (machine α).enabled m .removeStep) :
    ∃ logger, m.removing m.sched.phase.mcoRunning = some logger :=
  Option.isSome_iff_exists.mp he.2

/-- The step lemma. -/
theorem Registry.step (hr : m.Registry) (h : m.Staffed) {a : LogAction α}
    (he : (machine α).enabled m a) : ((machine α).perform m a).Registry := by
  have hissued := h.issued_step he
  cases a with
  | sched a => exact hr.same (sameLoggers_setSched m _) hissued
  | addLogger minLevel mailbox readySignal coro =>
    obtain ⟨c, ha, heq⟩ := adds_of_enabled he
    rw [heq]
    exact hr.addLogger h ha
  | finishAdd handle =>
    obtain ⟨c, f, hp, hf, hfresh, heq⟩ := add_of_enabled he
    rw [heq]
    exact hr.finishAdd hf hfresh
  | removeLogger logger => exact hr.removeLogger m.sched.phase.mcoRunning logger
  | removeStep =>
    obtain ⟨logger, hk⟩ := removing_of_enabled he
    exact hr.removeStep h hk hissued
  | setMinLogLevel logger level =>
    exact hr.same (sameLoggers_setMinLogLevel m logger level) hissued
  | vlog level text =>
    obtain ⟨c, _, heq⟩ := begin_of_enabled he
    rw [heq] at hissued ⊢
    exact hr.same (sameLoggers_setVlog m c _) hissued
  | vlogStep garbage garbageNext =>
    obtain ⟨c, f, hp, hf, heq⟩ := vlog_of_enabled he
    rw [heq] at hissued ⊢
    exact hr.same (sameLoggers_vlogStep m c f garbage garbageNext) hissued
  | serviceStep signal =>
    obtain ⟨c, svc, hs, heq⟩ := serving_of_enabled he
    rw [heq] at hissued ⊢
    exact hr.same (sameLoggers_serviceStep hs.service signal) hissued

theorem Registry.init : (init : LogState α).Registry where
  nodup := List.nodup_nil
  listed _ := iff_of_false List.not_mem_nil (by simp [LogState.init])
  attached u _ hs := by cases u <;> cases hs
  apart u _ _ _ hs := by cases u <;> cases hs
  serviceOf _ _ hs := by cases hs
  resolves _ hs := by cases hs
  removing _ _ hs := by cases hs
  sole _ _ _ hs := by cases hs
  begun _ hs := by cases hs
  removals _ hs := by cases hs
  known _ _ hs := by cases hs
  told _ _ hs := by cases hs
  once _ := Nat.zero_le _

/-- The invariant of every run. -/
structure Inv (m : LogState α) : Prop where
  staffed : m.Staffed
  registry : m.Registry

theorem inv_of_reachable (h : (machine α).Reachable m) : m.Inv := by
  refine Machine.invariant (P := Inv) ?_ (fun _ _ _ hs he =>
    ⟨hs.staffed.step he, hs.registry.step hs.staffed he⟩) h
  rintro m rfl
  exact ⟨Staffed.init, Registry.init⟩

end LogState

end Bio
