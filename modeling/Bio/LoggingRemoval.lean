import Bio.LoggingDelivery

/-!
# Removal of loggers that are in use

`bio_vlog` keeps the link of the logger that it notifies and the next link while `bio_notify_service`
waits for room in the mailbox. `bio_remove_logger` in another coroutine frees both without a look at
them (`log_reads_freed`). Unless a logger is freed while a call of `bio_vlog` holds its link, a call
reads only registered loggers (`log_reads_registered`).

* `LogState.TraversalSafe`: what a call is about to read is a registered logger.
* `LogState.Linked`: the links that calls hold are those of registered loggers.
-/

namespace Bio

/-- The logger that the next step of a call of `bio_vlog` reads, if it is not at the list head. -/
def VlogFrame.current {α : Type*} (f : VlogFrame α) : Option Handle :=
  match f.stage with
  | .visiting itr => itr
  | .notifying _ itr _ => some itr

namespace LogState

variable {α : Type*} {m m' : LogState α} {c : Handle} {f : VlogFrame α}

/-- The coroutine that runs inside `bio_vlog` is at the list head or at a registered logger. -/
def TraversalSafe (m : LogState α) : Prop :=
  ∀ c f x, m.sched.phase = .running c → m.vlogs c = some f → f.current = some x → x ∈ m.loggers

/-- A call of `bio_vlog` holds the link of the logger. -/
def Held (m : LogState α) (logger : Handle) : Prop :=
  ∃ c f, m.vlogs c = some f ∧ logger ∈ f.pointers

/-- `bio_remove_logger` frees no logger whose link a call of `bio_vlog` holds. -/
def FreesUnheld (m : LogState α) : LogAction α → Prop
  | .removeStep => ∀ logger impl, m.removing m.sched.phase.mcoRunning = some logger →
      m.impls logger = some impl → m.mail.canSend impl.service.mailbox = true → ¬m.Held logger
  | _ => True

/-- The links that the calls hold are those of registered loggers. -/
def Linked (m : LogState α) : Prop :=
  ∀ c f, m.vlogs c = some f → ∀ x ∈ f.pointers, x ∈ m.loggers

theorem current_mem {x : Handle} (h : f.current = some x) : x ∈ f.pointers := by
  unfold VlogFrame.current at h
  unfold VlogFrame.pointers
  cases hstage : f.stage with
  | visiting itr =>
    rw [hstage] at h
    exact Option.mem_toList.mpr h
  | notifying message itr next =>
    rw [hstage] at h
    rw [← Option.some.inj h]
    exact List.mem_cons_self

theorem Linked.safe (hl : m.Linked) : m.TraversalSafe :=
  fun c f x _ hf hx => hl c f hf x (current_mem hx)

/-- The registered loggers stay, or a call of `bio_vlog` is not concerned. -/
theorem Linked.keep (hl : m.Linked) (hvlogs : m'.vlogs = m.vlogs)
    (hloggers : ∀ x ∈ m.loggers, m.Held x → x ∈ m'.loggers) : m'.Linked := by
  intro c f hf x hx
  rw [hvlogs] at hf
  exact hloggers x (hl c f hf x hx) ⟨c, f, hf, hx⟩

/-- A call of `bio_vlog` moves to another registered logger. -/
theorem Linked.setVlog (hl : m.Linked) (c : Handle) {frame : Option (VlogFrame α)}
    (hvlogs : m'.vlogs = Function.update m.vlogs c frame) (hloggers : m'.loggers = m.loggers)
    (hframe : ∀ g, frame = some g → ∀ x ∈ g.pointers, x ∈ m.loggers) : m'.Linked := by
  intro d g hg x hx
  rw [hvlogs, Function.update_apply] at hg
  rw [hloggers]
  split at hg
  · exact hframe g hg x hx
  · exact hl d g hg x hx

/-- `itr->next` of a registered logger. -/
theorem readNext_mem (hr : m.Registry) {itr x : Handle} (hitr : itr ∈ m.loggers)
    {garbageNext : Option Handle} (hx : x ∈ (m.readNext itr garbageNext).toList) : x ∈ m.loggers := by
  rw [readNext_eq hr hitr] at hx
  exact next_mem (Option.mem_toList.mp hx)

theorem Linked.vlogStep (hl : m.Linked) (hr : m.Registry) (hf : m.vlogs c = some f)
    (garbage : LoggerImpl) (garbageNext : Option Handle) :
    (m.vlogStep c f garbage garbageNext).Linked := by
  have hpointers := hl c f hf
  unfold LogState.vlogStep
  unfold VlogFrame.pointers at hpointers
  cases hstage : f.stage with
  | visiting itr =>
    rw [hstage] at hpointers
    cases itr with
    | none => exact hl.setVlog c rfl rfl (by simp)
    | some itr =>
      have hitr : itr ∈ m.loggers := hpointers itr (by simp)
      have hnext : ∀ x ∈ (m.readNext itr garbageNext).toList, x ∈ m.loggers := fun x =>
        readNext_mem hr hitr
      have hmove : ∀ g : VlogFrame α, g.stage = .visiting (m.readNext itr garbageNext) →
          ∀ x ∈ g.pointers, x ∈ m.loggers := by
        intro g hg
        unfold VlogFrame.pointers
        rw [hg]
        exact hnext
      dsimp only
      split
      · split
        · exact hl.setVlog c rfl rfl (by simp)
        · split
          · refine hl.setVlog c rfl rfl fun g hg => ?_
            rw [← Option.some.inj hg]
            exact List.forall_mem_cons.mpr ⟨hitr, hnext⟩
          · exact hl.setVlog c rfl rfl fun g hg => hmove g (Option.some.inj hg ▸ rfl)
      · exact hl.setVlog c rfl rfl fun g hg => hmove g (Option.some.inj hg ▸ rfl)
  | notifying message itr next =>
    rw [hstage] at hpointers
    have hmove : ∀ g : VlogFrame α, g.stage = .visiting next → ∀ x ∈ g.pointers, x ∈ m.loggers := by
      intro g hg
      unfold VlogFrame.pointers
      rw [hg]
      exact (List.forall_mem_cons.mp hpointers).2
    dsimp only
    split
    · split
      · exact hl.setVlog c rfl rfl fun g hg => hmove g (Option.some.inj hg ▸ rfl)
      · refine hl.setVlog c rfl rfl fun g hg => ?_
        rw [← Option.some.inj hg]
        exact hl c f hf
    · exact hl.setVlog c rfl rfl fun g hg => hmove g (Option.some.inj hg ▸ rfl)

theorem Linked.setMinLogLevel (hl : m.Linked) (logger : Handle) (level : LogLevel) :
    (m.setMinLogLevel logger level).Linked := by
  unfold LogState.setMinLogLevel
  split
  · intro c g hg x hx
    obtain ⟨f, hf, rfl⟩ := Option.map_eq_some_iff.mp hg
    refine hl c f hf x ?_
    unfold VlogFrame.setMinLevel at hx
    split at hx <;> exact hx
  · exact hl

theorem Linked.removeStep (hl : m.Linked) (hi : m.Inv) (he : (machine α).enabled m .removeStep)
    (hfree : m.FreesUnheld .removeStep) :
    (m.removeStep m.sched.phase.mcoRunning).Linked := by
  obtain ⟨logger, hk⟩ := removing_of_enabled he
  obtain ⟨impl, himpl, ⟨hsend, hstep, _⟩ | ⟨_, hstep⟩⟩ := remove_outcome hi.staffed hi.registry hk
  · rw [hstep]
    refine hl.keep rfl fun x hx hheld => ?_
    refine (List.mem_erase_of_ne ?_).mpr hx
    rintro rfl
    exact hfree x impl hk himpl hsend hheld
  · rw [hstep]
    exact hl.keep rfl fun _ hx _ => hx

/-- The step lemma. -/
theorem Linked.step (hl : m.Linked) (hi : m.Inv) {a : LogAction α} (he : (machine α).enabled m a)
    (hfree : m.FreesUnheld a) : ((machine α).perform m a).Linked := by
  cases a with
  | sched a => exact hl.keep rfl fun _ hx _ => hx
  | addLogger minLevel mailbox readySignal coro =>
    obtain ⟨c, _, heq⟩ := adds_of_enabled he
    rw [heq]
    exact hl.keep rfl fun _ hx _ => hx
  | finishAdd handle =>
    obtain ⟨c, a, _, ha, _, heq⟩ := add_of_enabled he
    rw [heq]
    simp only [LogState.finishAdd, ha]
    exact hl.keep rfl fun _ hx _ => List.mem_append_left _ hx
  | removeLogger logger =>
    obtain ⟨_, _, _, heq⟩ := removeLogger_frame m m.sched.phase.mcoRunning logger
    show (m.removeLogger _ logger).Linked
    rw [heq]
    exact hl.keep rfl fun _ hx _ => hx
  | removeStep => exact hl.removeStep hi he hfree
  | setMinLogLevel logger level => exact hl.setMinLogLevel logger level
  | vlog level text =>
    obtain ⟨c, hp, heq⟩ := begin_of_enabled he
    rw [heq]
    refine hl.setVlog c rfl rfl fun g hg x hx => ?_
    rw [← Option.some.inj hg] at hx
    exact List.mem_of_head? (Option.mem_toList.mp hx)
  | vlogStep garbage garbageNext =>
    obtain ⟨c, f, _, hf, heq⟩ := vlog_of_enabled he
    rw [heq]
    exact hl.vlogStep hi.registry hf garbage garbageNext
  | serviceStep signal =>
    obtain ⟨c, svc, hs, heq⟩ := serving_of_enabled he
    rw [heq]
    refine hl.keep (serviceStep_books m c svc signal).2.1 fun x hx _ => ?_
    rw [(sameLoggers_serviceStep hs.service signal).loggers]
    exact hx

/-- In every run in which no logger is freed while a call of `bio_vlog` holds its link, what a call
reads and what it moves to is the list head or a registered logger. -/
theorem log_reads_registered
    (h : ((machine α).restrict FreesUnheld).Reachable m) : m.TraversalSafe := by
  have hl : m.Linked := by
    refine Machine.invariant (P := Linked) ?_ (fun _ _ hr hl he =>
      hl.step (inv_of_reachable hr.of_restrict) he.1 he.2) h
    rintro m rfl _ _ hf
    cases hf
  exact hl.safe

/-- The actions of these runs that the guard does not concern. -/
def quiet : LogAction Nat → Bool
  | .removeStep => false
  | _ => true

theorem quiet_of_all {as : List (LogAction Nat)} (h : as.all quiet = true) {a : LogAction Nat}
    (ha : a ∈ as) : quiet a = true := List.all_eq_true.mp h a ha

theorem freesUnheld_of_quiet {a : LogAction Nat} (h : quiet a = true) (m : LogState Nat) :
    m.FreesUnheld a := by
  cases a with
  | removeStep => cases h
  | _ => trivial

/-- A coroutine logs until the mailbox is full and one message more. While it waits for room, another
one tries to remove the logger. -/
theorem log_reads_registered_waiting :
    let full := (machine Nat).run init (entry ++ addition ⟨1, 1⟩ ⟨2, 1⟩ ⟨3, 1⟩ ⟨4, 1⟩ ⟨5, 1⟩ ++
      [.sched (.spawn false ⟨6, 1⟩)] ++ messages 16 ++ [.vlog .info (some 7), .vlogStep garbage none,
      .vlogStep garbage none, .sched .endPass, .sched .swap, .sched .resume, .removeLogger ⟨5, 1⟩])
    let m := (machine Nat).run full
      [.removeStep, .sched .resume, .serviceStep ⟨7, 1⟩, .sched .yield, .sched .resume]
    m.removing (some ⟨6, 1⟩) = some ⟨5, 1⟩ ∧ (⟨5, 1⟩ : Handle) ∈ m.loggers := by
  intro full m
  have hr : ((machine Nat).restrict FreesUnheld).Reachable full :=
    Machine.Reachable.restrict_run (.init rfl)
      (fun a ha => freesUnheld_of_quiet (quiet_of_all (by decide +kernel) ha)) (by decide +kernel)
  -- The mailbox is full.
  have hfull : full.FreesUnheld .removeStep := by
    intro logger impl hk himpl hsend
    obtain ⟨hlogger, hmailbox⟩ : full.removing full.sched.phase.mcoRunning = some ⟨5, 1⟩ ∧
        (full.impls ⟨5, 1⟩).map (fun impl => full.mail.canSend impl.service.mailbox) =
          some false := by decide +kernel
    obtain rfl := Option.some.inj (hlogger.symm.trans hk)
    rw [himpl, Option.map_some, hsend] at hmailbox
    cases hmailbox
  have hr' : ((machine Nat).restrict FreesUnheld).Reachable
      ((machine Nat).run ((machine Nat).perform full .removeStep)
        [.sched .resume, .serviceStep ⟨7, 1⟩, .sched .yield, .sched .resume]) :=
    (hr.restrict_step (by decide +kernel) hfull).restrict_run
      (fun a ha => freesUnheld_of_quiet (quiet_of_all (by decide +kernel) ha)) (by decide +kernel)
  rw [← Machine.run_cons] at hr'
  obtain ⟨hp, hcurrent, hremoving⟩ : m.sched.phase.mcoRunning = some ⟨0, 1⟩ ∧
      (m.vlogs ⟨0, 1⟩).bind VlogFrame.current = some ⟨5, 1⟩ ∧
      m.removing (some ⟨6, 1⟩) = some ⟨5, 1⟩ := by decide +kernel
  obtain ⟨f, hf, hx⟩ := Option.bind_eq_some_iff.mp hcurrent
  exact ⟨hremoving, log_reads_registered hr' ⟨0, 1⟩ f ⟨5, 1⟩ (Phase.eq_running hp) hf hx⟩

/-- A coroutine logs until the mailbox is full and one message more. While it waits for room,
another one removes the logger. -/
theorem log_reads_freed : ¬∀ m : LogState Nat, (machine Nat).Reachable m → m.TraversalSafe := by
  intro h
  let m := (machine Nat).run init (entry ++ addition ⟨1, 1⟩ ⟨2, 1⟩ ⟨3, 1⟩ ⟨4, 1⟩ ⟨5, 1⟩ ++
    messages 16 ++ [.sched (.spawn false ⟨6, 1⟩), .vlog .info (some 7), .vlogStep garbage none,
      .vlogStep garbage none, .sched .endPass, .sched .swap, .sched .resume, .serviceStep ⟨7, 1⟩,
      .sched .yield, .sched .resume, .removeLogger ⟨5, 1⟩, .removeStep, .sched .yield,
      .sched .resume])
  have hr : (machine Nat).Reachable m := Machine.Reachable.run (.init rfl) (by decide +kernel)
  obtain ⟨hp, hcurrent, hnone⟩ : m.sched.phase.mcoRunning = some ⟨0, 1⟩ ∧
      (m.vlogs ⟨0, 1⟩).bind VlogFrame.current = some ⟨5, 1⟩ ∧ m.loggers = [] := by decide +kernel
  obtain ⟨f, hf, hx⟩ := Option.bind_eq_some_iff.mp hcurrent
  have hmem := h m hr ⟨0, 1⟩ f ⟨5, 1⟩ (Phase.eq_running hp) hf hx
  rw [hnone] at hmem
  cases hmem

end LogState

end Bio
