import Bio.Logging

/-!
# The coroutines of loggers

The mailbox of a logger is received from by its logger only. So no call of `bio_recv_message` fails
(`recv_fails_closed`), and the coroutine of a logger ends only after it has called `log_fn` with `NULL`.

* `LogState.ServiceOk`: the coroutine of a logger calls `log_fn` with what it receives.
* `LogState.Staffed`: this holds of all loggers, and the mailboxes are in a state in which every call of
  `bio__mailbox_recv` on an open one gets a message. Its step lemma is `Staffed.step`.
-/

namespace Bio

/-! ## The stages of a service -/

namespace LogStage

variable {α : Type*}

def isDone : LogStage α → Bool
  | .done => true
  | _ => false

def isCalling : LogStage α → Bool
  | .calling _ => true
  | _ => false

def isReceiving : LogStage α → Bool
  | .receiving => true
  | _ => false

/-- `log_fn` has been called with `NULL`. -/
def ended : LogStage α → Bool
  | .calling none | .closing | .done => true
  | _ => false

theorem not_done {stage : LogStage α} (h : stage.ended = false) : stage.isDone = false := by
  cases stage with
  | done => cases h
  | _ => rfl

end LogStage

/-! ## Mailboxes and coroutines -/

namespace MailboxState

variable {β : Type*} {q : MailboxState β} {c : Handle}

/-- An action of the mailboxes ends the running coroutine only if it says so. -/
theorem schedActions_finish {a : MailboxAction β} (h : .finish ∈ q.schedActions a) :
    a = .sched .finish := by
  have hwake : ∀ signal, Action.finish ∉ wakeActions signal := by
    intro signal hmem
    unfold wakeActions at hmem
    split at hmem
    · cases List.mem_singleton.mp hmem
    · cases hmem
  cases a with
  | sched a => rw [List.mem_singleton.mp h]
  | open' capacity handle => cases List.mem_singleton.mp h
  | close handle =>
    simp only [schedActions] at h
    split at h
    · exact absurd h (hwake _)
    · cases h
  | send handle message =>
    simp only [schedActions] at h
    split at h
    · split at h
      · exact absurd h (hwake _)
      · cases h
    · cases h
  | recv handle signal =>
    simp only [schedActions] at h
    split at h
    · split at h
      · simp at h
      · cases h
    · cases h
  | resumeRecv => cases h

/-- Unless it ends, a coroutine outlives every action of the mailboxes. -/
theorem inside_step (hr : Sched.machine.Reachable q.sched) (h : q.sched.Inside c)
    {a : MailboxAction β} (he : (machine β).enabled q a)
    (hfinish : q.sched.phase = .running c → a ≠ .sched .finish) :
    ((machine β).perform q a).sched.Inside c := by
  refine ((sched_joined (Sched.inv_of_reachable hr).1 he).invariant
    (P := fun s => Sched.machine.Reachable s ∧ s.Inside c) ?_ ⟨hr, h⟩).2
  rintro s b ⟨hrs, hin⟩ ⟨hen, hphase, hb⟩
  refine ⟨hrs.step hen, ?_⟩
  by_cases hp : s.phase = .running c
  · refine Sched.Inside.own hrs hp hen ?_
    rintro rfl
    exact hfinish (hphase ▸ hp) (schedActions_finish hb)
  · exact hin.step hrs hen hp

/-- What sending and opening, and what happens elsewhere, leave of the mailboxes. -/
structure Grows (q q' : MailboxState β) : Prop where
  issued : q.sched.issued ⊆ q'.sched.issued
  isOpen : ∀ b, q.isOpen b = true → q'.isOpen b = true
  receiving : q'.receiving = q.receiving
  received : q'.received = q.received

theorem Grows.refl (q : MailboxState β) : Grows q q :=
  ⟨List.Subset.refl _, fun _ h => h, rfl, rfl⟩

theorem isOpen_update {boxes : Handle → Option (Mailbox β)} {handle b : Handle} {box : Mailbox β}
    (hopen : (boxes b).isSome = true) :
    (Function.update boxes handle (some box) b).isSome = true := by
  rw [Function.update_apply]
  split
  · rfl
  · exact hopen

theorem grows_sched (hi : q.Inv) {a : Action} (he : (machine β).enabled q (.sched a)) :
    Grows q ((machine β).perform q (.sched a)) :=
  ⟨(hi.sched_step he).2, fun _ h => h, rfl, rfl⟩

theorem grows_open (hi : q.Inv) {capacity : BitVec 32} {handle : Handle}
    (he : (machine β).enabled q (.open' capacity handle)) :
    Grows q ((machine β).perform q (.open' capacity handle)) :=
  ⟨(hi.sched_step he).2, fun _ h => isOpen_update h, rfl, rfl⟩

theorem grows_send (hi : q.Inv) {handle : Handle} {message : β}
    (he : (machine β).enabled q (.send handle message)) :
    Grows q ((machine β).perform q (.send handle message)) := by
  have hissued := (hi.sched_step he).2
  have hperform : (machine β).perform q (.send handle message) = (q.send handle message).1 := rfl
  rw [hperform] at hissued ⊢
  rcases send_cases q handle message with ⟨heq, _⟩ | ⟨box, box', _, _, heq⟩
  · rw [heq]
    exact Grows.refl q
  · rw [heq] at hissued ⊢
    exact ⟨hissued, fun _ h => isOpen_update h, rfl, rfl⟩

/-- What taking a message changes. -/
theorem take_returned {handle : Handle} {message : Option β}
    (h : (q.take handle).2 = some message) :
    (q.take handle).1.received =
        Function.update q.received handle (q.received handle ++ [message]) ∧
      (∀ b, (q.take handle).1.isOpen b = q.isOpen b) ∧ q.isOpen handle = true := by
  revert h
  unfold take isOpen
  split
  · next box hbox =>
    dsimp only
    split
    · intro h
      rw [Option.some.inj h]
      refine ⟨rfl, fun b => ?_, by rw [hbox]; rfl⟩
      dsimp only
      rw [Function.update_apply]
      split
      · next hb => rw [hb, hbox]; rfl
      · rfl
    · nofun
  · nofun

/-- How a call of `bio__mailbox_recv` on an open mailbox goes. -/
theorem recv_outcome (q : MailboxState β) (handle signal : Handle) :
    (∀ message, (q.recv handle signal).2 = .returned (some message) →
      (q.recv handle signal).1 = (q.take handle).1 ∧ (q.take handle).2 = some message) ∧
    ((q.recv handle signal).2 = .suspended → ∃ box c, q.mailboxes handle = some box ∧
      q.sched.phase = .running c ∧ (q.recv handle signal).1 = { q with
        mailboxes := Function.update q.mailboxes handle (some { box with signal := signal })
        sched := (q.sched.makeSignal c signal).waitForSignals c [signal] true
        receiving := Function.update q.receiving c (some ⟨handle, signal⟩) }) := by
  unfold recv
  split
  · next box hbox =>
    split
    · split
      · exact ⟨nofun, nofun⟩
      · split
        · next c hc => exact ⟨nofun, fun _ => ⟨box, c, hbox, Phase.eq_running hc, rfl⟩⟩
        · exact ⟨fun message h => ⟨rfl, RecvResult.returned.inj h⟩, nofun⟩
    · exact ⟨fun message h => ⟨rfl, RecvResult.returned.inj h⟩, nofun⟩
  · exact ⟨nofun, nofun⟩

theorem close_isOpen {handle b : Handle} (hne : b ≠ handle) :
    (q.close handle).isOpen b = q.isOpen b := by
  unfold close
  split
  · show (Function.update q.mailboxes handle none b).isSome = _
    rw [Function.update_of_ne hne]
    rfl
  · rfl

theorem close_frame (q : MailboxState β) (handle : Handle) :
    (q.close handle).receiving = q.receiving ∧ (q.close handle).received = q.received := by
  unfold close
  split
  · exact ⟨rfl, rfl⟩
  · exact ⟨rfl, rfl⟩

end MailboxState

namespace LogState

variable {α : Type*} {m : LogState α} {c d h b : Handle} {svc : LogService α}

/-- The mailboxes of loggers, which are received from by their loggers only. -/
abbrev mailMachine (α : Type*) : Machine (MailboxState (Option α)) (MailboxAction (Option α)) :=
  (MailboxState.machine (Option α)).restrict MailboxState.Fair

/-- What holds of the coroutine of a logger. -/
structure ServiceOk (m : LogState α) (c : Handle) (svc : LogService α) : Prop where
  issued : svc.mailbox ∈ m.sched.issued
  coroIssued : c ∈ m.sched.issued
  inside : svc.stage.isDone = false → m.sched.Inside c
  isOpen : svc.stage.isDone = false → m.mail.isOpen svc.mailbox = true
  receives : svc.stage.isReceiving = true →
    ∃ f, m.mail.receiving c = some f ∧ f.mailbox = svc.mailbox
  ready : svc.readySignal ∈ m.sched.issued ∧
    ∀ d f, m.mail.receiving d = some f → f.signal ≠ svc.readySignal
  received : m.mail.received svc.mailbox = (m.calls svc.mailbox).map some
  pending : svc.stage.ended = false → none ∉ m.calls svc.mailbox
  ended : svc.stage.ended = true → ∃ l, none ∉ l ∧ m.calls svc.mailbox = l ++ [none]

/-- The coroutines of loggers and those that call the functions of this file. -/
structure Staffed (m : LogState α) : Prop where
  mail : (mailMachine α).Reachable m.mail
  services : ∀ c svc, m.services c = some svc → m.ServiceOk c svc
  apart : ∀ c d svc svc', m.services c = some svc → m.services d = some svc' →
    svc.mailbox = svc'.mailbox → c = d
  receivers : ∀ c f, m.mail.receiving c = some f → ∃ svc, m.services c = some svc ∧
    svc.stage.isReceiving = true ∧ svc.mailbox = f.mailbox
  callers : ∀ c, (m.vlogs c).isSome = true ∨ (m.adding c).isSome = true ∨
    (m.removing (some c)).isSome = true → c ∈ m.sched.issued ∧
      ∀ svc, m.services c = some svc → svc.stage.isCalling = true
  silent : ∀ b, b ∉ m.sched.issued → m.calls b = []

theorem Staffed.inv (h : m.Staffed) : m.mail.Inv :=
  MailboxState.inv_of_reachable h.mail.of_restrict

theorem Staffed.sched (h : m.Staffed) : Sched.machine.Reachable m.sched := h.inv.sched

/-- Only the coroutine of a logger that is in `bio_recv_message` is inside `bio__mailbox_recv`. -/
theorem Staffed.not_inRecv (h : m.Staffed)
    (hstage : ∀ c svc, m.sched.phase = .running c → m.services c = some svc →
      svc.stage.isReceiving = false) : m.mail.inRecv = false := by
  by_contra hne
  have hrecv : m.mail.inRecv = true := by simpa using hne
  obtain ⟨c, hc, hsome⟩ := (Option.any_eq_true _ _).mp hrecv
  obtain ⟨f, hf⟩ := Option.isSome_iff_exists.mp hsome
  obtain ⟨svc, hsvc, hreceiving, _⟩ := h.receivers c f hf
  rw [hstage c svc (Phase.eq_running hc) hsvc] at hreceiving
  cases hreceiving

variable {m' : LogState α}

/-- A service that an action does not concern. -/
theorem ServiceOk.keep (h : m.ServiceOk c svc) (hissued : m.sched.issued ⊆ m'.sched.issued)
    (hinside : svc.stage.isDone = false → m.sched.Inside c → m'.sched.Inside c)
    (hopen : m.mail.isOpen svc.mailbox = true → m'.mail.isOpen svc.mailbox = true)
    (hreceiving : ∀ f, m.mail.receiving c = some f → m'.mail.receiving c = some f)
    (hsignals : ∀ d f, m'.mail.receiving d = some f → m.mail.receiving d = some f ∨
      f.signal ∉ m.sched.issued)
    (hreceived : m'.mail.received svc.mailbox = m.mail.received svc.mailbox)
    (hcalls : m'.calls svc.mailbox = m.calls svc.mailbox) : m'.ServiceOk c svc := by
  refine ⟨hissued h.issued, hissued h.coroIssued, fun hs => hinside hs (h.inside hs),
    fun hs => hopen (h.isOpen hs), fun hs => ?_, ⟨hissued h.ready.1, fun d f hf heq => ?_⟩, ?_, ?_, ?_⟩
  · obtain ⟨f, hf, hmailbox⟩ := h.receives hs
    exact ⟨f, hreceiving f hf, hmailbox⟩
  · rcases hsignals d f hf with hold | hnew
    · exact h.ready.2 d f hold heq
    · exact hnew (heq ▸ h.ready.1)
  · rw [hreceived, hcalls, h.received]
  · rw [hcalls]
    exact h.pending
  · rw [hcalls]
    exact h.ended

/-- An action that concerns no service. -/
theorem Staffed.keep (h : m.Staffed) (hmail : (mailMachine α).Reachable m'.mail)
    (hissued : m.sched.issued ⊆ m'.sched.issued)
    (hinside : ∀ c svc, m.services c = some svc → svc.stage.isDone = false → m.sched.Inside c →
      m'.sched.Inside c)
    (hopen : ∀ b, m.mail.isOpen b = true → m'.mail.isOpen b = true)
    (hreceiving : m'.mail.receiving = m.mail.receiving)
    (hreceived : m'.mail.received = m.mail.received) (hservices : m'.services = m.services)
    (hcalls : m'.calls = m.calls)
    (hcallers : ∀ c, (m'.vlogs c).isSome = true ∨ (m'.adding c).isSome = true ∨
      (m'.removing (some c)).isSome = true →
      ((m.vlogs c).isSome = true ∨ (m.adding c).isSome = true ∨
        (m.removing (some c)).isSome = true) ∨
      c ∈ m.sched.issued ∧ ∀ svc, m.services c = some svc → svc.stage.isCalling = true) :
    m'.Staffed := by
  refine ⟨hmail, fun c svc hsvc => ?_, ?_, ?_, fun c hc => ?_, fun b hb => ?_⟩
  · rw [hservices] at hsvc
    exact (h.services c svc hsvc).keep hissued (hinside c svc hsvc) (hopen _)
      (fun f hf => hreceiving ▸ hf) (fun d f hf => .inl (hreceiving ▸ hf)) (congrFun hreceived _)
      (congrFun hcalls _)
  · rw [hservices]
    exact h.apart
  · rw [hservices, hreceiving]
    exact h.receivers
  · rw [hservices]
    rcases hcallers c hc with hold | ⟨hcoro, hstage⟩
    · obtain ⟨hcoro, hstage⟩ := h.callers c hold
      exact ⟨hissued hcoro, hstage⟩
    · exact ⟨hissued hcoro, hstage⟩
  · rw [hcalls]
    exact h.silent b fun hmem => hb (hissued hmem)

/-- The callers of the functions of this file are the same, or fewer. -/
def CallersIn (m' m : LogState α) : Prop :=
  ∀ c, (m'.vlogs c).isSome = true ∨ (m'.adding c).isSome = true ∨
    (m'.removing (some c)).isSome = true →
    (m.vlogs c).isSome = true ∨ (m.adding c).isSome = true ∨ (m.removing (some c)).isSome = true

/-- The coroutine that runs does not end, or its logger is done with it. -/
def MayDo (m : LogState α) (a : MailboxAction (Option α)) : Prop :=
  ∀ c svc, m.sched.phase = .running c → m.services c = some svc → svc.stage.isDone = false →
    a ≠ .sched .finish

/-- Loggers are sent to or opened, or something happens elsewhere. -/
theorem Staffed.grow (h : m.Staffed) {a : MailboxAction (Option α)}
    (he : (MailboxState.machine (Option α)).enabled m.mail a) (hfair : m.mail.Fair a)
    (hdo : m.MayDo a)
    (hgrows : MailboxState.Grows m.mail ((MailboxState.machine (Option α)).perform m.mail a)) :
    Staffed { m with mail := (MailboxState.machine (Option α)).perform m.mail a } := by
  refine h.keep ?_ hgrows.issued (fun c svc hsvc hdone hin => ?_) hgrows.isOpen hgrows.receiving
    hgrows.received rfl rfl fun c hc => .inl hc
  · exact Machine.Reachable.step (M := mailMachine α) h.mail ⟨he, hfair⟩
  · exact MailboxState.inside_step h.sched hin he fun hp => hdo c svc hp hsvc hdone

/-! ## The steps of a service -/

/-- The coroutine of a logger goes on. -/
theorem Staffed.setService (h : m.Staffed) (hsvc : m.services c = some svc) {stage : LogStage α}
    (hservices : m'.services = Function.update m.services c (some { svc with stage := stage }))
    (hmail : (mailMachine α).Reachable m'.mail) (hissued : m.sched.issued ⊆ m'.sched.issued)
    (hinside : ∀ d, m.sched.Inside d → m'.sched.Inside d)
    (hopen : ∀ b, b ≠ svc.mailbox → m.mail.isOpen b = true → m'.mail.isOpen b = true)
    (hreceiving : ∀ d, d ≠ c → m'.mail.receiving d = m.mail.receiving d)
    (hreceiver : ∀ f, m'.mail.receiving c = some f → stage.isReceiving = true ∧
      svc.mailbox = f.mailbox ∧ (m.mail.receiving c = some f ∨ f.signal ∉ m.sched.issued))
    (hreceived : ∀ b, b ≠ svc.mailbox → m'.mail.received b = m.mail.received b)
    (hcalls : ∀ b, b ≠ svc.mailbox → m'.calls b = m.calls b)
    (hcallers : CallersIn m' m) (hout : (m.vlogs c).isSome = false ∧ (m.adding c).isSome = false ∧
      (m.removing (some c)).isSome = false)
    (hok : m'.ServiceOk c { svc with stage := stage }) : m'.Staffed := by
  have hother : ∀ d svcd, d ≠ c → m.services d = some svcd → svcd.mailbox ≠ svc.mailbox :=
    fun d svcd hne hd heq => hne (h.apart d c svcd svc hd hsvc heq)
  have hlook : ∀ d svcd, m'.services d = some svcd → d = c ∧ svcd = { svc with stage := stage } ∨
      d ≠ c ∧ m.services d = some svcd := by
    intro d svcd hd
    rw [hservices] at hd
    exact Table.insert_some hd
  refine ⟨hmail, fun d svcd hd => ?_, fun d e svcd svce hd he heq => ?_, fun d f hf => ?_,
    fun d hd => ?_, fun b hb => ?_⟩
  · rcases hlook d svcd hd with ⟨rfl, rfl⟩ | ⟨hne, hold⟩
    · exact hok
    · have hmb := hother d svcd hne hold
      refine (h.services d svcd hold).keep hissued (fun _ => hinside d) (hopen _ hmb)
        (fun f hf => (hreceiving d hne).trans hf) (fun e f hf => ?_) (hreceived _ hmb)
        (hcalls _ hmb)
      by_cases hec : e = c
      · subst hec
        exact (hreceiver f hf).2.2
      · exact .inl ((hreceiving e hec).symm.trans hf)
  · rcases hlook d svcd hd with ⟨rfl, rfl⟩ | ⟨hne, hold⟩ <;>
      rcases hlook e svce he with ⟨rfl, rfl⟩ | ⟨hne', hold'⟩
    · rfl
    · exact absurd heq.symm (hother e svce hne' hold')
    · exact absurd heq (hother d svcd hne hold)
    · exact h.apart d e svcd svce hold hold' heq
  · by_cases hdc : d = c
    · subst hdc
      obtain ⟨hstage, hmb, _⟩ := hreceiver f hf
      exact ⟨{ svc with stage := stage }, (congrFun hservices d).trans (Function.update_self ..),
        hstage, hmb⟩
    · rw [hreceiving d hdc] at hf
      obtain ⟨svcd, hd, hstage, hmb⟩ := h.receivers d f hf
      exact ⟨svcd, (congrFun hservices d).trans ((Function.update_of_ne hdc ..).trans hd), hstage,
        hmb⟩
  · obtain ⟨hcoro, hcalling⟩ := h.callers d (hcallers d hd)
    have hdc : d ≠ c := by
      rintro rfl
      have := hcallers d hd
      simp [hout.1, hout.2.1, hout.2.2] at this
    refine ⟨hissued hcoro, fun svcd hsvcd => ?_⟩
    rcases hlook d svcd hsvcd with ⟨heq, _⟩ | ⟨_, hold⟩
    · exact absurd heq hdc
    · exact hcalling svcd hold
  · have hmb : b ≠ svc.mailbox := by
      rintro rfl
      exact hb (hissued (h.services c svc hsvc).issued)
    rw [hcalls b hmb]
    exact h.silent b fun hmem => hb (hissued hmem)

/-- The coroutine `c` of a logger runs and goes on in its service. -/
structure Serving (m : LogState α) (c : Handle) (svc : LogService α) (signal : Handle) : Prop where
  running : m.sched.phase = .running c
  count : m.sched.CanCount c
  service : m.services c = some svc
  fresh : m.sched.Fresh signal
  out : (m.vlogs c).isSome = false ∧ (m.adding c).isSome = false ∧
    (m.removing (some c)).isSome = false

theorem serving_of_enabled {signal : Handle} (he : (machine α).enabled m (.serviceStep signal)) :
    ∃ c svc, m.Serving c svc signal ∧
      (machine α).perform m (.serviceStep signal) = m.serviceStep c svc signal := by
  obtain ⟨hany, hcall, hfresh⟩ := he
  obtain ⟨c, hc, hsome⟩ := (Option.any_eq_true _ _).mp hany
  rw [Bool.and_eq_true, decide_eq_true_iff] at hsome
  obtain ⟨svc, hsvc⟩ := Option.isSome_iff_exists.mp hsome.2
  rw [inCall, hc, Option.any_some, Bool.or_eq_false_iff, Bool.or_eq_false_iff] at hcall
  refine ⟨c, svc, ⟨Phase.eq_running hc, hsome.1, hsvc, hfresh, hcall.2.1, hcall.2.2, hcall.1⟩, ?_⟩
  show m.inCoro _ = _
  simp only [inCoro, hc, hsvc]

variable {signal : Handle}

theorem Serving.phase (hs : m.Serving c svc signal) : m.sched.phase ≠ .pass := by
  rw [hs.running]
  nofun

theorem Serving.not_inRecv (hs : m.Serving c svc signal) (h : m.Staffed)
    (hstage : svc.stage.isReceiving = false) : m.mail.inRecv = false := by
  refine h.not_inRecv fun d svcd hd hsvcd => ?_
  obtain rfl := Phase.running.inj (hs.running.symm.trans hd)
  rw [← Option.some.inj (hs.service.symm.trans hsvcd)]
  exact hstage

theorem ServiceOk.setStage (h : m.ServiceOk c svc) {stage : LogStage α}
    (hdone : svc.stage.isDone = false) (hreceiving : stage.isReceiving = false)
    (hended : stage.ended = svc.stage.ended) :
    (m.setStage c svc stage).ServiceOk c { svc with stage := stage } := by
  refine ⟨h.issued, h.coroIssued, fun _ => h.inside hdone, fun _ => h.isOpen hdone, fun hr => ?_,
    h.ready, h.received, fun he => h.pending (hended ▸ he), fun he => h.ended (hended ▸ he)⟩
  rw [hreceiving] at hr
  cases hr

/-- A stage changes and nothing else. -/
theorem Staffed.setStage (h : m.Staffed) (hsvc : m.services c = some svc)
    (hout : (m.vlogs c).isSome = false ∧ (m.adding c).isSome = false ∧
      (m.removing (some c)).isSome = false) {stage : LogStage α}
    (hdone : svc.stage.isDone = false) (hold : svc.stage.isReceiving = false)
    (hnew : stage.isReceiving = false) (hended : stage.ended = svc.stage.ended) :
    (m.setStage c svc stage).Staffed := by
  refine h.setService hsvc rfl h.mail (List.Subset.refl _)
    (fun _ hin => hin) (fun _ _ hopen => hopen) (fun _ _ => rfl) (fun f hf => ?_) (fun _ _ => rfl)
    (fun _ _ => rfl) (fun _ hc => hc) hout ((h.services c svc hsvc).setStage hdone hnew hended)
  obtain ⟨svc', hsvc', hstage, _⟩ := h.receivers c f hf
  rw [← Option.some.inj (hsvc.symm.trans hsvc'), hold] at hstage
  cases hstage

/-- The first run: the caller of `bio_add_logger` is told. -/
theorem Staffed.start (h : m.Staffed) (hs : m.Serving c svc signal) (hstage : svc.stage = .starting) :
    Staffed ((m.setSched (m.sched.raiseSignal svc.readySignal).1).setStage c svc .looping) := by
  have hok := h.services c svc hs.service
  have hreceiving : svc.stage.isReceiving = false := by rw [hstage]; rfl
  have hnot := hs.not_inRecv h hreceiving
  have he : (MailboxState.machine (Option α)).enabled m.mail (.sched (.raise svc.readySignal)) :=
    ⟨hs.phase, hnot⟩
  have h' := h.grow he (fun d f hf hnames => ?_) (fun _ _ _ _ _ => nofun)
    (MailboxState.grows_sched h.inv he)
  · exact h'.setStage hs.service hs.out (by rw [hstage]; rfl) hreceiving rfl (by rw [hstage]; rfl)
  · simp only [Action.names, decide_eq_true_eq] at hnames
    exact absurd hnames.symm (hok.ready.2 d f hf)

/-- `log_fn` is called with a message that was received. -/
theorem Staffed.call (h : m.Staffed) (hs : m.Serving c svc signal) {mail : MailboxState (Option α)}
    {message : Option α} (hended : svc.stage.ended = false)
    (hmail : (mailMachine α).Reachable mail) (hsched : mail.sched = m.sched)
    (hopen : ∀ b, mail.isOpen b = m.mail.isOpen b)
    (hreceiving : mail.receiving = Function.update m.mail.receiving c none)
    (hreceived : mail.received = Function.update m.mail.received svc.mailbox
      (m.mail.received svc.mailbox ++ [some message])) :
    (dispatch { m with mail := mail } c svc (some (some message))).Staffed := by
  have hok := h.services c svc hs.service
  have hnone : mail.receiving c = none := hreceiving ▸ Function.update_self ..
  have hsame : (dispatch { m with mail := mail } c svc (some (some message))).sched = m.sched :=
    hsched
  have hcalls : (dispatch { m with mail := mail } c svc (some (some message))).calls =
      Function.update m.calls svc.mailbox (m.calls svc.mailbox ++ [message]) := rfl
  refine h.setService hs.service rfl hmail ?_ ?_ ?_ ?_ ?_ ?_ ?_ (fun _ hc => hc) hs.out ?_
  · rw [hsame]
    exact List.Subset.refl _
  · rw [hsame]
    exact fun _ hin => hin
  · exact fun b _ hb => (hopen b).trans hb
  · exact fun d hd => (congrFun hreceiving d).trans (Function.update_of_ne hd ..)
  · intro f hf
    rw [show mail.receiving c = some f from hf] at hnone
    cases hnone
  · exact fun b hb => (congrFun hreceived b).trans (Function.update_of_ne hb ..)
  · exact fun b hb => (congrFun hcalls b).trans (Function.update_of_ne hb ..)
  · have hnew : (dispatch { m with mail := mail } c svc (some (some message))).calls svc.mailbox =
        m.calls svc.mailbox ++ [message] := (congrFun hcalls _).trans (Function.update_self ..)
    have hdone := LogStage.not_done hended
    refine ⟨hsame ▸ hok.issued, hsame ▸ hok.coroIssued, fun _ => hsame ▸ hok.inside hdone,
      fun _ => (hopen _).trans (hok.isOpen hdone), nofun, ⟨hsame ▸ hok.ready.1, fun d f hf => ?_⟩,
      ?_, fun hpending => ?_, fun hnull => ?_⟩
    · have hf' : mail.receiving d = some f := hf
      rw [hreceiving, Function.update_apply] at hf'
      split at hf'
      · cases hf'
      · exact hok.ready.2 d f hf'
    · rw [hnew, List.map_append, ← hok.received]
      exact (congrFun hreceived _).trans (Function.update_self ..)
    · rw [hnew, List.mem_append, not_or]
      refine ⟨hok.pending hended, ?_⟩
      cases message with
      | none => cases hpending
      | some text => simp
    · cases message with
      | none => exact ⟨_, hok.pending hended, hnew⟩
      | some text => cases hnull

/-- The receiver of the mailbox of a logger is its coroutine. -/
theorem Staffed.receiver_eq (h : m.Staffed) (hsvc : m.services c = some svc) {f : RecvFrame}
    (hf : m.mail.receiving d = some f) (hmailbox : f.mailbox = svc.mailbox) :
    d = c ∧ svc.stage.isReceiving = true := by
  obtain ⟨svcd, hsvcd, hstage, hmb⟩ := h.receivers d f hf
  obtain rfl := h.apart d c svcd svc hsvcd hsvc (hmb.trans hmailbox)
  exact ⟨rfl, Option.some.inj (hsvcd.symm.trans hsvc) ▸ hstage⟩

theorem Serving.recv_enabled (hs : m.Serving c svc signal) (h : m.Staffed)
    (hstage : svc.stage.isReceiving = false) :
    (mailMachine α).enabled m.mail (.recv svc.mailbox signal) := by
  refine ⟨⟨hs.phase, hs.fresh, hs.not_inRecv h hstage⟩, fun d f hf hmailbox _ => ?_, fun d hd => ?_⟩
  · rw [(h.receiver_eq hs.service hf hmailbox).2] at hstage
    cases hstage
  · rw [← Phase.running.inj (hs.running.symm.trans hd)]
    exact hs.count

/-- `bio_recv_message` returns with a message, or suspends. -/
theorem Staffed.recv (h : m.Staffed) (hs : m.Serving c svc signal) (hstage : svc.stage = .looping) :
    (m.serviceStep c svc signal).Staffed := by
  have hok := h.services c svc hs.service
  have hreceiving : svc.stage.isReceiving = false := by rw [hstage]; rfl
  have hended : svc.stage.ended = false := by rw [hstage]; rfl
  have hdone := LogStage.not_done hended
  have he := hs.recv_enabled h hreceiving
  have hmail : (mailMachine α).Reachable (m.mail.recv svc.mailbox signal).1 := h.mail.step he
  have hnone : m.mail.receiving c = none := by
    by_contra hne
    obtain ⟨f, hf⟩ := Option.ne_none_iff_exists'.mp hne
    obtain ⟨svc', hsvc', hrec, _⟩ := h.receivers c f hf
    rw [← Option.some.inj (hs.service.symm.trans hsvc'), hreceiving] at hrec
    cases hrec
  have hsound := (MailboxState.recv_fails_closed h.mail).called c svc.mailbox signal hs.running
    (hok.isOpen hdone) fun d f hf hmailbox => by
      rw [(h.receiver_eq hs.service hf hmailbox).2] at hreceiving
      cases hreceiving
  obtain ⟨hreturned, hsuspended⟩ := MailboxState.recv_outcome m.mail svc.mailbox signal
  rcases hsound with ⟨message, hresult⟩ | hresult
  · obtain ⟨htake, hmessage⟩ := hreturned (some message) hresult
    obtain ⟨hreceived, hopen, _⟩ := MailboxState.take_returned hmessage
    have hstep : m.serviceStep c svc signal = dispatch
        { m with mail := (m.mail.recv svc.mailbox signal).1 } c svc (some (some message)) := by
      rw [serviceStep, hstage]
      generalize m.mail.recv svc.mailbox signal = result at hresult
      obtain ⟨mail, outcome⟩ := result
      obtain rfl : outcome = .returned (some (some message)) := hresult
      rfl
    rw [hstep]
    refine h.call hs hended hmail ?_ ?_ ?_ ?_ <;> rw [htake]
    · exact MailboxState.take_sched ..
    · exact hopen
    · rw [(MailboxState.take_frame m.mail svc.mailbox).2.1, ← hnone, Function.update_eq_self]
    · exact hreceived
  · obtain ⟨box, d, hbox, hd, hpark⟩ := hsuspended hresult
    obtain rfl := Phase.running.inj (hs.running.symm.trans hd)
    have hstep : m.serviceStep c svc signal =
        LogState.setStage { m with mail := (m.mail.recv svc.mailbox signal).1 } c svc .receiving := by
      rw [serviceStep, hstage]
      generalize m.mail.recv svc.mailbox signal = result at hresult
      obtain ⟨mail, outcome⟩ := result
      obtain rfl : outcome = .suspended := hresult
      rfl
    have hissued := (h.inv.sched_step he.1).2
    have hinside : ∀ e, m.sched.Inside e → (m.mail.recv svc.mailbox signal).1.sched.Inside e :=
      fun e hin => MailboxState.inside_step h.sched hin he.1 fun _ => nofun
    have hopen : ∀ b, m.mail.isOpen b = true →
        (m.mail.recv svc.mailbox signal).1.isOpen b = true := by
      intro b hb
      rw [hpark]
      exact MailboxState.isOpen_update hb
    have hframes : (m.mail.recv svc.mailbox signal).1.receiving =
        Function.update m.mail.receiving c (some ⟨svc.mailbox, signal⟩) := by rw [hpark]
    have hreceived : (m.mail.recv svc.mailbox signal).1.received = m.mail.received := by rw [hpark]
    have hframe : ∀ e f, (m.mail.recv svc.mailbox signal).1.receiving e = some f →
        e = c ∧ f = ⟨svc.mailbox, signal⟩ ∨ e ≠ c ∧ m.mail.receiving e = some f := by
      intro e f hf
      rw [hframes] at hf
      exact Table.insert_some hf
    rw [hstep]
    refine h.setService hs.service rfl hmail hissued hinside (fun b _ => hopen b) (fun e he => ?_)
      (fun f hf => ?_) (fun b _ => congrFun hreceived b) (fun _ _ => rfl) (fun _ hc => hc) hs.out ?_
    · exact (congrFun hframes e).trans (Function.update_of_ne he ..)
    · rcases hframe c f hf with ⟨_, rfl⟩ | ⟨hne, _⟩
      · exact ⟨rfl, rfl, .inr hs.fresh.2⟩
      · exact absurd rfl hne
    · refine ⟨hissued hok.issued, hissued hok.coroIssued, fun _ => hinside c (hok.inside hdone),
        fun _ => hopen _ (hok.isOpen hdone),
        fun _ => ⟨_, (congrFun hframes c).trans (Function.update_self ..), rfl⟩,
        ⟨hissued hok.ready.1, fun e f hf heq => ?_⟩, (congrFun hreceived _).trans hok.received,
        fun _ => hok.pending hended, nofun⟩
      rcases hframe e f hf with ⟨_, rfl⟩ | ⟨_, hold⟩
      · have hsignal : signal = svc.readySignal := heq
        exact hs.fresh.2 (hsignal ▸ hok.ready.1)
      · exact hok.ready.2 e f hold heq

/-- `bio_recv_message` goes on: a message is there. -/
theorem Staffed.resume (h : m.Staffed) (hs : m.Serving c svc signal)
    (hstage : svc.stage = .receiving) : (m.serviceStep c svc signal).Staffed := by
  have hok := h.services c svc hs.service
  have hended : svc.stage.ended = false := by rw [hstage]; rfl
  obtain ⟨f, hf, hmailbox⟩ := hok.receives (by rw [hstage]; rfl)
  have hrec : m.mail.inRecv = true := by
    simp [MailboxState.inRecv, hs.running, Phase.mcoRunning, hf]
  have hmail : (mailMachine α).Reachable m.mail.resumeRecv :=
    h.mail.step (a := MailboxAction.resumeRecv) ⟨hrec, trivial⟩
  obtain ⟨message, hmessage⟩ := (MailboxState.recv_fails_closed h.mail).resumed c f hs.running hf
    (hmailbox ▸ hok.isOpen (LogStage.not_done hended))
  rw [hmailbox] at hmessage
  obtain ⟨hreceived, hopen, _⟩ := MailboxState.take_returned hmessage
  have hresume : m.mail.resumeRecv = { (m.mail.take svc.mailbox).1 with
      receiving := Function.update m.mail.receiving c none } := by
    simp only [MailboxState.resumeRecv, hs.running, Phase.mcoRunning, hf, hmailbox]
  have hstep : m.serviceStep c svc signal =
      dispatch { m with mail := m.mail.resumeRecv } c svc (some (some message)) := by
    rw [serviceStep, hstage]
    dsimp only
    rw [hmessage]
  rw [hstep]
  refine h.call hs hended hmail ?_ ?_ ?_ ?_ <;> rw [hresume]
  · exact MailboxState.take_sched ..
  · exact hopen
  · exact hreceived

/-- The mailbox is closed. -/
theorem Staffed.close (h : m.Staffed) (hs : m.Serving c svc signal) (hstage : svc.stage = .closing) :
    (LogState.setStage { m with mail := m.mail.close svc.mailbox } c svc .done).Staffed := by
  have hok := h.services c svc hs.service
  have hreceiving : svc.stage.isReceiving = false := by rw [hstage]; rfl
  have he : (MailboxState.machine (Option α)).enabled m.mail (.close svc.mailbox) :=
    ⟨hs.phase, hs.not_inRecv h hreceiving⟩
  have hmail : (mailMachine α).Reachable (m.mail.close svc.mailbox) :=
    h.mail.step (a := MailboxAction.close svc.mailbox) ⟨he, trivial⟩
  have hissued : m.sched.issued ⊆ (m.mail.close svc.mailbox).sched.issued :=
    (h.inv.sched_step he).2
  have hinside : ∀ d, m.sched.Inside d → (m.mail.close svc.mailbox).sched.Inside d :=
    fun d hin => MailboxState.inside_step h.sched hin he fun _ => nofun
  obtain ⟨hframes, hreceived⟩ := MailboxState.close_frame m.mail svc.mailbox
  refine h.setService hs.service rfl hmail hissued hinside (fun b hb hopen => ?_)
    (fun d _ => congrFun hframes d) (fun f hf => ?_) (fun b _ => congrFun hreceived b)
    (fun _ _ => rfl) (fun _ hc => hc) hs.out ?_
  · exact (MailboxState.close_isOpen hb).trans hopen
  · obtain ⟨svc', hsvc', hrec, _⟩ := h.receivers c f (hframes ▸ hf)
    rw [← Option.some.inj (hs.service.symm.trans hsvc'), hreceiving] at hrec
    cases hrec
  · exact ⟨hissued hok.issued, hissued hok.coroIssued, nofun, nofun, nofun,
      ⟨hissued hok.ready.1, fun d f hf => hok.ready.2 d f (hframes ▸ hf)⟩,
      (congrFun hreceived _).trans hok.received, nofun, fun _ => hok.ended (by rw [hstage]; rfl)⟩

theorem Staffed.serviceStep (h : m.Staffed) (hs : m.Serving c svc signal) :
    (m.serviceStep c svc signal).Staffed := by
  cases hstage : svc.stage with
  | starting =>
    rw [LogState.serviceStep, hstage]
    exact h.start hs hstage
  | looping => exact h.recv hs hstage
  | receiving => exact h.resume hs hstage
  | calling message =>
    rw [LogState.serviceStep, hstage]
    refine h.setStage hs.service hs.out ?_ ?_ ?_ ?_ <;> cases message <;> simp [hstage] <;> rfl
  | closing =>
    rw [LogState.serviceStep, hstage]
    exact h.close hs hstage
  | done =>
    rw [LogState.serviceStep, hstage]
    exact h

/-! ## The steps of the other calls -/

/-- If the coroutine of a logger runs, it is in `log_fn`. -/
def Calm (m : LogState α) : Prop :=
  ∀ c svc, m.sched.phase = .running c → m.services c = some svc → svc.stage.isCalling = true

theorem calm_of_inProgram (h : m.inProgram = true) : m.Calm := by
  intro c svc hc hsvc
  have hstage : m.stage = some svc.stage := by simp [stage, hc, Phase.mcoRunning, hsvc]
  rw [inProgram, Bool.and_eq_true, hstage] at h
  cases hs : svc.stage with
  | calling message => rfl
  | _ =>
    rw [hs] at h
    exact absurd h.2 (by simp)

theorem Staffed.calm_of_caller (h : m.Staffed) (hp : m.sched.phase = .running c)
    (hcaller : (m.vlogs c).isSome = true ∨ (m.adding c).isSome = true ∨
      (m.removing (some c)).isSome = true) : m.Calm := by
  intro d svc hd hsvc
  obtain rfl := Phase.running.inj (hp.symm.trans hd)
  exact (h.callers c hcaller).2 svc hsvc

theorem Calm.not_inRecv (hcalm : m.Calm) (h : m.Staffed) : m.mail.inRecv = false := by
  refine h.not_inRecv fun c svc hc hsvc => ?_
  have hcalling := hcalm c svc hc hsvc
  cases hs : svc.stage with
  | receiving =>
    rw [hs] at hcalling
    cases hcalling
  | _ => rfl

/-- Only what the callers are about changes. -/
theorem Staffed.book (h : m.Staffed) (hmail : m'.mail = m.mail) (hservices : m'.services = m.services)
    (hcalls : m'.calls = m.calls)
    (hcallers : ∀ c, (m'.vlogs c).isSome = true ∨ (m'.adding c).isSome = true ∨
      (m'.removing (some c)).isSome = true →
      ((m.vlogs c).isSome = true ∨ (m.adding c).isSome = true ∨
        (m.removing (some c)).isSome = true) ∨ m.sched.phase = .running c ∧ m.Calm) :
    m'.Staffed := by
  have hsched : m'.sched = m.sched := congrArg MailboxState.sched hmail
  refine h.keep (hmail ▸ h.mail) (hsched ▸ List.Subset.refl _) (fun _ _ _ _ hin => hsched ▸ hin)
    (fun b hb => hmail ▸ hb) (congrArg _ hmail) (congrArg _ hmail) hservices hcalls fun c hc => ?_
  rcases hcallers c hc with hold | ⟨hp, hcalm⟩
  · exact .inl hold
  · exact .inr ⟨(Sched.Inside.of_running h.sched hp).within.issued, fun svc => hcalm c svc hp⟩

theorem Staffed.send (h : m.Staffed) (hcalm : m.Calm) (hp : m.sched.phase ≠ .pass)
    (b : Handle) (x : Option α) : Staffed { m with mail := (m.mail.send b x).1 } := by
  have he : (MailboxState.machine (Option α)).enabled m.mail (.send b x) :=
    ⟨hp, hcalm.not_inRecv h⟩
  exact h.grow he trivial (fun _ _ _ _ _ => nofun) (MailboxState.grows_send h.inv he)

/-- An action of the scheduler that names no signal. -/
theorem Staffed.act (h : m.Staffed) (hcalm : m.Calm) {a : Action}
    (he : Sched.machine.enabled m.sched a) (hfinish : a ≠ .finish) (hnames : ∀ x, a.names x = false) :
    Staffed (m.setSched (Sched.machine.perform m.sched a)) := by
  have he' : (MailboxState.machine (Option α)).enabled m.mail (.sched a) :=
    ⟨he, hcalm.not_inRecv h⟩
  refine h.grow he' (fun d f _ hn => ?_) (fun _ _ _ _ _ heq => ?_) (MailboxState.grows_sched h.inv he')
  · rw [hnames] at hn
    cases hn
  · exact hfinish (MailboxAction.sched.inj heq)

/-- The rest of the program. -/
theorem Staffed.program (h : m.Staffed) {a : Action} (he : (machine α).enabled m (.sched a)) :
    ((machine α).perform m (.sched a)).Staffed := by
  obtain ⟨hen, hpermits, hlocal⟩ := he
  have hcase : ∀ c svc, m.sched.phase = .running c → m.services c = some svc →
      svc.stage.isCalling = true ∧ a ≠ .finish ∨ svc.stage.isDone = true := by
    intro c svc hc hsvc
    have hstage : m.stage = some svc.stage := by simp [stage, hc, Phase.mcoRunning, hsvc]
    rw [permits, Bool.and_eq_true, hstage] at hpermits
    cases hs : svc.stage with
    | calling message =>
      rw [hs] at hpermits
      exact .inl ⟨rfl, by simpa using hpermits.2⟩
    | done => exact .inr rfl
    | _ =>
      rw [hs] at hpermits
      exact absurd hpermits.2 (by simp)
  have hnot : m.mail.inRecv = false := by
    refine h.not_inRecv fun c svc hc hsvc => ?_
    cases hs : svc.stage with
    | receiving =>
      rcases hcase c svc hc hsvc with ⟨hcalling, _⟩ | hdone
      · rw [hs] at hcalling
        cases hcalling
      · rw [hs] at hdone
        cases hdone
    | _ => rfl
  have he' : (MailboxState.machine (Option α)).enabled m.mail (.sched a) := ⟨hen, hnot⟩
  refine h.grow he' (fun d f hf hn hown => ?_) (fun c svc hc hsvc hdone heq => ?_)
    (MailboxState.grows_sched h.inv he')
  · have hfree := hlocal f.signal (Action.mem_signals.mpr hn)
    rw [isLocal, show m.sched.ownerOf f.signal = some d from hown] at hfree
    simp [hf] at hfree
  · rcases hcase c svc hc hsvc with ⟨_, hne⟩ | hdone'
    · exact hne (MailboxAction.sched.inj heq)
    · rw [hdone] at hdone'
      cases hdone'

/-- The signal of a receiver was issued. -/
theorem Staffed.signal_issued (h : m.Staffed) {f : RecvFrame} (hf : m.mail.receiving d = some f) :
    f.signal ∈ m.sched.issued :=
  ((MailboxState.served_of_reachable h.mail).promised d f hf).waits.held.issued
    (Sched.accounted_of_reachable h.sched)

/-- A coroutine calls `bio_add_logger`. -/
structure Adds (m : LogState α) (c mailbox readySignal coro : Handle) : Prop where
  running : m.sched.phase = .running c
  count : m.sched.CanCount c
  calm : m.Calm
  freshMailbox : m.sched.Fresh mailbox
  freshSignal : m.sched.Fresh readySignal
  freshCoro : m.sched.Fresh coro
  apart : readySignal ≠ mailbox ∧ coro ≠ mailbox ∧ coro ≠ readySignal

theorem adds_of_enabled {minLevel : LogLevel} {mailbox readySignal coro : Handle}
    (he : (machine α).enabled m (.addLogger minLevel mailbox readySignal coro)) :
    ∃ c, m.Adds c mailbox readySignal coro ∧
      (machine α).perform m (.addLogger minLevel mailbox readySignal coro) =
        m.addLogger c minLevel mailbox readySignal coro := by
  obtain ⟨hcount, hprogram, hmailbox, hready, hcoro, hnodup⟩ := he
  obtain ⟨c, hp, hcount⟩ := Sched.running_of_any hcount
  simp only [List.nodup_cons, List.mem_cons, List.not_mem_nil, or_false, not_or] at hnodup
  refine ⟨c, ⟨hp, hcount, calm_of_inProgram hprogram, hmailbox, hready, hcoro,
    Ne.symm hnodup.1.1, Ne.symm hnodup.1.2, Ne.symm hnodup.2.1⟩, ?_⟩
  show m.inCoro _ = _
  simp only [inCoro, hp, Phase.mcoRunning]

variable {mailbox readySignal coro : Handle}

/-- The service of a new logger, before its first run. -/
theorem Staffed.newService (h : m.Staffed) (hcalm : m.Calm) (hp : m.sched.phase = .running c)
    (hcoro : m.sched.Inside coro) (hopen : m.mail.isOpen mailbox = true)
    (hmailbox : mailbox ∈ m.sched.issued) (hready : readySignal ∈ m.sched.issued)
    (hsignals : ∀ d f, m.mail.receiving d = some f → f.signal ≠ readySignal)
    (hempty : m.mail.received mailbox = [] ∧ m.calls mailbox = [])
    (hboxes : ∀ d svcd, m.services d = some svcd → svcd.mailbox ≠ mailbox)
    (hnone : m.services coro = none)
    (hout : (m.vlogs coro).isSome = false ∧ (m.adding coro).isSome = false ∧
      (m.removing (some coro)).isSome = false) (hne : c ≠ coro) (f : AddFrame) :
    Staffed { m with
      services := Function.update m.services coro (some ⟨mailbox, readySignal, .starting⟩)
      adding := Function.update m.adding c (some f) } := by
  have hlook : ∀ d svcd,
      Function.update m.services coro (some ⟨mailbox, readySignal, .starting⟩) d = some svcd →
      d = coro ∧ svcd = ⟨mailbox, readySignal, .starting⟩ ∨ d ≠ coro ∧ m.services d = some svcd := by
    intro d svcd hd
    exact Table.insert_some hd
  refine ⟨h.mail, fun d svcd hd => ?_, fun d e svcd svce hd he heq => ?_, fun d f hf => ?_,
    fun d hd => ?_, h.silent⟩
  · rcases hlook d svcd hd with ⟨rfl, rfl⟩ | ⟨_, hold⟩
    · refine ⟨hmailbox, hcoro.within.issued, fun _ => hcoro, fun _ => hopen, nofun,
        ⟨hready, hsignals⟩, ?_, fun _ => ?_, nofun⟩
      · show m.mail.received mailbox = (m.calls mailbox).map some
        rw [hempty.1, hempty.2]
        rfl
      · show none ∉ m.calls mailbox
        rw [hempty.2]
        exact List.not_mem_nil
    · obtain ⟨h₁, h₂, h₃, h₄, h₅, h₆, h₇, h₈, h₉⟩ := h.services d svcd hold
      exact ⟨h₁, h₂, h₃, h₄, h₅, h₆, h₇, h₈, h₉⟩
  · rcases hlook d svcd hd with ⟨rfl, rfl⟩ | ⟨_, hold⟩ <;>
      rcases hlook e svce he with ⟨rfl, rfl⟩ | ⟨_, hold'⟩
    · rfl
    · exact absurd heq.symm (hboxes e svce hold')
    · exact absurd heq (hboxes d svcd hold)
    · exact h.apart d e svcd svce hold hold' heq
  · obtain ⟨svcd, hd, hrest⟩ := h.receivers d f hf
    have hdc : d ≠ coro := by
      rintro rfl
      rw [hnone] at hd
      cases hd
    exact ⟨svcd, (Function.update_of_ne hdc ..).trans hd, hrest⟩
  · have hcaller : d ≠ coro ∧ d ∈ m.sched.issued ∧
        ∀ svc, m.services d = some svc → svc.stage.isCalling = true := by
      by_cases hdc : d = c
      · subst hdc
        exact ⟨hne, (Sched.Inside.of_running h.sched hp).within.issued, fun svc => hcalm d svc hp⟩
      · have hold : (m.vlogs d).isSome = true ∨ (m.adding d).isSome = true ∨
            (m.removing (some d)).isSome = true := by
          have hd' : (m.vlogs d).isSome = true ∨
            (Function.update m.adding c (some f) d).isSome = true ∨
            (m.removing (some d)).isSome = true := hd
          rwa [Function.update_of_ne hdc] at hd'
        refine ⟨?_, h.callers d hold⟩
        rintro rfl
        simp [hout.1, hout.2.1, hout.2.2] at hold
    refine ⟨hcaller.2.1, fun svcd hsvcd => ?_⟩
    rcases hlook d svcd hsvcd with ⟨heq, _⟩ | ⟨_, hold⟩
    · exact absurd heq hcaller.1
    · exact hcaller.2.2 svcd hold

/-- The mailbox of a new logger is there, its coroutine is spawned and its caller has a signal. -/
structure Prepared (m : LogState α) (c mailbox readySignal coro : Handle) : Prop where
  staffed : m.Staffed
  calm : m.Calm
  running : m.sched.phase = .running c
  inside : m.sched.Inside coro
  isOpen : m.mail.isOpen mailbox = true
  mailboxIssued : mailbox ∈ m.sched.issued
  signalIssued : readySignal ∈ m.sched.issued

theorem Staffed.prepare (h : m.Staffed) (ha : m.Adds c mailbox readySignal coro) :
    Prepared { m with mail := { m.mail.open' 16#32 mailbox with
      sched := (((m.mail.open' 16#32 mailbox).sched.makeSignal c readySignal).spawnEx true coro) } }
      c mailbox readySignal coro := by
  have huser : m.sched.phase.userCode = true := by rw [ha.running]; rfl
  -- The mailbox is opened.
  have hopen : (MailboxState.machine (Option α)).enabled m.mail (.open' 16#32 mailbox) :=
    ⟨⟨huser, ha.freshMailbox⟩, by decide, by decide, ha.calm.not_inRecv h⟩
  have h₁ := h.grow hopen trivial (fun _ _ _ _ _ => nofun) (MailboxState.grows_open h.inv hopen)
  set m₁ : LogState α :=
    { m with mail := (MailboxState.machine (Option α)).perform m.mail (.open' 16#32 mailbox) }
  have hissued₁ : m₁.sched.issued = mailbox :: m.sched.issued := rfl
  have hp₁ : m₁.sched.phase = .running c := ha.running
  have hfresh₁ : ∀ x, m.sched.Fresh x → x ≠ mailbox → m₁.sched.Fresh x := fun x hx hne =>
    ⟨hx.1, by rw [hissued₁, List.mem_cons, not_or]; exact ⟨hne, hx.2⟩⟩
  have hcalm₁ : m₁.Calm := ha.calm
  -- The signal is made.
  have hmake : Sched.machine.enabled m₁.sched (.makeSignal readySignal) :=
    ⟨by rw [hp₁]; rfl, hfresh₁ readySignal ha.freshSignal ha.apart.1⟩
  have h₂ := h₁.act hcalm₁ hmake nofun fun _ => rfl
  rw [Sched.perform_makeSignal hp₁] at h₂
  have hlive : m₁.sched.coros c ≠ none := (Sched.Inside.of_running h₁.sched hp₁).live
  set m₂ : LogState α := m₁.setSched (m₁.sched.makeSignal c readySignal)
  have hp₂ : m₂.sched.phase = .running c := (Sched.makeSignal_phase ..).trans hp₁
  have hcalm₂ : m₂.Calm := fun d svcd hd =>
    hcalm₁ d svcd (hp₁.trans (hp₂.symm.trans hd))
  -- The service is spawned.
  have hspawn : Sched.machine.enabled m₂.sched (.spawn true coro) :=
    ⟨by rw [hp₂]; rfl, Sched.makeSignal_fresh hlive (hfresh₁ coro ha.freshCoro ha.apart.2.1)
      ha.apart.2.2⟩
  have h₃ := h₂.act hcalm₂ hspawn nofun fun _ => rfl
  set m₃ : LogState α := m₂.setSched (Sched.machine.perform m₂.sched (.spawn true coro))
  have hp₃ : m₃.sched.phase = .running c := hp₂
  have hcoro : m₃.sched.Inside coro := by
    refine ⟨⟨List.mem_cons_self, by rw [hp₃]; nofun⟩, ?_⟩
    show Function.update m₂.sched.coros coro (some _) coro ≠ none
    rw [Function.update_self]
    nofun
  have hopen₃ : m₃.mail.isOpen mailbox = true := by
    simp [m₃, m₂, m₁, MailboxState.isOpen, setSched, MailboxState.machine, MailboxState.perform,
      MailboxState.open']
  refine ⟨h₃, hcalm₂, hp₂, hcoro, hopen₃, ?_, List.mem_cons_of_mem _ ?_⟩
  · exact List.mem_cons_of_mem _ (Sched.makeSignal_issued (List.mem_cons_self ..))
  · obtain ⟨caller, hcaller⟩ := Option.ne_none_iff_exists'.mp hlive
    show readySignal ∈ (m₁.sched.makeSignal c readySignal).issued
    simp [Sched.makeSignal, hcaller]

theorem Staffed.addLogger (h : m.Staffed) {minLevel : LogLevel}
    (ha : m.Adds c mailbox readySignal coro) :
    (m.addLogger c minLevel mailbox readySignal coro).Staffed := by
  have hprep := h.prepare ha
  have hne : c ≠ coro := by
    rintro rfl
    exact ha.freshCoro.2 (Sched.Inside.of_running h.sched ha.running).within.issued
  have hnone : m.services coro = none := by
    by_contra hsome
    obtain ⟨svcd, hd⟩ := Option.ne_none_iff_exists'.mp hsome
    exact ha.freshCoro.2 (h.services coro svcd hd).coroIssued
  have hout : ¬((m.vlogs coro).isSome = true ∨ (m.adding coro).isSome = true ∨
      (m.removing (some coro)).isSome = true) :=
    fun hcaller => ha.freshCoro.2 (h.callers coro hcaller).1
  rw [not_or, not_or, Bool.not_eq_true, Bool.not_eq_true, Bool.not_eq_true] at hout
  have h₄ := hprep.staffed.newService hprep.calm hprep.running hprep.inside hprep.isOpen
    hprep.mailboxIssued hprep.signalIssued
    (fun d f hf heq => ha.freshSignal.2 (heq ▸ h.signal_issued hf))
    ⟨(h.inv.unused mailbox ha.freshMailbox.2).2, h.silent mailbox ha.freshMailbox.2⟩
    (fun d svcd hd heq => ha.freshMailbox.2 (heq ▸ (h.services d svcd hd).issued))
    hnone hout hne ⟨minLevel, ⟨coro, mailbox⟩, readySignal⟩
  have hcalm₄ : Calm { m with
      mail := { m.mail.open' 16#32 mailbox with
        sched := ((m.mail.open' 16#32 mailbox).sched.makeSignal c readySignal).spawnEx true coro }
      services := Function.update m.services coro (some ⟨mailbox, readySignal, .starting⟩)
      adding := Function.update m.adding c (some ⟨minLevel, ⟨coro, mailbox⟩, readySignal⟩) } := by
    intro d svcd hd hsvcd
    obtain rfl := Phase.running.inj (hprep.running.symm.trans hd)
    have hsvcd' : Function.update m.services coro _ c = some svcd := hsvcd
    rw [Function.update_of_ne hne] at hsvcd'
    exact hprep.calm c svcd hprep.running hsvcd'
  have h₅ := h₄.act hcalm₄ (Sched.wait_enabled hprep.running [readySignal] true) nofun fun _ => rfl
  rw [Sched.perform_wait hprep.running] at h₅
  exact h₅

theorem Staffed.finishAdd (h : m.Staffed) {handle : Handle} (hp : m.sched.phase = .running c)
    (hadding : (m.adding c).isSome = true) (hfresh : m.sched.Fresh handle) :
    (m.finishAdd c handle).Staffed := by
  obtain ⟨f, hf⟩ := Option.isSome_iff_exists.mp hadding
  have hcalm := h.calm_of_caller hp (.inr (.inl hadding))
  have he : Sched.machine.enabled m.sched (.issue handle) := ⟨by rw [hp]; rfl, hfresh⟩
  simp only [LogState.finishAdd, hf]
  refine (h.act hcalm he nofun fun _ => rfl).book rfl rfl rfl fun d hd => .inl ?_
  rcases hd with hd | hd | hd
  · exact .inl hd
  · have hd' : (Function.update m.adding c none d).isSome = true := hd
    rw [Function.update_apply] at hd'
    split at hd'
    · cases hd'
    · exact .inr (.inl hd')
  · exact .inr (.inr hd)

theorem Staffed.removeLogger (h : m.Staffed) (hcalm : m.Calm) (logger : Handle) :
    (m.removeLogger m.sched.phase.mcoRunning logger).Staffed := by
  unfold LogState.removeLogger
  split
  · refine h.book rfl rfl rfl fun d hd => ?_
    rcases hd with hd | hd | hd
    · exact .inl (.inl hd)
    · exact .inl (.inr (.inl hd))
    · have hd' : (Function.update m.removing m.sched.phase.mcoRunning (some logger)
        (some d)).isSome = true := hd
      rw [Function.update_apply] at hd'
      split at hd'
      · next heq => exact .inr ⟨Phase.eq_running heq.symm, hcalm⟩
      · exact .inl (.inr (.inr hd'))
  · exact h

theorem Staffed.unlink (h : m.Staffed) (k : Option Handle) (logger : Handle) :
    (m.unlink k logger).Staffed := by
  refine h.book rfl rfl rfl fun d hd => .inl ?_
  rcases hd with hd | hd | hd
  · exact .inl hd
  · exact .inr (.inl hd)
  · have hd' : (Function.update m.removing k none (some d)).isSome = true := hd
    rw [Function.update_apply] at hd'
    split at hd'
    · cases hd'
    · exact .inr (.inr hd')

theorem Staffed.yield (h : m.Staffed) (hcalm : m.Calm) :
    (m.setSched (yield m.sched m.sched.phase.mcoRunning)).Staffed := by
  cases hc : m.sched.phase.mcoRunning with
  | none => exact h
  | some c =>
    have hp := Phase.eq_running hc
    have h' := h.act hcalm (Sched.yield_enabled hp) nofun fun _ => rfl
    rw [Sched.perform_yield hp] at h'
    exact h'

theorem send_phase (q : MailboxState (Option α)) (b : Handle) (x : Option α) :
    (q.send b x).1.sched.phase = q.sched.phase := by
  rcases MailboxState.send_cases q b x with ⟨heq, _⟩ | ⟨box, box', _, _, heq⟩ <;> rw [heq]
  dsimp only [MailboxState.wake]
  split
  · exact (Sched.raiseSignal_frame q.sched box.signal).2.1
  · rfl

theorem Calm.mail (hcalm : m.Calm) {mail : MailboxState (Option α)}
    (hphase : mail.sched.phase = m.sched.phase) : Calm { m with mail := mail } :=
  fun d svcd hd => hcalm d svcd (hphase.symm.trans hd)

theorem Staffed.removeStep (h : m.Staffed) (hcalm : m.Calm) (hp : m.sched.phase.userCode = true) :
    (m.removeStep m.sched.phase.mcoRunning).Staffed := by
  have hpass : m.sched.phase ≠ .pass := by
    rintro heq
    rw [heq] at hp
    cases hp
  unfold LogState.removeStep
  split
  · next logger _ =>
    split
    · next impl _ =>
      split
      · have h' := h.send hcalm hpass impl.service.mailbox none
        have hphase := send_phase m.mail impl.service.mailbox none
        dsimp only
        split
        · exact h'.unlink _ logger
        · rw [← congrArg Phase.mcoRunning hphase]
          exact h'.yield (hcalm.mail hphase)
      · exact h.unlink _ logger
    · exact h
  · exact h

theorem Staffed.setMinLogLevel (h : m.Staffed) (logger : Handle) (level : LogLevel) :
    (m.setMinLogLevel logger level).Staffed := by
  unfold LogState.setMinLogLevel
  split
  · refine h.book rfl rfl rfl fun d hd => .inl ?_
    rcases hd with hd | hd | hd
    · exact .inl (by simpa using hd)
    · exact .inr (.inl hd)
    · exact .inr (.inr hd)
  · exact h

theorem Staffed.setVlog (h : m.Staffed) (hcalm : m.Calm) (hp : m.sched.phase = .running c)
    (f : Option (VlogFrame α)) : (m.setVlog c f).Staffed := by
  refine h.book rfl rfl rfl fun d hd => ?_
  rcases hd with hd | hd | hd
  · have hd' : (Function.update m.vlogs c f d).isSome = true := hd
    rw [Function.update_apply] at hd'
    split at hd'
    · next heq => exact .inr ⟨heq ▸ hp, hcalm⟩
    · exact .inl (.inl hd')
  · exact .inl (.inr (.inl hd))
  · exact .inl (.inr (.inr hd))

theorem Staffed.vlogStep (h : m.Staffed) (hp : m.sched.phase = .running c) {f : VlogFrame α}
    (hf : m.vlogs c = some f) (garbage : LoggerImpl) (garbageNext : Option Handle) :
    (m.vlogStep c f garbage garbageNext).Staffed := by
  have hcalm := h.calm_of_caller hp (.inl (by rw [hf]; rfl))
  unfold LogState.vlogStep
  split
  · exact (h.setVlog hcalm hp none).book rfl rfl rfl fun _ hd => .inl hd
  · dsimp only
    split
    · split
      · exact h.setVlog hcalm hp _
      · split
        · exact h.setVlog hcalm hp _
        · exact h.setVlog hcalm hp _
    · exact h.setVlog hcalm hp _
  · next message x next _ =>
    dsimp only
    split
    · have hpass : m.sched.phase ≠ .pass := by
        rw [hp]
        nofun
      set b := (m.readLogger x garbage).service.mailbox
      have hphase := send_phase m.mail b (some message)
      have h' := h.send hcalm hpass b (some message)
      have hcalm' : Calm { m with mail := (m.mail.send b (some message)).1 } := hcalm.mail hphase
      split
      · exact h'.setVlog hcalm' (hphase.trans hp) _
      · have hp' : (m.mail.send b (some message)).1.sched.phase = .running c := hphase.trans hp
        have hyield := (h'.setVlog hcalm' hp' (some (f.read (m.impls x).isSome))).act hcalm'
          (Sched.yield_enabled hp') nofun fun _ => rfl
        exact (congrArg (fun s => Staffed ((LogState.setSched
          { m with mail := (m.mail.send b (some message)).1 } s).setVlog c
          (some (f.read (m.impls x).isSome)))) (Sched.perform_yield hp')).mp hyield
    · exact h.setVlog hcalm hp _

/-! ## What each action is -/

theorem running_of_user (h : m.sched.phase.mcoRunning.isSome = true) :
    ∃ c, m.sched.phase = .running c := by
  obtain ⟨c, hc⟩ := Option.isSome_iff_exists.mp h
  exact ⟨c, Phase.eq_running hc⟩

theorem inCoro_eq (hp : m.sched.phase = .running c) (f : Handle → LogState α) : m.inCoro f = f c := by
  simp only [inCoro, hp, Phase.mcoRunning]

/-- The coroutine that calls `bio_vlog`. -/
theorem begin_of_enabled {level : LogLevel} {text : Option α}
    (he : (machine α).enabled m (.vlog level text)) : ∃ c, m.sched.phase = .running c ∧
      (machine α).perform m (.vlog level text) = m.vlog c level text := by
  obtain ⟨c, hp⟩ := running_of_user he.1
  exact ⟨c, hp, inCoro_eq hp _⟩

/-- The call of `bio_vlog` that goes on. -/
theorem vlog_of_enabled {garbage : LoggerImpl} {garbageNext : Option Handle}
    (he : (machine α).enabled m (.vlogStep garbage garbageNext)) :
    ∃ c f, m.sched.phase = .running c ∧ m.vlogs c = some f ∧
      (machine α).perform m (.vlogStep garbage garbageNext) =
        m.vlogStep c f garbage garbageNext := by
  obtain ⟨c, hc, hsome⟩ := (Option.any_eq_true _ _).mp he
  obtain ⟨f, hf⟩ := Option.isSome_iff_exists.mp hsome
  refine ⟨c, f, Phase.eq_running hc, hf, ?_⟩
  show m.inCoro _ = _
  simp only [inCoro, hc, hf]

/-- The call of `bio_add_logger` that goes on. -/
theorem add_of_enabled {handle : Handle} (he : (machine α).enabled m (.finishAdd handle)) :
    ∃ c f, m.sched.phase = .running c ∧ m.adding c = some f ∧ m.sched.Fresh handle ∧
      (machine α).perform m (.finishAdd handle) = m.finishAdd c handle := by
  obtain ⟨hany, hfresh⟩ := he
  obtain ⟨c, hc, hsome⟩ := (Option.any_eq_true _ _).mp hany
  obtain ⟨f, hf⟩ := Option.isSome_iff_exists.mp hsome
  exact ⟨c, f, Phase.eq_running hc, hf, hfresh, inCoro_eq (Phase.eq_running hc) _⟩

/-- The call of `bio_remove_logger` that goes on. -/
theorem remove_calm (h : m.Staffed) (he : (machine α).enabled m .removeStep) : m.Calm := by
  intro c svc hp hsvc
  have hsome := he.2
  rw [hp] at hsome
  exact h.calm_of_caller hp (.inr (.inr hsome)) c svc hp hsvc

/-- The step lemma. -/
theorem Staffed.step (h : m.Staffed) {a : LogAction α} (he : (machine α).enabled m a) :
    ((machine α).perform m a).Staffed := by
  cases a with
  | sched a => exact h.program he
  | addLogger minLevel mailbox readySignal coro =>
    obtain ⟨c, ha, heq⟩ := adds_of_enabled he
    rw [heq]
    exact h.addLogger ha
  | finishAdd handle =>
    obtain ⟨c, f, hp, hf, hfresh, heq⟩ := add_of_enabled he
    rw [heq]
    exact h.finishAdd hp (by rw [hf]; rfl) hfresh
  | removeLogger logger => exact h.removeLogger (calm_of_inProgram he.2) logger
  | removeStep => exact h.removeStep (remove_calm h he) he.1
  | setMinLogLevel logger level => exact h.setMinLogLevel logger level
  | vlog level text =>
    obtain ⟨c, hp, heq⟩ := begin_of_enabled he
    rw [heq]
    exact h.setVlog (calm_of_inProgram he.2) hp _
  | vlogStep garbage garbageNext =>
    obtain ⟨c, f, hp, hf, heq⟩ := vlog_of_enabled he
    rw [heq]
    exact h.vlogStep hp hf garbage garbageNext
  | serviceStep signal =>
    obtain ⟨c, svc, hs, heq⟩ := serving_of_enabled he
    rw [heq]
    exact h.serviceStep hs

theorem Staffed.init : (init : LogState α).Staffed :=
  ⟨.init rfl, fun _ _ hc => (by cases hc), fun _ _ _ _ hc => (by cases hc), fun _ _ hc => (by cases hc),
    fun _ hc => (by rcases hc with h | h | h <;> cases h), fun _ _ => rfl⟩

end LogState

end Bio
