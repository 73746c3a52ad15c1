import Bio.Mailbox
import Bio.SchedulerLocal

/-!
# Mailboxes under all interleavings

* `MailboxState.sched_joined`: an action on mailboxes is a run of the scheduler, of which it names
  the actions. This is how facts about the scheduler carry over.
* `MailboxState.Inv`: each mailbox is a window of its ring, and a receiver that waits has its signal
  in an open and empty mailbox.

Result: `mailbox_fifo`.
-/

namespace Bio

/-! ## Mailbox actions as runs of the scheduler -/

namespace MailboxState

variable {α : Type*} {m : MailboxState α}

def wakeActions (signal : Handle) : List Action :=
  if signal.isValid then [.raise signal] else []

/-- The actions of the scheduler that an action amounts to. -/
def schedActions (m : MailboxState α) : MailboxAction α → List Action
  | .sched a => [a]
  | .open' _ handle => [.issue handle]
  | .close handle =>
    match m.mailboxes handle with
    | some box => wakeActions box.signal
    | none => []
  | .send handle _ =>
    match m.mailboxes handle with
    | some box => if box.write - box.read < box.capacity then wakeActions box.signal else []
    | none => []
  | .recv handle signal =>
    match m.mailboxes handle with
    | some box =>
      if box.read = box.write ∧ box.signal.isValid = false ∧ m.sched.phase.mcoRunning.isSome then
        [.makeSignal signal, .wait [signal] true]
      else []
    | none => []
  | .resumeRecv => []

theorem take_sched (m : MailboxState α) (handle : Handle) : (m.take handle).1.sched = m.sched := by
  unfold take
  split
  · dsimp only
    split <;> rfl
  · rfl

/-- The scheduler with the phase fixed that an action of mailboxes starts in, doing only what the
action amounts to. -/
def schedPart (m : MailboxState α) (a : MailboxAction α) : Machine Sched Action :=
  Sched.machine.restrict fun s b => s.phase = m.sched.phase ∧ b ∈ m.schedActions a

theorem joined_wake {a : MailboxAction α} {signal : Handle} (hp : m.sched.phase ≠ .pass)
    (ha : m.schedActions a = wakeActions signal) :
    (m.schedPart a).Joined m.sched (wake m.sched signal) := by
  unfold wake
  split
  · next hvalid =>
    refine Machine.Joined.single (a := Action.raise signal) ⟨hp, rfl, ?_⟩
    simp [ha, wakeActions, hvalid]
  · exact Machine.Joined.refl _

theorem joined_park {a : MailboxAction α} {c signal : Handle} (hp : m.sched.phase = .running c)
    (hi : m.sched.Inv) (fresh : m.sched.Fresh signal)
    (ha : m.schedActions a = [.makeSignal signal, .wait [signal] true]) :
    (m.schedPart a).Joined m.sched
      ((m.sched.makeSignal c signal).waitForSignals c [signal] true) := by
  obtain ⟨coro, hc⟩ := Sched.live_of_active (c := c) hi (by rw [hp]; rfl)
  have hphase : (m.sched.makeSignal c signal).phase = .running c := by
    simp [Sched.makeSignal, hc, hp]
  have hmake := Machine.Joined.single (M := m.schedPart a) (s := m.sched)
    (a := Action.makeSignal signal) ⟨⟨by simp [hp, Phase.mcoRunning], fresh⟩, rfl, by simp [ha]⟩
  have hwait := Machine.Joined.single (M := m.schedPart a) (s := m.sched.makeSignal c signal)
    (a := Action.wait [signal] true)
    ⟨show Option.isSome _ = true by rw [hphase]; rfl, hphase.trans hp.symm, by simp [ha]⟩
  rw [show (m.schedPart a).perform = Sched.machine.perform from rfl] at hmake hwait
  rw [Sched.perform_makeSignal hp] at hmake
  rw [Sched.perform_wait hphase] at hwait
  exact hmake.trans hwait

/-- An action on mailboxes is a run of the scheduler. -/
theorem sched_joined (hi : m.sched.Inv) {a : MailboxAction α} (he : (machine α).enabled m a) :
    (m.schedPart a).Joined m.sched ((machine α).perform m a).sched := by
  cases a with
  | sched a =>
    exact Machine.Joined.single (M := m.schedPart (.sched a)) (a := a)
      ⟨he.1, rfl, List.mem_singleton.mpr rfl⟩
  | open' capacity handle =>
    exact Machine.Joined.single (M := m.schedPart (.open' capacity handle))
      (a := Action.issue handle) ⟨he.1, rfl, List.mem_singleton.mpr rfl⟩
  | close handle =>
    show (m.schedPart _).Joined _ (m.close handle).sched
    unfold close
    split
    · next box hbox => exact joined_wake he.1 (by simp [schedActions, hbox])
    · exact Machine.Joined.refl _
  | send handle message =>
    show (m.schedPart _).Joined _ (m.send handle message).1.sched
    unfold send
    split
    · next box hbox =>
      split
      · next hroom => exact joined_wake he.1 (by simp [schedActions, hbox, hroom])
      · exact Machine.Joined.refl _
    · exact Machine.Joined.refl _
  | recv handle signal =>
    have htake : (m.schedPart (.recv handle signal)).Joined m.sched (m.take handle).1.sched := by
      rw [take_sched]
      exact Machine.Joined.refl _
    show (m.schedPart _).Joined _ (m.recv handle signal).1.sched
    unfold recv
    split
    · next box hbox =>
      split
      · next hempty =>
        split
        · exact Machine.Joined.refl _
        · next hfree =>
          split
          · next c hc =>
            refine joined_park (Phase.eq_running hc) hi he.2.1 ?_
            simp [schedActions, hbox, hempty, hfree, hc]
          · exact htake
      · exact htake
    · exact Machine.Joined.refl _
  | resumeRecv =>
    show (m.schedPart _).Joined _ m.resumeRecv.sched
    unfold resumeRecv
    split
    · split
      · dsimp only
        rw [take_sched]
        exact Machine.Joined.refl _
      · exact Machine.Joined.refl _
    · exact Machine.Joined.refl _

end MailboxState

/-! ## What an action of the mailboxes changes -/

namespace MailboxState

variable {α : Type*} {m : MailboxState α} {a : MailboxAction α}

/-- What `take` leaves alone, and what it does to the mailboxes. -/
theorem take_frame (m : MailboxState α) (handle : Handle) :
    (m.take handle).1.sent = m.sent ∧ (m.take handle).1.receiving = m.receiving ∧
    ∀ h box, (m.take handle).1.mailboxes h = some box →
      ∃ old, m.mailboxes h = some old ∧ old.signal = box.signal := by
  unfold take
  split
  · next old hold =>
    dsimp only
    split
    · refine ⟨rfl, rfl, fun h box hbox => ?_⟩
      have hbox' : Function.update m.mailboxes handle _ h = some box := hbox
      rw [Function.update_apply] at hbox'
      split at hbox'
      · next heq =>
        subst heq
        cases hbox'
        exact ⟨old, hold, rfl⟩
      · exact ⟨box, hbox', rfl⟩
    · exact ⟨rfl, rfl, fun h box hbox => ⟨box, hbox, rfl⟩⟩
  · exact ⟨rfl, rfl, fun h box hbox => ⟨box, hbox, rfl⟩⟩

theorem recv_cases (m : MailboxState α) (handle signal : Handle) :
    (m.recv handle signal).1 = m ∨ (m.recv handle signal).1 = (m.take handle).1 ∨
      ∃ box c, m.mailboxes handle = some box ∧ m.sched.phase = .running c ∧
        (m.recv handle signal).1 = { m with
          mailboxes := Function.update m.mailboxes handle (some { box with signal := signal })
          sched := (m.sched.makeSignal c signal).waitForSignals c [signal] true
          receiving := Function.update m.receiving c (some ⟨handle, signal⟩) } := by
  unfold recv
  split
  · next box hbox =>
    split
    · split
      · exact .inl rfl
      · split
        · next c hc => exact .inr (.inr ⟨box, c, hbox, Phase.eq_running hc, rfl⟩)
        · exact .inr (.inl rfl)
    · exact .inr (.inl rfl)
  · exact .inl rfl

theorem resumeRecv_cases (m : MailboxState α) :
    m.resumeRecv = m ∨ ∃ handle c, m.sched.phase = .running c ∧
      m.resumeRecv = { (m.take handle).1 with receiving := Function.update m.receiving c none } := by
  unfold resumeRecv
  split
  · next c hc =>
    split
    · next f hf => exact .inr ⟨f.mailbox, c, Phase.eq_running hc, rfl⟩
    · exact .inl rfl
  · exact .inl rfl

theorem send_cases (m : MailboxState α) (handle : Handle) (message : α) :
    (m.send handle message).1 = m ∧ (m.send handle message).2 = false ∨
      ∃ box box', m.mailboxes handle = some box ∧ box'.signal = Handle.invalid ∧
        m.send handle message = ({ m with
          mailboxes := Function.update m.mailboxes handle (some box')
          sched := wake m.sched box.signal
          sent := Function.update m.sent handle (m.sent handle ++ [message]) }, true) := by
  unfold send
  split
  · next box hbox =>
    split
    · exact .inr ⟨box, _, hbox, rfl, rfl⟩
    · exact .inl ⟨rfl, rfl⟩
  · exact .inl ⟨rfl, rfl⟩

/-- Messages are sent by `send` only. -/
theorem perform_sent (m : MailboxState α) (a : MailboxAction α) (h : Handle) :
    ((machine α).perform m a).sent h = m.sent h ∨
      ∃ message, a = .send h message ∧
        ((machine α).perform m a).sent h = m.sent h ++ [message] := by
  cases a with
  | sched a => exact .inl rfl
  | open' capacity handle => exact .inl rfl
  | close handle =>
    refine .inl ?_
    show (m.close handle).sent h = _
    unfold close
    split <;> rfl
  | send handle message =>
    show (m.send handle message).1.sent h = _ ∨ _
    rcases send_cases m handle message with ⟨heq, _⟩ | ⟨box, box', _, _, heq⟩
    · rw [heq]
      exact .inl rfl
    · have hsent : (m.send handle message).1.sent h =
          Function.update m.sent handle (m.sent handle ++ [message]) h := by rw [heq]
      by_cases hh : h = handle
      · subst hh
        exact .inr ⟨message, rfl, hsent.trans (Function.update_self ..)⟩
      · exact .inl (hsent.trans (Function.update_of_ne hh ..))
  | recv handle signal =>
    refine .inl ?_
    show (m.recv handle signal).1.sent h = _
    rcases recv_cases m handle signal with heq | heq | ⟨_, _, _, _, heq⟩ <;> rw [heq]
    rw [(take_frame m handle).1]
  | resumeRecv =>
    refine .inl ?_
    show m.resumeRecv.sent h = _
    rcases resumeRecv_cases m with heq | ⟨handle, c, _, heq⟩ <;> rw [heq]
    exact congrFun (take_frame m handle).1 h

/-- Only the running coroutine enters `bio__mailbox_recv`. -/
theorem perform_receiving (m : MailboxState α) (a : MailboxAction α) {c : Handle}
    (hp : m.sched.phase ≠ .running c) :
    ((machine α).perform m a).receiving c = m.receiving c := by
  cases a with
  | sched a => rfl
  | open' capacity handle => rfl
  | close handle =>
    show (m.close handle).receiving c = _
    unfold close
    split <;> rfl
  | send handle message =>
    show (m.send handle message).1.receiving c = _
    unfold send
    split
    · split <;> rfl
    · rfl
  | recv handle signal =>
    show (m.recv handle signal).1.receiving c = _
    rcases recv_cases m handle signal with heq | heq | ⟨_, d, _, hd, heq⟩ <;> rw [heq]
    · rw [(take_frame m handle).2.1]
    · have hne : c ≠ d := fun hcd => hp (hcd ▸ hd)
      exact Function.update_of_ne hne ..
  | resumeRecv =>
    show m.resumeRecv.receiving c = _
    rcases resumeRecv_cases m with heq | ⟨handle, d, hd, heq⟩ <;> rw [heq]
    have hne : c ≠ d := fun hcd => hp (hcd ▸ hd)
    exact Function.update_of_ne hne ..

/-- Where the signal in a mailbox comes from. -/
theorem perform_signal (m : MailboxState α) (a : MailboxAction α) {h : Handle} {box : Mailbox α}
    (hbox : ((machine α).perform m a).mailboxes h = some box) :
    box.signal = Handle.invalid ∨ (∃ old, m.mailboxes h = some old ∧ old.signal = box.signal) ∨
      ∃ handle, a = .recv handle box.signal := by
  have hkeep : ∀ b : Mailbox α, m.mailboxes h = some b → b.signal = box.signal →
      box.signal = Handle.invalid ∨ (∃ old, m.mailboxes h = some old ∧ old.signal = box.signal) ∨
      ∃ handle, a = .recv handle box.signal := fun b hb heq => .inr (.inl ⟨b, hb, heq⟩)
  cases a with
  | sched a => exact hkeep box hbox rfl
  | open' capacity handle =>
    rcases Table.update_some hbox with ⟨_, hv⟩ | ⟨_, hold⟩
    · cases hv
      exact .inl rfl
    · exact hkeep box hold rfl
  | close handle =>
    have hbox' : (m.close handle).mailboxes h = some box := hbox
    unfold close at hbox'
    split at hbox'
    · rcases Table.update_some hbox' with ⟨_, hv⟩ | ⟨_, hold⟩
      · cases hv
      · exact hkeep box hold rfl
    · exact hkeep box hbox' rfl
  | send handle message =>
    have hbox' : (m.send handle message).1.mailboxes h = some box := hbox
    rcases send_cases m handle message with ⟨heq, _⟩ | ⟨b, b', _, hinvalid, heq⟩ <;>
      rw [heq] at hbox'
    · exact hkeep box hbox' rfl
    · rcases Table.update_some hbox' with ⟨_, hv⟩ | ⟨_, hold⟩
      · cases hv
        exact .inl hinvalid
      · exact hkeep box hold rfl
  | recv handle signal =>
    have hbox' : (m.recv handle signal).1.mailboxes h = some box := hbox
    rcases recv_cases m handle signal with heq | heq | ⟨b, d, _, _, heq⟩ <;> rw [heq] at hbox'
    · exact hkeep box hbox' rfl
    · obtain ⟨old, hold, hsig⟩ := (take_frame m handle).2.2 h box hbox'
      exact hkeep old hold hsig
    · rcases Table.update_some hbox' with ⟨_, hv⟩ | ⟨_, hold⟩
      · cases hv
        exact .inr (.inr ⟨handle, rfl⟩)
      · exact hkeep box hold rfl
  | resumeRecv =>
    have hbox' : m.resumeRecv.mailboxes h = some box := hbox
    rcases resumeRecv_cases m with heq | ⟨handle, d, _, heq⟩ <;> rw [heq] at hbox'
    · exact hkeep box hbox' rfl
    · obtain ⟨old, hold, hsig⟩ := (take_frame m handle).2.2 h box hbox'
      exact hkeep old hold hsig

/-- An action names a signal through the scheduler, or wakes a receiver. -/
theorem schedActions_names {b : Action} (hb : b ∈ m.schedActions a) {h : Handle}
    (hnames : b.names h = true) :
    a = .sched b ∨ ∃ handle box, m.mailboxes handle = some box ∧ box.signal = h := by
  have hwake : ∀ handle box, m.mailboxes handle = some box → b ∈ wakeActions box.signal →
      a = .sched b ∨ ∃ handle box, m.mailboxes handle = some box ∧ box.signal = h := by
    intro handle box hbox hmem
    unfold wakeActions at hmem
    split at hmem
    · obtain rfl := List.mem_singleton.mp hmem
      exact .inr ⟨handle, box, hbox, by simpa [Action.names] using hnames⟩
    · cases hmem
  cases a with
  | sched a => exact .inl (List.mem_singleton.mp hb ▸ rfl)
  | open' capacity handle =>
    obtain rfl := List.mem_singleton.mp hb
    cases hnames
  | close handle =>
    simp only [schedActions] at hb
    split at hb
    · next box hbox => exact hwake handle box hbox hb
    · cases hb
  | send handle message =>
    simp only [schedActions] at hb
    split at hb
    · next box hbox =>
      split at hb
      · exact hwake handle box hbox hb
      · cases hb
    · cases hb
  | recv handle signal =>
    simp only [schedActions] at hb
    split at hb
    · split at hb
      · simp only [List.mem_cons, List.not_mem_nil, or_false] at hb
        rcases hb with rfl | rfl <;> cases hnames
      · cases hb
    · cases hb
  | resumeRecv => cases hb

end MailboxState

/-! ## One mailbox -/

namespace Mailbox

variable {α : Type*} {box : Mailbox α} {k : Nat} {contents : List α}

/-- The mailbox has `2 ^ k` slots and holds the messages of the list. -/
structure Holds (box : Mailbox α) (k : Nat) (contents : List α) : Prop where
  window : Ring.Window k box.capacity box.read box.data contents
  write : box.write = box.read + BitVec.ofNat 32 contents.length

theorem Holds.toNat_size (h : box.Holds k contents) :
    (box.write - box.read).toNat = contents.length := by
  rw [h.write]
  exact h.window.toNat_size

theorem Holds.read_eq_write (h : box.Holds k contents) : box.read = box.write ↔ contents = [] := by
  rw [h.write]
  exact h.window.read_eq_write

theorem Holds.room_iff (h : box.Holds k contents) :
    box.write - box.read < box.capacity ↔ contents.length < 2 ^ k := by
  rw [BitVec.lt_def, h.toNat_size, h.window.size]

theorem Holds.push (h : box.Holds k contents) (hroom : contents.length < 2 ^ k) (message : α)
    (signal : Handle) : Holds
      { box with
        write := box.write + 1#32
        data := Function.update box.data (Ring.index box.write box.capacity) (some message)
        signal := signal } k (contents ++ [message]) := by
  constructor
  · have hwindow := h.window.push hroom message
    rwa [← h.write] at hwindow
  · show box.write + 1#32 = box.read + _
    rw [h.write, List.length_append, List.length_singleton, BitVec.ofNat_add, BitVec.add_assoc]

theorem Holds.pop {message : α} (h : box.Holds k (message :: contents)) :
    box.data (Ring.index box.read box.capacity) = some message ∧
      Holds { box with read := box.read + 1#32 } k contents := by
  refine ⟨h.window.head, h.window.pop, ?_⟩
  show box.write = box.read + 1#32 + _
  rw [h.write, List.length_cons, Nat.add_comm, BitVec.ofNat_add, BitVec.add_assoc]

end Mailbox

/-! ## The invariant -/

namespace MailboxState

variable {α : Type*} {m : MailboxState α}

/-- The receiver left its signal in the mailbox, which is open and empty. -/
def Drained (m : MailboxState α) (f : RecvFrame) : Prop :=
  ∃ box, m.mailboxes f.mailbox = some box ∧ box.signal = f.signal ∧ box.read = box.write

/-- What holds of a call of `bio__mailbox_recv` that is suspended. -/
structure FrameOk (m : MailboxState α) (c : Handle) (f : RecvFrame) : Prop where
  valid : f.signal.isValid = true
  within : m.sched.Within c
  sleeps : m.sched.Sleeps c f.signal (m.Drained f)

/-- The mailbox with the handle `h` holds what was sent and not received. -/
structure BoxOk (m : MailboxState α) (h : Handle) (box : Mailbox α) : Prop where
  issued : h ∈ m.sched.issued
  signal : box.signal.isValid = true → box.signal ∈ m.sched.issued
  capacity : IsLeast {p : Nat | (∃ k, p = 2 ^ k) ∧ (m.requested h).toNat ≤ p} box.capacity.toNat
  holds : ∃ k contents, box.Holds k contents ∧
    (m.sent h).map some = m.received h ++ contents.map some

structure Inv (m : MailboxState α) : Prop where
  sched : Sched.machine.Reachable m.sched
  unused : ∀ h, h ∉ m.sched.issued → m.sent h = [] ∧ m.received h = []
  fifo : ∀ h, m.received h <+: (m.sent h).map some
  boxes : ∀ h box, m.mailboxes h = some box → m.BoxOk h box
  frames : ∀ c f, m.receiving c = some f → m.FrameOk c f

theorem Inv.init : (init : MailboxState α).Inv :=
  ⟨.init rfl, fun _ _ => ⟨rfl, rfl⟩, fun _ => List.prefix_rfl, nofun, nofun⟩

theorem idle_of_inRecv (h : m.inRecv = false) {c : Handle} {f : RecvFrame}
    (hf : m.receiving c = some f) : m.sched.phase ≠ .running c := by
  intro hp
  simp [inRecv, hp, Phase.mcoRunning, hf] at h

theorem Inv.sched_step (hi : m.Inv) {a : MailboxAction α} (he : (machine α).enabled m a) :
    Sched.machine.Reachable ((machine α).perform m a).sched ∧
      m.sched.issued ⊆ ((machine α).perform m a).sched.issued := by
  refine (sched_joined (Sched.inv_of_reachable hi.sched).1 he).invariant
    (P := fun s => Sched.machine.Reachable s ∧ m.sched.issued ⊆ s.issued) ?_
    ⟨hi.sched, List.Subset.refl _⟩
  rintro s b ⟨hr, hsub⟩ ⟨hen, _⟩
  have hclosed := (Sched.Effect.of_step hen).stays_closed
  exact ⟨hr.step hen, fun h hh => hclosed.issued h (hsub hh)⟩

/-- A receiver that is not running stays asleep, or is woken. -/
theorem Inv.frame_step (hi : m.Inv) {a : MailboxAction α} (he : (machine α).enabled m a)
    {c : Handle} {f : RecvFrame} (hf : m.receiving c = some f)
    (hidle : m.sched.phase ≠ .running c) :
    ((machine α).perform m a).sched.Within c ∧
      ((machine α).perform m a).sched.Sleeps c f.signal (m.Drained f) := by
  obtain ⟨_, hwithin, hsleeps⟩ := hi.frames c f hf
  have hjoined := sched_joined (Sched.inv_of_reachable hi.sched).1 he
  refine (hjoined.invariant (P := fun s => Sched.machine.Reachable s ∧ s.Within c ∧
    s.Sleeps c f.signal (m.Drained f)) ?_ ⟨hi.sched, hwithin, hsleeps⟩).2
  rintro s b ⟨hr, hw, hs⟩ ⟨hen, hphase, _⟩
  have heff := Sched.Effect.of_step hen
  exact ⟨hr.step hen, hw.effect heff (hphase ▸ hidle),
    hs.effect heff (Sched.inv_of_reachable hr).1 hw (hphase ▸ hidle)⟩

variable {m' : MailboxState α}

/-- A mailbox that an action does not touch. -/
theorem BoxOk.other {h : Handle} {box : Mailbox α} (hb : m.BoxOk h box)
    (hissued : m.sched.issued ⊆ m'.sched.issued) (hreq : m'.requested h = m.requested h)
    (hsent : m'.sent h = m.sent h) (hreceived : m'.received h = m.received h) :
    m'.BoxOk h box := by
  refine ⟨hissued hb.issued, fun hvalid => hissued (hb.signal hvalid), ?_, ?_⟩
  · rw [hreq]
    exact hb.capacity
  · rw [hsent, hreceived]
    exact hb.holds

/-- One mailbox changes. -/
theorem boxes_update {handle h : Handle} {box b : Mailbox α}
    (hboxes : m'.mailboxes = Function.update m.mailboxes handle (some box))
    (hself : m'.BoxOk handle box)
    (hother : ∀ h b, h ≠ handle → m.mailboxes h = some b → m'.BoxOk h b)
    (hb : m'.mailboxes h = some b) : m'.BoxOk h b := by
  rw [hboxes, Function.update_apply] at hb
  split at hb
  · next heq =>
    rw [heq, ← Option.some.inj hb]
    exact hself
  · next hne => exact hother h b hne hb

theorem Drained.other {f : RecvFrame} (hd : m.Drained f) {h : Handle} {v : Option (Mailbox α)}
    (hboxes : m'.mailboxes = Function.update m.mailboxes h v) (hne : f.mailbox ≠ h) :
    m'.Drained f := by
  obtain ⟨box, hbox, hrest⟩ := hd
  exact ⟨box, by rw [hboxes, Function.update_of_ne hne, hbox], hrest⟩

/-- A receiver that waits on a mailbox is woken when the mailbox is sent to or closed. -/
theorem Inv.sleeps_wake (hi : m.Inv) {handle : Handle} {box : Mailbox α}
    (hbox : m.mailboxes handle = some box) {c : Handle} {f : RecvFrame}
    (hf : m.receiving c = some f) {v : Option (Mailbox α)}
    (hboxes : m'.mailboxes = Function.update m.mailboxes handle v) :
    (wake m.sched box.signal).Sleeps c f.signal (m'.Drained f) := by
  have hok := hi.frames c f hf
  have hwake : (wake m.sched box.signal).Sleeps c f.signal
      (m.Drained f ∧ (box.signal.isValid = true → box.signal ≠ f.signal)) := by
    unfold wake
    split
    · exact (hok.sleeps.raiseSignal box.signal).mono fun ⟨hd, hne⟩ => ⟨hd, fun _ => hne⟩
    · next hinvalid => exact hok.sleeps.mono fun hd => ⟨hd, fun hvalid => absurd hvalid hinvalid⟩
  -- A receiver that still sleeps waits on another mailbox: in this one its signal was raised.
  refine hwake.mono fun ⟨hd, hne⟩ => hd.other hboxes fun heq => ?_
  obtain ⟨b, hb, hsig, _⟩ := hd
  obtain rfl := Option.some.inj (hbox.symm.trans (heq ▸ hb))
  exact hne (hsig ▸ hok.valid) hsig

/-! ## Every action keeps the invariant -/

theorem Inv.schedAction (hi : m.Inv) {a : Action} (he : (machine α).enabled m (.sched a)) :
    ((machine α).perform m (.sched a)).Inv := by
  obtain ⟨hr, hsub⟩ := hi.sched_step he
  refine ⟨hr, fun h hh => hi.unused h fun hold => hh (hsub hold), hi.fifo, fun h box hbox => ?_,
    fun c f hf => ?_⟩
  · exact (hi.boxes h box hbox).other hsub rfl rfl rfl
  · obtain ⟨hw, hs⟩ := hi.frame_step he hf (idle_of_inRecv he.2 hf)
    exact ⟨(hi.frames c f hf).valid, hw, hs⟩

theorem Inv.openBox (hi : m.Inv) {capacity : BitVec 32} {handle : Handle}
    (he : (machine α).enabled m (.open' capacity handle)) :
    ((machine α).perform m (.open' capacity handle)).Inv := by
  obtain ⟨hr, hsub⟩ := hi.sched_step he
  have hframe := fun c f => hi.frame_step he (c := c) (f := f)
  obtain ⟨⟨_, fresh⟩, hpos, hle, hnot⟩ := he
  have hold : ∀ h, h ∈ m.sched.issued → h ≠ handle := fun h hh heq => fresh.2 (heq ▸ hh)
  refine ⟨hr, fun h hh => hi.unused h fun hmem => hh (hsub hmem), hi.fifo, fun h box hbox => ?_,
    fun c f hf => ?_⟩
  · refine boxes_update rfl ?_ (fun h b hne hb =>
      (hi.boxes h b hb).other hsub (Function.update_of_ne hne ..) rfl rfl) hbox
    have hleast := nextPow2_isLeast hpos hle
    obtain ⟨k, hk⟩ := hleast.1.1
    have hreq : ((machine α).perform m (.open' capacity handle)).requested handle = capacity :=
      Function.update_self ..
    -- The handle is new, so nothing was sent to it or received from it.
    obtain ⟨hsent, hreceived⟩ := hi.unused handle fresh.2
    refine ⟨List.mem_cons_self, nofun, ?_, k, [], ⟨Ring.Window.empty hk, by simp⟩, ?_⟩
    · rw [hreq]
      exact hleast
    show (m.sent handle).map some = m.received handle ++ _
    rw [hsent, hreceived]
    rfl
  · obtain ⟨hw, hs⟩ := hframe c f hf (idle_of_inRecv hnot hf)
    refine ⟨(hi.frames c f hf).valid, hw, hs.mono fun hd => ?_⟩
    have ⟨box, hbox, _⟩ := hd
    exact hd.other rfl (hold _ (hi.boxes _ _ hbox).issued)

theorem Inv.closeBox (hi : m.Inv) {handle : Handle} (he : (machine α).enabled m (.close handle)) :
    ((machine α).perform m (.close handle)).Inv := by
  obtain ⟨hr, hsub⟩ := hi.sched_step he
  have hframe := fun c f => hi.frame_step he (c := c) (f := f)
  have hperform : (machine α).perform m (.close handle) = m.close handle := rfl
  rw [hperform] at hr hsub hframe ⊢
  cases hbox : m.mailboxes handle with
  | none =>
    simp only [close, hbox]
    exact hi
  | some box =>
    simp only [close, hbox] at hr hsub hframe ⊢
    refine ⟨hr, fun h hh => hi.unused h fun hmem => hh (hsub hmem), hi.fifo, fun h b hb => ?_,
      fun c f hf => ?_⟩
    · have hb' : Function.update m.mailboxes handle none h = some b := hb
      exact (hi.boxes h b (Table.erase_some hb').2).other hsub rfl rfl rfl
    · exact ⟨(hi.frames c f hf).valid, (hframe c f hf (idle_of_inRecv he.2 hf)).1,
        hi.sleeps_wake hbox hf rfl⟩

theorem Inv.sendTo (hi : m.Inv) {handle : Handle} {message : α}
    (he : (machine α).enabled m (.send handle message)) :
    ((machine α).perform m (.send handle message)).Inv := by
  obtain ⟨hr, hsub⟩ := hi.sched_step he
  have hframe := fun c f => hi.frame_step he (c := c) (f := f)
  have hperform : (machine α).perform m (.send handle message) = (m.send handle message).1 := rfl
  rw [hperform] at hr hsub hframe ⊢
  cases hbox : m.mailboxes handle with
  | none =>
    simp only [send, hbox]
    exact hi
  | some box =>
    obtain ⟨k, contents, hholds, hsent⟩ := (hi.boxes handle box hbox).holds
    by_cases hroom : box.write - box.read < box.capacity
    · simp only [send, hbox, hroom, if_true] at hr hsub hframe ⊢
      refine ⟨hr, fun h hh => ?_, fun h => ?_, fun h b hb => ?_, fun c f hf => ?_⟩
      · have hne : h ≠ handle := fun heq => hh (hsub (heq ▸ (hi.boxes handle box hbox).issued))
        obtain ⟨hs, hrec⟩ := hi.unused h fun hmem => hh (hsub hmem)
        exact ⟨(Function.update_of_ne hne ..).trans hs, hrec⟩
      · show m.received h <+: (Function.update m.sent handle _ h).map some
        rw [Function.update_apply]
        split
        · next heq =>
          subst heq
          rw [List.map_append]
          exact (hi.fifo h).trans (List.prefix_append _ _)
        · exact hi.fifo h
      · refine boxes_update rfl ?_ (fun h b hne hb =>
          (hi.boxes h b hb).other hsub rfl (Function.update_of_ne hne ..) rfl) hb
        have hok := hi.boxes handle box hbox
        refine ⟨hsub hok.issued, nofun, hok.capacity, k, contents ++ [message],
          hholds.push (hholds.room_iff.mp hroom) message _, ?_⟩
        show (Function.update m.sent handle _ handle).map some = m.received handle ++ _
        rw [Function.update_self, List.map_append, hsent, List.map_append, List.append_assoc]
      · exact ⟨(hi.frames c f hf).valid, (hframe c f hf (idle_of_inRecv he.2 hf)).1,
          hi.sleeps_wake hbox hf rfl⟩
    · simp only [send, hbox, hroom]
      exact hi

theorem Inv.takeFrom (hi : m.Inv) (handle : Handle) : (m.take handle).1.Inv := by
  cases hbox : m.mailboxes handle with
  | none =>
    simp only [take, hbox]
    exact hi
  | some box =>
    by_cases hempty : box.read = box.write
    · simp only [take, hbox, hempty, ne_eq, not_true_eq_false, if_false]
      exact hi
    · obtain ⟨k, contents, hholds, hsent⟩ := (hi.boxes handle box hbox).holds
      obtain ⟨message, rest, rfl⟩ := List.exists_cons_of_ne_nil (mt hholds.read_eq_write.mpr hempty)
      obtain ⟨hdata, hholds'⟩ := hholds.pop
      simp only [take, hbox, ne_eq, hempty, not_false_eq_true, if_true, hdata]
      have hsent' : (m.sent handle).map some =
          (m.received handle ++ [some message]) ++ rest.map some := by
        rw [hsent, List.append_assoc]
        rfl
      refine ⟨hi.sched, fun h hh => ?_, fun h => ?_, fun h b hb => ?_, fun c f hf => ?_⟩
      · have hne : h ≠ handle := fun heq => hh (heq ▸ (hi.boxes handle box hbox).issued)
        obtain ⟨hs, hrec⟩ := hi.unused h hh
        exact ⟨hs, (Function.update_of_ne hne ..).trans hrec⟩
      · show Function.update m.received handle _ h <+: (m.sent h).map some
        rw [Function.update_apply]
        split
        · next heq =>
          subst heq
          rw [hsent']
          exact List.prefix_append _ _
        · exact hi.fifo h
      · refine boxes_update rfl ?_ (fun h b hne hb => (hi.boxes h b hb).other
          (List.Subset.refl _) rfl rfl (Function.update_of_ne hne ..)) hb
        have hok := hi.boxes handle box hbox
        refine ⟨hok.issued, hok.signal, hok.capacity, k, rest, hholds', ?_⟩
        show (m.sent handle).map some = Function.update m.received handle _ handle ++ _
        rw [Function.update_self]
        exact hsent'
      · have hok := hi.frames c f hf
        refine ⟨hok.valid, hok.within, hok.sleeps.mono fun hd => hd.other rfl fun heq => ?_⟩
        -- Nobody waits on a mailbox that is not empty.
        obtain ⟨b, hb, _, hdrained⟩ := hd
        obtain rfl := Option.some.inj (hbox.symm.trans (heq ▸ hb))
        exact hempty hdrained

/-- The receiver of an empty mailbox leaves a new signal in it and waits for it. -/
theorem Inv.park (hi : m.Inv) {handle signal c : Handle} {box : Mailbox α}
    (he : (machine α).enabled m (.recv handle signal)) (hbox : m.mailboxes handle = some box)
    (hempty : box.read = box.write) (hfree : box.signal.isValid = false)
    (hp : m.sched.phase = .running c) : ((machine α).perform m (.recv handle signal)).Inv := by
  obtain ⟨hr, hsub⟩ := hi.sched_step he
  have hframe := fun c f => hi.frame_step he (c := c) (f := f)
  obtain ⟨_, fresh, hnot⟩ := he
  obtain ⟨coro, hc⟩ := Sched.live_of_active (c := c) (Sched.inv_of_reachable hi.sched).1
    (by rw [hp]; rfl)
  have hperform : (machine α).perform m (.recv handle signal) = { m with
      mailboxes := Function.update m.mailboxes handle (some { box with signal := signal })
      sched := (m.sched.makeSignal c signal).waitForSignals c [signal] true
      receiving := Function.update m.receiving c (some ⟨handle, signal⟩) } := by
    show (m.recv handle signal).1 = _
    simp [recv, hbox, hempty, hfree, hp, Phase.mcoRunning]
  rw [hperform] at hr hsub hframe ⊢
  have hclosed := Sched.staysClosed_waitForSignals (m.sched.makeSignal c signal) c [signal] true
  have hissued : signal ∈ ((m.sched.makeSignal c signal).waitForSignals c [signal] true).issued :=
    hclosed.issued signal (by simp [Sched.makeSignal, hc])
  refine ⟨hr, fun h hh => hi.unused h fun hmem => hh (hsub hmem), hi.fifo, fun h b hb => ?_,
    fun d f hf => ?_⟩
  · refine boxes_update rfl ?_ (fun h b _ hb => (hi.boxes h b hb).other hsub rfl rfl rfl) hb
    have hok := hi.boxes handle box hbox
    obtain ⟨k, contents, hholds, hsent⟩ := hok.holds
    exact ⟨hsub hok.issued, fun _ => hissued, hok.capacity, k, contents,
      ⟨hholds.window, hholds.write⟩, hsent⟩
  · have hf' : Function.update m.receiving c (some ⟨handle, signal⟩) d = some f := hf
    rw [Function.update_apply] at hf'
    split at hf'
    · next heq =>
      subst heq
      cases hf'
      refine ⟨?_, ⟨hsub (Sched.issued_of_live (Sched.inv_of_reachable hi.sched).1 hc), ?_⟩, ?_⟩
      · simp [Handle.isValid, fresh.1]
      · have hphase : (m.sched.makeSignal d signal).phase = .running d := by
          simp [Sched.makeSignal, hc, hp]
        rcases Sched.waitForSignals_phase (m.sched.makeSignal d signal) d [signal] true with h | h
        · rw [h]
          simp
        · rw [h, hphase]
          simp
      · refine Sched.sleeps_wait ?_ ?_ ⟨_, Function.update_self .., rfl, hempty⟩
        · simp [Sched.waitView, Sched.makeSignal, hc]
        · simp [Sched.ownerOf, Sched.makeSignal, hc]
    · next hne =>
      obtain ⟨hw, hs⟩ := hframe d f hf' (idle_of_inRecv hnot hf')
      have hok := hi.frames d f hf'
      refine ⟨hok.valid, hw, hs.mono fun hd => hd.other rfl fun heq => ?_⟩
      -- Nobody else waits on a mailbox without a signal.
      obtain ⟨b, hb, hsig, _⟩ := hd
      obtain rfl := Option.some.inj (hbox.symm.trans (heq ▸ hb))
      rw [hsig, hok.valid] at hfree
      cases hfree

theorem Inv.recvFrom (hi : m.Inv) {handle signal : Handle}
    (he : (machine α).enabled m (.recv handle signal)) :
    ((machine α).perform m (.recv handle signal)).Inv := by
  have hperform : (machine α).perform m (.recv handle signal) = (m.recv handle signal).1 := rfl
  cases hbox : m.mailboxes handle with
  | none =>
    rw [hperform]
    simp only [recv, hbox]
    exact hi
  | some box =>
    by_cases hempty : box.read = box.write
    · cases hfree : box.signal.isValid with
      | true =>
        rw [hperform]
        simp only [recv, hbox, hempty, hfree, if_true]
        exact hi
      | false =>
        cases hc : m.sched.phase.mcoRunning with
        | some c => exact hi.park he hbox hempty hfree (Phase.eq_running hc)
        | none =>
          rw [hperform]
          simp only [recv, hbox, hempty, hfree, hc, if_true, Bool.false_eq_true, if_false]
          exact hi.takeFrom handle
    · rw [hperform]
      simp only [recv, hbox, hempty, if_false]
      exact hi.takeFrom handle

theorem Inv.resume (hi : m.Inv) : m.resumeRecv.Inv := by
  unfold resumeRecv
  split
  · split
    · next c _ _ f hf =>
      have htake := hi.takeFrom f.mailbox
      have hframes := (take_frame m f.mailbox).2.1
      refine ⟨htake.sched, htake.unused, htake.fifo, fun h box hbox => ?_, fun d f' hf' => ?_⟩
      · exact (htake.boxes h box hbox).other (List.Subset.refl _) rfl rfl rfl
      · have hd : Function.update m.receiving c none d = some f' := hf'
        obtain ⟨hvalid, hw, hs⟩ := htake.frames d f' (hframes ▸ (Table.erase_some hd).2)
        exact ⟨hvalid, hw, hs⟩
    · exact hi
  · exact hi

theorem Inv.step (hi : m.Inv) {a : MailboxAction α} (he : (machine α).enabled m a) :
    ((machine α).perform m a).Inv := by
  cases a with
  | sched a => exact hi.schedAction he
  | open' capacity handle => exact hi.openBox he
  | close handle => exact hi.closeBox he
  | send handle message => exact hi.sendTo he
  | recv handle signal => exact hi.recvFrom he
  | resumeRecv => exact hi.resume

theorem inv_of_reachable (h : (machine α).Reachable m) : m.Inv := by
  refine Machine.invariant (P := Inv) ?_ (fun _ _ _ hi he => hi.step he) h
  rintro m rfl
  exact Inv.init

/-! ## The contract -/

/-- The number of messages that were sent and not received. -/
def held (m : MailboxState α) (handle : Handle) : Nat :=
  (m.sent handle).length - (m.received handle).length

theorem BoxOk.held {h : Handle} {box : Mailbox α} (hb : m.BoxOk h box) :
    ∃ k contents, box.Holds k contents ∧ m.held h = contents.length ∧
      (m.sent h).length = (m.received h).length + contents.length := by
  obtain ⟨k, contents, hholds, hsent⟩ := hb.holds
  have hlen := congrArg List.length hsent
  rw [List.length_map, List.length_append, List.length_map] at hlen
  exact ⟨k, contents, hholds, by rw [MailboxState.held, hlen, Nat.add_sub_cancel_left], hlen⟩

theorem BoxOk.held_le {h : Handle} {box : Mailbox α} (hb : m.BoxOk h box) :
    m.held h ≤ box.capacity.toNat := by
  obtain ⟨k, contents, hholds, hheld, _⟩ := hb.held
  rw [hheld, hholds.window.size]
  exact hholds.window.fits

theorem BoxOk.room_iff {h : Handle} {box : Mailbox α} (hb : m.BoxOk h box) :
    box.write - box.read < box.capacity ↔ m.held h < box.capacity.toNat := by
  obtain ⟨k, contents, hholds, hheld, _⟩ := hb.held
  rw [hholds.room_iff, hheld, hholds.window.size]

theorem BoxOk.empty_iff {h : Handle} {box : Mailbox α} (hb : m.BoxOk h box) :
    box.read = box.write ↔ m.held h = 0 := by
  obtain ⟨k, contents, hholds, hheld, _⟩ := hb.held
  rw [hholds.read_eq_write, hheld, List.length_eq_zero_iff]

theorem canSend_eq (m : MailboxState α) (handle : Handle) (message : α) :
    m.canSend handle = (m.send handle message).2 := by
  unfold canSend send
  split
  · split
    · next hroom => exact decide_eq_true hroom
    · next hroom => exact decide_eq_false hroom
  · rfl

theorem send_refused {handle : Handle} {message : α} (h : (m.send handle message).2 = false) :
    (m.send handle message).1 = m := by
  revert h
  unfold send
  split
  · split
    · nofun
    · exact fun _ => rfl
  · exact fun _ => rfl

theorem Inv.canSend_iff (hi : m.Inv) (handle : Handle) : m.canSend handle = true ↔
    ∃ box, m.mailboxes handle = some box ∧ m.held handle < box.capacity.toNat := by
  unfold canSend
  split
  · next box hbox =>
    rw [decide_eq_true_iff, (hi.boxes handle box hbox).room_iff]
    simp [hbox]
  · next hnone => simp [hnone]

theorem Inv.canRecv_iff (hi : m.Inv) (handle : Handle) :
    m.canRecv handle = true ↔ m.isOpen handle = true ∧ 0 < m.held handle := by
  unfold canRecv isOpen
  split
  · next box hbox =>
    rw [decide_eq_true_iff, ne_eq, (hi.boxes handle box hbox).empty_iff]
    simp [hbox, Nat.pos_iff_ne_zero]
  · next hnone => simp [hnone]

/-- A receiver waits only on a mailbox that is open and empty. -/
theorem Inv.drained_of_waiting (hi : m.Inv) {c : Handle} {f : RecvFrame}
    (hf : m.receiving c = some f) (hwait : m.sched.coroState c = .waiting) : m.Drained f := by
  by_contra hnot
  exact (hi.frames c f hf).sleeps.not_waiting hnot hwait

/-- A mailbox is a bounded FIFO whose capacity is the requested one, rounded up to a power of two:
a message is accepted when the mailbox is open and not full and refused without any effect
otherwise, the messages received are the first ones sent, in order, and no receiver waits on a
mailbox that is closed or not empty. -/
theorem mailbox_fifo (h : (machine α).Reachable m) (handle : Handle) :
    (∀ box, m.mailboxes handle = some box →
      IsLeast {p : Nat | (∃ k, p = 2 ^ k) ∧ (m.requested handle).toNat ≤ p} box.capacity.toNat ∧
      m.held handle ≤ box.capacity.toNat) ∧
    (∀ message, ((m.send handle message).2 = true ↔
        ∃ box, m.mailboxes handle = some box ∧ m.held handle < box.capacity.toNat) ∧
      ((m.send handle message).2 = false → (m.send handle message).1 = m) ∧
      m.canSend handle = (m.send handle message).2) ∧
    (m.canRecv handle = true ↔ m.isOpen handle = true ∧ 0 < m.held handle) ∧
    m.received handle <+: (m.sent handle).map some ∧
    (∀ c f, m.receiving c = some f → f.mailbox = handle → m.sched.coroState c = .waiting →
      m.isOpen handle = true ∧ m.held handle = 0) := by
  have hi := inv_of_reachable h
  refine ⟨fun box hbox => ?_, fun message => ⟨?_, send_refused, canSend_eq m handle message⟩,
    hi.canRecv_iff handle, hi.fifo handle, ?_⟩
  · exact ⟨(hi.boxes handle box hbox).capacity, (hi.boxes handle box hbox).held_le⟩
  · rw [← canSend_eq]
    exact hi.canSend_iff handle
  · rintro c f hf rfl hwait
    obtain ⟨box, hbox, _, hempty⟩ := hi.drained_of_waiting hf hwait
    exact ⟨by simp [isOpen, hbox], (hi.boxes _ box hbox).empty_iff.mp hempty⟩

/-- A coroutine receives from an empty mailbox, then a message is sent. -/
theorem mailbox_fifo_wakes :
    let m := (machine Nat).run init [.sched (.spawn false ⟨0, 1⟩), .open' 3#32 ⟨1, 1⟩,
      .sched .enterLoop, .sched .endPass, .sched .swap, .sched .resume, .recv ⟨1, 1⟩ ⟨2, 1⟩]
    let m' := (machine Nat).run m [.sched .endPass, .send ⟨1, 1⟩ 7, .sched .swap, .sched .resume,
      .resumeRecv]
    (m.receiving ⟨0, 1⟩ = some ⟨⟨1, 1⟩, ⟨2, 1⟩⟩ ∧ m.sched.coroState ⟨0, 1⟩ = .waiting ∧
      m.isOpen ⟨1, 1⟩ = true ∧ m.held ⟨1, 1⟩ = 0) ∧
    m'.received ⟨1, 1⟩ = [some 7] ∧ m'.received ⟨1, 1⟩ <+: (m'.sent ⟨1, 1⟩).map some := by
  intro m m'
  have hr : (machine Nat).Reachable m := Machine.Reachable.run (.init rfl) (by decide)
  have hr' : (machine Nat).Reachable m' := hr.run (by decide)
  obtain ⟨_, _, _, _, hwake⟩ := mailbox_fifo hr ⟨1, 1⟩
  obtain ⟨_, _, _, hfifo, _⟩ := mailbox_fifo hr' ⟨1, 1⟩
  exact ⟨⟨rfl, rfl, hwake ⟨0, 1⟩ ⟨⟨1, 1⟩, ⟨2, 1⟩⟩ rfl rfl rfl⟩, rfl, hfifo⟩

end MailboxState

end Bio
