import Bio.Scheduler
import Bio.Lib.Ring

/-!
# Mailboxes

`src/mailbox.c`: rings of messages with free-running 32-bit counters. A receiver of an empty mailbox
parks on a signal that it leaves in the mailbox. `bio__mailbox_recv` is cut where it suspends:
`recv` is the part up to the wait, `take` the part after it.

The machine interleaves the calls of any number of coroutines with everything else that the
scheduler can do. A coroutine that is inside `bio__mailbox_recv` does nothing but return from it.
A message is a value of any type, which stands for the `item_size` bytes that are copied. The fields
`requested`, `sent` and `received` are ghosts.
-/

namespace Bio

/-- `bio_next_pow2`. -/
def nextPow2 (v : BitVec 32) : BitVec 32 :=
  let next := v - 1#32
  let next := next ||| next >>> 1
  let next := next ||| next >>> 2
  let next := next ||| next >>> 4
  let next := next ||| next >>> 8
  let next := next ||| next >>> 16
  next + 1#32

/-- A capacity is rounded up to the next power of two. -/
theorem nextPow2_isLeast {v : BitVec 32} (hpos : 1 ≤ v.toNat) (hle : v.toNat ≤ 2 ^ 31) :
    IsLeast {p : Nat | (∃ k, p = 2 ^ k) ∧ v.toNat ≤ p} (nextPow2 v).toNat :=
  (Ring.Smeared.refl (v - 1#32)).double.double.double.double.double.isLeast hpos hle

/-- `bio_mailbox_t`. A slot that was never written is `none`. -/
structure Mailbox (α : Type*) where
  capacity : BitVec 32
  read : BitVec 32
  write : BitVec 32
  signal : Handle
  data : BitVec 32 → Option α

/-- What a call of `bio__mailbox_recv` that is suspended in its wait holds. -/
structure RecvFrame where
  mailbox : Handle
  signal : Handle
deriving DecidableEq, Repr

/-- The mailboxes by their handles, the coroutines inside `bio__mailbox_recv` and the scheduler. -/
structure MailboxState (α : Type*) where
  sched : Sched
  mailboxes : Handle → Option (Mailbox α)
  receiving : Handle → Option RecvFrame
  /-- the capacities passed to `bio__mailbox_open` -/
  requested : Handle → BitVec 32
  sent : Handle → List α
  received : Handle → List (Option α)

/-- How far a call of `bio__mailbox_recv` got: `returned none` is `false`. -/
inductive RecvResult (α : Type*)
  | suspended
  | returned (message : Option (Option α))

namespace MailboxState

variable {α : Type*}

/-- `bio__mailbox_open`. -/
def open' (m : MailboxState α) (capacity : BitVec 32) (handle : Handle) : MailboxState α :=
  { m with
    sched := m.sched.perform (.issue handle)
    mailboxes := Function.update m.mailboxes handle
      (some { capacity := nextPow2 capacity, read := 0#32, write := 0#32
              signal := Handle.invalid, data := fun _ => none })
    requested := Function.update m.requested handle capacity }

/-- The receiver that parks at the mailbox is woken. -/
def wake (s : Sched) (signal : Handle) : Sched :=
  if signal.isValid then (s.raiseSignal signal).1 else s

/-- `bio__mailbox_close`. -/
def close (m : MailboxState α) (handle : Handle) : MailboxState α :=
  match m.mailboxes handle with
  | some box =>
    { m with
      mailboxes := Function.update m.mailboxes handle none
      sched := wake m.sched box.signal }
  | none => m

/-- `bio__mailbox_is_open`. -/
def isOpen (m : MailboxState α) (handle : Handle) : Bool := (m.mailboxes handle).isSome

/-- `bio__mailbox_send`. -/
def send (m : MailboxState α) (handle : Handle) (message : α) : MailboxState α × Bool :=
  match m.mailboxes handle with
  | some box =>
    if box.write - box.read < box.capacity then
      ({ m with
          mailboxes := Function.update m.mailboxes handle (some
            { box with
              write := box.write + 1#32
              data := Function.update box.data (Ring.index box.write box.capacity) (some message)
              signal := Handle.invalid })
          sched := wake m.sched box.signal
          sent := Function.update m.sent handle (m.sent handle ++ [message]) }, true)
    else (m, false)
  | none => (m, false)

/-- `bio__mailbox_recv` from the second look-up of the mailbox on. -/
def take (m : MailboxState α) (handle : Handle) : MailboxState α × Option (Option α) :=
  match m.mailboxes handle with
  | some box =>
    if box.read ≠ box.write then
      let message := box.data (Ring.index box.read box.capacity)
      ({ m with
          mailboxes := Function.update m.mailboxes handle (some { box with read := box.read + 1#32 })
          received := Function.update m.received handle (m.received handle ++ [message]) },
        some message)
    else (m, none)
  | none => (m, none)

/-- `bio__mailbox_recv` up to its wait, with the handle that the new signal gets. Outside of
coroutines there is no signal to make and the wait does nothing. -/
def recv (m : MailboxState α) (handle signal : Handle) : MailboxState α × RecvResult α :=
  match m.mailboxes handle with
  | some box =>
    if box.read = box.write then
      if box.signal.isValid then (m, .returned none)
      else
        match m.sched.phase.mcoRunning with
        | some c =>
          ({ m with
              mailboxes := Function.update m.mailboxes handle (some { box with signal := signal })
              sched := (m.sched.makeSignal c signal).waitForSignals c [signal] true
              receiving := Function.update m.receiving c (some ⟨handle, signal⟩) }, .suspended)
        | none => ((m.take handle).1, .returned (m.take handle).2)
    else ((m.take handle).1, .returned (m.take handle).2)
  | none => (m, .returned none)

/-- `bio__mailbox_can_recv`. -/
def canRecv (m : MailboxState α) (handle : Handle) : Bool :=
  match m.mailboxes handle with
  | some box => box.read ≠ box.write
  | none => false

/-- `bio__mailbox_can_send`. -/
def canSend (m : MailboxState α) (handle : Handle) : Bool :=
  match m.mailboxes handle with
  | some box => box.write - box.read < box.capacity
  | none => false

/-- The running coroutine returns from the wait of `bio__mailbox_recv`. -/
def resumeRecv (m : MailboxState α) : MailboxState α :=
  match m.sched.phase.mcoRunning with
  | some c =>
    match m.receiving c with
    | some f => { (m.take f.mailbox).1 with receiving := Function.update m.receiving c none }
    | none => m
  | none => m

/-- The running coroutine is inside `bio__mailbox_recv`. -/
def inRecv (m : MailboxState α) : Bool :=
  m.sched.phase.mcoRunning.any fun c => (m.receiving c).isSome

end MailboxState

inductive MailboxAction (α : Type*)
  /-- anything that does not concern mailboxes -/
  | sched (a : Action)
  | open' (capacity : BitVec 32) (handle : Handle)
  | close (handle : Handle)
  | send (handle : Handle) (message : α)
  | recv (handle signal : Handle)
  | resumeRecv

namespace MailboxState

variable {α : Type*}

def init : MailboxState α where
  sched := Sched.init
  mailboxes := fun _ => none
  receiving := fun _ => none
  requested := fun _ => 0#32
  sent := fun _ => []
  received := fun _ => []

/-- When an action can happen. The capacities are those for which `bio_next_pow2` has a result. -/
def enabled (m : MailboxState α) : MailboxAction α → Prop
  | .sched a => m.sched.enabled a ∧ m.inRecv = false
  | .open' capacity handle =>
    m.sched.enabled (.issue handle) ∧ 1 ≤ capacity.toNat ∧ capacity.toNat ≤ 2 ^ 31 ∧
      m.inRecv = false
  | .close _ | .send _ _ => m.sched.phase ≠ .pass ∧ m.inRecv = false
  | .recv _ signal => m.sched.phase ≠ .pass ∧ m.sched.Fresh signal ∧ m.inRecv = false
  | .resumeRecv => m.inRecv = true

def perform (m : MailboxState α) : MailboxAction α → MailboxState α
  | .sched a => { m with sched := m.sched.perform a }
  | .open' capacity handle => m.open' capacity handle
  | .close handle => m.close handle
  | .send handle message => (m.send handle message).1
  | .recv handle signal => (m.recv handle signal).1
  | .resumeRecv => m.resumeRecv

/-- All interleavings of the calls of any number of coroutines. -/
def machine (α : Type*) : Machine (MailboxState α) (MailboxAction α) where
  init := fun m => m = init
  enabled := enabled
  perform := perform

instance (m : MailboxState α) : ∀ a : MailboxAction α, Decidable ((machine α).enabled m a)
  | .sched a => inferInstanceAs (Decidable (m.sched.enabled a ∧ m.inRecv = false))
  | .open' capacity handle => inferInstanceAs (Decidable (m.sched.enabled (.issue handle) ∧
      1 ≤ capacity.toNat ∧ capacity.toNat ≤ 2 ^ 31 ∧ m.inRecv = false))
  | .close _ | .send _ _ => inferInstanceAs (Decidable (m.sched.phase ≠ .pass ∧ m.inRecv = false))
  | .recv _ signal => inferInstanceAs (Decidable
      (m.sched.phase ≠ .pass ∧ m.sched.Fresh signal ∧ m.inRecv = false))
  | .resumeRecv => inferInstanceAs (Decidable (m.inRecv = true))

end MailboxState

end Bio
