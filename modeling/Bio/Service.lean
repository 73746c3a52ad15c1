import Bio.MailboxInvariant
import Bio.Join

/-!
# Service calls

`bio__service_call` of `src/service.c` and `bio_respond` of `include/bio/service.h`. A call makes a
signal for the answer and one for the death of the service, sends its message when the mailbox has
room, and waits for the first of the answer, the death and the cancellation.

The machine has one service and any number of callers. A call runs from one suspension point to the
next: `call` is the part before the loop, `callStep` one round of the loop, or the part after the
wait. The rest of the program may do whatever the scheduler and the mailboxes allow (raise cancel
signals, close the mailbox, be other services), with these exceptions:

* the two signals of a call that has not returned are local to it,
* the mailbox of the service is sent to by calls, or without an answer being expected
  (`bio_notify_service`), and received from by the service,
* the service enters at most one `bio_respond` block for each message that it received.

Of a message only `bio_service_msg_base_t` is kept. The fields `attempted`, `executed` and
`returned` are ghosts.
-/

namespace Bio

/-- `BIO_SERVICE`. -/
structure Service where
  coro : Handle
  mailbox : Handle
deriving DecidableEq, Repr

/-- `bio_service_msg_base_t`. -/
structure ServiceMsg where
  ackSignal : Handle
  cancelSignal : Handle
deriving DecidableEq, Repr

/-- `bio_call_status_t`. -/
inductive CallStatus
  | ok | cancelled | targetDead
deriving DecidableEq, Repr

/-- Where a call of `bio__service_call` will go on. -/
inductive CallStage
  /-- in the loop around `bio__mailbox_send` -/
  | sending
  /-- in or after `bio_wait_for_signals` -/
  | waiting
deriving DecidableEq, Repr

/-- The locals of a call of `bio__service_call`. -/
structure CallFrame where
  ackSignal : Handle
  monitorSignal : Handle
  monitor : Handle
  cancelSignal : Handle
  stage : CallStage
deriving DecidableEq, Repr

/-- The message of a call. -/
def CallFrame.msg (f : CallFrame) : ServiceMsg := ⟨f.ackSignal, f.cancelSignal⟩

/-- The signals that a call waits for. -/
def CallFrame.signals (f : CallFrame) : List Handle :=
  [f.ackSignal, f.monitorSignal, f.cancelSignal]

structure ServiceState where
  mail : MailboxState ServiceMsg
  /-- the coroutines inside `bio__service_call` -/
  calls : Handle → Option CallFrame
  /-- the received messages, by their number, for which a `bio_respond` block was entered -/
  attempted : List Nat
  /-- the `ack_signal`s of the messages whose response block was executed -/
  executed : List Handle
  /-- the calls that returned, by their `ack_signal`. A call that returned before it made one is
  listed with the invalid handle. -/
  returned : List (Handle × CallStatus)

namespace Sched

/-- A signal that a call may be cancelled with: `cancellable && bio_check_signal(cancel_signal)`. -/
def isCancelled (s : Sched) (cancelSignal : Handle) : Bool :=
  cancelSignal.isValid && s.checkSignal cancelSignal

/-- `bio__service_is_call_cancelled`. -/
def isCallCancelled (s : Sched) (msg : ServiceMsg) : Bool := s.isCancelled msg.cancelSignal

/-- `bio__service_begin_response`. -/
def beginResponse (s : Sched) (msg : ServiceMsg) : Bool :=
  msg.ackSignal.isValid && !s.isCallCancelled msg

/-- The status that `bio__service_call` returns. -/
def callStatus (s : Sched) (f : CallFrame) : CallStatus :=
  if s.checkSignal f.ackSignal then .ok
  else if s.isCancelled f.cancelSignal then .cancelled
  else .targetDead

end Sched

namespace ServiceState

variable (svc : Service)

abbrev sched (q : ServiceState) : Sched := q.mail.sched

def setSched (q : ServiceState) (s : Sched) : ServiceState :=
  { q with mail := { q.mail with sched := s } }

def setCall (q : ServiceState) (c : Handle) (f : Option CallFrame) : ServiceState :=
  { q with calls := Function.update q.calls c f }

/-- `bio__service_call` in the coroutine `c` up to the loop. -/
def call (q : ServiceState) (c cancelSignal ackSignal monitorSignal monitor : Handle) :
    ServiceState :=
  if q.sched.coroState svc.coro = .dead then
    { q with returned := q.returned ++ [(Handle.invalid, .targetDead)] }
  else
    let s := (q.sched.makeSignal c ackSignal).makeSignal c monitorSignal
    (q.setSched (s.monitor svc.coro monitorSignal monitor).1).setCall c
      (some ⟨ackSignal, monitorSignal, monitor, cancelSignal, .sending⟩)

/-- `bio__service_call` from the loop on: the wait for any of the three signals. -/
def await (q : ServiceState) (c : Handle) (f : CallFrame) : ServiceState :=
  (q.setSched (q.sched.waitForSignals c f.signals false)).setCall c
    (some { f with stage := .waiting })

/-- One round of the loop of `bio__service_call`. -/
def sendRound (q : ServiceState) (c : Handle) (f : CallFrame) : ServiceState :=
  if q.sched.isCancelled f.cancelSignal || q.sched.checkSignal f.monitorSignal then q.await c f
  else
    let (mail, sent) := q.mail.send svc.mailbox f.msg
    let q := { q with mail := mail }
    if sent then q.await c f else q.setSched (q.sched.suspend c)

/-- `bio__service_call` after the wait. -/
def finishCall (q : ServiceState) (c : Handle) (f : CallFrame) : ServiceState :=
  let status := q.sched.callStatus f
  let s := q.sched.unmonitor f.monitor
  let s := (s.raiseSignal f.monitorSignal).1
  let s := (s.raiseSignal f.ackSignal).1
  { (q.setSched s).setCall c none with returned := q.returned ++ [(f.ackSignal, status)] }

def callStep (q : ServiceState) (c : Handle) : ServiceState :=
  match q.calls c with
  | some f =>
    match f.stage with
    | .sending => q.sendRound svc c f
    | .waiting => q.finishCall c f
  | none => q

/-- The message number `i` that the service received. -/
def message (q : ServiceState) (i : Nat) : Option ServiceMsg :=
  ((q.mail.received svc.mailbox)[i]?).join

/-- A `bio_respond` block for the message number `i`, from `bio_begin_response` to
`bio_end_response`. -/
def respond (q : ServiceState) (i : Nat) : ServiceState :=
  let q := { q with attempted := i :: q.attempted }
  match q.message svc i with
  | some msg =>
    if q.sched.beginResponse msg then
      { q.setSched (q.sched.raiseSignal msg.ackSignal).1 with
        executed := q.executed ++ [msg.ackSignal] }
    else q
  | none => q

/-- The running coroutine is inside `bio__service_call`. -/
def inCall (q : ServiceState) : Bool :=
  q.sched.phase.mcoRunning.any fun c => (q.calls c).isSome

/-- A live signal of a call that has not returned. -/
def isLocal (q : ServiceState) (h : Handle) : Bool :=
  ((q.sched.ownerOf h).bind q.calls).any fun f => h = f.ackSignal ∨ h = f.monitorSignal

end ServiceState

inductive ServiceAction
  /-- the rest of the program -/
  | mail (a : MailboxAction ServiceMsg)
  /-- the running coroutine calls `bio__service_call` -/
  | call (cancelSignal ackSignal monitorSignal monitor : Handle)
  /-- the running coroutine goes on in its call -/
  | callStep
  /-- the service enters a `bio_respond` block -/
  | respond (i : Nat)

namespace ServiceState

variable (svc : Service)

/-- What the rest of the program leaves to the calls and to the service. -/
def allows (q : ServiceState) : MailboxAction ServiceMsg → Prop
  | .sched a => ∀ h ∈ a.signals, q.isLocal h = false
  | .send handle msg => handle = svc.mailbox → msg.ackSignal = Handle.invalid
  | .recv handle _ => handle = svc.mailbox → q.sched.phase = .running svc.coro
  | _ => True

def enabled (q : ServiceState) : ServiceAction → Prop
  | .mail a => (MailboxState.machine ServiceMsg).enabled q.mail a ∧ q.inCall = false ∧
      q.allows svc a
  | .call cancelSignal ackSignal monitorSignal monitor =>
      q.sched.phase.mcoRunning.isSome = true ∧ q.inCall = false ∧ q.mail.inRecv = false ∧
      (cancelSignal.isValid = true → cancelSignal ∈ q.sched.issued) ∧
      q.sched.Fresh ackSignal ∧ q.sched.Fresh monitorSignal ∧ q.sched.Fresh monitor ∧
      [ackSignal, monitorSignal, monitor].Nodup
  | .callStep => q.inCall = true ∧
      q.sched.phase.mcoRunning.any (fun c => q.sched.CanCount c) = true
  | .respond i => q.sched.phase = .running svc.coro ∧ q.inCall = false ∧ q.mail.inRecv = false ∧
      i < (q.mail.received svc.mailbox).length ∧ i ∉ q.attempted

/-- The effect of an action of the coroutine that runs. -/
def inCoro (q : ServiceState) (f : Handle → ServiceState) : ServiceState :=
  match q.sched.phase.mcoRunning with
  | some c => f c
  | none => q

def perform (q : ServiceState) : ServiceAction → ServiceState
  | .mail a => { q with mail := (MailboxState.machine ServiceMsg).perform q.mail a }
  | .call cancelSignal ackSignal monitorSignal monitor =>
    q.inCoro fun c => q.call svc c cancelSignal ackSignal monitorSignal monitor
  | .callStep => q.inCoro fun c => q.callStep svc c
  | .respond i => q.respond svc i

/-- All interleavings of the service, its callers and the rest of the program. -/
def machine : Machine ServiceState ServiceAction where
  init := fun q => q = ⟨MailboxState.init, fun _ => none, [], [], []⟩
  enabled := enabled svc
  perform := perform svc

instance (q : ServiceState) : ∀ a, Decidable (q.allows svc a)
  | .sched a => inferInstanceAs (Decidable (∀ h ∈ a.signals, q.isLocal h = false))
  | .send handle msg =>
    inferInstanceAs (Decidable (handle = svc.mailbox → msg.ackSignal = Handle.invalid))
  | .recv handle _ =>
    inferInstanceAs (Decidable (handle = svc.mailbox → q.sched.phase = .running svc.coro))
  | .open' _ _ | .close _ | .resumeRecv => isTrue trivial

instance (q : ServiceState) : ∀ a, Decidable ((machine svc).enabled q a)
  | .mail a => inferInstanceAs (Decidable ((MailboxState.machine ServiceMsg).enabled q.mail a ∧
      q.inCall = false ∧ q.allows svc a))
  | .call cancelSignal ackSignal monitorSignal monitor => inferInstanceAs (Decidable
      (q.sched.phase.mcoRunning.isSome = true ∧ q.inCall = false ∧ q.mail.inRecv = false ∧
      (cancelSignal.isValid = true → cancelSignal ∈ q.sched.issued) ∧
      q.sched.Fresh ackSignal ∧ q.sched.Fresh monitorSignal ∧ q.sched.Fresh monitor ∧
      [ackSignal, monitorSignal, monitor].Nodup))
  | .callStep => inferInstanceAs (Decidable (q.inCall = true ∧
      q.sched.phase.mcoRunning.any (fun c => q.sched.CanCount c) = true))
  | .respond i => inferInstanceAs (Decidable (q.sched.phase = .running svc.coro ∧
      q.inCall = false ∧ q.mail.inRecv = false ∧
      i < (q.mail.received svc.mailbox).length ∧ i ∉ q.attempted))

end ServiceState

end Bio
