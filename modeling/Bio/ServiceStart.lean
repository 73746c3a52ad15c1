import Bio.SchedulerLocal
import Bio.SchedulerLoop

/-!
# Starting a service

`bio__service_start`, `bio_service_wrapper` and `bio__service_get_info` of `src/service.c` on top of the
scheduler.

* `service_data` is a local variable of a call of `bio__service_start`, and the service has a pointer to
  it: the coroutine and the number of the call. A read through the pointer finds the variable as long
  as the call has not returned (`load`). Nothing in the functions checks that it has not.
* Of the mailbox only its handle is kept, and `args` is what the pointer of that name points to.
* The rest of the program may do whatever the scheduler allows. `ready_signal` is local to the call.
* `suspended`, `passed` and `infos` are ghosts: the service has left its coroutine since its entrypoint
  was entered, what its starter passed, and what each call of `bio__service_get_info` read.
-/

namespace Bio

/-- What a service gets from `bio__service_get_info`. -/
structure ServiceInfo where
  mailbox : Handle
  args : List (BitVec 8)
deriving DecidableEq, Repr

/-- `bio_service_data_t`, and the call that it is a variable of. -/
structure ServiceData where
  call : Nat
  mailbox : Handle
  readySignal : Handle
  args : List (BitVec 8)
deriving DecidableEq, Repr

def ServiceData.info (data : ServiceData) : ServiceInfo := ⟨data.mailbox, data.args⟩

/-- A coroutine of `bio_service_wrapper`: its pointer, and whether it has entered the entrypoint. -/
structure ServiceCoro where
  parent : Handle
  call : Nat
  entered : Bool
  suspended : Bool
  passed : ServiceInfo
deriving DecidableEq, Repr

/-- A call of `bio__service_get_info`: what was passed to the service, what the call read, and whether
the coroutine that started the service was still suspended inside `bio__service_start`. -/
structure InfoCall where
  passed : ServiceInfo
  info : Option ServiceInfo
  starterSuspended : Bool
deriving DecidableEq, Repr

structure StartState where
  sched : Sched
  /-- the calls of `bio__service_start`, by their coroutine -/
  starts : Handle → Option ServiceData
  services : Handle → Option ServiceCoro
  calls : Nat
  infos : List InfoCall

namespace StartState

def setStart (q : StartState) (c : Handle) (data : Option ServiceData) : StartState :=
  { q with starts := Function.update q.starts c data }

def setService (q : StartState) (k : Handle) (e : Option ServiceCoro) : StartState :=
  { q with services := Function.update q.services k e }

/-- A read of `service_data` in a service. -/
def load (q : StartState) (e : ServiceCoro) : Option ServiceData :=
  (q.starts e.parent).filter fun data => data.call = e.call

/-- The call that started the service has not returned, and its coroutine does not run. -/
def starterSuspended (q : StartState) (e : ServiceCoro) : Bool :=
  (q.load e).isSome &&
    (q.sched.coroState e.parent = .ready || q.sched.coroState e.parent = .waiting)

/-- `bio__service_start` in the coroutine `c` up to its wait, with the handles that it gets. -/
def serviceStart (q : StartState) (c : Handle) (daemon : Bool) (mailbox readySignal coro : Handle)
    (args : List (BitVec 8)) : StartState :=
  let s := q.sched.perform (.issue mailbox)
  let s := (s.makeSignal c readySignal).spawnEx daemon coro
  { (q.setStart c (some ⟨q.calls, mailbox, readySignal, args⟩)).setService coro
      (some ⟨c, q.calls, false, false, ⟨mailbox, args⟩⟩) with
    sched := s.waitForSignals c [readySignal] true
    calls := q.calls + 1 }

/-- `bio_service_wrapper` up to the call of the entrypoint. -/
def serviceWrapper (q : StartState) (k : Handle) (e : ServiceCoro) : StartState :=
  let q := q.setService k (some { e with entered := true })
  match q.load e with
  | some data => { q with sched := (q.sched.raiseSignal data.readySignal).1 }
  | none => q

/-- `bio__service_get_info`. -/
def serviceGetInfo (q : StartState) (e : ServiceCoro) : StartState :=
  { q with
    infos := q.infos ++ [⟨e.passed, (q.load e).map ServiceData.info, q.starterSuspended e⟩] }

/-- The coroutine that ran has left `mco_resume`. -/
def noteSuspension (old new : StartState) : StartState :=
  match old.sched.phase.mcoRunning with
  | some c =>
    if new.sched.phase = .running c then new
    else
      new.setService c ((new.services c).map fun e => { e with suspended := true })
  | none => new

/-- The coroutine that runs is inside `bio__service_start`, or in front of its entrypoint. -/
def busy (q : StartState) : Bool :=
  q.sched.phase.mcoRunning.any fun c =>
    (q.starts c).isSome || (q.services c).any fun e => !e.entered

/-- A live signal of a call of `bio__service_start`. -/
def isLocal (q : StartState) (h : Handle) : Bool :=
  (q.sched.ownerOf h).any fun c => (q.starts c).any fun data => data.readySignal = h

end StartState

inductive StartAction
  /-- the rest of the program, the entrypoints included -/
  | sched (a : Action)
  | serviceStart (daemon : Bool) (mailbox readySignal coro : Handle) (args : List (BitVec 8))
  | serviceWrapper
  | serviceGetInfo
  /-- `bio__service_start` returns -/
  | returnStart
deriving DecidableEq, Repr

namespace StartState

def enabled (q : StartState) : StartAction → Prop
  | .sched a => q.sched.enabled a ∧ q.busy = false ∧ ∀ h ∈ a.signals, q.isLocal h = false
  | .serviceStart _ mailbox readySignal coro _ => q.busy = false ∧ q.sched.Fresh mailbox ∧
      q.sched.Fresh readySignal ∧ q.sched.Fresh coro ∧ [mailbox, readySignal, coro].Nodup ∧
      q.sched.phase.mcoRunning.any (fun c => q.sched.CanCount c) = true
  | .serviceWrapper => q.sched.phase.mcoRunning.any (fun k =>
      (q.services k).any fun e => !e.entered) = true
  | .serviceGetInfo => q.busy = false ∧
      q.sched.phase.mcoRunning.any (fun k => (q.services k).isSome) = true
  | .returnStart => q.sched.phase.mcoRunning.any (fun c => (q.starts c).isSome) = true

/-- The effect of an action of the service that runs. -/
def inService (q : StartState) (f : Handle → ServiceCoro → StartState) : StartState :=
  match q.sched.phase.mcoRunning with
  | some k =>
    match q.services k with
    | some e => f k e
    | none => q
  | none => q

/-- The effect of an action of the coroutine that runs. -/
def inCoro (q : StartState) (f : Handle → StartState) : StartState :=
  match q.sched.phase.mcoRunning with
  | some c => f c
  | none => q

def perform (q : StartState) : StartAction → StartState
  | .sched a => q.noteSuspension { q with sched := q.sched.perform a }
  | .serviceStart daemon mailbox readySignal coro args =>
    q.inCoro fun c => q.noteSuspension (q.serviceStart c daemon mailbox readySignal coro args)
  | .serviceWrapper => q.inService q.serviceWrapper
  | .serviceGetInfo => q.inService fun _ e => q.serviceGetInfo e
  | .returnStart => q.inCoro fun c => q.setStart c none

def init : StartState := ⟨Sched.init, fun _ => none, fun _ => none, 0, []⟩

/-- All interleavings of coroutines that start services, the services and the rest of the program. -/
def machine : Machine StartState StartAction where
  init := fun q => q = init
  enabled := enabled
  perform := perform

instance (q : StartState) : ∀ a, Decidable (machine.enabled q a)
  | .sched a => inferInstanceAs (Decidable (q.sched.enabled a ∧ q.busy = false ∧
      ∀ h ∈ a.signals, q.isLocal h = false))
  | .serviceStart _ mailbox readySignal coro _ => inferInstanceAs (Decidable (q.busy = false ∧
      q.sched.Fresh mailbox ∧ q.sched.Fresh readySignal ∧ q.sched.Fresh coro ∧
      [mailbox, readySignal, coro].Nodup ∧
      q.sched.phase.mcoRunning.any (fun c => q.sched.CanCount c) = true))
  | .serviceWrapper => inferInstanceAs (Decidable (q.sched.phase.mcoRunning.any (fun k =>
      (q.services k).any fun e => !e.entered) = true))
  | .serviceGetInfo => inferInstanceAs (Decidable (q.busy = false ∧
      q.sched.phase.mcoRunning.any (fun k => (q.services k).isSome) = true))
  | .returnStart => inferInstanceAs (Decidable (q.sched.phase.mcoRunning.any
      (fun c => (q.starts c).isSome) = true))

end StartState

end Bio
