import Bio.SchedulerLocal
import Bio.LinuxRing

/-!
# I/O requests and the loop on Linux

`bio_submit_io_req`, `bio_platform_update` and the parts of `bio_loop` and `bio_wait_for_exit` around
them, on top of the rings and the scheduler.

* A request is a local variable of a call of `bio_submit_io_req`, and the kernel has a pointer to it.
  `requests` are these variables, by their coroutine. An I/O function acquires an entry, prepares it
  and calls `bio_submit_io_req`, with nothing in between.
* In `bio_loop`, `bio_thread_update` and `bio_timer_update` raise signals, before `bio_platform_update`
  and, when the loop waited for I/O, after it. The time until the next timer, whether async jobs run
  and whether there is a notification are part of the action.
* While the program is in a call of `io_uring_enter` that waits, the kernel completes entries one by
  one. What it does in the other calls is in `Enter`, together with the fuel.
* `calls` and `updates` are ghosts that number the calls of `bio_submit_io_req` and of
  `bio_platform_update`.
* The reason that `bio_wait_for_exit` returns is left out.
-/

namespace Bio

/-- `bio_io_req_t`, and the call that it is a variable of. -/
structure IoReq where
  call : Nat
  signal : Handle
  res : Int
  flags : BitVec 32
deriving DecidableEq, Repr

/-- What a completion can change. -/
structure IoState where
  sched : Sched
  requests : Handle → Option IoReq
  /-- the signals of `bio_ctx.exit_handlers` -/
  exitHandlers : List Handle

/-- Where the main thread is in an iteration of `bio_loop`. -/
inductive UpdateStage
  /-- before `bio_platform_update` -/
  | idle
  /-- in `io_uring_submit_and_wait_timeout` or `io_uring_submit_and_wait` -/
  | waiting (timed : Bool) (numSubmitted : Nat)
  /-- in `io_uring_submit_and_get_events`, since nothing was submitted -/
  | retrying
  /-- after `bio_platform_update`, with `should_wait_for_io` -/
  | updated (shouldWaitForIo : Bool)
deriving DecidableEq, Repr

/-- The main thread is in a call of `io_uring_enter` that waits. -/
def UpdateStage.inKernel : UpdateStage → Bool
  | .waiting _ _ | .retrying => true
  | .idle | .updated _ => false

structure LinuxIo where
  ring : IoRing IoState
  stage : UpdateStage
  calls : Nat
  updates : Nat

/-- What the kernel does in the calls of `io_uring_enter` that are inside a step. -/
structure Enter where
  fuel : Nat
  upcoming : List (List Cqe)
deriving DecidableEq, Repr

namespace IoState

/-- The last branch of the loop of `bio_drain_io_completions`. The request is found by the pointer to
it, and nothing is known of that memory when its call is over. -/
def complete (i : IoState) (coro : Handle) (call : Nat) (cqe : Cqe) : IoState :=
  match i.requests coro with
  | some req =>
    if req.call = call then
      { i with
        requests := Function.update i.requests coro
          (some { req with res := cqe.res, flags := cqe.flags })
        sched := (i.sched.raiseSignal req.signal).1 }
    else i
  | none => i

/-- `bio_dispatch_exit_signal`. -/
def dispatchExitSignal (i : IoState) : IoState :=
  { i with
    sched := i.exitHandlers.foldl (fun sched signal => (sched.raiseSignal signal).1) i.sched
    exitHandlers := [] }

def handlers : IoHandlers IoState where
  complete := complete
  handleExitSignal := dispatchExitSignal

end IoState

namespace LinuxIo

def sched (s : LinuxIo) : Sched := s.ring.rest.sched

def setRest (s : LinuxIo) (i : IoState) : LinuxIo := { s with ring := { s.ring with rest := i } }

def setSched (s : LinuxIo) (sched : Sched) : LinuxIo := s.setRest { s.ring.rest with sched := sched }

/-- The rings at the beginning of a step. -/
def enter (s : LinuxIo) (k : Enter) : IoRing IoState := { s.ring with upcoming := k.upcoming }

/-- `bio_acquire_io_req`. -/
def acquireIoReq (s : LinuxIo) (k : Enter) : Option LinuxIo :=
  ((s.enter k).acquireIoReq IoState.handlers k.fuel).map fun ring => { s with ring := ring }

/-- `bio_drain_io_completions`. -/
def drain (s : LinuxIo) (k : Enter) : Option LinuxIo :=
  ((s.enter k).drainIoCompletions IoState.handlers k.fuel).map fun ring => { s with ring := ring }

/-- `bio_submit_io_req` in the coroutine `c`, up to the end of its wait. -/
def submitIoReq (s : LinuxIo) (c signal : Handle) : LinuxIo :=
  let i := s.ring.rest
  { s with
    ring := { s.ring.pushSqe (.request c s.calls) with
      rest := { i with
        sched := (i.sched.makeSignal c signal).waitForSignals c [signal] true
        requests := Function.update i.requests c (some ⟨s.calls, signal, 0, 0⟩) } }
    calls := s.calls + 1 }

/-- `bio_submit_io_req` returns. -/
def returnIoReq (s : LinuxIo) (c : Handle) : LinuxIo :=
  s.setRest { s.ring.rest with requests := Function.update s.ring.rest.requests c none }

/-- `bio_platform_block_exit_signal`, which the first exit handler calls. -/
def blockExitSignal (s : LinuxIo) (k : Enter) : Option LinuxIo :=
  if s.ring.rest.exitHandlers = [] then
    ((s.enter k).pollSignal (IoRing.acquireIoReq IoState.handlers k.fuel)).map fun ring =>
      { s with ring := ring }
  else some s

/-- `bio_wait_for_exit` in the coroutine `c`, up to the end of its wait. -/
def waitForExit (s : LinuxIo) (c signal : Handle) (k : Enter) : Option LinuxIo :=
  (s.blockExitSignal k).map fun s =>
    let i := s.ring.rest
    s.setRest { i with
      sched := ((i.sched.makeSignal c signal).daemonize c).waitForSignals c [signal] true
      exitHandlers := i.exitHandlers ++ [signal] }

/-- `bio_platform_update` returns. -/
def returnUpdate (s : LinuxIo) (shouldWaitForIo : Bool) : LinuxIo :=
  { s with stage := .updated shouldWaitForIo, updates := s.updates + 1 }

/-- `bio_platform_update_no_wait`, and the return of its caller. -/
def updateNoWait (s : LinuxIo) (shouldWaitForIo : Bool) (k : Enter) : Option LinuxIo :=
  ((s.enter k).submitAndGetEvents.drainIoCompletions IoState.handlers k.fuel).map fun ring =>
    { s with ring := ring }.returnUpdate shouldWaitForIo

/-- `bio_platform_update_wait` up to the wait. The entries are submitted, or the call fails before
that. -/
def updateWait (s : LinuxIo) (timed submitted : Bool) : LinuxIo :=
  if submitted then
    { s with ring := s.ring.submit, stage := .waiting timed s.ring.sq.length }
  else { s with stage := .waiting timed 0 }

/-- The entry for a notification: the counter is an object of `bio_ctx`, and the buffer for the eventfd a
variable of `bio_platform_update`. -/
def pushNotification (hasOpFutexWait : Bool) (s : LinuxIo) : LinuxIo :=
  { s with
    ring := s.ring.pushSqe (if hasOpFutexWait then .futexWait else .eventfdRead s.updates) }

/-- `bio_platform_update` up to the wait, with the result of `bio_time_until_next_timer`. -/
def platformUpdate (hasOpFutexWait : Bool) (s : LinuxIo) (timeUntilNextTimer : Int)
    (notifiable notified submitted : Bool) (k : Enter) : Option LinuxIo :=
  let shouldWaitForIo := s.sched.nextReadyCoros.length = 0
  let waitTimeout := if shouldWaitForIo then timeUntilNextTimer else 0
  if waitTimeout = 0 then s.updateNoWait shouldWaitForIo k
  else if hasOpFutexWait && notified then s.updateNoWait shouldWaitForIo k
  else if notifiable then
    (s.acquireIoReq k).map fun s =>
      (s.pushNotification hasOpFutexWait).updateWait (0 < waitTimeout) submitted
  else some (s.updateWait (0 < waitTimeout) submitted)

/-- The wait is over. -/
def wake (s : LinuxIo) (timed : Bool) (numSubmitted : Nat) (k : Enter) : Option LinuxIo :=
  if timed then
    (if s.ring.ready > 0 then s.drain k else some s).map fun s =>
      if numSubmitted ≤ 0 then { s with ring := s.ring.submit, stage := .retrying }
      else s.returnUpdate true
  else (s.drain k).map fun s => s.returnUpdate true

/-- The coroutine that runs is inside `bio_submit_io_req`. -/
def busy (s : LinuxIo) : Bool :=
  s.sched.phase.mcoRunning.any fun c => (s.ring.rest.requests c).isSome

/-- A live signal of a request, or the signal of an exit handler. -/
def isLocal (s : LinuxIo) (h : Handle) : Bool :=
  ((s.sched.ownerOf h).any fun c => (s.ring.rest.requests c).any fun req => req.signal = h) ||
    s.ring.rest.exitHandlers.contains h

/-- The iteration of `bio_loop` has come to the action. -/
def inTurn (s : LinuxIo) : Action → Bool
  | .swap => s.stage = .updated true ∨ s.stage = .updated false
  | .raise _ => s.sched.phase = .polling → s.stage = .idle ∨ s.stage = .updated true
  | .terminate => false
  | _ => true

end LinuxIo

inductive IoAction
  /-- the rest of the program -/
  | sched (a : Action)
  | submit (signal : Handle) (k : Enter)
  | returnIoReq
  | waitForExit (signal : Handle) (k : Enter)
  | terminate
  | platformUpdate (timeUntilNextTimer : Int) (notifiable notified submitted : Bool) (k : Enter)
  /-- the kernel completes an entry -/
  | post (cqe : Cqe)
  | wake (k : Enter)
  /-- the end of `bio_platform_update_wait` when nothing was submitted at first -/
  | retried (k : Enter)
deriving DecidableEq

namespace LinuxIo

variable (hasOpFutexWait : Bool)

/-- The part of an action that depends on the rings. -/
def step (s : LinuxIo) : IoAction → Option LinuxIo
  | .sched a =>
    some { s.setSched (s.sched.perform a) with stage := if a = .swap then .idle else s.stage }
  | .submit signal k =>
    match s.sched.phase.mcoRunning with
    | some c => (s.acquireIoReq k).map fun s => s.submitIoReq c signal
    | none => none
  | .returnIoReq => s.sched.phase.mcoRunning.map s.returnIoReq
  | .waitForExit signal k =>
    match s.sched.phase.mcoRunning with
    | some c => s.waitForExit c signal k
    | none => none
  | .terminate =>
    some (s.setRest { s.ring.rest with
      sched := { s.sched with isTerminating := true } }.dispatchExitSignal)
  | .platformUpdate timeUntilNextTimer notifiable notified submitted k =>
    s.platformUpdate hasOpFutexWait timeUntilNextTimer notifiable notified submitted k
  | .post cqe => some { s with ring := s.ring.post cqe }
  | .wake k =>
    match s.stage with
    | .waiting timed numSubmitted => s.wake timed numSubmitted k
    | _ => none
  | .retried k => (s.drain k).map fun s => s.returnUpdate true

/-- When an action can happen. I/O functions are called by coroutines. -/
def guard (s : LinuxIo) : IoAction → Prop
  | .sched a => s.sched.enabled a ∧ s.busy = false ∧ (∀ h ∈ a.signals, s.isLocal h = false) ∧
      s.inTurn a = true
  | .submit signal _ => s.sched.phase.mcoRunning.any (fun c => s.sched.CanCount c) = true ∧
      s.busy = false ∧ s.sched.Fresh signal
  | .returnIoReq => s.busy = true
  | .waitForExit signal _ => s.sched.phase.mcoRunning.any (fun c => s.sched.CanCount c) = true ∧
      s.busy = false ∧ s.sched.Fresh signal ∧ s.sched.isTerminating = false
  | .terminate => s.sched.phase = .outside
  | .platformUpdate .. => s.sched.phase = .polling ∧ s.stage = .idle
  | .post _ => s.stage.inKernel = true
  | .wake _ => True
  | .retried _ => s.stage = .retrying

/-- `bio_platform_init`. -/
structure Init (s : LinuxIo) : Prop where
  sqEntries : 0 < s.ring.sqEntries
  sq : s.ring.sq = []
  inFlight : s.ring.inFlight = []
  ktail : s.ring.ktail = s.ring.khead
  signalPolled : s.ring.signalPolled = false
  rest : s.ring.rest = ⟨Sched.init, fun _ => none, []⟩
  stage : s.stage = .idle

/-- All runs of `bio_loop` and of the coroutines, for all that the kernel does. -/
def machine : Machine LinuxIo IoAction where
  init := Init
  enabled := fun s a => s.guard a ∧ (s.step hasOpFutexWait a).isSome = true
  perform := fun s a => (s.step hasOpFutexWait a).getD s

instance (s : LinuxIo) : ∀ a, Decidable (s.guard a)
  | .sched a => inferInstanceAs (Decidable (s.sched.enabled a ∧ s.busy = false ∧
      (∀ h ∈ a.signals, s.isLocal h = false) ∧ s.inTurn a = true))
  | .submit signal _ => inferInstanceAs (Decidable
      (s.sched.phase.mcoRunning.any (fun c => s.sched.CanCount c) = true ∧ s.busy = false ∧
      s.sched.Fresh signal))
  | .returnIoReq => inferInstanceAs (Decidable (s.busy = true))
  | .waitForExit signal _ => inferInstanceAs (Decidable
      (s.sched.phase.mcoRunning.any (fun c => s.sched.CanCount c) = true ∧ s.busy = false ∧
      s.sched.Fresh signal ∧ s.sched.isTerminating = false))
  | .terminate => inferInstanceAs (Decidable (s.sched.phase = .outside))
  | .platformUpdate .. =>
    inferInstanceAs (Decidable (s.sched.phase = .polling ∧ s.stage = .idle))
  | .post _ => inferInstanceAs (Decidable (s.stage.inKernel = true))
  | .wake _ => inferInstanceAs (Decidable True)
  | .retried _ => inferInstanceAs (Decidable (s.stage = .retrying))

instance (s : LinuxIo) (a : IoAction) : Decidable ((machine hasOpFutexWait).enabled s a) :=
  inferInstanceAs (Decidable (s.guard a ∧ (s.step hasOpFutexWait a).isSome = true))

/-- `bio_init` with a submission ring of that size and a completion ring of two entries. -/
def start (sqEntries : Nat) : LinuxIo where
  ring := {
    sqEntries := sqEntries
    sq := []
    inFlight := []
    cqEntries := 2
    cqEntries_lt := IoRing.two_lt
    cqEntries_dvd := IoRing.two_dvd
    khead := 0
    ktail := 0
    cqes := fun _ => ⟨.futexWait, 0, 0⟩
    signalPolled := false
    rest := ⟨Sched.init, fun _ => none, []⟩
    upcoming := []
    dispatched := [] }
  stage := .idle
  calls := 0
  updates := 0

theorem init_start {sqEntries : Nat} (h : 0 < sqEntries) : (start sqEntries).Init :=
  ⟨h, rfl, rfl, rfl, rfl, rfl, rfl⟩

theorem step_of_enabled {hasOpFutexWait : Bool} {s : LinuxIo} {a : IoAction}
    (he : (machine hasOpFutexWait).enabled s a) :
    s.step hasOpFutexWait a = some ((machine hasOpFutexWait).perform s a) := by
  obtain ⟨t, ht⟩ := Option.isSome_iff_exists.mp he.2
  simp [machine, ht]

end LinuxIo

end Bio
