import Bio.LoopRound

/-!
# Notification by futex

`bio_platform_update` and `bio_platform_notify` of `src/linux/platform.c` when io_uring can wait for
a futex, and the part of `bio_loop` around them (`LoopRound`). The main thread and the workers are
those of `AsyncState`. A worker in `bio_platform_notify` first increments the counter and then wakes
the futex, in two steps.

The kernel compares the counter with the expected value when it gets the wait. When they differ the
wait completes at once. Otherwise it is a waiter until a wake selects it, also after the main thread
has stopped waiting for it. A wake selects a waiter if there is one. Of the completion ring only the
number of completions is kept: what is in them and which signals they raise makes no difference
here. Other I/O may complete at any time.

The fields `sent` and `acked` are ghosts: the number of increments so far, and the number of them
before the load that `ack_counter` comes from.
-/

namespace Bio

/-- Where the main thread is in the updates of a round of `bio_loop`. A wait with a timeout is
`timed`. -/
inductive PollStage
  /-- before the first `bio_thread_update` -/
  | start
  /-- in the first `bio_thread_update` -/
  | first
  /-- after it, before `bio_platform_update` -/
  | drained
  /-- in `bio_platform_update_no_wait`, with the timeout `0` -/
  | noWait (shouldWaitForIo : Bool)
  /-- before the load of `notification_counter` -/
  | loading (timed notifiable : Bool)
  /-- in `bio_platform_update_no_wait`, with the counter that was loaded -/
  | cancelled (notificationCounter : BitVec 32) (total : Nat)
  /-- before `bio_acquire_io_req` for the futex -/
  | preparing (timed notifiable : Bool)
  /-- at the entry of `bio_platform_update_wait` -/
  | submitting (timed notifiable : Bool)
  /-- in the system call -/
  | blocked (timed notifiable : Bool)
  /-- back from the system call without a submission -/
  | unsubmitted (notifiable : Bool)
  /-- after `bio_platform_update_wait` -/
  | woken
  /-- before the second `bio_thread_update` -/
  | again
  /-- in the second `bio_thread_update` -/
  | second
  /-- before the swap of the lists -/
  | swapping
deriving DecidableEq, Repr

namespace PollStage

/-- The main thread does not run. -/
def isBlocked : PollStage → Bool
  | .blocked _ _ => true
  | _ => false

/-- Only the wait with a timeout may return without a submission. -/
def canSkip : PollStage → Bool
  | .submitting timed _ => timed
  | _ => false

def canTimeOut : PollStage → Bool
  | .blocked timed _ => timed
  | _ => false

/-- The next step compares `ack_counter` with `notification_counter` before a wait. -/
def compares : PollStage → Bool
  | .loading _ _ => true
  | .submitting _ notifiable => notifiable
  | _ => false

@[simps]
def round : LoopRound PollStage where
  start := .start
  first := .first
  drained := .drained
  again := .again
  second := .second
  swapping := .swapping
  blocked := isBlocked
  again_ne_start := by decide
  second_ne_first := by decide

end PollStage

structure LinuxState where
  async : AsyncState
  notificationCounter : BitVec 32
  ackCounter : BitVec 32
  /-- the worker is between the two statements of `bio_platform_notify` -/
  incremented : Nat → Bool
  /-- the futex waits in the kernel -/
  waiters : Nat
  /-- the completions that the main thread has not seen -/
  completions : Nat
  stage : PollStage
  sent : Nat
  acked : Nat

namespace LinuxState

/-- The first statement of `bio_platform_notify`. -/
def increment (s : LinuxState) (i : Nat) : LinuxState :=
  { s with
    notificationCounter := s.notificationCounter + 1#32
    incremented := Function.update s.incremented i true
    sent := s.sent + 1 }

/-- The second statement of `bio_platform_notify`, after which the worker goes on. -/
def futexWake (s : LinuxState) (i : Nat) : LinuxState :=
  { s with
    async := { s.async with pool := s.async.pool.workerStep i }
    incremented := Function.update s.incremented i false
    waiters := s.waiters - 1
    completions := if 0 < s.waiters then s.completions + 1 else s.completions }

/-- `bio_drain_io_completions`. -/
def drainIoCompletions (s : LinuxState) : LinuxState := { s with completions := 0 }

/-- The kernel gets the wait for the futex, if there is one. -/
def submitWait (s : LinuxState) (notifiable : Bool) : LinuxState :=
  if notifiable then
    if s.notificationCounter = s.ackCounter then { s with waiters := s.waiters + 1 }
    else { s with completions := s.completions + 1 }
  else s

def setStage (s : LinuxState) (stage : PollStage) : LinuxState := { s with stage := stage }

/-- The call of `bio_platform_update` in `bio_loop`, up to the branch over the timeout.
`timeUntilNextTimer` is the result of `bio_time_until_next_timer`. -/
def platformUpdate (s : LinuxState) (timeUntilNextTimer : Int) : LinuxState :=
  let shouldWaitForIo := s.async.sched.nextReadyCoros.isEmpty
  let waitTimeoutMs := if shouldWaitForIo then timeUntilNextTimer else 0
  if waitTimeoutMs = 0 then s.setStage (.noWait shouldWaitForIo)
  else s.setStage (.loading (0 < waitTimeoutMs) (0 < s.async.pool.numRunningAsyncJobs))

/-- The next step of `bio_platform_update`. -/
def platformStep (s : LinuxState) : LinuxState :=
  match s.stage with
  | .noWait shouldWaitForIo =>
    s.drainIoCompletions.setStage (if shouldWaitForIo then .again else .swapping)
  | .loading timed notifiable =>
    if s.ackCounter ≠ s.notificationCounter then
      s.setStage (.cancelled s.notificationCounter s.sent)
    else s.setStage (.preparing timed notifiable)
  | .cancelled notificationCounter total =>
    { s.drainIoCompletions.setStage .again with
      ackCounter := notificationCounter
      acked := total }
  | .preparing timed notifiable => s.setStage (.submitting timed notifiable)
  | .submitting timed notifiable => (s.submitWait notifiable).setStage (.blocked timed notifiable)
  | .blocked _ _ => s.drainIoCompletions.setStage .woken
  | .unsubmitted notifiable => ((s.submitWait notifiable).drainIoCompletions).setStage .woken
  | .woken => { s.setStage .again with ackCounter := s.notificationCounter, acked := s.sent }
  | _ => s

/-- The system call came back, `num_submitted` is not positive. -/
def skipSubmit (s : LinuxState) : LinuxState :=
  match s.stage with
  | .submitting _ notifiable => s.drainIoCompletions.setStage (.unsubmitted notifiable)
  | _ => s

/-- Where the main thread is after an action of `AsyncState`. -/
def stageAfter (s : LinuxState) (q : AsyncState) (a : AsyncAction) : PollStage :=
  PollStage.round.after s.stage q a

end LinuxState

inductive LinuxAction
  /-- the main thread outside of `bio_platform_update`, a worker outside of
  `bio_platform_notify` -/
  | async (a : AsyncAction)
  | increment (i : Nat)
  | futexWake (i : Nat)
  /-- an I/O operation completes -/
  | complete
  /-- in `bio_acquire_io_req` when the submission queue is full, or after a timeout -/
  | drainIoCompletions
  | platformUpdate (timeUntilNextTimer : Int)
  | platformStep
  /-- `io_uring_submit_and_wait_timeout` returns without a submission -/
  | skipSubmit
  /-- the timeout of the wait has passed -/
  | timeOut

namespace LinuxState

variable (size : PoolSize)

/-- What an action of `AsyncState` needs from the platform. -/
def allows (s : LinuxState) (a : AsyncAction) : Prop := PollStage.round.allows s.async.pool s.stage a

/-- `bio_platform_update` can go on. A wait goes on when there is a completion. -/
def canUpdate (s : LinuxState) : Bool :=
  match s.stage with
  | .noWait _ | .loading _ _ | .cancelled _ _ | .preparing _ _ | .submitting _ _
  | .unsubmitted _ | .woken => true
  | .blocked _ _ => 0 < s.completions
  | _ => false

def enabled (s : LinuxState) : LinuxAction → Prop
  | .async a => (AsyncState.machine size).enabled s.async a ∧ s.allows a
  | .increment i => i < size.numThreads ∧ (s.async.pool.workers i).pc = .notifying ∧
      s.incremented i = false
  | .futexWake i => i < size.numThreads ∧ (s.async.pool.workers i).pc = .notifying ∧
      s.incremented i = true
  | .complete => True
  | .drainIoCompletions => s.stage.isBlocked = false
  | .platformUpdate _ => s.stage = .drained
  | .platformStep => s.canUpdate = true
  | .skipSubmit => s.stage.canSkip = true
  | .timeOut => s.stage.canTimeOut = true

def perform (s : LinuxState) : LinuxAction → LinuxState
  | .async a =>
    let q := (AsyncState.machine size).perform s.async a
    { s with async := q, stage := s.stageAfter q a }
  | .increment i => s.increment i
  | .futexWake i => s.futexWake i
  | .complete => { s with completions := s.completions + 1 }
  | .drainIoCompletions => s.drainIoCompletions
  | .platformUpdate timeUntilNextTimer => s.platformUpdate timeUntilNextTimer
  | .platformStep => s.platformStep
  | .skipSubmit => s.skipSubmit
  | .timeOut => s.setStage .woken

/-- `bio_platform_init`. -/
def init : LinuxState where
  async := AsyncState.init
  notificationCounter := 0#32
  ackCounter := 0#32
  incremented := fun _ => false
  waiters := 0
  completions := 0
  stage := .start
  sent := 0
  acked := 0

/-- All interleavings of the main thread, the workers and the kernel. -/
def machine : Machine LinuxState LinuxAction where
  init := fun s => s = init
  enabled := enabled size
  perform := perform size

instance (s : LinuxState) (a : AsyncAction) : Decidable (s.allows a) :=
  inferInstanceAs (Decidable (PollStage.round.allows s.async.pool s.stage a))

instance (s : LinuxState) : ∀ a, Decidable ((machine size).enabled s a)
  | .async a => inferInstanceAs (Decidable
      ((AsyncState.machine size).enabled s.async a ∧ s.allows a))
  | .increment i => inferInstanceAs (Decidable (i < size.numThreads ∧
      (s.async.pool.workers i).pc = .notifying ∧ s.incremented i = false))
  | .futexWake i => inferInstanceAs (Decidable (i < size.numThreads ∧
      (s.async.pool.workers i).pc = .notifying ∧ s.incremented i = true))
  | .complete => inferInstanceAs (Decidable True)
  | .drainIoCompletions => inferInstanceAs (Decidable (s.stage.isBlocked = false))
  | .platformUpdate _ => inferInstanceAs (Decidable (s.stage = .drained))
  | .platformStep => inferInstanceAs (Decidable (s.canUpdate = true))
  | .skipSubmit => inferInstanceAs (Decidable (s.stage.canSkip = true))
  | .timeOut => inferInstanceAs (Decidable (s.stage.canTimeOut = true))

/-! ## The property -/

/-- The main thread is blocked, a worker has put a response into its queue and has returned from
`bio_platform_notify`, and there is nothing that would wake the main thread. -/
def LostNotification (s : LinuxState) : Prop :=
  s.stage.isBlocked = true ∧ (∃ i, (s.async.pool.workers i).announced false ≠ []) ∧
    s.completions = 0

/-- The number of increments since the load that `ack_counter` comes from is not a positive multiple
of `2 ^ 32`, so that the comparison of the counters tells whether there were any. -/
def Distinguishable (s : LinuxState) : Prop :=
  2 ^ 32 ∣ s.sent - s.acked → s.sent ≤ s.acked

/-- The comparisons of the two counters, in `bio_platform_update` and in the kernel, can tell
whether there were increments. -/
def Compares (s : LinuxState) : LinuxAction → Prop
  | .platformStep => s.stage.compares = true → s.Distinguishable
  | _ => True

end LinuxState

end Bio
