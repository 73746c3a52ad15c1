import Bio.Lib.Wakeup
import Bio.LoopRound

/-!
# Notification by an event

`bio_platform_notify` and `bio_platform_update` of `src/freebsd/platform.c` and
`src/windows/platform.c`, and those of `src/linux/platform.c` when io_uring cannot wait for a futex,
with the part of `bio_loop` around them (`LoopRound`). On these platforms a worker notifies with one system call,
and the notification stays in the kernel until the main thread takes it.

The kernel object is a `Channel`: a notification is a `post`, the completion of an I/O operation is
an `event`. The three platforms differ in what they put there and take from it:

* kqueue: the user event is pending once, however often it was triggered. `kevent` takes a batch of
  events, and the main thread looks again if the batch was full.
* Completion port: a packet for each notification. The batches are the same.
* eventfd: a counter, and a read for each wait. io_uring takes all completions, also in
  `bio_acquire_io_req` when the submission queue is full.

Of an event only its kind is kept: the signals that it raises are actions of the rest of the
program.
-/

namespace Bio

/-- Where the main thread is in the updates of a round of `bio_loop`. A wait with a timeout is
`timed`. -/
inductive PollPlace
  /-- before the first `bio_thread_update` -/
  | start
  /-- in the first `bio_thread_update` -/
  | first
  /-- after it, before `bio_platform_update` -/
  | drained
  /-- in `bio_platform_update`, before the request of a wait is made -/
  | preparing (timed notifiable : Bool)
  /-- before the system call -/
  | submitting (timed notifiable : Bool)
  /-- in the system call -/
  | blocked (timed notifiable : Bool)
  /-- back from the system call without a submission -/
  | unsubmitted (notifiable : Bool)
  /-- before a system call that does not wait -/
  | collecting (shouldWaitForIo : Bool)
  /-- before the second `bio_thread_update` -/
  | again
  /-- in the second `bio_thread_update` -/
  | second
  /-- before the swap of the lists -/
  | swapping
deriving DecidableEq, Repr

namespace PollPlace

/-- The last argument of `bio_platform_update`, where it is still of use. -/
def notifiable : PollPlace → Option Bool
  | .preparing _ notifiable | .submitting _ notifiable | .blocked _ notifiable => some notifiable
  | _ => none

/-- The same in the system call. -/
def wait : PollPlace → Option Bool
  | .blocked _ notifiable => some notifiable
  | _ => none

/-- Only the wait with a timeout may return without a submission. -/
def canSkip : PollPlace → Bool
  | .submitting timed _ => timed
  | _ => false

def canTimeOut : PollPlace → Bool
  | .blocked timed _ => timed
  | _ => false

/-- The completions may be taken outside of the wait: in user code, where `bio_platform_update`
makes its request, and after a timeout. -/
def canDrain : PollPlace → Bool
  | .start | .preparing _ _ | .again => true
  | _ => false

@[simps]
def round : LoopRound PollPlace where
  start := .start
  first := .first
  drained := .drained
  again := .again
  second := .second
  swapping := .swapping
  blocked := fun place => place.wait.isSome
  again_ne_start := by decide
  second_ne_first := by decide

/-- After `bio_platform_update`. -/
def afterUpdate (shouldWaitForIo : Bool) : PollPlace := if shouldWaitForIo then .again else .swapping

end PollPlace

/-- What a platform notifies with. -/
structure Notifier (K : Type) extends Channel K where
  /-- after `bio_platform_init` -/
  start : K
  /-- requests go through a submission queue -/
  ring : Bool

structure NotifyState (K : Type) where
  async : AsyncState
  channel : K
  place : PollPlace

inductive NotifyAction
  /-- the main thread outside of `bio_platform_update`, a worker outside of
  `bio_platform_notify` -/
  | async (a : AsyncAction)
  /-- `bio_platform_notify` -/
  | notify (i : Nat)
  /-- an I/O operation completes -/
  | complete
  /-- completions are taken outside of the wait -/
  | drain
  | platformUpdate (timeUntilNextTimer : Int)
  | platformStep
  /-- the system call returns without a submission -/
  | skipSubmit
  /-- the timeout of the wait has passed -/
  | timeOut

namespace NotifyState

variable {K : Type} (nf : Notifier K) (size : PoolSize)

def setPlace (s : NotifyState K) (place : PollPlace) : NotifyState K := { s with place := place }

/-- `bio_platform_notify`, after which the worker goes on. -/
def notify (s : NotifyState K) (i : Nat) : NotifyState K :=
  { s with async := { s.async with pool := s.async.pool.workerStep i }, channel := nf.post s.channel }

/-- The events are taken. -/
def collect (s : NotifyState K) : NotifyState K := { s with channel := (nf.take s.channel).1 }

/-- The call of `bio_platform_update` in `bio_loop`. `timeUntilNextTimer` is the result of
`bio_time_until_next_timer`. -/
def platformUpdate (s : NotifyState K) (timeUntilNextTimer : Int) : NotifyState K :=
  let shouldWaitForIo := s.async.sched.nextReadyCoros.isEmpty
  let waitTimeoutMs := if shouldWaitForIo then timeUntilNextTimer else 0
  if waitTimeoutMs = 0 then s.setPlace (.collecting shouldWaitForIo)
  else s.setPlace (.preparing (0 < waitTimeoutMs) (0 < s.async.pool.numRunningAsyncJobs))

/-- A system call returns with a batch, and the loop of `bio_platform_update` goes on or ends. -/
def collectBatch (s : NotifyState K) (shouldWaitForIo : Bool) : NotifyState K :=
  (s.collect nf).setPlace (if (nf.take s.channel).2 then .collecting shouldWaitForIo
    else .afterUpdate shouldWaitForIo)

/-- The next step of `bio_platform_update`. -/
def platformStep (s : NotifyState K) : NotifyState K :=
  match s.place with
  | .preparing timed notifiable => s.setPlace (.submitting timed notifiable)
  | .submitting timed notifiable =>
    { s with channel := nf.arm notifiable s.channel, place := .blocked timed notifiable }
  | .blocked _ _ => s.collectBatch nf true
  | .unsubmitted notifiable =>
    { s with channel := nf.arm notifiable s.channel, place := .collecting true }
  | .collecting shouldWaitForIo => s.collectBatch nf shouldWaitForIo
  | _ => s

/-- The system call came back, `num_submitted` is not positive. -/
def skipSubmit (s : NotifyState K) : NotifyState K :=
  match s.place with
  | .submitting _ notifiable => (s.collect nf).setPlace (.unsubmitted notifiable)
  | _ => s

/-- Where the main thread is after an action of `AsyncState`. -/
def placeAfter (s : NotifyState K) (q : AsyncState) (a : AsyncAction) : PollPlace :=
  PollPlace.round.after s.place q a

/-- What an action of `AsyncState` needs from the platform. -/
def allows (s : NotifyState K) (a : AsyncAction) : Prop :=
  PollPlace.round.allows s.async.pool s.place a

/-- `bio_platform_update` can go on. -/
def canUpdate (s : NotifyState K) : Bool :=
  match s.place with
  | .preparing _ _ | .submitting _ _ | .unsubmitted _ | .collecting _ => true
  | .blocked _ _ => nf.awake s.channel
  | _ => false

def enabled (s : NotifyState K) : NotifyAction → Prop
  | .async a => (AsyncState.machine size).enabled s.async a ∧ s.allows a
  | .notify i => i < size.numThreads ∧ (s.async.pool.workers i).pc = .notifying
  | .complete => True
  | .drain => nf.ring = true ∧ s.place.canDrain = true
  | .platformUpdate _ => s.place = .drained
  | .platformStep => s.canUpdate nf = true
  | .skipSubmit => nf.ring = true ∧ s.place.canSkip = true
  | .timeOut => s.place.canTimeOut = true

def perform (s : NotifyState K) : NotifyAction → NotifyState K
  | .async a =>
    let q := (AsyncState.machine size).perform s.async a
    { s with async := q, place := s.placeAfter q a }
  | .notify i => s.notify nf i
  | .complete => { s with channel := nf.event s.channel }
  | .drain => s.collect nf
  | .platformUpdate timeUntilNextTimer => s.platformUpdate timeUntilNextTimer
  | .platformStep => s.platformStep nf
  | .skipSubmit => s.skipSubmit nf
  | .timeOut => s.setPlace .again

def init : NotifyState K where
  async := AsyncState.init
  channel := nf.start
  place := .start

/-- All interleavings of the main thread, the workers and the kernel. -/
def machine : Machine (NotifyState K) NotifyAction where
  init := fun s => s = init nf
  enabled := enabled nf size
  perform := perform nf size

instance (s : NotifyState K) (a : AsyncAction) : Decidable (s.allows a) :=
  inferInstanceAs (Decidable (PollPlace.round.allows s.async.pool s.place a))

instance (s : NotifyState K) : ∀ a, Decidable ((machine nf size).enabled s a)
  | .async a => inferInstanceAs (Decidable
      ((AsyncState.machine size).enabled s.async a ∧ s.allows a))
  | .notify i => inferInstanceAs (Decidable (i < size.numThreads ∧
      (s.async.pool.workers i).pc = .notifying))
  | .complete => inferInstanceAs (Decidable True)
  | .drain => inferInstanceAs (Decidable (nf.ring = true ∧ s.place.canDrain = true))
  | .platformUpdate _ => inferInstanceAs (Decidable (s.place = .drained))
  | .platformStep => inferInstanceAs (Decidable (s.canUpdate nf = true))
  | .skipSubmit => inferInstanceAs (Decidable (nf.ring = true ∧ s.place.canSkip = true))
  | .timeOut => inferInstanceAs (Decidable (s.place.canTimeOut = true))

end NotifyState

/-! ## The platforms -/

inductive PlatformEvent
  | notification
  | io
deriving DecidableEq, Repr

/-- The option `batch_size`, where `0` stands for the default. -/
def batchSize (option default : Nat) : Nat := if option = 0 then default else option

/-- The first events leave the queue. A full batch makes the loop of `bio_platform_update` look
again. -/
def takeBatch (batch : Nat) (pending : List PlatformEvent) : List PlatformEvent × Bool :=
  (pending.drop batch, (pending.take batch).length = batch)

/-- The events of the kqueue. The user event has `EV_CLEAR`: it is pending until it is taken. -/
def kqueue (batchOption : Nat) : Notifier (List PlatformEvent) where
  post := fun pending =>
    if .notification ∈ pending then pending else pending ++ [.notification]
  event := fun pending => pending ++ [.io]
  arm := fun _ pending => pending
  awake := fun pending => !pending.isEmpty
  -- `BIO_FREEBSD_DEFAULT_BATCH_SIZE`
  take := takeBatch (batchSize batchOption 4)
  start := []
  ring := false

/-- The packets of the completion port. -/
def completionPort (batchOption : Nat) : Notifier (List PlatformEvent) where
  post := fun pending => pending ++ [.notification]
  event := fun pending => pending ++ [.io]
  arm := fun _ pending => pending
  awake := fun pending => !pending.isEmpty
  -- `BIO_WINDOWS_DEFAULT_BATCH_SIZE`
  take := takeBatch (batchSize batchOption 4)
  start := []
  ring := false

/-- The eventfd and the reads that io_uring has for it. -/
structure EventFd where
  counter : Nat
  /-- the reads that wait for the counter, also those that no wait of the main thread is left for -/
  reads : Nat
  /-- the completions that the main thread has not seen -/
  completions : Nat
deriving DecidableEq, Repr

namespace EventFd

/-- `write` of `1`. A read that waits takes it. -/
def write (e : EventFd) : EventFd :=
  if 0 < e.reads then { e with reads := e.reads - 1, completions := e.completions + 1 }
  else { e with counter := e.counter + 1 }

/-- The kernel gets the read. It takes the counter, or waits for it. -/
def read (e : EventFd) : EventFd :=
  if 0 < e.counter then { e with counter := 0, completions := e.completions + 1 }
  else { e with reads := e.reads + 1 }

end EventFd

/-- The eventfd, and the completions of io_uring. -/
def eventfd : Notifier EventFd where
  post := EventFd.write
  event := fun e => { e with completions := e.completions + 1 }
  arm := fun notifiable e => if notifiable then e.read else e
  awake := fun e => 0 < e.completions
  take := fun e => ({ e with completions := 0 }, false)
  start := ⟨0, 0, 0⟩
  ring := true

namespace NotifyState

/-! ## The property -/

/-- The main thread is blocked, a worker has put a response into its queue and has returned from
`bio_platform_notify`, and there is nothing that would wake the main thread. -/
def LostNotification {K : Type} (nf : Notifier K) (s : NotifyState K) : Prop :=
  s.place.wait.isSome = true ∧ (∃ i, (s.async.pool.workers i).announced false ≠ []) ∧
    nf.awake s.channel = false

/-- When `bio_platform_update` makes the request of its wait, there is room in the submission
queue. -/
def HasRoom {K : Type} (s : NotifyState K) : NotifyAction → Prop
  | .drain => s.place = .start ∨ s.place = .again
  | _ => True

end NotifyState

end Bio
