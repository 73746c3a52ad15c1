import Bio.Async

/-!
# The end of the thread pool

`bio_thread_cleanup` of `src/thread.c`, interleaved with the workers. It begins in any state that the
program can reach: any number of jobs is outstanding, and the workers are anywhere.

* A queue is the list of its messages again. One call of `bio_spscq_produce` or `bio_spscq_consume` is
  one step, which a full or an empty queue blocks when the call waits.
* The pointer to the local variable `terminate` is the only message of that type.
* `freed` and `destroyed` are ghosts: the tasks whose messages `bio_thread_cleanup` freed, each with its
  worker, and what was in the response queues when they were destroyed.
-/

namespace Bio

/-- The local variable `terminate`. -/
def terminateMsg : WorkerMsg :=
  { type := .terminate, needNotification := false, task := 0, signal := Handle.invalid }

/-- Where `bio_thread_cleanup` is with the worker `i`. -/
inductive CleanupPc
  /-- it tries to send the termination message -/
  | sending
  /-- in the `bio_spscq_consume` that waits -/
  | awaiting
  /-- it drains as much as possible before it retries -/
  | draining
  /-- it drains after the message was sent -/
  | lastDraining
  /-- in `thrd_join` -/
  | joining
  | returned
deriving DecidableEq, Repr

/-- The termination message is out. -/
def CleanupPc.sent : CleanupPc → Bool
  | .lastDraining | .joining => true
  | .sending | .awaiting | .draining | .returned => false

/-- The pool with the locals of `bio_thread_cleanup`. -/
structure Shutdown where
  pool : ThreadPool
  i : Nat
  pc : CleanupPc
  freed : List (Nat × Nat)
  destroyed : Nat → List WorkerMsg

namespace Shutdown

variable (size : PoolSize)

/-- `bio_thread_cleanup` is called. -/
def start (pool : ThreadPool) : Shutdown where
  pool := pool
  i := 0
  pc := .sending
  freed := []
  destroyed := fun _ => []

/-- The worker that is terminated. -/
def worker (s : Shutdown) : Worker := s.pool.workers s.i

def setWorker (s : Shutdown) (w : Worker) : Shutdown := { s with pool := s.pool.setWorker s.i w }

/-- A message is taken out of the response queue, and freed unless it is `terminate`. -/
def consume (s : Shutdown) : Option Shutdown :=
  match s.worker.responseQueue with
  | msg :: rest =>
    some { s.setWorker { s.worker with responseQueue := rest } with
      freed := if msg = terminateMsg then s.freed else (msg.task, s.i) :: s.freed }
  | [] => none

/-- `bio_spscq_cleanup` of the queues, and the next round of the loop over the workers. -/
def destroy (s : Shutdown) : Shutdown :=
  { s.setWorker { s.worker with responseQueue := [] } with
    i := s.i + 1
    pc := if s.i + 1 < size.numThreads then .sending else .returned
    destroyed := Function.update s.destroyed s.i s.worker.responseQueue }

/-- The next step of `bio_thread_cleanup`. -/
def mainStep (s : Shutdown) : Shutdown :=
  match s.pc with
  | .sending =>
    if s.worker.requestQueue.length = size.queueSize then { s with pc := .awaiting }
    else
      { s.setWorker { s.worker with requestQueue := s.worker.requestQueue ++ [terminateMsg] } with
        pc := .lastDraining }
  | .awaiting =>
    match s.consume with
    | some s => { s with pc := .draining }
    | none => s
  | .draining =>
    match s.consume with
    | some s => s
    | none => { s with pc := .sending }
  | .lastDraining =>
    match s.consume with
    | some s => s
    | none => { s with pc := .joining }
  | .joining => s.destroy size
  | .returned => s

/-- The main thread is not blocked, and `bio_thread_cleanup` has not returned. -/
def mainReady (s : Shutdown) : Bool :=
  match s.pc with
  | .awaiting => !s.worker.responseQueue.isEmpty
  | .joining => s.worker.pc = .exited
  | .returned => false
  | .sending | .draining | .lastDraining => true

end Shutdown

inductive ShutdownAction
  | main
  | worker (i : Nat)
deriving DecidableEq, Repr

namespace Shutdown

variable (size : PoolSize)

def enabled (s : Shutdown) : ShutdownAction → Prop
  | .main => s.mainReady = true
  | .worker i => i < size.numThreads ∧ (s.pool.workers i).canStep size = true

def perform (s : Shutdown) : ShutdownAction → Shutdown
  | .main => s.mainStep size
  | .worker i => { s with pool := s.pool.workerStep i }

/-- All interleavings of `bio_thread_cleanup` and the workers. -/
def machine : Machine Shutdown ShutdownAction where
  init := fun s => ∃ q, (AsyncState.machine size).Reachable q ∧ s = start q.pool
  enabled := enabled size
  perform := perform size

instance (s : Shutdown) : ∀ a, Decidable ((machine size).enabled s a)
  | .main => inferInstanceAs (Decidable (s.mainReady = true))
  | .worker i => inferInstanceAs (Decidable
      (i < size.numThreads ∧ (s.pool.workers i).canStep size = true))

end Shutdown

end Bio
