import Bio.SchedulerLocal
import Bio.ThreadPool

/-!
# Async jobs

`bio_run_async` and `bio_thread_update` of `src/thread.c`, and `bio_run_async_and_wait` of
`include/bio/bio.h`, on the main thread, interleaved with the workers.

The main thread goes on in small steps: one message taken out of a response queue (with the raise
and the two decrements that follow it, none of which a worker can see), one comparison of loads, one
attempt to submit. A call of `bio_run_async` yields when the chosen queue is full, and any number of
coroutines may be in such a call. Outside of coroutines `bio_yield` does nothing.

The rest of the program may do whatever the scheduler allows, except that the signal of a call of
`bio_run_async_and_wait` is local to it.
-/

namespace Bio

/-- The locals of a call of `bio_run_async`. No chosen worker is `-1`. -/
structure SubmitFrame where
  msg : WorkerMsg
  i : Nat
  minLoad : BitVec 32
  chosenWorkerIndex : Option Nat
deriving DecidableEq, Repr

inductive AsyncStage
  /-- in `bio_run_async` -/
  | submitting
  /-- in or after `bio_wait_for_one_signal` -/
  | waiting
deriving DecidableEq, Repr

/-- The locals of a call of `bio_run_async_and_wait`. -/
structure AsyncFrame where
  task : Nat
  signal : Handle
  stage : AsyncStage
deriving DecidableEq, Repr

structure AsyncState where
  sched : Sched
  pool : ThreadPool
  /-- the calls of `bio_run_async`, by their coroutine -/
  submits : Option Handle → Option SubmitFrame
  /-- the calls of `bio_run_async_and_wait` -/
  waits : Handle → Option AsyncFrame
  /-- the next worker that `bio_thread_update` drains -/
  updating : Option Nat
  /-- the number of calls of `bio_run_async` -/
  nextTask : Nat

namespace SubmitFrame

/-- The head of the outer loop of `bio_run_async`. -/
def start (msg : WorkerMsg) : SubmitFrame :=
  { msg := msg, i := 0, minLoad := BitVec.allOnes 32, chosenWorkerIndex := none }

/-- The rest of the inner loop of `bio_run_async`, with the load of the worker `i`. -/
def compare (f : SubmitFrame) (load : BitVec 32) : SubmitFrame :=
  if load < f.minLoad then
    { f with i := f.i + 1, minLoad := load, chosenWorkerIndex := some f.i }
  else { f with i := f.i + 1 }

end SubmitFrame

namespace AsyncState

variable (size : PoolSize)

def setSubmit (q : AsyncState) (k : Option Handle) (f : Option SubmitFrame) : AsyncState :=
  { q with submits := Function.update q.submits k f }

def setWait (q : AsyncState) (c : Handle) (f : Option AsyncFrame) : AsyncState :=
  { q with waits := Function.update q.waits c f }

/-- One round of `bio_thread_drain_responses`. -/
def drain (q : AsyncState) (i : Nat) : Option AsyncState :=
  match q.pool.consume i with
  | some (msg, pool) =>
    some { q with
      pool := pool
      sched := if msg.type = .run then (q.sched.raiseSignal msg.signal).1 else q.sched }
  | none => none

/-- `bio_run_async` up to its loop, in the coroutine `k` or outside of coroutines. -/
def runAsync (q : AsyncState) (k : Option Handle) (signal : Handle) : AsyncState :=
  { q.setSubmit k (some (.start
      { type := .run, needNotification := true, task := q.nextTask, signal := signal })) with
    nextTask := q.nextTask + 1 }

/-- `bio_yield`. -/
def yield (s : Sched) : Option Handle → Sched
  | some c => s.suspend c
  | none => s

/-- The next step of a call of `bio_run_async`. That there is a worker to choose is
`Inv.has_worker`. -/
def submitStep (q : AsyncState) (k : Option Handle) (f : SubmitFrame) : AsyncState :=
  if f.i < size.numThreads then
    match q.drain f.i with
    | some q => q
    | none => q.setSubmit k (some (f.compare (q.pool.workers f.i).load))
  else
    match f.chosenWorkerIndex with
    | some i =>
      if (q.pool.workers i).requestQueue.length < size.queueSize then
        { q.setSubmit k none with pool := q.pool.submit i f.msg }
      else { q.setSubmit k (some (.start f.msg)) with sched := yield q.sched k }
    | none => q

/-- `bio_run_async_and_wait` in the coroutine `c`, up to the loop of `bio_run_async`. -/
def runAsyncAndWait (q : AsyncState) (c signal : Handle) : AsyncState :=
  ({ q with sched := q.sched.makeSignal c signal }.setWait c
    (some ⟨q.nextTask, signal, .submitting⟩)).runAsync (some c) signal

/-- The next step of a call of `bio_run_async_and_wait` outside of `bio_run_async`: it waits, or it
returns. -/
def waitStep (q : AsyncState) (c : Handle) (f : AsyncFrame) : AsyncState :=
  match f.stage with
  | .submitting =>
    { q.setWait c (some { f with stage := .waiting }) with
      sched := q.sched.waitForSignals c [f.signal] true }
  | .waiting => q.setWait c none

/-- The next step of `bio_thread_update`. -/
def updateStep (q : AsyncState) (i : Nat) : AsyncState :=
  if i < size.numThreads then
    match q.drain i with
    | some q => q
    | none => { q with updating := some (i + 1) }
  else { q with updating := none }

/-- The main thread is inside one of the functions of this file. -/
def busy (q : AsyncState) : Bool :=
  (q.submits q.sched.phase.mcoRunning).isSome ||
    q.sched.phase.mcoRunning.any (fun c => (q.waits c).isSome) || q.updating.isSome

/-- A live signal of a call of `bio_run_async_and_wait`. -/
def isLocal (q : AsyncState) (h : Handle) : Bool :=
  (q.sched.ownerOf h).any fun c => (q.waits c).any fun f => f.signal = h

end AsyncState

inductive AsyncAction
  /-- the rest of the program -/
  | sched (a : Action)
  | runAsync (signal : Handle)
  | runAsyncAndWait (signal : Handle)
  | submitStep
  | waitStep
  /-- `bio_loop` calls `bio_thread_update` -/
  | update
  | updateStep
  | worker (i : Nat)

namespace AsyncState

variable (size : PoolSize)

def enabled (q : AsyncState) : AsyncAction → Prop
  | .sched a => q.sched.enabled a ∧ q.busy = false ∧ ∀ h ∈ a.signals, q.isLocal h = false
  | .runAsync signal => q.sched.phase.userCode = true ∧ q.busy = false ∧
      (signal.isValid = true → signal ∈ q.sched.issued) ∧ q.isLocal signal = false
  | .runAsyncAndWait signal => q.sched.phase.mcoRunning.isSome = true ∧ q.busy = false ∧
      q.sched.Fresh signal
  | .submitStep => q.sched.phase.userCode = true ∧
      (q.submits q.sched.phase.mcoRunning).isSome = true
  | .waitStep => q.sched.phase.mcoRunning.any (fun c => q.sched.CanCount c) = true ∧
      q.sched.phase.mcoRunning.any (fun c => (q.waits c).isSome) = true ∧
      q.submits q.sched.phase.mcoRunning = none
  | .update => q.sched.phase = .polling ∧ q.updating = none
  | .updateStep => q.sched.phase = .polling ∧ q.updating.isSome = true
  | .worker i => i < size.numThreads ∧ (q.pool.workers i).canStep size = true

def perform (q : AsyncState) : AsyncAction → AsyncState
  | .sched a => { q with sched := q.sched.perform a }
  | .runAsync signal => q.runAsync q.sched.phase.mcoRunning signal
  | .runAsyncAndWait signal =>
    match q.sched.phase.mcoRunning with
    | some c => q.runAsyncAndWait c signal
    | none => q
  | .submitStep =>
    match q.submits q.sched.phase.mcoRunning with
    | some f => q.submitStep size q.sched.phase.mcoRunning f
    | none => q
  | .waitStep =>
    match q.sched.phase.mcoRunning with
    | some c =>
      match q.waits c with
      | some f => q.waitStep c f
      | none => q
    | none => q
  | .update => { q with updating := some 0 }
  | .updateStep =>
    match q.updating with
    | some i => q.updateStep size i
    | none => q
  | .worker i => { q with pool := q.pool.workerStep i }

def init : AsyncState where
  sched := Sched.init
  pool := ThreadPool.init
  submits := fun _ => none
  waits := fun _ => none
  updating := none
  nextTask := 0

/-- All interleavings of the main thread and the workers. -/
def machine : Machine AsyncState AsyncAction where
  init := fun q => q = init
  enabled := enabled size
  perform := perform size

instance (q : AsyncState) : ∀ a, Decidable ((machine size).enabled q a)
  | .sched a => inferInstanceAs (Decidable (q.sched.enabled a ∧ q.busy = false ∧
      ∀ h ∈ a.signals, q.isLocal h = false))
  | .runAsync signal => inferInstanceAs (Decidable (q.sched.phase.userCode = true ∧
      q.busy = false ∧ (signal.isValid = true → signal ∈ q.sched.issued) ∧
      q.isLocal signal = false))
  | .runAsyncAndWait signal => inferInstanceAs (Decidable
      (q.sched.phase.mcoRunning.isSome = true ∧ q.busy = false ∧ q.sched.Fresh signal))
  | .submitStep => inferInstanceAs (Decidable (q.sched.phase.userCode = true ∧
      (q.submits q.sched.phase.mcoRunning).isSome = true))
  | .waitStep => inferInstanceAs (Decidable
      (q.sched.phase.mcoRunning.any (fun c => q.sched.CanCount c) = true ∧
      q.sched.phase.mcoRunning.any (fun c => (q.waits c).isSome) = true ∧
      q.submits q.sched.phase.mcoRunning = none))
  | .update => inferInstanceAs (Decidable (q.sched.phase = .polling ∧ q.updating = none))
  | .updateStep => inferInstanceAs (Decidable
      (q.sched.phase = .polling ∧ q.updating.isSome = true))
  | .worker i => inferInstanceAs (Decidable
      (i < size.numThreads ∧ (q.pool.workers i).canStep size = true))

/-! ## The calls that an action goes on with -/

variable {size : PoolSize} {q : AsyncState} {c : Handle}

theorem perform_runAsyncAndWait (hc : q.sched.phase.mcoRunning = some c) (signal : Handle) :
    (machine size).perform q (.runAsyncAndWait signal) = q.runAsyncAndWait c signal := by
  simp only [machine, perform, hc]

theorem perform_submitStep {f : SubmitFrame}
    (hf : q.submits q.sched.phase.mcoRunning = some f) :
    (machine size).perform q .submitStep = q.submitStep size q.sched.phase.mcoRunning f := by
  simp only [machine, perform, hf]

theorem perform_waitStep {f : AsyncFrame} (hc : q.sched.phase.mcoRunning = some c)
    (hf : q.waits c = some f) : (machine size).perform q .waitStep = q.waitStep c f := by
  simp only [machine, perform, hc, hf]

theorem perform_updateStep {i : Nat} (hu : q.updating = some i) :
    (machine size).perform q .updateStep = q.updateStep size i := by
  simp only [machine, perform, hu]

/-- The call of `bio_run_async_and_wait` that goes on. -/
theorem waiting_of_enabled (he : (machine size).enabled q .waitStep) :
    ∃ c f, q.sched.phase = .running c ∧ q.sched.CanCount c ∧ q.waits c = some f := by
  obtain ⟨hcount, hsome, _⟩ := he
  obtain ⟨c, hp, hcount⟩ := Sched.running_of_any hcount
  rw [hp] at hsome
  obtain ⟨f, hf⟩ := Option.isSome_iff_exists.mp hsome
  exact ⟨c, f, hp, hcount, hf⟩

end AsyncState

end Bio
