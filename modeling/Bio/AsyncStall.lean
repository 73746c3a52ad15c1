import Bio.AsyncInvariant
import Bio.Lib.Least

/-!
# Stalled submissions

One round of the outer loop of `bio_run_async` is an attempt: it compares the loads of all workers, tries
to put the message into the request queue of the least loaded one, and calls `bio_yield` if that queue is
full. A load counts the tasks in the request queue, in the hands of the worker and in its response queue.

* `wasFull` is a ghost: the workers whose request queue was full at some point of the attempt. Actions of
  the main thread other than the attempt itself end it, those of the workers do not.
* The yield of the source is `AsyncState.submitStep`, when the loop over the workers is over and the chosen
  queue has no room.

Result: `submit_stalls_iff`. An attempt stalls although a worker has room only by a tie.
-/

namespace Bio

/-- The calls of the main thread and the workers, with the queues that were full. -/
structure StallState where
  async : AsyncState
  wasFull : Nat → Bool

namespace AsyncState

variable (size : PoolSize)

/-- The request queue of the worker is full. -/
def full (q : AsyncState) (i : Nat) : Bool :=
  (q.pool.workers i).requestQueue.length = size.queueSize

def load (q : AsyncState) (i : Nat) : Nat := (q.pool.workers i).load.toNat

/-- The loop over the workers is over. -/
def attemptEnds (q : AsyncState) : Bool :=
  (q.submits q.sched.phase.mcoRunning).any fun f => size.numThreads ≤ f.i

/-- The attempt goes on behind the action. -/
def sameAttempt (q : AsyncState) : AsyncAction → Bool
  | .worker _ => true
  | .submitStep => !q.attemptEnds size
  | _ => false

end AsyncState

namespace StallState

variable (size : PoolSize)

def perform (s : StallState) (a : AsyncAction) : StallState :=
  let async := s.async.perform size a
  { async := async
    wasFull := fun i => s.async.sameAttempt size a && s.wasFull i || async.full size i }

def init : StallState := ⟨AsyncState.init, fun _ => false⟩

def machine : Machine StallState AsyncAction where
  init := fun s => s = init
  enabled := fun s a => s.async.enabled size a
  perform := perform size

/-- The message of the call goes into a request queue that has room, and the call returns. -/
def Enqueues (s : StallState) (f : SubmitFrame) : Prop :=
  ∃ i < size.numThreads, (s.async.pool.workers i).requestQueue.length < size.queueSize ∧
    (s.perform size .submitStep).async.pool = s.async.pool.submit i f.msg ∧
    (s.perform size .submitStep).async.submits s.async.sched.phase.mcoRunning = none

/-- An attempt at whose end all request queues have been full, or which enqueues its message. -/
def StallsOnlyWhenFull (s : StallState) : AsyncAction → Prop
  | .submitStep => ∀ f, s.async.submits s.async.sched.phase.mcoRunning = some f →
      size.numThreads ≤ f.i →
      (∀ j < size.numThreads, s.wasFull j = true) ∨ s.Enqueues size f
  | _ => True

/-- The guard: at the end of no attempt does the first of the least loaded workers have exactly as many
tasks as its request queue holds, and all of them in there, while another worker has as many tasks but had
room all along. -/
def NoTie (s : StallState) : AsyncAction → Prop
  | .submitStep => s.async.attemptEnds size = true → ∀ i j,
      i < j → j < size.numThreads → FirstLeast s.async.load size.numThreads i →
      s.async.load i = size.queueSize → s.async.full size i = true →
      s.async.load j = size.queueSize → s.wasFull j = true
  | _ => True

/-! ## One attempt -/

/-- What the loop over the workers has found out. -/
structure ScanOk (s : StallState) (f : SubmitFrame) : Prop where
  le : f.i ≤ size.numThreads
  chosen : (f.i = 0 ∧ f.minLoad = BitVec.allOnes 32) ∨ ∃ i, f.chosenWorkerIndex = some i ∧
    FirstLeast s.async.load f.i i ∧ f.minLoad = (s.async.pool.workers i).load
  /-- a worker with room has at most one task that is not in its request queue -/
  room : ∀ j < f.i, s.wasFull j = false → s.async.load j ≤ size.queueSize

/-- Only the call that runs is in its loop. -/
structure Inv (s : StallState) : Prop where
  now : ∀ i, s.async.full size i = true → s.wasFull i = true
  scan : ∀ k f, s.async.submits k = some f → s.ScanOk size f
  idle : ∀ k f, s.async.submits k = some f →
    f.i = 0 ∨ k = s.async.sched.phase.mcoRunning ∧ s.async.sched.phase.userCode = true

variable {size} {s : StallState} {f : SubmitFrame} {a : AsyncAction}

theorem async_reachable (hr : (machine size).Reachable s) :
    (AsyncState.machine size).Reachable s.async := by
  refine Machine.invariant (P := fun s => (AsyncState.machine size).Reachable s.async) ?_ ?_ hr
  · rintro _ rfl
    exact .init rfl
  · exact fun s a _ ih he => ih.step he

theorem ScanOk.start (s : StallState) (msg : WorkerMsg) : s.ScanOk size (.start msg) :=
  ⟨Nat.zero_le _, .inl ⟨rfl, rfl⟩, fun j hj => absurd hj (Nat.not_lt_zero j)⟩

/-- A call that is not in its loop knows nothing of the workers. -/
theorem ScanOk.of_zero {s' : StallState} (h : s.ScanOk size f) (hzero : f.i = 0) :
    s'.ScanOk size f := by
  refine ⟨h.le, .inl ?_, fun j hj => absurd hj (hzero ▸ Nat.not_lt_zero j)⟩
  rcases h.chosen with hstart | ⟨i, _, hleast, _⟩
  · exact hstart
  · exact absurd (hzero ▸ hleast.lt) (Nat.not_lt_zero i)

/-- The workers go on, and responses of workers that come later are drained. -/
theorem ScanOk.mono {s' : StallState} (h : s.ScanOk size f)
    (hload : ∀ j < f.i, (s'.async.pool.workers j).load = (s.async.pool.workers j).load)
    (hfull : ∀ j, s'.wasFull j = false → s.wasFull j = false) : s'.ScanOk size f := by
  have hsame : ∀ j < f.i, s'.async.load j = s.async.load j := fun j hj =>
    congrArg BitVec.toNat (hload j hj)
  refine ⟨h.le, ?_, ?_⟩
  · refine h.chosen.imp_right fun ⟨i, hchosen, hleast, hmin⟩ => ?_
    exact ⟨i, hchosen, hleast.congr hsame, hmin.trans (hload i hleast.lt).symm⟩
  · intro j hj hroom
    rw [hsame j hj]
    exact h.room j hj (hfull j hroom)

/-- The loop compares the load of one more worker. -/
theorem ScanOk.compare (h : s.ScanOk size f) (hn : f.i < size.numThreads)
    (hload : (s.async.pool.workers f.i).load < BitVec.allOnes 32)
    (hroom : s.wasFull f.i = false → s.async.load f.i ≤ size.queueSize) :
    s.ScanOk size (f.compare (s.async.pool.workers f.i).load) := by
  have hrooms : ∀ j < f.i + 1, s.wasFull j = false → s.async.load j ≤ size.queueSize := by
    intro j hj
    rcases Nat.lt_succ_iff_lt_or_eq.mp hj with hlt | rfl
    · exact h.room j hlt
    · exact hroom
  unfold SubmitFrame.compare
  split
  · next hlt =>
    refine ⟨hn, .inr ⟨f.i, rfl, ?_, rfl⟩, hrooms⟩
    rcases h.chosen with ⟨hzero, _⟩ | ⟨i, _, hleast, hmin⟩
    · show FirstLeast s.async.load (f.i + 1) f.i
      rw [hzero]
      exact FirstLeast.zero _
    · refine hleast.take ?_
      rw [hmin] at hlt
      exact BitVec.lt_def.mp hlt
  · next hnot =>
    refine ⟨hn, .inr ?_, hrooms⟩
    rcases h.chosen with ⟨_, hmin⟩ | ⟨i, hchosen, hleast, hmin⟩
    · exact absurd (hmin ▸ hload) hnot
    · refine ⟨i, hchosen, hleast.keep ?_, hmin⟩
      rw [hmin] at hnot
      exact Nat.le_of_not_lt fun hlt => hnot (BitVec.lt_def.mpr hlt)

/-- A drained worker with room has at most as many tasks as its queue holds: one may be in its hands. -/
theorem load_le_of_room (hr : (AsyncState.machine size).Reachable s.async) {i : Nat}
    (hdrained : (s.async.pool.workers i).responseQueue = [])
    (hroom : s.async.full size i = false) : s.async.load i ≤ size.queueSize := by
  have hok := (AsyncState.inv_of_reachable hr).pool.workers i
  have hhands : (s.async.pool.workers i).pc.hands.length ≤ 1 := by
    cases (s.async.pool.workers i).pc <;> simp [WorkerPc.hands]
  have hload := hok.load
  have hruns : (runs (s.async.pool.workers i).held).length ≤ (s.async.pool.workers i).held.length := by
    rw [length_runs]
    exact List.countP_le_length
  have hrequests := hok.requests
  have hnot := of_decide_eq_false hroom
  rw [Worker.held, List.length_append, List.length_append, hdrained, List.length_nil] at hruns
  rw [Worker.held, hdrained] at hload
  unfold AsyncState.load
  omega

/-- A full request queue holds no more than the load: all its messages are tasks. -/
theorem le_load_of_full (hr : (AsyncState.machine size).Reachable s.async) {i : Nat}
    (hfull : s.async.full size i = true) : size.queueSize ≤ s.async.load i := by
  have hserved := AsyncState.served_of_reachable hr
  have hload := ((AsyncState.inv_of_reachable hr).pool.workers i).load
  have hall : (runs (s.async.pool.workers i).held).length = (s.async.pool.workers i).held.length := by
    rw [length_runs]
    refine List.countP_eq_length.mpr fun msg hmem => ?_
    exact decide_eq_true (hserved.held i msg hmem).2.1
  have hlength := of_decide_eq_true hfull
  rw [hall, Worker.held, List.length_append, List.length_append] at hload
  unfold AsyncState.load
  omega

/-! ## Runs -/

/-- The main thread goes on with something else: no call is in its loop. -/
theorem Inv.idle_of_other (hi : s.Inv size) (he : (machine size).enabled s a)
    (hmain : ∀ i, a ≠ .worker i) (hother : a ≠ .submitStep) {k : Option Handle}
    (hf : s.async.submits k = some f) : f.i = 0 := by
  rcases hi.idle k f hf with hzero | ⟨rfl, huser⟩
  · exact hzero
  exfalso
  have hbusy : s.async.busy = true := by
    rw [AsyncState.busy, hf]
    rfl
  have hpoll : s.async.sched.phase ≠ .polling := by
    intro hp
    rw [hp] at huser
    cases huser
  cases a with
  | sched a => exact absurd (hbusy.symm.trans he.2.1) (by simp)
  | runAsync signal => exact absurd (hbusy.symm.trans he.2.1) (by simp)
  | runAsyncAndWait signal => exact absurd (hbusy.symm.trans he.2.1) (by simp)
  | submitStep => exact hother rfl
  | waitStep => exact absurd (hf.symm.trans he.2.2) (by simp)
  | update => exact hpoll he.1
  | updateStep => exact hpoll he.1
  | worker i => exact hmain i rfl

/-- And no call of another coroutine. -/
theorem Inv.idle_of_ne (hi : s.Inv size) {k : Option Handle} (hf : s.async.submits k = some f)
    (hne : k ≠ s.async.sched.phase.mcoRunning) : f.i = 0 :=
  (hi.idle k f hf).resolve_right fun h => hne h.1

theorem full_perform (s : StallState) (a : AsyncAction) (i : Nat)
    (hfull : (s.perform size a).async.full size i = true) : (s.perform size a).wasFull i = true := by
  show (_ || (s.perform size a).async.full size i) = true
  rw [hfull, Bool.or_true]

/-- Queues that were full stay so, as long as the attempt goes on. -/
theorem wasFull_perform (hsame : s.async.sameAttempt size a = true) {i : Nat}
    (hroom : (s.perform size a).wasFull i = false) : s.wasFull i = false := by
  have h := (Bool.or_eq_false_iff.mp hroom).1
  rw [hsame, Bool.true_and] at h
  exact h

/-- All calls that are not in their loop stay as they are, or begin. -/
theorem Inv.of_zero {s' : StallState} (hi : s.Inv size)
    (hnow : ∀ i, s'.async.full size i = true → s'.wasFull i = true)
    (hframes : ∀ k f, s'.async.submits k = some f →
      f = .start f.msg ∨ s.async.submits k = some f ∧ f.i = 0) : s'.Inv size := by
  refine ⟨hnow, fun k f hf => ?_, fun k f hf => ?_⟩
  · rcases hframes k f hf with hstart | ⟨hold, hzero⟩
    · exact hstart ▸ .start s' f.msg
    · exact (hi.scan k f hold).of_zero hzero
  · rcases hframes k f hf with hstart | ⟨_, hzero⟩
    · exact .inl (hstart ▸ rfl)
    · exact .inl hzero

theorem Inv.worker (hi : s.Inv size) (i : Nat) : (s.perform size (.worker i)).Inv size := by
  refine ⟨full_perform s _, fun k f hf => ?_, hi.idle⟩
  refine (hi.scan k f hf).mono (fun j _ => ?_) fun j => wasFull_perform rfl
  show ((s.async.pool.workerStep i).workers j).load = (s.async.pool.workers j).load
  rw [ThreadPool.workers_workerStep, Function.update_apply]
  split
  · next heq => rw [heq, Worker.load_step]
  · rfl

/-- Behind the other actions of the main thread a call is where it was, or begins. -/
theorem submits_other (he : (machine size).enabled s a) (hother : a ≠ .submitStep)
    {k : Option Handle} (hf : (s.perform size a).async.submits k = some f) :
    f = .start f.msg ∨ s.async.submits k = some f := by
  have hcall : ∀ (k' : Option Handle) (msg : WorkerMsg),
      Function.update s.async.submits k' (some (.start msg)) k = some f →
        f = .start f.msg ∨ s.async.submits k = some f := by
    intro k' msg hf
    rcases Table.insert_some hf with ⟨_, rfl⟩ | ⟨_, hold⟩
    · exact .inl rfl
    · exact .inr hold
  cases a with
  | sched a => exact .inr hf
  | runAsync signal => exact hcall _ _ hf
  | runAsyncAndWait signal =>
    obtain ⟨c, hc⟩ := Option.isSome_iff_exists.mp he.1
    have heq : (s.perform size (.runAsyncAndWait signal)).async = s.async.runAsyncAndWait c signal := by
      show (AsyncState.machine size).perform s.async _ = _
      exact AsyncState.perform_runAsyncAndWait hc signal
    rw [heq] at hf
    exact hcall _ _ hf
  | submitStep => exact absurd rfl hother
  | waitStep =>
    have hen : (AsyncState.machine size).enabled s.async .waitStep := he
    obtain ⟨c, g, hp, _, hg⟩ := AsyncState.waiting_of_enabled hen
    have heq : (s.perform size .waitStep).async = s.async.waitStep c g := by
      show (AsyncState.machine size).perform s.async _ = _
      exact AsyncState.perform_waitStep (by rw [hp]; rfl) hg
    rw [heq, AsyncState.waitStep] at hf
    split at hf <;> exact .inr hf
  | update => exact .inr hf
  | updateStep =>
    obtain ⟨i, hu⟩ := Option.isSome_iff_exists.mp he.2
    have heq : (s.perform size .updateStep).async = s.async.updateStep size i := by
      show (AsyncState.machine size).perform s.async _ = _
      exact AsyncState.perform_updateStep hu
    rw [heq, AsyncState.updateStep] at hf
    split at hf
    · split at hf
      · next hd => exact .inr ((AsyncState.drain_frame hd).2.1 ▸ hf)
      · exact .inr hf
    · exact .inr hf
  | worker i => exact .inr hf

/-- A response is drained: the load of its worker changes, and no other. -/
theorem load_drain {q q' : AsyncState} {i j : Nat} (h : q.drain i = some q') (hne : j ≠ i) :
    (q'.pool.workers j).load = (q.pool.workers j).load := by
  obtain ⟨msg, pool, hc, rfl⟩ := AsyncState.drain_cases h
  obtain ⟨rest, load, _, hworkers⟩ := ThreadPool.consume_workers hc
  exact congrArg Worker.load (hworkers ▸ Function.update_of_ne hne ..)

/-- The attempt goes on with the next worker, or with the next response of the same. -/
theorem submitStep_async (size : PoolSize) (hf : s.async.submits s.async.sched.phase.mcoRunning = some f) :
    (s.perform size .submitStep).async =
      s.async.submitStep size s.async.sched.phase.mcoRunning f := by
  show (AsyncState.machine size).perform s.async _ = _
  exact AsyncState.perform_submitStep hf

theorem Inv.scanStep (hi : s.Inv size) (hr : (AsyncState.machine size).Reachable s.async)
    (he : (machine size).enabled s .submitStep)
    (hf : s.async.submits s.async.sched.phase.mcoRunning = some f) (hn : f.i < size.numThreads) :
    (s.perform size .submitStep).Inv size := by
  have heq := submitStep_async size hf
  have hends : s.async.attemptEnds size = false := by
    rw [AsyncState.attemptEnds, hf]
    exact decide_eq_false (Nat.not_le_of_lt hn)
  have hfull : ∀ j, (s.perform size .submitStep).wasFull j = false → s.wasFull j = false := fun j =>
    wasFull_perform (by rw [AsyncState.sameAttempt, hends]; rfl)
  rw [AsyncState.submitStep, if_pos hn] at heq
  cases hd : s.async.drain f.i with
  | some q' =>
    rw [hd] at heq
    dsimp only at heq
    refine ⟨full_perform s _, fun k g hg => ?_, fun k g hg => ?_⟩
    · rw [heq, (AsyncState.drain_frame hd).2.1] at hg
      rcases eq_or_ne k s.async.sched.phase.mcoRunning with rfl | hk
      · rw [hf] at hg
        cases hg
        refine (hi.scan _ f hf).mono (fun j hj => ?_) hfull
        rw [heq]
        exact load_drain hd (Nat.ne_of_lt hj)
      · exact (hi.scan k g hg).of_zero (hi.idle_of_ne hg hk)
    · rw [heq, (AsyncState.drain_frame hd).2.1] at hg
      rw [heq, (AsyncState.drain_frame hd).1]
      exact hi.idle k g hg
  | none =>
    rw [hd] at heq
    dsimp only at heq
    refine ⟨full_perform s _, fun k g hg => ?_, fun k g hg => ?_⟩
    · rw [heq] at hg
      rcases Table.insert_some hg with ⟨_, rfl⟩ | ⟨hk, hold⟩
      · have hcompare : s.ScanOk size (f.compare (s.async.pool.workers f.i).load) := by
          refine (hi.scan _ f hf).compare hn
            ((AsyncState.inv_of_reachable hr).pool.workers f.i).load_lt fun hroom => ?_
          refine load_le_of_room hr (AsyncState.drain_none hd) (Bool.eq_false_iff.mpr fun hnow => ?_)
          exact absurd (hroom.symm.trans (hi.now f.i hnow)) nofun
        refine hcompare.mono (fun j _ => ?_) hfull
        rw [heq]
        rfl
      · exact (hi.scan k g hold).of_zero (hi.idle_of_ne hold hk)
    · rw [heq] at hg ⊢
      rcases Table.insert_some hg with ⟨hk, _⟩ | ⟨_, hold⟩
      · exact .inr ⟨hk, he.1⟩
      · exact hi.idle k g hold

/-- The end of an attempt: the message goes to the first of the least loaded workers, or the attempt
begins anew. -/
theorem endOfAttempt (hi : s.Inv size) (hf : s.async.submits s.async.sched.phase.mcoRunning = some f)
    (hn : size.numThreads ≤ f.i) :
    ∃ i, FirstLeast s.async.load size.numThreads i ∧
      (s.perform size .submitStep).async =
        if (s.async.pool.workers i).requestQueue.length < size.queueSize then
          { s.async.setSubmit s.async.sched.phase.mcoRunning none with
            pool := s.async.pool.submit i f.msg }
        else
          { s.async.setSubmit s.async.sched.phase.mcoRunning (some (.start f.msg)) with
            sched := AsyncState.yield s.async.sched s.async.sched.phase.mcoRunning } := by
  have hend : f.i = size.numThreads := Nat.le_antisymm (hi.scan _ f hf).le hn
  have hpos := size.numThreads_pos
  rcases (hi.scan _ f hf).chosen with ⟨hzero, _⟩ | ⟨i, hchosen, hleast, _⟩
  · omega
  · refine ⟨i, hend ▸ hleast, ?_⟩
    rw [submitStep_async size hf, AsyncState.submitStep, if_neg (Nat.not_lt_of_le hn), hchosen]

theorem Inv.endStep (hi : s.Inv size)
    (hf : s.async.submits s.async.sched.phase.mcoRunning = some f) (hn : size.numThreads ≤ f.i) :
    (s.perform size .submitStep).Inv size := by
  obtain ⟨i, _, heq⟩ := endOfAttempt hi hf hn
  refine hi.of_zero (full_perform s _) fun k g hg => ?_
  rw [heq] at hg
  split at hg
  · obtain ⟨hk, hold⟩ := Table.erase_some hg
    exact .inr ⟨hold, hi.idle_of_ne hold hk⟩
  · rcases Table.insert_some hg with ⟨_, rfl⟩ | ⟨hk, hold⟩
    · exact .inl rfl
    · exact .inr ⟨hold, hi.idle_of_ne hold hk⟩

theorem Inv.step (hi : s.Inv size) (hr : (AsyncState.machine size).Reachable s.async)
    (he : (machine size).enabled s a) : ((machine size).perform s a).Inv size := by
  by_cases hworker : ∃ i, a = .worker i
  · obtain ⟨i, rfl⟩ := hworker
    exact hi.worker i
  by_cases hsubmit : a = .submitStep
  · subst hsubmit
    obtain ⟨f, hf⟩ := Option.isSome_iff_exists.mp he.2
    rcases Nat.lt_or_ge f.i size.numThreads with hn | hn
    · exact hi.scanStep hr he hf hn
    · exact hi.endStep hf hn
  · refine hi.of_zero (full_perform s a) fun k f hf => ?_
    refine (submits_other he hsubmit hf).imp_right fun hold => ⟨hold, ?_⟩
    exact hi.idle_of_other he (fun i heq => hworker ⟨i, heq⟩) hsubmit hold

theorem inv_of_reachable (hr : (machine size).Reachable s) : s.Inv size := by
  refine Machine.invariant (P := Inv size) ?_ (fun s a hr hi he => hi.step (async_reachable hr) he) hr
  rintro _ rfl
  refine ⟨fun i hfull => ?_, nofun, nofun⟩
  have hpos := size.queueSize_pos
  have hlength : 0 = size.queueSize := of_decide_eq_true hfull
  omega

/-- An attempt at whose end a worker with room has been passed over ends at a tie, and at a tie one has
been. -/
theorem stallsOnlyWhenFull_iff (hr : (machine size).Reachable s) (he : (machine size).enabled s a) :
    s.StallsOnlyWhenFull size a ↔ s.NoTie size a := by
  cases a with
  | submitStep =>
    have hi := inv_of_reachable hr
    obtain ⟨f, hf⟩ := Option.isSome_iff_exists.mp he.2
    have hends : s.async.attemptEnds size = decide (size.numThreads ≤ f.i) := by
      rw [AsyncState.attemptEnds, hf]
      rfl
    rcases Nat.lt_or_ge f.i size.numThreads with hlt | hn
    · -- The attempt is not over.
      refine iff_of_true (fun g hg hle => ?_) fun hend => ?_
      · rw [hf] at hg
        cases hg
        exact absurd hle (Nat.not_le_of_lt hlt)
      · rw [hends] at hend
        exact absurd (of_decide_eq_true hend) (Nat.not_le_of_lt hlt)
    obtain ⟨i, hleast, heq⟩ := endOfAttempt hi hf hn
    by_cases hroom : (s.async.pool.workers i).requestQueue.length < size.queueSize
    · -- The message is enqueued.
      rw [if_pos hroom] at heq
      refine iff_of_true (fun g hg _ => ?_) fun _ i' j _ _ hleast' _ hfull _ => ?_
      · rw [hf] at hg
        cases hg
        refine .inr ⟨i, hleast.lt, hroom, ?_, ?_⟩
        · rw [heq]
        · rw [heq]
          exact Function.update_self ..
      · rw [hleast'.unique hleast] at hfull
        exact absurd (of_decide_eq_true hfull) (Nat.ne_of_lt hroom)
    · -- The chosen queue is full.
      rw [if_neg hroom] at heq
      have hrequests := ((AsyncState.inv_of_reachable (async_reachable hr)).pool.workers i).requests
      have hfull : s.async.full size i = true := decide_eq_true (by omega)
      have hmin := le_load_of_full (async_reachable hr) hfull
      have hstall : ¬s.Enqueues size f := by
        rintro ⟨_, _, _, _, hreturned⟩
        rw [heq] at hreturned
        exact nomatch (Function.update_self ..).symm.trans hreturned
      constructor
      · intro h _ i' j _ hj _ _ _ _
        exact (h f hf hn).resolve_right hstall j hj
      · intro htie g hg _
        rw [hf] at hg
        cases hg
        refine .inl fun j hj => ?_
        by_contra hnot
        have hnever : s.wasFull j = false := Bool.eq_false_iff.mpr hnot
        -- The load of a worker with room is at most the queue size, that of the chosen one at least.
        have hlast : j < f.i := Nat.lt_of_lt_of_le hj hn
        have hle := (hi.scan _ f hf).room j hlast hnever
        have hij := hleast.le j hj
        have hne : j ≠ i := by
          rintro rfl
          exact hnot (hi.now j hfull)
        refine hnot (htie (hends.trans (decide_eq_true hn)) i j ?_ hj hleast ?_ hfull ?_)
        · exact hleast.lt_of_ne (by omega) hne
        · omega
        · omega
  | _ => exact Iff.rfl

/-- In every run, the attempts that yield are those during which every request queue was full at some
point, exactly when no attempt ends at a tie between a full queue and one with room. -/
theorem submit_stalls_iff (size : PoolSize) {as : List AsyncAction}
    (hl : (machine size).Legal init as) :
    (∀ bs a, bs ++ [a] <+: as → ((machine size).run init bs).StallsOnlyWhenFull size a) ↔
      ((machine size).restrict (NoTie size)).Legal init as :=
  Machine.steps_iff rfl (fun _ _ => stallsOnlyWhenFull_iff) hl

instance (s : StallState) (a : AsyncAction) : Decidable ((machine size).enabled s a) :=
  inferInstanceAs (Decidable ((AsyncState.machine size).enabled s.async a))

/-- One task for two idle workers. -/
theorem submit_stalls_iff_idle :
    let size := PoolSize.ofOptions 2 1 (by decide)
    let call := [AsyncAction.runAsync Handle.invalid, .submitStep, .submitStep, .submitStep]
    ∀ bs a, bs ++ [a] <+: call → ((machine size).run init bs).StallsOnlyWhenFull size a := by
  intro size call
  refine (submit_stalls_iff size (by decide +kernel)).mpr ?_
  have hgoing : ∀ s : StallState, s.async.attemptEnds size = false → s.NoTie size .submitStep :=
    fun s hs hend => absurd (hs.symm.trans hend) nofun
  refine ⟨⟨by decide +kernel, trivial⟩, ⟨by decide +kernel, hgoing _ (by decide +kernel)⟩,
    ⟨by decide +kernel, hgoing _ (by decide +kernel)⟩, ⟨by decide +kernel, ?_⟩, trivial⟩
  -- Nobody has a task.
  intro _ i j hij hj _ hload
  have htwo : j < 2 := hj
  obtain rfl : i = 0 := by omega
  exact absurd hload (by decide +kernel)

/-- With queues of one message: a worker that has not begun its task is preferred to one that has. -/
theorem submit_stalls_with_room :
    let size := PoolSize.ofOptions 2 1 (by decide)
    let call := [AsyncAction.runAsync Handle.invalid, .submitStep, .submitStep, .submitStep]
    let as := call ++ call ++ [.worker 1] ++ call
    (machine size).Legal init as ∧
      ¬∀ bs a, bs ++ [a] <+: as → ((machine size).run init bs).StallsOnlyWhenFull size a := by
  intro size call as
  refine ⟨by decide +kernel, fun h => ?_⟩
  have hlast := h (call ++ call ++ [.worker 1] ++ call.take 3) .submitStep (by exact List.prefix_rfl)
  rcases hlast ⟨⟨.run, true, 2, Handle.invalid⟩, 2, 1#32, some 0⟩ (by decide +kernel) (by decide +kernel)
    with hfull | ⟨_, _, _, _, hreturned⟩
  · exact absurd (hfull 1 (by decide +kernel)) (by decide +kernel)
  · exact absurd hreturned (by decide +kernel)

end StallState

end Bio
