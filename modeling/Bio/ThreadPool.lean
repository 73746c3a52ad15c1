import Mathlib.Algebra.BigOperators.Group.Finset.Basic
import Mathlib.Data.List.Perm.Subperm
import Bio.Mailbox

/-!
# The thread pool

`src/thread.c` without its queues: a queue is the list of its messages, with a bound on its length
(`Spscq.spscq_fifo`). A worker takes a message, runs its task and hands the message back. The main
thread puts messages into the request queues and takes them out of the response queues. The counters
that go with that are in the same step.

The fields `queued`, `started`, `finished` and `raised` are ghosts: the tasks that went through the
request queue of a worker, whose function was called, whose function returned, and whose signal was
raised by the main thread, each with its worker.
-/

namespace Bio

/-- `bio_worker_msg_type_t`. -/
inductive WorkerMsgType
  | noop | terminate | run
deriving DecidableEq, Repr

/-- `bio_worker_msg_t`. The number of the call of `bio_run_async` stands for `fn` and `userdata`. -/
structure WorkerMsg where
  type : WorkerMsgType
  needNotification : Bool
  task : Nat
  signal : Handle
deriving DecidableEq, Repr

/-- The message is that of a task and asks for a notification. -/
def WorkerMsg.Asks (msg : WorkerMsg) : Prop := msg.type = .run ∧ msg.needNotification = true

/-- Where `bio_async_worker` is. -/
inductive WorkerPc
  /-- in `bio_spscq_consume` of the request queue -/
  | consuming
  /-- at the switch over the type of the message -/
  | dispatching (msg : WorkerMsg)
  /-- in the function of the task -/
  | executing (msg : WorkerMsg)
  /-- in `bio_spscq_produce` of the response queue -/
  | producing (msg : WorkerMsg)
  /-- in `bio_platform_notify` -/
  | notifying
  | exited
deriving DecidableEq, Repr

/-- `bio_worker_thread_t` with the control state and the local `running` of its thread. -/
structure Worker where
  requestQueue : List WorkerMsg
  responseQueue : List WorkerMsg
  load : BitVec 32
  running : Bool
  pc : WorkerPc
deriving DecidableEq, Repr

structure ThreadPool where
  workers : Nat → Worker
  numRunningAsyncJobs : Int
  queued : List (Nat × Nat)
  started : List (Nat × Nat)
  finished : List (Nat × Nat)
  raised : List (Nat × Nat)

/-- The options of the thread pool after `bio_thread_init` adjusted them. The sizes of both queues
are C `int`s. -/
structure PoolSize where
  numThreads : Nat
  queueSize : Nat
  numThreads_pos : 0 < numThreads
  queueSize_pow2 : ∃ k, queueSize = 2 ^ k
  queueSize_le : queueSize ≤ 2 ^ 29

theorem PoolSize.queueSize_pos (size : PoolSize) : 0 < size.queueSize := by
  obtain ⟨k, hk⟩ := size.queueSize_pow2
  rw [hk]
  exact Nat.two_pow_pos k

/-- How `bio_thread_init` adjusts the options. -/
def PoolSize.ofOptions (numThreads queueSize : Int) (h : queueSize ≤ 2 ^ 29) : PoolSize where
  numThreads := if numThreads ≤ 0 then 2 else numThreads.toNat
  queueSize := (nextPow2 (BitVec.ofInt 32 (if queueSize ≤ 0 then 2 else queueSize))).toNat
  numThreads_pos := by split <;> omega
  queueSize_pow2 := by
    refine (nextPow2_isLeast ?_ ?_).1.1 <;> rw [BitVec.toNat_ofInt] <;> split <;> omega
  queueSize_le := by
    have hle : (BitVec.ofInt 32 (if queueSize ≤ 0 then 2 else queueSize)).toNat ≤ 2 ^ 29 := by
      rw [BitVec.toNat_ofInt]
      split <;> omega
    refine (nextPow2_isLeast ?_ (by omega)).2 ⟨⟨29, rfl⟩, hle⟩
    rw [BitVec.toNat_ofInt]
    split <;> omega

namespace Worker

/-- The head of the loop of `bio_async_worker`. -/
def loop (w : Worker) : Worker := { w with pc := if w.running then .consuming else .exited }

/-- The worker is not blocked in a queue. -/
def canStep (size : PoolSize) (w : Worker) : Bool :=
  match w.pc with
  | .consuming => !w.requestQueue.isEmpty
  | .producing _ => w.responseQueue.length < 2 * size.queueSize
  | .exited => false
  | _ => true

/-- The next step of `bio_async_worker`. -/
def step (w : Worker) : Worker :=
  match w.pc with
  | .consuming =>
    match w.requestQueue with
    | msg :: rest => { w with requestQueue := rest, pc := .dispatching msg }
    | [] => w
  | .dispatching msg =>
    match msg.type with
    | .noop => { w with pc := .producing msg }
    | .terminate => { w with running := false, pc := .producing msg }
    | .run => { w with pc := .executing msg }
  | .executing msg => { w with pc := .producing msg }
  | .producing msg =>
    let w := { w with responseQueue := w.responseQueue ++ [msg] }
    if msg.needNotification then { w with pc := .notifying } else w.loop
  | .notifying => w.loop
  | .exited => w

end Worker

/-- The tasks of the messages that ask for one. -/
def runs (l : List WorkerMsg) : List Nat := (l.filter fun msg => msg.type = .run).map WorkerMsg.task

/-- The task whose function the next step calls. -/
def WorkerPc.starting : WorkerPc → List Nat
  | .dispatching msg => runs [msg]
  | _ => []

/-- The task whose function returns in the next step. -/
def WorkerPc.finishing : WorkerPc → List Nat
  | .executing msg => runs [msg]
  | _ => []

namespace ThreadPool

/-- `bio_thread_init`. -/
def init : ThreadPool where
  workers := fun _ =>
    { requestQueue := [], responseQueue := [], load := 0#32, running := true, pc := .consuming }
  numRunningAsyncJobs := 0
  queued := []
  started := []
  finished := []
  raised := []

def setWorker (p : ThreadPool) (i : Nat) (w : Worker) : ThreadPool :=
  { p with workers := Function.update p.workers i w }

/-- A step of the worker `i`. -/
def workerStep (p : ThreadPool) (i : Nat) : ThreadPool :=
  let w := p.workers i
  { p.setWorker i w.step with
    started := w.pc.starting.map (fun t => (t, i)) ++ p.started
    finished := w.pc.finishing.map (fun t => (t, i)) ++ p.finished }

/-- One round of `bio_thread_drain_responses`, without the raise. -/
def consume (p : ThreadPool) (i : Nat) : Option (WorkerMsg × ThreadPool) :=
  let w := p.workers i
  match w.responseQueue with
  | msg :: rest =>
    let w := { w with responseQueue := rest }
    if msg.type = .run then
      some (msg, { p.setWorker i { w with load := w.load - 1#32 } with
        numRunningAsyncJobs := p.numRunningAsyncJobs - 1
        raised := (msg.task, i) :: p.raised })
    else some (msg, p.setWorker i w)
  | [] => none

/-- `bio_run_async` once it has room in the queue of the worker `i`. -/
def submit (p : ThreadPool) (i : Nat) (msg : WorkerMsg) : ThreadPool :=
  let w := p.workers i
  { p.setWorker i { w with requestQueue := w.requestQueue ++ [msg], load := w.load + 1#32 } with
    numRunningAsyncJobs := p.numRunningAsyncJobs + 1
    queued := (msg.task, i) :: p.queued }

theorem workers_workerStep (p : ThreadPool) (i : Nat) :
    (p.workerStep i).workers = Function.update p.workers i (p.workers i).step := rfl

theorem workers_submit (p : ThreadPool) (i : Nat) (msg : WorkerMsg) :
    (p.submit i msg).workers = Function.update p.workers i { p.workers i with
      requestQueue := (p.workers i).requestQueue ++ [msg]
      load := (p.workers i).load + 1#32 } := rfl

end ThreadPool

/-! ## The tasks of a worker -/

@[simp] theorem runs_nil : runs [] = [] := rfl

@[simp] theorem runs_append (l l' : List WorkerMsg) : runs (l ++ l') = runs l ++ runs l' := by
  simp [runs]

theorem runs_cons (msg : WorkerMsg) (l : List WorkerMsg) :
    runs (msg :: l) = runs [msg] ++ runs l := runs_append [msg] l

theorem runs_singleton {msg : WorkerMsg} (h : msg.type = .run) : runs [msg] = [msg.task] := by
  simp [runs, h]

theorem runs_other {msg : WorkerMsg} (h : msg.type ≠ .run) : runs [msg] = [] := by
  simp [runs, h]

theorem runs_cons_other {msg : WorkerMsg} (h : msg.type ≠ .run) (l : List WorkerMsg) :
    runs (msg :: l) = runs l := by
  rw [runs_cons, runs_other h, List.nil_append]

theorem length_runs (l : List WorkerMsg) :
    (runs l).length = l.countP fun msg => msg.type = .run := by
  simp [runs, List.countP_eq_length_filter]

/-- The message in the hands of the worker. -/
def WorkerPc.hands : WorkerPc → List WorkerMsg
  | .dispatching msg | .executing msg | .producing msg => [msg]
  | _ => []

/-- The message in the hands of the worker, if its function has been called. -/
def WorkerPc.begun : WorkerPc → List WorkerMsg
  | .executing msg | .producing msg => [msg]
  | _ => []

/-- The message in the hands of the worker, if its function has returned. -/
def WorkerPc.ended : WorkerPc → List WorkerMsg
  | .producing msg => [msg]
  | _ => []

namespace Worker

/-- The messages in the queues and in the hands of the worker. -/
def held (w : Worker) : List WorkerMsg := w.requestQueue ++ w.pc.hands ++ w.responseQueue

/-- Those whose function has been called. -/
def begun (w : Worker) : List WorkerMsg := w.pc.begun ++ w.responseQueue

/-- Those whose function has returned. -/
def ended (w : Worker) : List WorkerMsg := w.pc.ended ++ w.responseQueue

variable (w : Worker)

theorem hands_loop : w.loop.pc.hands = [] ∧ w.loop.pc.begun = [] ∧ w.loop.pc.ended = [] := by
  unfold loop
  dsimp only
  split <;> exact ⟨rfl, rfl, rfl⟩

theorem load_step : w.step.load = w.load := by
  unfold step
  cases w.pc with
  | consuming | dispatching _ | producing _ =>
    dsimp only
    split <;> rfl
  | _ => rfl

theorem requests_step : w.step.requestQueue.length ≤ w.requestQueue.length := by
  unfold step
  cases w.pc with
  | consuming =>
    dsimp only
    split
    · next hq => simp [hq]
    · exact Nat.le_refl _
  | dispatching _ | producing _ =>
    dsimp only
    split <;> exact Nat.le_refl _
  | _ => exact Nat.le_refl _

theorem responses_step {size : PoolSize} (hcan : w.canStep size = true)
    (h : w.responseQueue.length ≤ 2 * size.queueSize) :
    w.step.responseQueue.length ≤ 2 * size.queueSize := by
  unfold step
  cases hpc : w.pc with
  | consuming | dispatching _ =>
    dsimp only
    split <;> exact h
  | producing msg =>
    have hroom : w.responseQueue.length < 2 * size.queueSize := by simpa [canStep, hpc] using hcan
    have hlength : (w.responseQueue ++ [msg]).length ≤ 2 * size.queueSize := by
      rw [List.length_append, List.length_singleton]
      omega
    dsimp only
    split
    · exact hlength
    · exact hlength
  | _ => exact h

theorem held_loop : w.loop.held = w.requestQueue ++ w.responseQueue := by
  rw [held, w.hands_loop.1, List.append_nil]
  rfl

theorem begun_loop : w.loop.begun = w.responseQueue := by
  rw [begun, w.hands_loop.2.1]
  rfl

theorem ended_loop : w.loop.ended = w.responseQueue := by
  rw [ended, w.hands_loop.2.2]
  rfl

/-- A step moves a message from one place to the next. -/
theorem held_step : w.step.held.Perm w.held := by
  unfold step
  cases hpc : w.pc with
  | consuming =>
    cases hq : w.requestQueue with
    | nil => simp [held, hpc, hq, WorkerPc.hands]
    | cons msg rest =>
      simp only [held, hpc, hq, WorkerPc.hands, List.append_nil]
      exact (List.perm_append_singleton msg rest).append_right _
  | dispatching msg => cases htype : msg.type <;> simp [held, hpc, htype, WorkerPc.hands]
  | executing msg => simp [held, hpc, WorkerPc.hands]
  | producing msg =>
    have hmoved : (w.requestQueue ++ (w.responseQueue ++ [msg])).Perm w.held := by
      simp only [held, hpc, WorkerPc.hands, List.append_assoc]
      exact (List.perm_append_singleton msg _).append_left _
    dsimp only
    split
    · simpa [held, WorkerPc.hands] using hmoved
    · rw [held_loop]
      exact hmoved
  | notifying =>
    rw [held_loop, held, hpc, show WorkerPc.notifying.hands = [] from rfl, List.append_nil]
  | exited => exact List.Perm.refl _

theorem begun_step : (runs w.step.begun).Perm (w.pc.starting ++ runs w.begun) := by
  unfold step
  cases hpc : w.pc with
  | consuming =>
    cases w.requestQueue <;> simp [begun, hpc, WorkerPc.begun, WorkerPc.starting]
  | dispatching msg =>
    have hcons := runs_cons msg w.responseQueue
    cases htype : msg.type <;>
      simp [begun, hpc, htype, WorkerPc.begun, WorkerPc.starting, hcons]
  | executing msg => simp [begun, hpc, WorkerPc.begun, WorkerPc.starting]
  | producing msg =>
    have hmoved : (runs (w.responseQueue ++ [msg])).Perm (runs w.begun) := by
      simp only [begun, hpc, WorkerPc.begun, runs_append]
      exact List.perm_append_comm
    dsimp only
    split
    · simpa [begun, WorkerPc.begun, WorkerPc.starting] using hmoved
    · rw [begun_loop]
      exact hmoved
  | notifying =>
    rw [begun_loop, begun, hpc]
    exact List.Perm.refl _
  | exited => exact List.Perm.refl _

theorem ended_step : (runs w.step.ended).Perm (w.pc.finishing ++ runs w.ended) := by
  unfold step
  cases hpc : w.pc with
  | consuming =>
    cases w.requestQueue <;> simp [ended, hpc, WorkerPc.ended, WorkerPc.finishing]
  | dispatching msg =>
    have hcons := runs_cons msg w.responseQueue
    cases htype : msg.type with
    | noop =>
      rw [runs_other (by simp [htype])] at hcons
      simp [ended, hpc, htype, WorkerPc.ended, WorkerPc.finishing, hcons]
    | terminate =>
      rw [runs_other (by simp [htype])] at hcons
      simp [ended, hpc, htype, WorkerPc.ended, WorkerPc.finishing, hcons]
    | run => simp [ended, hpc, htype, WorkerPc.ended, WorkerPc.finishing]
  | executing msg =>
    simp [ended, hpc, WorkerPc.ended, WorkerPc.finishing, runs_cons msg w.responseQueue]
  | producing msg =>
    have hmoved : (runs (w.responseQueue ++ [msg])).Perm (runs w.ended) := by
      simp only [ended, hpc, WorkerPc.ended, runs_append]
      exact List.perm_append_comm
    dsimp only
    split
    · simpa [ended, WorkerPc.ended, WorkerPc.finishing] using hmoved
    · rw [ended_loop]
      exact hmoved
  | notifying =>
    rw [ended_loop, ended, hpc]
    exact List.Perm.refl _
  | exited => exact List.Perm.refl _

end Worker

/-! ## Accounting -/

namespace ThreadPool

variable {p : ThreadPool} {size : PoolSize} {i j : Nat} {w : Worker} {msg : WorkerMsg}

/-- The tasks in a log are those that the worker still has and those that were raised. -/
def Logged (log raised : List (Nat × Nat)) (i : Nat) (l : List WorkerMsg) : Prop :=
  ∀ t, log.count (t, i) = (runs l).count t + raised.count (t, i)

/-- What holds of one worker. -/
structure WorkerOk (p : ThreadPool) (size : PoolSize) (i : Nat) (w : Worker) : Prop where
  load : w.load.toNat = (runs w.held).length
  queued : Logged p.queued p.raised i w.held
  started : Logged p.started p.raised i w.begun
  finished : Logged p.finished p.raised i w.ended
  requests : w.requestQueue.length ≤ size.queueSize
  responses : w.responseQueue.length ≤ 2 * size.queueSize

/-- The invariant of the pool. -/
structure Inv (p : ThreadPool) (size : PoolSize) : Prop where
  workers : ∀ i, p.WorkerOk size i (p.workers i)
  total : p.numRunningAsyncJobs =
    ∑ i ∈ Finset.range size.numThreads, ((p.workers i).load.toNat : Int)
  once : (p.queued.map Prod.fst).Nodup

theorem inv_init (size : PoolSize) : init.Inv size := by
  refine ⟨fun i => ⟨rfl, fun _ => rfl, fun _ => rfl, fun _ => rfl, Nat.zero_le _,
    Nat.zero_le _⟩, by simp [init], List.nodup_nil⟩

/-- The load of a worker is far from the largest `unsigned int`. -/
theorem WorkerOk.load_lt (h : p.WorkerOk size i w) : w.load < BitVec.allOnes 32 := by
  have hhands : w.pc.hands.length ≤ 1 := by cases w.pc <;> simp [WorkerPc.hands]
  have hruns : (runs w.held).length ≤ w.held.length := by
    rw [length_runs]
    exact List.countP_le_length
  have hload := h.load
  have hreq := h.requests
  have hres := h.responses
  have hsize := size.queueSize_le
  simp only [Worker.held, List.length_append] at hruns hload
  simp only [BitVec.lt_def, BitVec.toNat_allOnes]
  omega

theorem Logged.other {log log' raised raised' : List (Nat × Nat)} {l : List WorkerMsg}
    (h : Logged log raised j l) (hlog : ∀ t, log'.count (t, j) = log.count (t, j))
    (hraised : ∀ t, raised'.count (t, j) = raised.count (t, j)) : Logged log' raised' j l := by
  intro t
  rw [hlog, hraised]
  exact h t

/-- A task leaves the worker and its signal is raised. -/
theorem Logged.raise {log raised : List (Nat × Nat)} {l rest : List WorkerMsg}
    (h : Logged log raised i (l ++ msg :: rest)) (hrun : msg.type = .run) :
    Logged log ((msg.task, i) :: raised) i (l ++ rest) := by
  intro t
  have ht := h t
  simp only [runs_append, runs_cons msg rest, runs_singleton hrun, List.count_append, List.count_cons,
    List.count_nil, Prod.mk.injEq, and_true, beq_iff_eq] at ht ⊢
  omega

theorem Logged.skip {log raised : List (Nat × Nat)} {l rest : List WorkerMsg}
    (h : Logged log raised i (l ++ msg :: rest)) (hother : msg.type ≠ .run) :
    Logged log raised i (l ++ rest) := by
  intro t
  rw [h t, runs_append, runs_cons_other hother, runs_append]

/-- Tasks are added to the log of a worker. -/
theorem Logged.append {log raised : List (Nat × Nat)} {l l' : List WorkerMsg} {new : List Nat}
    (h : Logged log raised i l) (hnew : (runs l').Perm (new ++ runs l)) :
    Logged (new.map (fun t => (t, i)) ++ log) raised i l' := by
  intro t
  have hcount : (new.map fun t => (t, i)).count (t, i) = new.count t := by
    refine List.count_map_of_injective new (fun t => (t, i)) (fun a b hab => ?_) t
    exact congrArg Prod.fst hab
  rw [List.count_append, hcount, h t, hnew.count_eq, List.count_append, Nat.add_assoc]

theorem count_append_other (hij : j ≠ i) (new : List Nat) (log : List (Nat × Nat)) (t : Nat) :
    (new.map (fun t => (t, i)) ++ log).count (t, j) = log.count (t, j) := by
  rw [List.count_append, List.count_eq_zero.mpr, Nat.zero_add]
  simp [hij.symm]

theorem count_cons_other {t : Nat} (hij : j ≠ i) (log : List (Nat × Nat)) (u : Nat) :
    ((t, i) :: log).count (u, j) = log.count (u, j) := by
  refine List.count_cons_of_ne fun heq => ?_
  exact hij (congrArg Prod.snd heq).symm

theorem sum_load_update (hi : i < size.numThreads) (ws : Nat → Worker) (w : Worker) :
    ∑ j ∈ Finset.range size.numThreads, ((Function.update ws i w j).load.toNat : Int) =
      ∑ j ∈ Finset.range size.numThreads, ((ws j).load.toNat : Int) +
        ((w.load.toNat : Int) - (ws i).load.toNat) := by
  have hmem := Finset.mem_range.mpr hi
  rw [← Finset.add_sum_erase _ _ hmem,
    ← Finset.add_sum_erase _ (fun j => ((ws j).load.toNat : Int)) hmem]
  have hrest : ∀ j ∈ (Finset.range size.numThreads).erase i,
      ((Function.update ws i w j).load.toNat : Int) = (ws j).load.toNat := by
    intro j hj
    rw [Function.update_of_ne (Finset.ne_of_mem_erase hj)]
  rw [Finset.sum_congr rfl hrest, Function.update_self]
  omega

/-- The invariant after a step that replaces one worker. The other workers need to know that their
part of the logs is the same. -/
theorem Inv.update {p' : ThreadPool} (h : p.Inv size) (hi : i < size.numThreads)
    (hworkers : p'.workers = Function.update p.workers i w) (hok : p'.WorkerOk size i w)
    (htotal : p'.numRunningAsyncJobs =
      p.numRunningAsyncJobs + ((w.load.toNat : Int) - (p.workers i).load.toNat))
    (hqueued : ∀ j, j ≠ i → ∀ t, p'.queued.count (t, j) = p.queued.count (t, j))
    (hstarted : ∀ j, j ≠ i → ∀ t, p'.started.count (t, j) = p.started.count (t, j))
    (hfinished : ∀ j, j ≠ i → ∀ t, p'.finished.count (t, j) = p.finished.count (t, j))
    (hraised : ∀ j, j ≠ i → ∀ t, p'.raised.count (t, j) = p.raised.count (t, j))
    (honce : (p'.queued.map Prod.fst).Nodup) : p'.Inv size := by
  refine ⟨fun j => ?_, ?_, honce⟩
  · rw [hworkers]
    by_cases hj : j = i
    · subst hj
      rw [Function.update_self]
      exact hok
    · rw [Function.update_of_ne hj]
      obtain ⟨hload, hq, hs, hf, hreq, hres⟩ := h.workers j
      exact ⟨hload, hq.other (hqueued j hj) (hraised j hj), hs.other (hstarted j hj) (hraised j hj),
        hf.other (hfinished j hj) (hraised j hj), hreq, hres⟩
  · rw [hworkers, sum_load_update hi, htotal, h.total]

/-- The step lemma for the workers. -/
theorem Inv.workerStep (h : p.Inv size) (hi : i < size.numThreads)
    (hcan : (p.workers i).canStep size = true) : (p.workerStep i).Inv size := by
  obtain ⟨hl, hq, hs, hf, hreq, hres⟩ := h.workers i
  have hrequests := (p.workers i).requests_step
  have hload := (p.workers i).load_step
  have hheld : (runs (p.workers i).step.held).Perm (runs (p.workers i).held) :=
    ((p.workers i).held_step.filter _).map _
  refine h.update hi rfl ⟨?_, fun t => ?_, hs.append (p.workers i).begun_step,
    hf.append (p.workers i).ended_step, ?_, (p.workers i).responses_step hcan hres⟩ ?_
    (fun _ _ _ => rfl) (fun j hj => count_append_other hj _ _)
    (fun j hj => count_append_other hj _ _) (fun _ _ _ => rfl) h.once
  · rw [hload, hl, hheld.length_eq]
  · rw [hheld.count_eq]
    exact hq t
  · exact hrequests.trans hreq
  · rw [hload, sub_self, add_zero]
    rfl

/-- The first response is taken. When it is a task, its signal is raised and it is no longer counted. -/
theorem consume_cases {p' : ThreadPool} (hc : p.consume i = some (msg, p')) :
    ∃ rest, (p.workers i).responseQueue = msg :: rest ∧
      ((msg.type = .run ∧
        p' = { p.setWorker i
            { p.workers i with responseQueue := rest, load := (p.workers i).load - 1#32 } with
          numRunningAsyncJobs := p.numRunningAsyncJobs - 1
          raised := (msg.task, i) :: p.raised }) ∨
      (msg.type ≠ .run ∧ p' = p.setWorker i { p.workers i with responseQueue := rest })) := by
  unfold ThreadPool.consume at hc
  dsimp only at hc
  split at hc
  · next m rest hresponse =>
    split at hc
    · next hrun =>
      cases hc
      exact ⟨rest, hresponse, .inl ⟨hrun, rfl⟩⟩
    · next hother =>
      cases hc
      exact ⟨rest, hresponse, .inr ⟨hother, rfl⟩⟩
  · cases hc

theorem consume_workers {p' : ThreadPool} (hc : p.consume i = some (msg, p')) :
    ∃ rest load, (p.workers i).responseQueue = msg :: rest ∧
      p'.workers = Function.update p.workers i
        { p.workers i with responseQueue := rest, load := load } := by
  obtain ⟨rest, hresponse, ⟨_, rfl⟩ | ⟨_, rfl⟩⟩ := consume_cases hc
  · exact ⟨rest, _, hresponse, rfl⟩
  · exact ⟨rest, _, hresponse, rfl⟩

theorem consume_none (hc : p.consume i = none) : (p.workers i).responseQueue = [] := by
  unfold ThreadPool.consume at hc
  dsimp only at hc
  split at hc
  · split at hc <;> cases hc
  · next hnil => exact hnil

/-- What the main thread does when it takes a message out of a response queue. -/
theorem consume_frame {p' : ThreadPool} (hc : p.consume i = some (msg, p')) :
    msg ∈ (p.workers i).held ∧ (∀ j, (p'.workers j).held ⊆ (p.workers j).held) ∧
      p'.queued = p.queued ∧
      p'.raised = if msg.type = .run then (msg.task, i) :: p.raised else p.raised := by
  refine ⟨?_, fun j => ?_, ?_⟩
  · obtain ⟨rest, hresponse, _⟩ := consume_cases hc
    simp [Worker.held, hresponse]
  · obtain ⟨rest, load, hresponse, hworkers⟩ := consume_workers hc
    rw [hworkers, Function.update_apply]
    split
    · next heq =>
      subst heq
      rw [Worker.held, Worker.held, hresponse]
      exact ((List.sublist_cons_self msg rest).append_left _).subset
    · exact List.Subset.refl _
  · obtain ⟨rest, _, ⟨hrun, rfl⟩ | ⟨hother, rfl⟩⟩ := consume_cases hc
    · exact ⟨rfl, (if_pos hrun).symm⟩
    · exact ⟨rfl, (if_neg hother).symm⟩

/-- It only takes responses out, and it does so in order. -/
theorem responses_consume {p' : ThreadPool}
    (hc : p.consume i = some (msg, p')) (j : Nat) :
    (p'.workers j).pc = (p.workers j).pc ∧
      (p'.workers j).responseQueue <:+ (p.workers j).responseQueue := by
  obtain ⟨rest, load, hresponse, hworkers⟩ := consume_workers hc
  rw [hworkers, Function.update_apply]
  split
  · next heq =>
    subst heq
    rw [hresponse]
    exact ⟨rfl, List.suffix_cons msg rest⟩
  · exact ⟨rfl, List.suffix_refl _⟩

/-- The main thread takes a message out of a response queue. -/
theorem Inv.consume {p' : ThreadPool} (h : p.Inv size) (hi : i < size.numThreads)
    (hc : p.consume i = some (msg, p')) : p'.Inv size := by
  obtain ⟨hl, hq, hs, hf, hreq, hres⟩ := h.workers i
  obtain ⟨rest, hresponse, hcases⟩ := consume_cases hc
  simp only [Worker.held, Worker.begun, Worker.ended, hresponse] at hl hq hs hf
  rw [hresponse, List.length_cons] at hres
  rcases hcases with ⟨hrun, rfl⟩ | ⟨hother, rfl⟩
  · rw [runs_append, runs_cons, runs_singleton hrun] at hl
    simp only [List.length_append, List.length_singleton] at hl
    -- The message is one of those that `load` counts, so there is no underflow.
    have hload : ((p.workers i).load - 1#32).toNat = (p.workers i).load.toNat - 1 := by
      simp only [BitVec.toNat_sub, BitVec.toNat_ofNat]
      have := (p.workers i).load.isLt
      omega
    refine h.update hi rfl ⟨?_, hq.raise hrun, hs.raise hrun, hf.raise hrun, hreq, ?_⟩ ?_
      (fun _ _ _ => rfl) (fun _ _ _ => rfl) (fun _ _ _ => rfl)
      (fun j hj => count_cons_other hj _) h.once
    · simp only [Worker.held, runs_append, List.length_append, hload] at hl ⊢
      omega
    · dsimp only
      omega
    · dsimp only
      rw [hload]
      omega
  · refine h.update hi rfl ⟨?_, hq.skip hother, hs.skip hother, hf.skip hother, hreq, ?_⟩ ?_
      (fun _ _ _ => rfl) (fun _ _ _ => rfl) (fun _ _ _ => rfl) (fun _ _ _ => rfl) h.once
    · rwa [runs_append, runs_cons_other hother, ← runs_append] at hl
    · dsimp only
      omega
    · rw [sub_self, add_zero]
      rfl

/-- The main thread submits a task that was never queued before. -/
theorem Inv.submit (h : p.Inv size) (hi : i < size.numThreads) (hrun : msg.type = .run)
    (hnew : msg.task ∉ p.queued.map Prod.fst)
    (hroom : (p.workers i).requestQueue.length < size.queueSize) : (p.submit i msg).Inv size := by
  have hlt := (h.workers i).load_lt
  obtain ⟨hl, hq, hs, hf, hreq, hres⟩ := h.workers i
  -- The bounds on the queues keep `load` from wrapping around.
  have hload : ((p.workers i).load + 1#32).toNat = (p.workers i).load.toNat + 1 := by
    simp only [BitVec.lt_def, BitVec.toNat_allOnes] at hlt
    simp only [BitVec.toNat_add, BitVec.toNat_ofNat]
    omega
  refine h.update hi rfl ⟨?_, fun t => ?_, hs, hf, ?_, hres⟩ ?_ (fun j hj => count_cons_other hj _)
    (fun _ _ _ => rfl) (fun _ _ _ => rfl) (fun _ _ _ => rfl) (List.nodup_cons.mpr ⟨hnew, h.once⟩)
  · simp only [Worker.held, runs_append, List.length_append, runs_singleton hrun,
      List.length_singleton, hload] at hl ⊢
    omega
  · have hold := hq t
    simp only [Worker.held, runs_append, runs_singleton hrun, List.count_append, List.count_cons,
      List.count_nil, ThreadPool.submit, ThreadPool.setWorker, Prod.mk.injEq, and_true,
      beq_iff_eq] at hold ⊢
    omega
  · rw [List.length_append, List.length_singleton]
    omega
  · dsimp only [ThreadPool.submit]
    rw [hload]
    omega

/-! ## The way of a task -/

theorem count_runs_le {l l' : List WorkerMsg} (h : l.Sublist l') (t : Nat) :
    (runs l).count t ≤ (runs l').count t :=
  ((h.filter _).map _).count_le t

theorem subperm_of_logged {log log' : List (Nat × Nat)} {l l' : Nat → List WorkerMsg}
    (h : ∀ i, Logged log p.raised i (l i)) (h' : ∀ i, Logged log' p.raised i (l' i))
    (hsub : ∀ i, (l i).Sublist (l' i)) : log.Subperm log' := by
  refine List.subperm_ext_iff.mpr fun ⟨t, i⟩ _ => ?_
  have hle := count_runs_le (hsub i) t
  rw [h i t, h' i t]
  omega

/-- What was called had been queued to the same worker. -/
theorem Inv.started_queued (h : p.Inv size) : p.started.Subperm p.queued := by
  refine subperm_of_logged (fun i => (h.workers i).started) (fun i => (h.workers i).queued) fun i => ?_
  -- A message in the hands of the worker may not be called yet.
  have hpc : (p.workers i).pc.begun.Sublist (p.workers i).pc.hands := by
    cases (p.workers i).pc <;> simp [WorkerPc.begun, WorkerPc.hands]
  rw [Worker.begun, Worker.held, List.append_assoc]
  exact (hpc.append_right _).trans (List.sublist_append_right _ _)

/-- What returned had been called. -/
theorem Inv.finished_started (h : p.Inv size) : p.finished.Subperm p.started := by
  refine subperm_of_logged (fun i => (h.workers i).finished) (fun i => (h.workers i).started)
    fun i => List.Sublist.append_right ?_ _
  cases (p.workers i).pc <;> simp [WorkerPc.ended, WorkerPc.begun]

/-- The signal is raised only for what returned. -/
theorem Inv.raised_finished (h : p.Inv size) : p.raised.Subperm p.finished := by
  refine List.subperm_ext_iff.mpr fun ⟨t, i⟩ _ => ?_
  rw [(h.workers i).finished t]
  omega

/-- Each of these happens at most once to a task. -/
theorem Inv.at_most_once (h : p.Inv size) {log : List (Nat × Nat)} (hlog : log.Subperm p.queued)
    (t : Nat) : log.countP (fun e => e.1 = t) ≤ 1 := by
  refine (hlog.countP_le _).trans ?_
  have hcount : p.queued.countP (fun e => e.1 = t) = (p.queued.map Prod.fst).count t := by
    rw [List.count, List.countP_map]
    exact List.countP_congr fun e _ => by simp
  rw [hcount]
  exact List.nodup_iff_count_le_one.mp h.once t

/-- A task is queued to one worker. -/
theorem Inv.one_worker (h : p.Inv size) {t : Nat} (hi : (t, i) ∈ p.queued) (hj : (t, j) ∈ p.queued) :
    i = j :=
  congrArg Prod.snd (List.inj_on_of_nodup_map h.once hi hj rfl)

end ThreadPool

end Bio
