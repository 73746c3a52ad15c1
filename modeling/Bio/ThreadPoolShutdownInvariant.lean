import Bio.AsyncInvariant
import Bio.Lib.Progress
import Bio.ThreadPoolShutdown

/-!
# The end of the thread pool cannot deadlock

* `Worker.Serving`, `Worker.Terminating`: a worker before and after the termination message was sent to
  it. On its own a worker always comes closer to the point where it waits for a request
  (`Worker.rank`).
* `Shutdown.Inv`: a worker that is waited for owes a response. What a worker has when nobody drains its
  response queue any more fits into that queue.

Result: `shutdown_no_deadlock`.
-/

namespace Bio

/-! ## A worker on its own -/

namespace Worker

variable {size : PoolSize} {w : Worker}

/-- The worker serves requests, and all it has are tasks. -/
structure Serving (w : Worker) : Prop where
  running : w.running = true
  stays : w.pc ≠ .exited
  runs : ∀ msg ∈ w.held, msg.type = .run

/-- The termination message is on its way through the worker, behind all tasks. -/
inductive Terminating (w : Worker) : Prop
  | queued (l : List WorkerMsg) :
      w.running = true → w.pc ≠ .exited → w.requestQueue = l ++ [terminateMsg] →
      (∀ msg ∈ l ++ w.pc.hands ++ w.responseQueue, msg.type = .run) → Terminating w
  | taken :
      w.running = true → w.pc = .dispatching terminateMsg → w.requestQueue = [] →
      (∀ msg ∈ w.responseQueue, msg.type = .run) → Terminating w
  | answering :
      w.running = false → w.pc = .producing terminateMsg → w.requestQueue = [] →
      (∀ msg ∈ w.responseQueue, msg.type = .run) → Terminating w
  | exited :
      w.running = false → w.pc = .exited → w.requestQueue = [] →
      (∀ msg ∈ w.responseQueue, msg.type = .run ∨ msg = terminateMsg) → Terminating w

theorem Serving.step (h : w.Serving) : w.step.Serving := by
  have hruns : ∀ msg ∈ w.step.held, msg.type = .run :=
    fun msg hmem => h.runs msg (w.held_step.subset hmem)
  suffices hstep : w.step.running = true ∧ w.step.pc ≠ .exited from ⟨hstep.1, hstep.2, hruns⟩
  have hrunning := h.running
  unfold Worker.step
  cases hpc : w.pc with
  | consuming =>
    dsimp only
    split
    · exact ⟨hrunning, by simp⟩
    · exact ⟨hrunning, h.stays⟩
  | dispatching msg =>
    have hrun : msg.type = .run := h.runs msg (by simp [held, hpc, WorkerPc.hands])
    simp [hrun, hrunning]
  | executing msg => exact ⟨hrunning, by simp⟩
  | producing msg =>
    dsimp only
    split
    · exact ⟨hrunning, by simp⟩
    · simp [loop, hrunning]
  | notifying => simp [loop, hrunning]
  | exited => exact absurd hpc h.stays

theorem Terminating.step (h : w.Terminating) : w.step.Terminating := by
  cases h with
  | queued l hrunning hstays hqueue hruns =>
    unfold Worker.step
    cases hpc : w.pc with
    | consuming =>
      cases l with
      | nil =>
        simp only [hqueue, List.nil_append]
        exact .taken hrunning rfl rfl fun msg hmem => hruns msg (by simp [hmem])
      | cons msg l =>
        simp only [hqueue, List.cons_append]
        refine .queued l hrunning (by simp) rfl fun m hmem => hruns m ?_
        simp only [WorkerPc.hands, hpc, List.mem_append, List.mem_cons] at hmem ⊢
        tauto
    | dispatching msg =>
      have hrun : msg.type = .run := hruns msg (by simp [hpc, WorkerPc.hands])
      simp only [hrun]
      exact .queued l hrunning (by simp) hqueue (by simpa [hpc, WorkerPc.hands] using hruns)
    | executing msg =>
      exact .queued l hrunning (by simp) hqueue (by simpa [hpc, WorkerPc.hands] using hruns)
    | producing msg =>
      have hmoved : ∀ m ∈ l ++ (w.responseQueue ++ [msg]), m.type = .run := by
        intro m hmem
        refine hruns m ?_
        simp only [hpc, WorkerPc.hands, List.mem_append, List.mem_singleton] at hmem ⊢
        tauto
      dsimp only
      split
      · exact .queued l hrunning (by simp) hqueue (by simpa [WorkerPc.hands] using hmoved)
      · refine .queued l hrunning ?_ hqueue ?_
        · simp [loop, hrunning]
        · simpa [loop, hrunning, WorkerPc.hands] using hmoved
    | notifying =>
      refine .queued l hrunning ?_ hqueue ?_
      · simp [loop, hrunning]
      · simpa [loop, hrunning, hpc, WorkerPc.hands] using hruns
    | exited => exact absurd hpc hstays
  | taken hrunning hpc hqueue hruns =>
    unfold Worker.step
    rw [hpc]
    exact .answering rfl rfl hqueue hruns
  | answering hrunning hpc hqueue hruns =>
    unfold Worker.step
    rw [hpc]
    refine .exited hrunning (by simp [terminateMsg, loop, hrunning]) hqueue fun msg hmem => ?_
    rcases List.mem_append.mp hmem with hmem | hmem
    · exact .inl (hruns msg hmem)
    · exact .inr (List.mem_singleton.mp hmem)
  | exited hrunning hpc hqueue hruns =>
    have hstep : w.step = w := by
      unfold Worker.step
      rw [hpc]
    rw [hstep]
    exact .exited hrunning hpc hqueue hruns

/-- How far the worker is from its next request. -/
def pcRank : WorkerPc → Nat
  | .exited => 0
  | .consuming => 1
  | .notifying => 2
  | .producing _ => 3
  | .executing _ => 4
  | .dispatching _ => 5

/-- A bound on the number of steps that the worker can take on its own. -/
def rank (w : Worker) : Nat := 6 * w.requestQueue.length + pcRank w.pc

theorem rank_loop (w : Worker) : w.loop.rank ≤ 6 * w.requestQueue.length + 1 := by
  unfold loop rank
  cases w.running <;> simp [pcRank]

theorem rank_step (hcan : w.canStep size = true) : w.step.rank < w.rank := by
  unfold Worker.step
  cases hpc : w.pc with
  | consuming =>
    cases hqueue : w.requestQueue with
    | nil => simp [canStep, hpc, hqueue] at hcan
    | cons msg rest =>
      simp only [rank, hpc, hqueue, pcRank, List.length_cons]
      omega
  | dispatching msg =>
    dsimp only
    split <;> simp [rank, hpc, pcRank]
  | executing msg => simp [rank, hpc, pcRank]
  | producing msg =>
    dsimp only
    split
    · simp [rank, hpc, pcRank]
    · refine (rank_loop { w with responseQueue := w.responseQueue ++ [msg] }).trans_lt ?_
      simp only [rank, hpc, pcRank]
      omega
  | notifying =>
    refine (rank_loop w).trans_lt ?_
    simp only [rank, hpc, pcRank]
    omega
  | exited => simp [canStep, hpc] at hcan

/-- A worker that has a message and no response out is not blocked. -/
theorem Serving.canStep (h : w.Serving) (hresponse : w.responseQueue = []) (hheld : w.held ≠ []) :
    w.canStep size = true := by
  cases hpc : w.pc with
  | consuming =>
    have hqueue : w.requestQueue ≠ [] := by
      simpa [held, hpc, hresponse, WorkerPc.hands] using hheld
    simpa [Worker.canStep, hpc] using hqueue
  | producing msg =>
    have hpos := size.queueSize_pos
    simp only [Worker.canStep, hpc, hresponse, List.length_nil, decide_eq_true_eq]
    omega
  | exited => exact absurd hpc h.stays
  | _ => simp [Worker.canStep, hpc]

/-- As long as it has a message, a worker that serves gets to an answer. -/
theorem Serving.answers (h : w.Serving) (hheld : w.held ≠ []) :
    Leads (fun w => w.canStep size = true) Worker.step (fun w => w.responseQueue ≠ []) w := by
  refine Leads.of_rank (P := fun w => w.Serving ∧ w.held ≠ []) rank ?_ ⟨h, hheld⟩
  rintro w ⟨hserving, hheld⟩
  cases hresponse : w.responseQueue with
  | cons msg rest => exact .inl nofun
  | nil =>
    have hcan : w.canStep size = true := hserving.canStep hresponse hheld
    refine .inr ⟨hcan, ⟨hserving.step, fun hnil => hheld ?_⟩, rank_step hcan⟩
    exact (hnil ▸ w.held_step).nil_eq.symm

/-- When what it has fits into the response queue, a worker that is told to terminate is never blocked
there. -/
theorem room_of_held (h : w.held.length ≤ size.queueSize + 1) {msg : WorkerMsg}
    (hpc : w.pc = .producing msg) : w.responseQueue.length < 2 * size.queueSize := by
  have hpos := size.queueSize_pos
  simp only [held, hpc, WorkerPc.hands, List.length_append, List.length_singleton] at h
  omega

/-- A worker that is told to terminate is not blocked before its end. -/
theorem Terminating.canStep (h : w.Terminating) (hheld : w.held.length ≤ size.queueSize + 1) :
    w.pc = .exited ∨ w.canStep size = true := by
  cases hpc : w.pc with
  | consuming =>
    cases h with
    | queued l _ _ hqueue _ => exact .inr (by simp [Worker.canStep, hpc, hqueue])
    | taken _ htaken _ _ => exact absurd (hpc.symm.trans htaken) (by simp)
    | answering _ hanswering _ _ => exact absurd (hpc.symm.trans hanswering) (by simp)
    | exited _ hexited _ _ => exact absurd (hpc.symm.trans hexited) (by simp)
  | producing msg => exact .inr (by simpa [Worker.canStep, hpc] using room_of_held hheld hpc)
  | exited => exact .inl rfl
  | _ => exact .inr (by simp [Worker.canStep, hpc])

theorem Terminating.stopped (h : w.Terminating) (hpc : w.pc = .exited) : w.running = false := by
  cases h with
  | queued _ _ hstays _ _ => exact absurd hpc hstays
  | taken _ htaken _ _ => exact nomatch hpc.symm.trans htaken
  | answering hstopped _ _ _ => exact hstopped
  | exited hstopped _ _ _ => exact hstopped

/-- It takes the termination message and gets to its end. -/
theorem Terminating.exits (h : w.Terminating) (hheld : w.held.length ≤ size.queueSize + 1) :
    Leads (fun w => w.canStep size = true) Worker.step
      (fun w => w.running = false ∧ w.pc = .exited) w := by
  refine Leads.of_rank (P := fun w => w.Terminating ∧ w.held.length ≤ size.queueSize + 1) rank ?_
    ⟨h, hheld⟩
  rintro w ⟨hterm, hheld⟩
  refine (hterm.canStep hheld).imp (fun hpc => ⟨hterm.stopped hpc, hpc⟩) fun hcan =>
    ⟨hcan, ⟨hterm.step, ?_⟩, rank_step hcan⟩
  exact w.held_step.length_eq.trans_le hheld

end Worker

/-! ## The state before -/

theorem ThreadPool.running_consume {p p' : ThreadPool} {i : Nat} {msg : WorkerMsg}
    (hc : p.consume i = some (msg, p')) (j : Nat) :
    (p'.workers j).running = (p.workers j).running := by
  obtain ⟨rest, load, _, hworkers⟩ := ThreadPool.consume_workers hc
  rw [hworkers, Function.update_apply]
  split
  · next heq => rw [heq]
  · rfl

namespace AsyncState

variable {size : PoolSize} {q q' : AsyncState}

theorem MsgStep.running (h : MsgStep size q q') (j : Nat) :
    (q'.pool.workers j).running = (q.pool.workers j).running := by
  cases h with
  | same hpool _ => rw [hpool]
  | call _ _ _ hpool _ => rw [hpool]
  | goOn _ _ _ _ _ hpool _ => rw [hpool]
  | consume i msg hc _ => exact ThreadPool.running_consume hc j
  | submit i k f hn hf hpool _ =>
    rw [hpool, ThreadPool.workers_submit, Function.update_apply]
    split
    · next heq => rw [heq]
    · rfl

/-- Nobody terminates a worker before `bio_thread_cleanup`. -/
theorem serving_of_reachable (h : (machine size).Reachable q) (j : Nat) :
    (q.pool.workers j).Serving := by
  suffices hgoing : ∀ j, (q.pool.workers j).running = true ∧ (q.pool.workers j).pc ≠ .exited from
    ⟨(hgoing j).1, (hgoing j).2, fun msg hmem => ((served_of_reachable h).held j msg hmem).2.1⟩
  refine Machine.invariant (P := fun q : AsyncState => ∀ j,
    (q.pool.workers j).running = true ∧ (q.pool.workers j).pc ≠ .exited) ?_ (fun q a hr hs he j => ?_) h
  · rintro q rfl j
    exact ⟨rfl, nofun⟩
  · by_cases hworker : ∃ i, a = .worker i
    · obtain ⟨i, rfl⟩ := hworker
      show ((q.pool.workerStep i).workers j).running = true ∧ ((q.pool.workerStep i).workers j).pc ≠ _
      rw [ThreadPool.workers_workerStep, Function.update_apply]
      split
      · have hserving : (q.pool.workers i).Serving :=
          ⟨(hs i).1, (hs i).2, fun msg hmem => ((served_of_reachable hr).held i msg hmem).2.1⟩
        exact ⟨hserving.step.running, hserving.step.stays⟩
      · exact hs j
    · have hstep := msgStep_of_step (inv_of_reachable hr) he fun i hi => hworker ⟨i, hi⟩
      rw [hstep.running j, (hstep.responses j).1]
      exact hs j

/-- The message of the task was allocated: it is being submitted, or it has been. -/
def Allocated (q : AsyncState) (t : Nat) : Prop :=
  t ∈ q.pool.queued.map Prod.fst ∨ ∃ k f, q.submits k = some f ∧ f.msg.task = t

theorem nextTask_drain {i : Nat} (hd : q.drain i = some q') : q'.nextTask = q.nextTask := by
  unfold AsyncState.drain at hd
  split at hd
  · cases hd
    rfl
  · cases hd

theorem Allocated.drain {t i : Nat} (h : q.Allocated t) (hd : q.drain i = some q') :
    q'.Allocated t := by
  unfold AsyncState.drain at hd
  split at hd
  · next msg p hc =>
    cases hd
    rw [Allocated, (ThreadPool.consume_frame hc).2.2.1]
    exact h
  · cases hd

/-- The call goes on with the same message. -/
theorem Allocated.setSubmit {t : Nat} {k : Option Handle} {f g : SubmitFrame} (h : q.Allocated t)
    (hf : q.submits k = some f) (hmsg : g.msg = f.msg) : (q.setSubmit k (some g)).Allocated t := by
  refine h.imp_right ?_
  rintro ⟨k', f', hf', rfl⟩
  by_cases hk : k' = k
  · subst hk
    refine ⟨k', g, Function.update_self .., ?_⟩
    rw [hmsg, Option.some.inj (hf.symm.trans hf')]
  · exact ⟨k', f', (Function.update_of_ne hk _ _).trans hf', rfl⟩

theorem nextTask_submitStep (q : AsyncState) (k : Option Handle) (f : SubmitFrame) :
    (q.submitStep size k f).nextTask = q.nextTask := by
  unfold AsyncState.submitStep
  split
  · split
    · next hd => exact nextTask_drain hd
    · rfl
  · split
    · split <;> rfl
    · rfl

theorem Allocated.submitStep {t : Nat} {k : Option Handle} {f : SubmitFrame} (h : q.Allocated t)
    (hf : q.submits k = some f) : (q.submitStep size k f).Allocated t := by
  unfold AsyncState.submitStep
  split
  · split
    · next hd => exact h.drain hd
    · refine h.setSubmit hf ?_
      unfold SubmitFrame.compare
      split <;> rfl
  · split
    · split
      · rcases h with hqueued | ⟨k', f', hf', rfl⟩
        · exact .inl (List.mem_cons_of_mem _ hqueued)
        · by_cases hk : k' = k
          · subst hk
            rw [Option.some.inj (hf.symm.trans hf')]
            exact .inl List.mem_cons_self
          · exact .inr ⟨k', f', (Function.update_of_ne hk _ _).trans hf', rfl⟩
      · exact h.setSubmit hf rfl
    · exact h

/-- A call allocates the next message. -/
theorem Allocated.runAsync {t : Nat} {k : Option Handle} {signal : Handle} (hk : q.submits k = none)
    (h : t < q.nextTask → q.Allocated t) (ht : t < (q.runAsync k signal).nextTask) :
    (q.runAsync k signal).Allocated t := by
  rcases Nat.lt_succ_iff_lt_or_eq.mp ht with ht | rfl
  · refine (h ht).imp_right ?_
    rintro ⟨k', f', hf', rfl⟩
    have hne : k' ≠ k := by
      rintro rfl
      exact nomatch hk.symm.trans hf'
    exact ⟨k', f', (Function.update_of_ne hne _ _).trans hf', rfl⟩
  · exact .inr ⟨k, _, Function.update_self .., rfl⟩

theorem allocated_of_reachable (h : (machine size).Reachable q) :
    ∀ t < q.nextTask, q.Allocated t := by
  refine Machine.invariant (P := fun q : AsyncState => ∀ t < q.nextTask, q.Allocated t) ?_
    (fun q a _ hs he t ht => ?_) h
  · rintro q rfl t ht
    exact absurd ht (Nat.not_lt_zero t)
  · cases a with
    | sched a => exact hs t ht
    | worker i => exact hs t ht
    | update => exact hs t ht
    | runAsync signal =>
      have hbusy := he.2.1
      simp only [busy, Bool.or_eq_false_iff, Option.isSome_eq_false_iff,
        Option.isNone_iff_eq_none] at hbusy
      exact .runAsync hbusy.1.1 (hs t) ht
    | runAsyncAndWait signal =>
      obtain ⟨c, hc⟩ := Option.isSome_iff_exists.mp he.1
      have hbusy := he.2.1
      simp only [busy, hc, Bool.or_eq_false_iff, Option.isSome_eq_false_iff,
        Option.isNone_iff_eq_none] at hbusy
      rw [perform_runAsyncAndWait hc] at ht ⊢
      exact .runAsync hbusy.1.1 (hs t) ht
    | submitStep =>
      obtain ⟨f, hf⟩ := Option.isSome_iff_exists.mp he.2
      rw [perform_submitStep hf] at ht ⊢
      exact (hs t (nextTask_submitStep q _ f ▸ ht)).submitStep hf
    | waitStep =>
      obtain ⟨c, f, hp, _, hf⟩ := waiting_of_enabled he
      rw [perform_waitStep (by rw [hp]; rfl) hf] at ht ⊢
      unfold AsyncState.waitStep at ht ⊢
      split at ht <;> exact hs t ht
    | updateStep =>
      obtain ⟨i, hu⟩ := Option.isSome_iff_exists.mp he.2
      rw [perform_updateStep hu] at ht ⊢
      revert ht
      unfold AsyncState.updateStep
      split
      · split
        · next hd => exact fun ht => (hs t (nextTask_drain hd ▸ ht)).drain hd
        · exact hs t
      · exact hs t

end AsyncState

/-! ## The invariant -/

namespace Shutdown

variable {size : PoolSize} {s t : Shutdown} {w : Worker}

/-- What holds in every interleaving. `room` is the bound that keeps the worker from being blocked by a
full response queue, since nobody drains it any more. -/
structure Inv (size : PoolSize) (s : Shutdown) : Prop where
  index : (s.pc = .returned ∧ s.i = size.numThreads) ∨ (s.pc ≠ .returned ∧ s.i < size.numThreads)
  requests : ∀ j, (s.pool.workers j).requestQueue.length ≤ size.queueSize
  before : ∀ j < s.i, (s.pool.workers j).pc = .exited ∧ (s.pool.workers j).held = []
  after : ∀ j, s.i ≤ j → s.destroyed j = []
  absent : ∀ j, size.numThreads ≤ j → (s.pool.workers j).held = []
  serving : ∀ j, s.i ≤ j → (j = s.i → s.pc.sent = false) → (s.pool.workers j).Serving
  terminating : s.pc.sent = true → s.worker.Terminating
  owed : s.pc = .awaiting → s.worker.held ≠ []
  room : s.pc = .joining → s.worker.held.length ≤ size.queueSize + 1
  account : ∀ t j, s.pool.queued.count (t, j) =
    (runs ((s.pool.workers j).held ++ s.destroyed j)).count t + (s.pool.raised ++ s.freed).count (t, j)
  once : (s.pool.queued.map Prod.fst).Nodup

theorem inv_start {q : AsyncState} (h : (AsyncState.machine size).Reachable q) :
    (start q.pool).Inv size := by
  have hpool := (AsyncState.inv_of_reachable h).pool
  refine ⟨.inr ⟨nofun, size.numThreads_pos⟩, fun j => (hpool.workers j).requests,
    fun j hj => absurd hj (Nat.not_lt_zero j), fun j _ => rfl, fun j hj => ?_,
    fun j _ _ => AsyncState.serving_of_reachable h j, nofun, nofun, nofun, fun t j => ?_, hpool.once⟩
  · refine List.eq_nil_iff_forall_not_mem.mpr fun msg hmem => ?_
    exact absurd ((AsyncState.served_of_reachable h).held j msg hmem).1 (Nat.not_lt_of_le hj)
  · simpa [start] using (hpool.workers j).queued t

/-- The invariant after a step that replaces the worker `s.i`. -/
theorem Inv.replace (h : s.Inv size) (hi : t.i = s.i) (hdestroyed : t.destroyed = s.destroyed)
    (hqueued : t.pool.queued = s.pool.queued) (hraised : t.pool.raised = s.pool.raised)
    (hworkers : t.pool.workers = Function.update s.pool.workers s.i w)
    (hpc : s.pc ≠ .returned) (hpc' : t.pc ≠ .returned)
    (hrequests : w.requestQueue.length ≤ size.queueSize) (hserving : t.pc.sent = false → w.Serving)
    (hterminating : t.pc.sent = true → w.Terminating) (howed : t.pc = .awaiting → w.held ≠ [])
    (hroom : t.pc = .joining → w.held.length ≤ size.queueSize + 1)
    (hself : ∀ u, (runs w.held).count u + t.freed.count (u, s.i) =
      (runs s.worker.held).count u + s.freed.count (u, s.i))
    (hother : ∀ j, j ≠ s.i → ∀ u, t.freed.count (u, j) = s.freed.count (u, j)) : t.Inv size := by
  have hworker : t.worker = w := by rw [worker, hi, hworkers, Function.update_self]
  have hlt : s.i < size.numThreads := (h.index.resolve_left fun hr => hpc hr.1).2
  refine ⟨.inr ⟨hpc', hi ▸ hlt⟩, fun j => ?_, fun j hj => ?_, fun j hj => ?_, fun j hj => ?_,
    fun j hj hsent => ?_, fun hsent => hworker ▸ hterminating hsent, fun hp => hworker ▸ howed hp,
    fun hp => hworker ▸ hroom hp, fun u j => ?_, hqueued ▸ h.once⟩
  · rw [hworkers, Function.update_apply]
    split
    · exact hrequests
    · exact h.requests j
  · rw [hi] at hj
    rw [hworkers, Function.update_of_ne (Nat.ne_of_lt hj)]
    exact h.before j hj
  · rw [hdestroyed]
    exact h.after j (hi ▸ hj)
  · rw [hworkers, Function.update_of_ne (by omega)]
    exact h.absent j hj
  · rw [hi] at hj hsent
    rw [hworkers, Function.update_apply]
    split
    · next heq => exact hserving (hsent heq)
    · next hne => exact h.serving j hj fun heq => absurd heq hne
  · have hold := h.account u j
    rw [hqueued, hraised, hdestroyed, hworkers, Function.update_apply]
    split
    · next heq =>
      subst heq
      have hcount := hself u
      rw [h.after s.i (Nat.le_refl _), List.append_nil] at hold ⊢
      simp only [List.count_append, worker] at hold hcount ⊢
      omega
    · next hne =>
      simp only [List.count_append, hother j hne u] at hold ⊢
      exact hold

/-- A step that only moves the control state. -/
theorem Inv.goto (h : s.Inv size) {pc : CleanupPc} (hpc : s.pc ≠ .returned) (hpc' : pc ≠ .returned)
    (hsent : pc.sent = s.pc.sent) (howed : pc = .awaiting → s.worker.held ≠ [])
    (hroom : pc = .joining → s.worker.held.length ≤ size.queueSize + 1) :
    Inv size { s with pc := pc } := by
  refine h.replace rfl rfl rfl rfl (Function.update_eq_self s.i s.pool.workers).symm hpc hpc'
    (h.requests s.i) (fun hfalse => ?_) (fun htrue => ?_) howed hroom (fun _ => rfl)
    fun _ _ _ => rfl
  · exact h.serving s.i (Nat.le_refl _) fun _ => hsent.symm.trans hfalse
  · exact h.terminating (hsent.symm.trans htrue)

/-- What taking a message out of the response queue does. -/
theorem consume_cases (ht : s.consume = some t) :
    ∃ msg rest, s.worker.responseQueue = msg :: rest ∧
      t = { s.setWorker { s.worker with responseQueue := rest } with
        freed := if msg = terminateMsg then s.freed else (msg.task, s.i) :: s.freed } := by
  unfold consume at ht
  split at ht
  · next msg rest hresponse =>
    cases ht
    exact ⟨msg, rest, hresponse, rfl⟩
  · cases ht

theorem consume_goto (ht : s.consume = some t) {pc : CleanupPc} (hpc : s.pc = pc) :
    { t with pc := pc } = t := by
  obtain ⟨msg, rest, _, rfl⟩ := consume_cases ht
  subst hpc
  rfl

theorem consume_none (h : s.consume = none) : s.worker.responseQueue = [] := by
  unfold consume at h
  split at h
  · cases h
  · next hresponse => exact hresponse

/-- The messages are tasks, but for the termination message. -/
theorem Inv.kinds (h : s.Inv size) (hpc : s.pc.sent = false ∨ s.worker.Terminating) :
    ∀ msg ∈ s.worker.responseQueue, msg.type = .run ∨ msg = terminateMsg := by
  intro msg hmem
  rcases hpc with hpc | hterm
  · have hserving := h.serving s.i (Nat.le_refl _) fun _ => hpc
    exact .inl (hserving.runs msg (List.mem_append_right _ hmem))
  · cases hterm with
    | queued l _ _ _ hruns => exact .inl (hruns msg (List.mem_append_right _ hmem))
    | taken _ _ _ hruns => exact .inl (hruns msg hmem)
    | answering _ _ _ hruns => exact .inl (hruns msg hmem)
    | exited _ _ _ hkinds => exact hkinds msg hmem

theorem Serving.tail {rest : List WorkerMsg} {msg : WorkerMsg} (h : w.Serving)
    (hresponse : w.responseQueue = msg :: rest) : Worker.Serving { w with responseQueue := rest } := by
  refine ⟨h.running, h.stays, fun m hmem => h.runs m ?_⟩
  rw [Worker.held, hresponse]
  exact ((List.sublist_cons_self msg rest).append_left _).subset hmem

theorem Terminating.tail {rest : List WorkerMsg} {msg : WorkerMsg} (h : w.Terminating)
    (hresponse : w.responseQueue = msg :: rest) :
    Worker.Terminating { w with responseQueue := rest } := by
  have htail : ∀ m ∈ rest, m ∈ w.responseQueue := fun m hm => hresponse ▸ List.mem_cons_of_mem msg hm
  cases h with
  | queued l hrunning hstays hqueue hruns =>
    refine .queued l hrunning hstays hqueue fun m hmem => hruns m ?_
    rcases List.mem_append.mp hmem with hmem | hmem
    · exact List.mem_append_left _ hmem
    · exact List.mem_append_right _ (htail m hmem)
  | taken hrunning hpc hqueue hruns =>
    exact .taken hrunning hpc hqueue fun m hmem => hruns m (htail m hmem)
  | answering hrunning hpc hqueue hruns =>
    exact .answering hrunning hpc hqueue fun m hmem => hruns m (htail m hmem)
  | exited hrunning hpc hqueue hkinds =>
    exact .exited hrunning hpc hqueue fun m hmem => hkinds m (htail m hmem)

/-- A message is taken out of the response queue, in any of the three loops. -/
theorem Inv.consume (h : s.Inv size) (ht : s.consume = some t) (pc : CleanupPc)
    (hpc : s.pc ≠ .returned) (hpc' : pc ≠ .returned) (hsent : pc.sent = s.pc.sent)
    (hawaiting : pc ≠ .awaiting) (hjoining : pc ≠ .joining) : Inv size { t with pc := pc } := by
  obtain ⟨msg, rest, hresponse, rfl⟩ := consume_cases ht
  have hkinds : msg.type = .run ∨ msg = terminateMsg := by
    refine h.kinds ?_ msg (hresponse ▸ List.mem_cons_self)
    cases hs : s.pc.sent with
    | false => exact .inl rfl
    | true => exact .inr (h.terminating hs)
  refine h.replace (w := { s.worker with responseQueue := rest }) rfl rfl rfl rfl rfl hpc hpc'
    (h.requests s.i) (fun hfalse => ?_) (fun htrue => ?_) (fun hp => absurd hp hawaiting)
    (fun hp => absurd hp hjoining) (fun u => ?_) (fun j hj u => ?_)
  · exact Serving.tail (h.serving s.i (Nat.le_refl _) fun _ => hsent.symm.trans hfalse) hresponse
  · exact Terminating.tail (h.terminating (hsent.symm.trans htrue)) hresponse
  · simp only [Worker.held, hresponse, runs_append, runs_cons msg rest, List.count_append]
    rcases hkinds with hrun | rfl
    · have hne : msg ≠ terminateMsg := by
        rintro rfl
        exact absurd hrun (by decide)
      rw [if_neg hne, runs_singleton hrun]
      simp only [List.count_cons, List.count_nil, Prod.mk.injEq, and_true, beq_iff_eq]
      omega
    · rw [if_pos rfl, runs_other (by decide), List.count_nil, Nat.zero_add]
  · dsimp only
    split
    · rfl
    · exact ThreadPool.count_cons_other hj _ u

/-- The termination message is sent. -/
theorem Inv.send (h : s.Inv size) (hpc : s.pc = .sending)
    (hroom : s.worker.requestQueue.length ≠ size.queueSize) :
    Inv size { s.setWorker { s.worker with
      requestQueue := s.worker.requestQueue ++ [terminateMsg] } with pc := .lastDraining } := by
  have hserving := h.serving s.i (Nat.le_refl _) fun _ => by rw [hpc]; rfl
  have hrequests := h.requests s.i
  refine h.replace rfl rfl rfl rfl rfl (by rw [hpc]; nofun) nofun ?_ nofun (fun _ => ?_) nofun nofun
    (fun u => ?_) fun _ _ _ => rfl
  · rw [List.length_append, List.length_singleton]
    exact Nat.lt_of_le_of_ne hrequests hroom
  · exact .queued _ hserving.running hserving.stays rfl hserving.runs
  · have hnone : runs [terminateMsg] = [] := rfl
    simp only [Worker.held, runs_append, hnone, List.append_nil]
    rfl

/-- The step lemma for the main thread, up to the end of a worker. -/
theorem Inv.main (h : s.Inv size) (hready : s.mainReady = true) (hpc : s.pc ≠ .joining) :
    (s.mainStep size).Inv size := by
  unfold mainStep
  cases hp : s.pc with
  | sending =>
    dsimp only
    split
    · next hfull =>
      refine h.goto (by simp [hp]) (by simp) (by rw [hp]; rfl) (fun _ => ?_) (by simp)
      -- The request queue is not empty, so the worker owes a response.
      have hpos := size.queueSize_pos
      rw [← List.length_pos_iff, Worker.held, List.length_append, List.length_append]
      omega
    · next hroom => exact h.send hp hroom
  | awaiting =>
    dsimp only
    split
    · next ht =>
      exact h.consume ht .draining (by simp [hp]) (by simp) (by rw [hp]; rfl) (by simp) (by simp)
    · exact h
  | draining =>
    dsimp only
    split
    · next ht =>
      rw [← consume_goto ht hp]
      exact h.consume ht .draining (by simp [hp]) (by simp) (by rw [hp]) (by simp) (by simp)
    · exact h.goto (by simp [hp]) (by simp) (by rw [hp]; rfl) (by simp) (by simp)
  | lastDraining =>
    dsimp only
    split
    · next ht =>
      rw [← consume_goto ht hp]
      exact h.consume ht .lastDraining (by simp [hp]) (by simp) (by rw [hp]) (by simp) (by simp)
    · next hnone =>
      refine h.goto (by simp [hp]) (by simp) (by rw [hp]; rfl) (by simp) fun _ => ?_
      have hrequests := h.requests s.i
      have hhands : s.worker.pc.hands.length ≤ 1 := by
        cases s.worker.pc <;> simp [WorkerPc.hands]
      rw [Worker.held, consume_none hnone, List.append_nil, List.length_append]
      exact Nat.add_le_add hrequests hhands
  | joining => exact absurd hp hpc
  | returned => simp [mainReady, hp] at hready

/-- What an exited worker still has is in its response queue. -/
theorem held_of_exited (h : w.Terminating) (hpc : w.pc = .exited) :
    w.requestQueue = [] ∧ w.held = w.responseQueue := by
  have hqueue : w.requestQueue = [] := by
    cases h with
    | queued _ _ hstays _ _ => exact absurd hpc hstays
    | taken _ _ hqueue _ => exact hqueue
    | answering _ _ hqueue _ => exact hqueue
    | exited _ _ hqueue _ => exact hqueue
  rw [Worker.held, hqueue, hpc]
  exact ⟨rfl, rfl⟩

/-- The queues of a worker that has exited are destroyed. -/
theorem Inv.destroy (h : s.Inv size) (hpc : s.pc = .joining) (hexited : s.worker.pc = .exited) :
    (s.destroy size).Inv size := by
  have hlt : s.i < size.numThreads :=
    (h.index.resolve_left fun hr => absurd (hpc.symm.trans hr.1) (by simp)).2
  obtain ⟨hqueue, hheld⟩ := held_of_exited (h.terminating (by rw [hpc]; rfl)) hexited
  have hempty : Worker.held { s.worker with responseQueue := [] } = [] := by
    rw [Worker.held, hqueue, hexited]
    rfl
  have hunsent : (s.destroy size).pc.sent = false := by
    unfold Shutdown.destroy
    dsimp only
    split <;> rfl
  refine ⟨?_, fun j => ?_, fun j hj => ?_, fun j hj => ?_, fun j hj => ?_, fun j hj _ => ?_,
    fun hsent => absurd (hunsent.symm.trans hsent) Bool.false_ne_true, fun hp => ?_, fun hp => ?_,
    fun u j => ?_, h.once⟩
  · unfold Shutdown.destroy
    dsimp only
    split
    · next hnext => exact .inr ⟨by simp, hnext⟩
    · next hlast => exact .inl ⟨rfl, Nat.le_antisymm hlt (Nat.le_of_not_lt hlast)⟩
  · show (Function.update s.pool.workers s.i _ j).requestQueue.length ≤ _
    rw [Function.update_apply]
    split
    · exact h.requests s.i
    · exact h.requests j
  · show (Function.update s.pool.workers s.i _ j).pc = _ ∧ (Function.update s.pool.workers s.i _ j).held = _
    rw [Function.update_apply]
    split
    · exact ⟨hexited, hempty⟩
    · next hne => exact h.before j (Nat.lt_of_le_of_ne (Nat.le_of_lt_succ hj) hne)
  · exact (Function.update_of_ne (Nat.ne_of_gt hj) _ _).trans (h.after j (Nat.le_of_lt hj))
  · show (Function.update s.pool.workers s.i _ j).held = _
    rw [Function.update_of_ne (by omega)]
    exact h.absent j hj
  · show Worker.Serving (Function.update s.pool.workers s.i _ j)
    rw [Function.update_of_ne (Nat.ne_of_gt hj)]
    exact h.serving j (Nat.le_of_lt hj) fun heq => absurd heq (Nat.ne_of_gt hj)
  · unfold Shutdown.destroy at hp
    dsimp only at hp
    split at hp <;> cases hp
  · rw [hp] at hunsent
    cases hunsent
  · have hold := h.account u j
    show s.pool.queued.count (u, j) = (runs ((Function.update s.pool.workers s.i _ j).held ++
      Function.update s.destroyed s.i s.worker.responseQueue j)).count u + _
    by_cases hj : j = s.i
    · subst hj
      rw [Function.update_self, Function.update_self, hempty, List.nil_append, ← hheld]
      rwa [h.after s.i (Nat.le_refl _), List.append_nil] at hold
    · rw [Function.update_of_ne hj, Function.update_of_ne hj]
      exact hold

/-- A worker goes on. -/
theorem Inv.workerStep (h : s.Inv size) {a : Nat} (ha : a < size.numThreads)
    (hcan : (s.pool.workers a).canStep size = true) :
    Inv size { s with pool := s.pool.workerStep a } := by
  have hle : s.i ≤ a := by
    refine Nat.le_of_not_lt fun hlt => ?_
    rw [Worker.canStep, (h.before a hlt).1] at hcan
    cases hcan
  have hpc : s.pc ≠ .returned := by
    rintro hp
    rcases h.index with ⟨_, hi⟩ | ⟨hne, _⟩
    · omega
    · exact hne hp
  have hperm := (s.pool.workers a).held_step
  have hruns : ∀ u, (runs (s.pool.workers a).step.held).count u =
      (runs (s.pool.workers a).held).count u :=
    fun u => ((hperm.filter _).map _).count_eq u
  rcases Nat.lt_or_eq_of_le hle with hlt | heq
  · refine ⟨h.index, fun j => ?_, fun j hj => ?_, h.after, fun j hj => ?_, fun j hj hsent => ?_,
      fun hsent => ?_, fun hp => ?_, fun hp => ?_, fun u j => ?_, h.once⟩
    all_goals
      try simp only [worker, ThreadPool.workers_workerStep, Function.update_of_ne (Nat.ne_of_lt hlt)]
    · rw [Function.update_apply]
      split
      · exact (Worker.requests_step _).trans (h.requests a)
      · exact h.requests j
    · have hlow : j < s.i := hj
      rw [Function.update_of_ne (by omega)]
      exact h.before j hlow
    · rw [Function.update_of_ne (by omega)]
      exact h.absent j hj
    · rw [Function.update_apply]
      split
      · exact (h.serving a hle fun heq => absurd heq (Nat.ne_of_gt hlt)).step
      · exact h.serving j hj hsent
    · exact h.terminating hsent
    · exact h.owed hp
    · exact h.room hp
    · have hold := h.account u j
      rw [Function.update_apply]
      split
      · next heq =>
        subst heq
        simp only [runs_append, List.count_append, hruns u] at hold ⊢
        exact hold
      · exact hold
  · subst heq
    refine h.replace (w := s.worker.step) rfl rfl rfl rfl rfl hpc hpc
      ((Worker.requests_step _).trans (h.requests s.i)) (fun hsent => ?_) (fun hsent => ?_)
      (fun hp hnil => h.owed hp ?_) (fun hp => ?_) (fun u => ?_) fun _ _ _ => rfl
    · exact (h.serving s.i (Nat.le_refl _) fun _ => hsent).step
    · exact (h.terminating hsent).step
    · exact (hnil ▸ s.worker.held_step).nil_eq.symm
    · exact s.worker.held_step.length_eq.trans_le (h.room hp)
    · exact congrArg (· + _) (hruns u)

theorem Inv.step (h : s.Inv size) {a : ShutdownAction} (he : (machine size).enabled s a) :
    ((machine size).perform s a).Inv size := by
  cases a with
  | worker j => exact h.workerStep he.1 he.2
  | main =>
    by_cases hpc : s.pc = .joining
    · have hexited : s.worker.pc = .exited := by
        have hready : s.mainReady = true := he
        simpa [mainReady, hpc] using hready
      have hstep : s.mainStep size = s.destroy size := by rw [mainStep, hpc]
      show (s.mainStep size).Inv size
      rw [hstep]
      exact h.destroy hpc hexited
    · exact h.main he hpc

theorem inv_of_reachable (hr : (machine size).Reachable s) : s.Inv size :=
  Machine.invariant (fun _ ⟨_, hq, hs⟩ => hs ▸ inv_start hq) (fun _ _ _ h he => h.step he) hr

/-! ## No deadlock -/

/-- The main thread is not blocked, or a worker is not. -/
theorem Inv.progress (h : s.Inv size) (hpc : s.pc ≠ .returned) :
    ∃ a, (machine size).enabled s a := by
  have hlt : s.i < size.numThreads := (h.index.resolve_left fun hr => hpc hr.1).2
  by_cases hready : s.mainReady = true
  · exact ⟨.main, hready⟩
  · -- It waits for the worker `s.i`.
    refine ⟨.worker s.i, hlt, ?_⟩
    cases hp : s.pc with
    | awaiting =>
      have hresponse : s.worker.responseQueue = [] := by simpa [mainReady, hp] using hready
      have hserving := h.serving s.i (Nat.le_refl _) fun _ => by rw [hp]; rfl
      exact hserving.canStep hresponse (h.owed hp)
    | joining =>
      have hexited : s.worker.pc ≠ .exited := by simpa [mainReady, hp] using hready
      exact ((h.terminating (by rw [hp]; rfl)).canStep (h.room hp)).resolve_left hexited
    | returned => exact absurd hp hpc
    | _ => simp [mainReady, hp] at hready

/-- `bio_thread_cleanup` cannot deadlock. It waits for a response only while the worker still gets to
one. Once it is in `thrd_join`, the worker is never blocked by a full response queue, and it gets to the
termination message and to its end. -/
theorem shutdown_no_deadlock (hr : (machine size).Reachable s) :
    (s.pc = .awaiting → Leads (fun w => w.canStep size = true) Worker.step
      (fun w => w.responseQueue ≠ []) s.worker) ∧
    (s.pc = .joining →
      (∀ msg, s.worker.pc = .producing msg → s.worker.responseQueue.length < 2 * size.queueSize) ∧
      Leads (fun w => w.canStep size = true) Worker.step
        (fun w => w.running = false ∧ w.pc = .exited) s.worker) ∧
    (s.pc ≠ .returned → ∃ a, (machine size).enabled s a) := by
  have h := inv_of_reachable hr
  refine ⟨fun hpc => ?_, fun hpc => ?_, h.progress⟩
  · exact (h.serving s.i (Nat.le_refl _) fun _ => by rw [hpc]; rfl).answers (h.owed hpc)
  · exact ⟨fun _ => Worker.room_of_held (h.room hpc),
      (h.terminating (by rw [hpc]; rfl)).exits (h.room hpc)⟩

/-- With one thread and queues of the smallest size, the worker serves a job when the termination message
is sent, and the main thread is already in `thrd_join`. -/
theorem shutdown_no_deadlock_smallest :
    let size := PoolSize.ofOptions 1 1 (by decide)
    let q := (AsyncState.machine size).run AsyncState.init
      [.runAsync Handle.invalid, .submitStep, .submitStep]
    let s := (machine size).run (start q.pool) [.main, .worker 0, .worker 0, .worker 0, .worker 0,
      .main, .main, .main, .main]
    s.pc = .joining ∧ s.worker.pc = .notifying ∧
      Leads (fun w => w.canStep size = true) Worker.step
        (fun w => w.running = false ∧ w.pc = .exited) s.worker := by
  intro size q s
  have hq : (AsyncState.machine size).Reachable q := Machine.Reachable.run (.init rfl) (by decide +kernel)
  have hr : (machine size).Reachable s := Machine.Reachable.run (.init ⟨q, hq, rfl⟩) (by decide +kernel)
  have hpc : s.pc = .joining := by decide +kernel
  exact ⟨hpc, by decide +kernel, ((shutdown_no_deadlock hr).2.1 hpc).2⟩

end Shutdown

end Bio
