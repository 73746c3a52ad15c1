import Mathlib.Algebra.Order.BigOperators.Group.Finset
import Bio.Async

/-!
# Async jobs under all interleavings

* `AsyncState.WaitOk`: as long as the signal of a call of `bio_run_async_and_wait` is live, only the
  message of its own task carries it. Once it is closed, the task was raised.
* `AsyncState.Inv`: the pool is accounted, and the tasks that are being submitted are new.
* `AsyncState.MsgStep`: what the main thread does to the messages. `AsyncState.Served`: all of them
  ask for a notification.

Result: `async_jobs_exact`.
-/

namespace Bio

namespace AsyncState

variable {size : PoolSize} {q q' : AsyncState} {c : Handle} {f : AsyncFrame}

/-- A message that the main thread submits or that a worker has. -/
def IsMessage (q : AsyncState) (msg : WorkerMsg) : Prop :=
  (∃ k f, q.submits k = some f ∧ f.msg = msg) ∨ ∃ i, msg ∈ (q.pool.workers i).held

/-- What holds of a call of `bio_run_async_and_wait`. -/
structure WaitOk (q : AsyncState) (c : Handle) (f : AsyncFrame) : Prop where
  inside : q.sched.Inside c
  held : q.sched.Held c f.signal
  carried : q.sched.ownerOf f.signal = some c →
    ∀ msg, q.IsMessage msg → msg.signal = f.signal → msg.task = f.task
  raised : q.sched.ownerOf f.signal ≠ some c → f.task ∈ q.pool.raised.map Prod.fst
  awaiting : f.stage = .waiting → q.sched.Awaiting c [f.signal]

/-- What holds of a call of `bio_run_async`. -/
structure SubmitOk (size : PoolSize) (q : AsyncState) (f : SubmitFrame) : Prop where
  run : f.msg.type = .run
  known : f.msg.task < q.nextTask
  new : f.msg.task ∉ q.pool.queued.map Prod.fst
  chosen : (f.i = 0 ∧ f.minLoad = BitVec.allOnes 32 ∧ f.chosenWorkerIndex = none) ∨
    ∃ i < size.numThreads, f.chosenWorkerIndex = some i

structure Inv (size : PoolSize) (q : AsyncState) : Prop where
  sched : Sched.machine.Reachable q.sched
  pool : q.pool.Inv size
  submits : ∀ k f, q.submits k = some f → q.SubmitOk size f
  distinct : ∀ k k' f f', q.submits k = some f → q.submits k' = some f' →
    f.msg.task = f'.msg.task → k = k'
  known : ∀ t ∈ q.pool.queued.map Prod.fst, t < q.nextTask
  issued : ∀ msg, q.IsMessage msg → msg.signal.isValid = true → msg.signal ∈ q.sched.issued
  waits : ∀ c f, q.waits c = some f → q.WaitOk c f

/-! ## Steps of the scheduler -/

/-- The step lemma for a call whose signal the action does not name while it is live. -/
theorem WaitOk.sched_step (h : q.WaitOk c f) (hr : Sched.machine.Reachable q.sched) {a : Action}
    (he : Sched.machine.enabled q.sched a) (hinside : (Sched.machine.perform q.sched a).Inside c)
    (hnames : a.names f.signal = true → q.sched.ownerOf f.signal ≠ some c) :
    WaitOk { q with sched := Sched.machine.perform q.sched a } c f := by
  have howner := h.held.owner_iff hr he hinside.live hnames
  exact ⟨hinside, h.held.step hr he hnames, fun hown => h.carried (howner.mp hown),
    fun hown => h.raised (mt howner.mpr hown), fun hstage => (h.awaiting hstage).step hr he⟩

/-- The invariant after an action of the scheduler. -/
theorem Inv.sched_step (hi : q.Inv size) {a : Action} (he : Sched.machine.enabled q.sched a)
    (hinside : ∀ c f, q.waits c = some f → (Sched.machine.perform q.sched a).Inside c)
    (hnames : ∀ c f, q.waits c = some f → a.names f.signal = true →
      q.sched.ownerOf f.signal ≠ some c) :
    Inv size { q with sched := Sched.machine.perform q.sched a } := by
  refine ⟨hi.sched.step he, hi.pool, fun k f hf => ?_, hi.distinct, hi.known,
    fun msg hmsg hvalid => ?_, fun c f hf => ?_⟩
  · obtain ⟨hrun, hknown, hnew, hchosen⟩ := hi.submits k f hf
    exact ⟨hrun, hknown, hnew, hchosen⟩
  · exact (Sched.Effect.of_step he).stays_closed.issued _ (hi.issued msg hmsg hvalid)
  · exact (hi.waits c f hf).sched_step hi.sched he (hinside c f hf) (hnames c f hf)

/-- A coroutine that runs, and for which the main thread is not busy, is in no call. -/
theorem idle_of_busy (h : q.busy = false) (hf : q.waits c = some f) :
    q.sched.phase ≠ .running c := by
  intro hp
  simp [busy, hp, Phase.mcoRunning, hf] at h

theorem Inv.schedAction (hi : q.Inv size) {a : Action}
    (he : (machine size).enabled q (.sched a)) :
    ((machine size).perform q (.sched a)).Inv size := by
  obtain ⟨hen, hbusy, hlocal⟩ := he
  refine hi.sched_step hen (fun c f hf => ?_) (fun c f hf hn hown => ?_)
  · exact (hi.waits c f hf).inside.step hi.sched hen (idle_of_busy hbusy hf)
  · have hnot := hlocal f.signal (Action.mem_signals.mpr hn)
    simp [isLocal, hown, hf] at hnot

/-! ## Steps of the pool -/

/-- A step that leaves the scheduler alone and brings no new message. -/
theorem WaitOk.pool_step (h : q.WaitOk c f) (hsched : q'.sched = q.sched)
    (hmsg : ∀ msg, q'.IsMessage msg → q.IsMessage msg)
    (hraised : ∀ t ∈ q.pool.raised.map Prod.fst, t ∈ q'.pool.raised.map Prod.fst) :
    q'.WaitOk c f := by
  obtain ⟨hinside, hheld, hcarried, hdone, hawaiting⟩ := h
  rw [← hsched] at hinside hheld hcarried hdone hawaiting
  exact ⟨hinside, hheld, fun hown msg hm => hcarried hown msg (hmsg msg hm),
    fun hown => hraised _ (hdone hown), hawaiting⟩

theorem isMessage_of_held {msg : WorkerMsg} (hsubmits : q'.submits = q.submits)
    (hheld : ∀ i, (q'.pool.workers i).held ⊆ (q.pool.workers i).held) (h : q'.IsMessage msg) :
    q.IsMessage msg := by
  rcases h with ⟨k, f, hf, hmsg⟩ | ⟨i, hmem⟩
  · exact .inl ⟨k, f, hsubmits ▸ hf, hmsg⟩
  · exact .inr ⟨i, hheld i hmem⟩

/-- A worker goes on. -/
theorem Inv.workerAction (hi : q.Inv size) {i : Nat} (he : (machine size).enabled q (.worker i)) :
    ((machine size).perform q (.worker i)).Inv size := by
  have hheld : ∀ j, ((q.pool.workerStep i).workers j).held ⊆ (q.pool.workers j).held := by
    intro j
    show (Function.update q.pool.workers i (q.pool.workers i).step j).held ⊆ _
    rw [Function.update_apply]
    split
    · next heq =>
      subst heq
      exact (q.pool.workers j).held_step.subset
    · exact List.Subset.refl _
  have hmsg : ∀ msg, IsMessage { q with pool := q.pool.workerStep i } msg → q.IsMessage msg :=
    fun msg => isMessage_of_held rfl hheld
  refine ⟨hi.sched, hi.pool.workerStep he.1 he.2, fun k f hf => ?_, hi.distinct, hi.known,
    fun msg hm => hi.issued msg (hmsg msg hm),
    fun c f hf => (hi.waits c f hf).pool_step rfl hmsg fun _ ht => ht⟩
  obtain ⟨hrun, hknown, hnew, hchosen⟩ := hi.submits k f hf
  exact ⟨hrun, hknown, hnew, hchosen⟩

/-- The main thread takes a message of a task out of a response queue and raises its signal. -/
theorem WaitOk.drain (h : q.WaitOk c f) (hr : Sched.machine.Reachable q.sched)
    (hphase : q.sched.phase ≠ .pass) {msg : WorkerMsg} (hmsg : q.IsMessage msg)
    (hsched : q'.sched = (q.sched.raiseSignal msg.signal).1)
    (hsub : ∀ msg, q'.IsMessage msg → q.IsMessage msg)
    (hraised : q'.pool.raised.map Prod.fst = msg.task :: q.pool.raised.map Prod.fst) :
    q'.WaitOk c f := by
  have he : Sched.machine.enabled q.sched (.raise msg.signal) := hphase
  by_cases hsignal : msg.signal = f.signal
  · -- The response to this call: its task is recorded when its signal is raised.
    have hclosed : q'.sched.ownerOf f.signal = none := by
      rw [hsched, ← hsignal]
      exact Sched.checkSignal_iff_none.mp (Sched.checkSignal_raiseSignal q.sched msg.signal)
    refine ⟨hsched ▸ h.inside.raise msg.signal, hsched ▸ h.held.raise msg.signal, ?_, fun _ => ?_,
      fun hstage => hsched ▸ (h.awaiting hstage).step hr he⟩
    · rw [hclosed]
      nofun
    · rw [hraised]
      by_cases hown : q.sched.ownerOf f.signal = some c
      · rw [h.carried hown msg hmsg hsignal]
        exact List.mem_cons_self
      · exact List.mem_cons_of_mem _ (h.raised hown)
  · -- The response to another call.
    have hstep := h.sched_step hr he (h.inside.raise msg.signal) (by simp [Action.names, hsignal])
    refine hstep.pool_step hsched hsub fun t ht => ?_
    rw [hraised]
    exact List.mem_cons_of_mem _ ht

/-- One round takes a message out of a response queue and raises its signal, if it is a task. -/
theorem drain_cases {i : Nat} (hd : q.drain i = some q') :
    ∃ msg pool, q.pool.consume i = some (msg, pool) ∧
      q' = { q with
        pool := pool
        sched := if msg.type = .run then (q.sched.raiseSignal msg.signal).1 else q.sched } := by
  unfold AsyncState.drain at hd
  split at hd
  · next msg pool hc =>
    cases hd
    exact ⟨msg, pool, hc, rfl⟩
  · cases hd

theorem drain_frame {i : Nat} (hd : q.drain i = some q') :
    q'.sched.phase = q.sched.phase ∧ q'.submits = q.submits ∧ q'.updating = q.updating := by
  obtain ⟨msg, pool, _, rfl⟩ := drain_cases hd
  refine ⟨?_, rfl, rfl⟩
  dsimp only
  split
  · exact (Sched.raiseSignal_frame q.sched msg.signal).2.1
  · rfl

theorem drain_none {i : Nat} (hd : q.drain i = none) : (q.pool.workers i).responseQueue = [] := by
  unfold AsyncState.drain at hd
  split at hd
  · cases hd
  · next hc => exact ThreadPool.consume_none hc

/-- The step lemma for one round of `bio_thread_drain_responses`. -/
theorem Inv.drain (hi : q.Inv size) (hphase : q.sched.phase ≠ .pass) {i : Nat}
    (hn : i < size.numThreads) (hd : q.drain i = some q') : q'.Inv size := by
  obtain ⟨msg, pool, hc, rfl⟩ := drain_cases hd
  obtain ⟨hmem, hheld, hqueued, hraised⟩ := ThreadPool.consume_frame hc
  have hpool := hi.pool.consume hn hc
  have hmsg : q.IsMessage msg := .inr ⟨i, hmem⟩
  have hsub : ∀ s m, IsMessage { q with pool := pool, sched := s } m → q.IsMessage m :=
    fun s m => isMessage_of_held rfl hheld
  by_cases hrun : msg.type = .run
  · have he : Sched.machine.enabled q.sched (.raise msg.signal) := hphase
    rw [if_pos hrun] at hraised ⊢
    refine ⟨hi.sched.step he, hpool, fun k f hf => ?_, hi.distinct, ?_, fun m hm hvalid => ?_,
      fun c f hf => (hi.waits c f hf).drain hi.sched hphase hmsg rfl (hsub _) ?_⟩
    · obtain ⟨hr, hknown, hnew, hchosen⟩ := hi.submits k f hf
      exact ⟨hr, hknown, hqueued ▸ hnew, hchosen⟩
    · rw [hqueued]
      exact hi.known
    · exact (Sched.Effect.of_step he).stays_closed.issued _ (hi.issued m (hsub _ m hm) hvalid)
    · rw [hraised, List.map_cons]
  · rw [if_neg hrun] at hraised ⊢
    refine ⟨hi.sched, hpool, fun k f hf => ?_, hi.distinct, ?_,
      fun m hm => hi.issued m (hsub _ m hm),
      fun c f hf => (hi.waits c f hf).pool_step rfl (hsub _) fun t ht => ?_⟩
    · obtain ⟨hr, hknown, hnew, hchosen⟩ := hi.submits k f hf
      exact ⟨hr, hknown, hqueued ▸ hnew, hchosen⟩
    · rw [hqueued]
      exact hi.known
    · rw [hraised]
      exact ht

/-! ## Steps of the calls -/

/-- The calls of `bio_run_async_and_wait` change. -/
theorem Inv.setWait (hi : q.Inv size) (new : Option AsyncFrame)
    (hok : ∀ f, new = some f → q.WaitOk c f) : (q.setWait c new).Inv size := by
  refine ⟨hi.sched, hi.pool, fun k f hf => ?_, hi.distinct, hi.known, hi.issued, fun d f hf => ?_⟩
  · obtain ⟨hrun, hknown, hnew, hchosen⟩ := hi.submits k f hf
    exact ⟨hrun, hknown, hnew, hchosen⟩
  · have hf' : Function.update q.waits c new d = some f := hf
    have hwait : q.WaitOk d f := by
      rw [Function.update_apply] at hf'
      split at hf'
      · next heq => exact heq ▸ hok f hf'
      · exact hi.waits d f hf'
    exact hwait.pool_step rfl (fun _ hm => hm) fun _ ht => ht

theorem setSubmit_cases {k k' : Option Handle} {new : Option SubmitFrame} {f : SubmitFrame}
    (h : (q.setSubmit k new).submits k' = some f) :
    (k' = k ∧ new = some f) ∨ (k' ≠ k ∧ q.submits k' = some f) := by
  have h' : Function.update q.submits k new k' = some f := h
  exact Table.update_some h'

/-- A call of `bio_run_async` goes on in its loops. -/
theorem Inv.setFrame (hi : q.Inv size) {k : Option Handle} {f g : SubmitFrame}
    (hf : q.submits k = some f) (hmsg : g.msg = f.msg)
    (hchosen : (g.i = 0 ∧ g.minLoad = BitVec.allOnes 32 ∧ g.chosenWorkerIndex = none) ∨
      ∃ i < size.numThreads, g.chosenWorkerIndex = some i) :
    (q.setSubmit k (some g)).Inv size := by
  -- A frame after the step has the message of the frame before it.
  have hold : ∀ {k' f'}, (q.setSubmit k (some g)).submits k' = some f' →
      ∃ f₀, q.submits k' = some f₀ ∧ f₀.msg = f'.msg := by
    intro k' f' hf'
    rcases setSubmit_cases hf' with ⟨rfl, hnew⟩ | ⟨_, hf''⟩
    · cases hnew
      exact ⟨f, hf, hmsg.symm⟩
    · exact ⟨f', hf'', rfl⟩
  have hmessage : ∀ msg, (q.setSubmit k (some g)).IsMessage msg → q.IsMessage msg := by
    rintro msg (⟨k', f', hf', rfl⟩ | hheld)
    · obtain ⟨f₀, hf₀, heq⟩ := hold hf'
      exact .inl ⟨k', f₀, hf₀, heq⟩
    · exact .inr hheld
  refine ⟨hi.sched, hi.pool, fun k' f' hf' => ?_, fun k₁ k₂ f₁ f₂ h₁ h₂ heq => ?_, hi.known,
    fun msg hm => hi.issued msg (hmessage msg hm),
    fun c w hw => (hi.waits c w hw).pool_step rfl hmessage fun _ ht => ht⟩
  · rcases setSubmit_cases hf' with ⟨rfl, hnew⟩ | ⟨_, hf''⟩
    · cases hnew
      obtain ⟨hrun, hknown, hnew, _⟩ := hi.submits _ f hf
      exact ⟨hmsg ▸ hrun, hmsg ▸ hknown, hmsg ▸ hnew, hchosen⟩
    · obtain ⟨hrun, hknown, hnew, hchosen'⟩ := hi.submits k' f' hf''
      exact ⟨hrun, hknown, hnew, hchosen'⟩
  · obtain ⟨g₁, hg₁, heq₁⟩ := hold h₁
    obtain ⟨g₂, hg₂, heq₂⟩ := hold h₂
    exact hi.distinct k₁ k₂ g₁ g₂ hg₁ hg₂ (by rw [heq₁, heq₂, heq])

/-- The message is put into the request queue of a worker. -/
theorem Inv.submit (hi : q.Inv size) {k : Option Handle} {f : SubmitFrame} {i : Nat}
    (hf : q.submits k = some f) (hn : i < size.numThreads)
    (hroom : (q.pool.workers i).requestQueue.length < size.queueSize) :
    Inv size { q.setSubmit k none with pool := q.pool.submit i f.msg } := by
  obtain ⟨hrun, hknown, hnew, _⟩ := hi.submits k f hf
  have hother : ∀ {k' f'}, (q.setSubmit k none).submits k' = some f' →
      k' ≠ k ∧ q.submits k' = some f' := by
    intro k' f' hf'
    exact (setSubmit_cases hf').resolve_left nofun
  have hmessage : ∀ msg,
      IsMessage { q.setSubmit k none with pool := q.pool.submit i f.msg } msg → q.IsMessage msg := by
    rintro msg (⟨k', f', hf', rfl⟩ | ⟨j, hmem⟩)
    · exact .inl ⟨k', f', (hother hf').2, rfl⟩
    · by_cases hj : j = i
      · subst hj
        have hmem' : msg ∈ (q.pool.workers j).held ∨ msg = f.msg := by
          simp only [ThreadPool.submit, ThreadPool.setWorker, Function.update_self, Worker.held,
            List.mem_append, List.mem_singleton] at hmem ⊢
          tauto
        rcases hmem' with hmem' | rfl
        · exact .inr ⟨j, hmem'⟩
        · exact .inl ⟨k, f, hf, rfl⟩
      · simp only [ThreadPool.submit, ThreadPool.setWorker, Function.update_of_ne hj] at hmem
        exact .inr ⟨j, hmem⟩
  refine ⟨hi.sched, hi.pool.submit hn hrun hnew hroom, fun k' f' hf' => ?_,
    fun k₁ k₂ f₁ f₂ h₁ h₂ => ?_, fun t ht => ?_, fun msg hm => hi.issued msg (hmessage msg hm),
    fun c w hw => (hi.waits c w hw).pool_step rfl hmessage fun _ ht => ht⟩
  · obtain ⟨hne, hf''⟩ := hother hf'
    obtain ⟨hrun', hknown', hnew', hchosen'⟩ := hi.submits k' f' hf''
    refine ⟨hrun', hknown', fun hmem => ?_, hchosen'⟩
    rcases List.mem_cons.mp hmem with heq | hmem
    · exact hne (hi.distinct k' k f' f hf'' hf heq)
    · exact hnew' hmem
  · exact hi.distinct k₁ k₂ f₁ f₂ (hother h₁).2 (hother h₂).2
  · rcases List.mem_cons.mp ht with rfl | ht
    · exact hknown
    · exact hi.known t ht

/-- The running coroutine, or the main thread outside of coroutines, yields. -/
theorem Inv.yield (hi : q.Inv size) {k : Option Handle} (hk : q.sched.phase.mcoRunning = k) :
    Inv size { q with sched := yield q.sched k } := by
  cases k with
  | none => exact hi
  | some c =>
    have hp := Phase.eq_running hk
    have hstep := hi.sched_step (Sched.yield_enabled hp) (fun d f hf => ?_) nofun
    · rw [Sched.perform_yield hp] at hstep
      exact hstep
    · by_cases hd : d = c
      · rw [hd, Sched.perform_yield hp]
        exact Sched.Inside.yield hi.sched hp
      · refine (hi.waits d f hf).inside.step hi.sched (Sched.yield_enabled hp) ?_
        rw [hp]
        exact fun heq => hd (Phase.running.inj heq).symm

theorem compare_chosen {f : SubmitFrame} {load : BitVec 32} (hload : load < BitVec.allOnes 32)
    (hi : f.i < size.numThreads)
    (h : (f.i = 0 ∧ f.minLoad = BitVec.allOnes 32 ∧ f.chosenWorkerIndex = none) ∨
      ∃ i < size.numThreads, f.chosenWorkerIndex = some i) :
    ∃ i < size.numThreads, (f.compare load).chosenWorkerIndex = some i := by
  unfold SubmitFrame.compare
  split
  · exact ⟨f.i, hi, rfl⟩
  · next hnot =>
    -- `min_load` starts at the largest value, so the first load is always below it.
    rcases h with ⟨_, hmin, _⟩ | hchosen
    · exact absurd (hmin ▸ hload) hnot
    · exact hchosen

/-- At the end of its inner loop `bio_run_async` has chosen one of the workers. -/
theorem Inv.has_worker (hi : q.Inv size) {k : Option Handle} {f : SubmitFrame}
    (hf : q.submits k = some f) (hend : ¬f.i < size.numThreads) :
    ∃ i < size.numThreads, f.chosenWorkerIndex = some i := by
  have hpos := size.numThreads_pos
  refine (hi.submits k f hf).chosen.resolve_left fun h => ?_
  omega

theorem Inv.submitAction (hi : q.Inv size) (he : (machine size).enabled q .submitStep) :
    ((machine size).perform q .submitStep).Inv size := by
  obtain ⟨huser, hsome⟩ := he
  obtain ⟨f, hf⟩ := Option.isSome_iff_exists.mp hsome
  have hphase : q.sched.phase ≠ .pass := by
    intro hp
    rw [hp] at huser
    cases huser
  rw [perform_submitStep hf]
  unfold AsyncState.submitStep
  split
  · next hn =>
    split
    · next q' hd => exact hi.drain hphase hn hd
    · refine hi.setFrame hf ?_ (.inr ?_)
      · unfold SubmitFrame.compare
        split <;> rfl
      · exact compare_chosen (hi.pool.workers f.i).load_lt hn (hi.submits _ f hf).chosen
  · next hend =>
    obtain ⟨i, hn, hchosen⟩ := hi.has_worker hf hend
    rw [hchosen]
    dsimp only
    split
    · next hroom => exact hi.submit hf hn hroom
    · -- The queue is full: the call yields and looks at all workers again.
      exact (hi.setFrame (g := .start f.msg) hf rfl (.inl ⟨rfl, rfl, rfl⟩)).yield rfl

/-- A call of `bio_run_async` begins. -/
theorem Inv.runAsync (hi : q.Inv size) {k : Option Handle} {signal : Handle}
    (hk : q.submits k = none) (hissued : signal.isValid = true → signal ∈ q.sched.issued)
    (hwaits : ∀ c f, q.waits c = some f → q.sched.ownerOf f.signal = some c → signal = f.signal →
      q.nextTask = f.task) : (q.runAsync k signal).Inv size := by
  -- Tasks are numbered, so the new one is in no queue and in no other call.
  have hfresh : q.nextTask ∉ q.pool.queued.map Prod.fst := fun hmem =>
    absurd (hi.known _ hmem) (Nat.lt_irrefl _)
  have hcases : ∀ {k' f'}, (q.runAsync k signal).submits k' = some f' →
      (k' = k ∧ f' = .start ⟨.run, true, q.nextTask, signal⟩) ∨ q.submits k' = some f' := by
    intro k' f' hf'
    rcases setSubmit_cases (q := q) hf' with ⟨rfl, hnew⟩ | ⟨_, hf''⟩
    · exact .inl ⟨rfl, (Option.some.inj hnew).symm⟩
    · exact .inr hf''
  have hmessage : ∀ msg, (q.runAsync k signal).IsMessage msg →
      q.IsMessage msg ∨ msg = ⟨.run, true, q.nextTask, signal⟩ := by
    rintro msg (⟨k', f', hf', rfl⟩ | hheld)
    · rcases hcases hf' with ⟨_, rfl⟩ | hf''
      · exact .inr rfl
      · exact .inl (.inl ⟨k', f', hf'', rfl⟩)
    · exact .inl (.inr hheld)
  refine ⟨hi.sched, hi.pool, fun k' f' hf' => ?_, fun k₁ k₂ f₁ f₂ h₁ h₂ heq => ?_,
    fun t ht => Nat.lt_succ_of_lt (hi.known t ht), fun msg hm hvalid => ?_, fun c f hf => ?_⟩
  · rcases hcases hf' with ⟨_, rfl⟩ | hf''
    · exact ⟨rfl, Nat.lt_succ_self _, hfresh, .inl ⟨rfl, rfl, rfl⟩⟩
    · obtain ⟨hrun, hknown, hnew, hchosen⟩ := hi.submits k' f' hf''
      exact ⟨hrun, Nat.lt_succ_of_lt hknown, hnew, hchosen⟩
  · rcases hcases h₁ with ⟨hk₁, rfl⟩ | hf₁ <;> rcases hcases h₂ with ⟨hk₂, rfl⟩ | hf₂
    · rw [hk₁, hk₂]
    · have hlt := (hi.submits k₂ f₂ hf₂).known
      rw [← heq] at hlt
      exact absurd hlt (Nat.lt_irrefl _)
    · have hlt := (hi.submits k₁ f₁ hf₁).known
      rw [heq] at hlt
      exact absurd hlt (Nat.lt_irrefl _)
    · exact hi.distinct k₁ k₂ f₁ f₂ hf₁ hf₂ heq
  · rcases hmessage msg hm with hold | rfl
    · exact hi.issued msg hold hvalid
    · exact hissued hvalid
  · obtain ⟨hinside, hheld, hcarried, hraised, hawaiting⟩ := hi.waits c f hf
    refine ⟨hinside, hheld, fun hown msg hm hsignal => ?_, hraised, hawaiting⟩
    rcases hmessage msg hm with hold | rfl
    · exact hcarried hown msg hold hsignal
    · exact hwaits c f hf hown hsignal

theorem Inv.runAsyncAction (hi : q.Inv size) {signal : Handle}
    (he : (machine size).enabled q (.runAsync signal)) :
    ((machine size).perform q (.runAsync signal)).Inv size := by
  obtain ⟨_, hbusy, hissued, hlocal⟩ := he
  simp only [busy, Bool.or_eq_false_iff, Option.isSome_eq_false_iff, Option.isNone_iff_eq_none]
    at hbusy
  refine hi.runAsync hbusy.1.1 hissued fun c f hf hown hsignal => ?_
  subst hsignal
  simp [isLocal, hown, hf] at hlocal

/-- `bio_run_async_and_wait` makes its signal and calls `bio_run_async`. -/
theorem Inv.runAsyncAndWaitAction (hi : q.Inv size) {signal : Handle}
    (he : (machine size).enabled q (.runAsyncAndWait signal)) :
    ((machine size).perform q (.runAsyncAndWait signal)).Inv size := by
  obtain ⟨hrun, hbusy, hfresh⟩ := he
  obtain ⟨c, hc⟩ := Option.isSome_iff_exists.mp hrun
  have hp := Phase.eq_running hc
  have hen : Sched.machine.enabled q.sched (.makeSignal signal) := ⟨hrun, hfresh⟩
  rw [perform_runAsyncAndWait hc]
  have hi₁ := hi.sched_step hen (fun d f hf => ?_) (by simp [Action.names])
  · rw [Sched.perform_makeSignal hp] at hi₁
    have hp₁ : (q.sched.makeSignal c signal).phase = .running c :=
      (Sched.makeSignal_phase ..).trans hp
    have hown := Sched.makeSignal_owner (h := signal) (Sched.Inside.of_running hi.sched hp).live
    have hsubmit : q.submits (some c) = none := by
      simp only [busy, hc, Bool.or_eq_false_iff, Option.isSome_eq_false_iff,
        Option.isNone_iff_eq_none] at hbusy
      exact hbusy.1.1
    have hvalid : signal.isValid = true := by simp [Handle.isValid, hfresh.1]
    have hi₂ := hi₁.setWait (c := c) (some ⟨q.nextTask, signal, .submitting⟩) fun f hf => ?_
    · refine hi₂.runAsync hsubmit (fun _ => ?_) fun d f hf _ hsignal => ?_
      · exact (Sched.Held.of_makeSignal hi.sched hp hfresh).issued
          (Sched.accounted_of_reachable hi₁.sched)
      · have hf' : Function.update q.waits c (some ⟨q.nextTask, signal, .submitting⟩) d = some f := hf
        rcases Table.insert_some hf' with ⟨_, rfl⟩ | ⟨_, hold⟩
        · rfl
        · -- The signals of the other calls are not new.
          have hissued := (hi.waits d f hold).held.issued (Sched.accounted_of_reachable hi.sched)
          exact absurd (hsignal ▸ hissued) hfresh.2
    · cases hf
      refine ⟨Sched.Inside.of_running hi₁.sched hp₁, Sched.Held.of_makeSignal hi.sched hp hfresh,
        fun _ msg hm hsignal => ?_, fun hnot => absurd hown hnot, by simp⟩
      have hissued := hi.issued msg hm
      rw [show msg.signal = signal from hsignal] at hissued
      exact absurd (hissued hvalid) hfresh.2
  · exact (hi.waits d f hf).inside.step hi.sched hen (idle_of_busy hbusy hf)

/-- `bio_run_async_and_wait` waits or returns. -/
theorem Inv.waitAction (hi : q.Inv size) (he : (machine size).enabled q .waitStep) :
    ((machine size).perform q .waitStep).Inv size := by
  obtain ⟨c, f, hp, hcount, hf⟩ := waiting_of_enabled he
  rw [perform_waitStep (by rw [hp]; rfl) hf]
  have hok := hi.waits c f hf
  unfold AsyncState.waitStep
  split
  · -- The call waits for its signal.
    have hen := Sched.wait_enabled hp [f.signal] true
    have hi₁ := hi.sched_step hen (fun d g hg => ?_) nofun
    · rw [Sched.perform_wait hp] at hi₁
      refine hi₁.setWait (c := c) (some { f with stage := .waiting }) fun g hg => ?_
      obtain ⟨hinside, hheld, hcarried, hraised, _⟩ := hi₁.waits c f hf
      cases hg
      refine ⟨hinside, hheld, hcarried, hraised, fun _ => ?_⟩
      show (q.sched.waitForSignals c [f.signal] true).Awaiting c [f.signal]
      rw [Sched.waitForSignals_one]
      refine Sched.awaiting_of_wait hi.sched hp hcount (List.mem_singleton.mpr rfl) hok.held.made ?_
      intro h hh _
      rw [List.mem_singleton.mp hh]
      exact hok.held.issued (Sched.accounted_of_reachable hi.sched)
    · by_cases hd : d = c
      · rw [hd, Sched.perform_wait hp]
        exact Sched.Inside.wait hi.sched hp _ _
      · refine (hi.waits d g hg).inside.step hi.sched hen ?_
        rw [hp]
        exact fun heq => hd (Phase.running.inj heq).symm
  · -- It returns.
    exact hi.setWait none nofun

theorem Inv.setUpdating (hi : q.Inv size) (i : Option Nat) : Inv size { q with updating := i } := by
  refine ⟨hi.sched, hi.pool, fun k f hf => ?_, hi.distinct, hi.known, hi.issued, fun c f hf => ?_⟩
  · obtain ⟨hrun, hknown, hnew, hchosen⟩ := hi.submits k f hf
    exact ⟨hrun, hknown, hnew, hchosen⟩
  · exact (hi.waits c f hf).pool_step rfl (fun _ hm => hm) fun _ ht => ht

theorem Inv.updateAction (hi : q.Inv size) (he : (machine size).enabled q .updateStep) :
    ((machine size).perform q .updateStep).Inv size := by
  obtain ⟨hp, hsome⟩ := he
  obtain ⟨i, hu⟩ := Option.isSome_iff_exists.mp hsome
  rw [perform_updateStep hu]
  unfold AsyncState.updateStep
  split
  · next hn =>
    split
    · next q' hd => exact hi.drain (by rw [hp]; nofun) hn hd
    · exact hi.setUpdating _
  · exact hi.setUpdating _

theorem Inv.step (hi : q.Inv size) {a : AsyncAction} (he : (machine size).enabled q a) :
    ((machine size).perform q a).Inv size := by
  cases a with
  | sched a => exact hi.schedAction he
  | runAsync signal => exact hi.runAsyncAction he
  | runAsyncAndWait signal => exact hi.runAsyncAndWaitAction he
  | submitStep => exact hi.submitAction he
  | waitStep => exact hi.waitAction he
  | update => exact hi.setUpdating (some 0)
  | updateStep => exact hi.updateAction he
  | worker i => exact hi.workerAction he

theorem inv_of_reachable (h : (machine size).Reachable q) : q.Inv size := by
  refine Machine.invariant (P := Inv size) ?_ (fun _ _ _ hi he => hi.step he) h
  rintro q rfl
  have hnone : ∀ msg, ¬init.IsMessage msg := by
    rintro msg (⟨k, f, hf, _⟩ | ⟨i, hmem⟩)
    · exact nomatch (show none = some f from hf)
    · exact nomatch (show msg ∈ [] from hmem)
  refine ⟨.init rfl, ThreadPool.inv_init size, fun k f hf => ?_, fun k k' f f' hf => ?_,
    fun t ht => ?_, fun msg hm => absurd hm (hnone msg), fun c f hf => ?_⟩
  · exact nomatch (show none = some f from hf)
  · exact nomatch (show none = some f from hf)
  · exact nomatch (show t ∈ [] from ht)
  · exact nomatch (show none = some f from hf)

/-! ## The messages of the pool -/

/-- What a step of the main thread can do to the messages. -/
inductive MsgStep (size : PoolSize) (q q' : AsyncState) : Prop
  | same : q'.pool = q.pool → q'.submits = q.submits → MsgStep size q q'
  | call (k : Option Handle) (f : SubmitFrame) :
      f.msg.Asks → q'.pool = q.pool → q'.submits = Function.update q.submits k (some f) →
      MsgStep size q q'
  | goOn (k : Option Handle) (f g : SubmitFrame) :
      q.submits k = some f → g.msg = f.msg → q'.pool = q.pool →
      q'.submits = Function.update q.submits k (some g) → MsgStep size q q'
  | submit (i : Nat) (k : Option Handle) (f : SubmitFrame) :
      i < size.numThreads → q.submits k = some f → q'.pool = q.pool.submit i f.msg →
      q'.submits = Function.update q.submits k none → MsgStep size q q'
  | consume (i : Nat) (msg : WorkerMsg) :
      q.pool.consume i = some (msg, q'.pool) → q'.submits = q.submits → MsgStep size q q'

theorem msgStep_drain {i : Nat} (h : q.drain i = some q') : MsgStep size q q' := by
  obtain ⟨msg, pool, hc, rfl⟩ := drain_cases h
  exact .consume i msg hc rfl

theorem msgStep_submitStep (hi : q.Inv size) {k : Option Handle} {f : SubmitFrame}
    (hf : q.submits k = some f) : MsgStep size q (q.submitStep size k f) := by
  unfold AsyncState.submitStep
  split
  · split
    · next hd => exact msgStep_drain hd
    · refine .goOn k f _ hf ?_ rfl rfl
      unfold SubmitFrame.compare
      split <;> rfl
  · next hend =>
    obtain ⟨i, hn, hchosen⟩ := hi.has_worker hf hend
    rw [hchosen]
    dsimp only
    split
    · exact .submit i k f hn hf rfl rfl
    · exact .goOn k f (.start f.msg) hf rfl rfl rfl

theorem msgStep_updateStep (i : Nat) : MsgStep size q (q.updateStep size i) := by
  unfold AsyncState.updateStep
  split
  · split
    · next hd => exact msgStep_drain hd
    · exact .same rfl rfl
  · exact .same rfl rfl

theorem msgStep_of_step (hi : q.Inv size) {a : AsyncAction} (he : (machine size).enabled q a)
    (hmain : ∀ i, a ≠ .worker i) : MsgStep size q ((machine size).perform q a) := by
  cases a with
  | sched a => exact .same rfl rfl
  | update => exact .same rfl rfl
  | runAsync signal => exact .call _ _ ⟨rfl, rfl⟩ rfl rfl
  | runAsyncAndWait signal =>
    obtain ⟨c, hc⟩ := Option.isSome_iff_exists.mp he.1
    rw [perform_runAsyncAndWait hc]
    exact .call _ _ ⟨rfl, rfl⟩ rfl rfl
  | submitStep =>
    obtain ⟨f, hf⟩ := Option.isSome_iff_exists.mp he.2
    rw [perform_submitStep hf]
    exact msgStep_submitStep hi hf
  | waitStep =>
    obtain ⟨c, f, hp, _, hf⟩ := waiting_of_enabled he
    rw [perform_waitStep (by rw [hp]; rfl) hf]
    unfold AsyncState.waitStep
    split <;> exact .same rfl rfl
  | updateStep =>
    obtain ⟨i, hu⟩ := Option.isSome_iff_exists.mp he.2
    rw [perform_updateStep hu]
    exact msgStep_updateStep i
  | worker i => exact absurd rfl (hmain i)

/-- A message in the pool was there before, or it was being submitted. -/
theorem MsgStep.held {j : Nat} {msg : WorkerMsg} (h : MsgStep size q q')
    (hmem : msg ∈ (q'.pool.workers j).held) :
    msg ∈ (q.pool.workers j).held ∨
      (j < size.numThreads ∧ ∃ k f, q.submits k = some f ∧ f.msg = msg) := by
  cases h with
  | same hpool _ => exact .inl (hpool ▸ hmem)
  | call _ _ _ hpool _ => exact .inl (hpool ▸ hmem)
  | goOn _ _ _ _ _ hpool _ => exact .inl (hpool ▸ hmem)
  | consume i msg hc _ => exact .inl ((ThreadPool.consume_frame hc).2.1 j hmem)
  | submit i k f hn hf hpool _ =>
    rw [hpool, ThreadPool.workers_submit] at hmem
    by_cases hj : j = i
    · subst hj
      simp only [Function.update_self, Worker.held, List.mem_append, List.mem_singleton] at hmem ⊢
      rcases hmem with ((hreq | rfl) | hhands) | hresponse
      · exact .inl (.inl (.inl hreq))
      · exact .inr ⟨hn, k, f, hf, rfl⟩
      · exact .inl (.inl (.inr hhands))
      · exact .inl (.inr hresponse)
    · rw [Function.update_of_ne hj] at hmem
      exact .inl hmem

/-- The main thread only takes responses out, and it does so in order. -/
theorem MsgStep.responses (h : MsgStep size q q') (j : Nat) :
    (q'.pool.workers j).pc = (q.pool.workers j).pc ∧
      (q'.pool.workers j).responseQueue <:+ (q.pool.workers j).responseQueue := by
  cases h with
  | same hpool _ => exact ⟨by rw [hpool], by rw [hpool]⟩
  | call _ _ _ hpool _ => exact ⟨by rw [hpool], by rw [hpool]⟩
  | goOn _ _ _ _ _ hpool _ => exact ⟨by rw [hpool], by rw [hpool]⟩
  | consume i msg hc _ => exact ThreadPool.responses_consume hc j
  | submit i k f hn hf hpool _ =>
    rw [hpool, ThreadPool.workers_submit, Function.update_apply]
    split
    · next heq =>
      subst heq
      exact ⟨rfl, List.suffix_refl _⟩
    · exact ⟨rfl, List.suffix_refl _⟩

/-- A message that is being submitted was so before, or its call begins. -/
theorem MsgStep.submits {k : Option Handle} {f : SubmitFrame} (h : MsgStep size q q')
    (hf : q'.submits k = some f) :
    f.msg.Asks ∨ ∃ k' f', q.submits k' = some f' ∧ f'.msg = f.msg := by
  have hkept : q.submits k = some f →
      f.msg.Asks ∨ ∃ k' f', q.submits k' = some f' ∧ f'.msg = f.msg :=
    fun hf => .inr ⟨k, f, hf, rfl⟩
  cases h with
  | same _ hsubmits => exact hkept (hsubmits ▸ hf)
  | consume _ _ _ hsubmits => exact hkept (hsubmits ▸ hf)
  | call k' g hasks _ hsubmits =>
    rw [hsubmits] at hf
    rcases Table.insert_some hf with ⟨_, rfl⟩ | ⟨_, hold⟩
    · exact .inl hasks
    · exact hkept hold
  | goOn k' f' g hf' hmsg _ hsubmits =>
    rw [hsubmits] at hf
    rcases Table.insert_some hf with ⟨_, rfl⟩ | ⟨_, hold⟩
    · exact .inr ⟨k', f', hf', hmsg.symm⟩
    · exact hkept hold
  | submit _ _ _ _ _ _ hsubmits =>
    rw [hsubmits] at hf
    exact hkept (Table.erase_some hf).2

/-- All messages that the workers have or that are being submitted ask for a notification, and only
the threads of the pool have any. -/
structure Served (size : PoolSize) (q : AsyncState) : Prop where
  held : ∀ i, ∀ msg ∈ (q.pool.workers i).held, i < size.numThreads ∧ msg.Asks
  submits : ∀ k f, q.submits k = some f → f.msg.Asks

theorem Served.step (h : q.Served size) (hstep : MsgStep size q q') : q'.Served size := by
  constructor
  · intro i msg hmem
    rcases hstep.held hmem with hold | ⟨hn, k, f, hf, rfl⟩
    · exact h.held i msg hold
    · exact ⟨hn, h.submits k f hf⟩
  · intro k f hf
    rcases hstep.submits hf with hasks | ⟨k', f', hf', hmsg⟩
    · exact hasks
    · exact hmsg ▸ h.submits k' f' hf'

theorem Served.worker (h : q.Served size) (i : Nat) :
    Served size { q with pool := q.pool.workerStep i } := by
  refine ⟨fun j msg hmem => h.held j msg ?_, h.submits⟩
  rw [ThreadPool.workers_workerStep, Function.update_apply] at hmem
  split at hmem
  · next heq =>
    subst heq
    exact (q.pool.workers j).held_step.subset hmem
  · exact hmem

theorem served_of_reachable (h : (machine size).Reachable q) : q.Served size := by
  refine Machine.invariant (P := Served size) ?_ (fun q a hr hs he => ?_) h
  · rintro q rfl
    constructor
    · intro i msg hmem
      exact nomatch (show msg ∈ [] from hmem)
    · intro k f hf
      exact nomatch (show none = some f from hf)
  · by_cases hworker : ∃ i, a = .worker i
    · obtain ⟨i, rfl⟩ := hworker
      exact hs.worker i
    · exact hs.step (msgStep_of_step (inv_of_reachable hr) he fun i hi => hworker ⟨i, hi⟩)

theorem load_le_running (h : (machine size).Reachable q) {i : Nat} (hn : i < size.numThreads) :
    ((q.pool.workers i).load.toNat : Int) ≤ q.pool.numRunningAsyncJobs := by
  rw [(inv_of_reachable h).pool.total]
  exact Finset.single_le_sum (f := fun i => ((q.pool.workers i).load.toNat : Int))
    (fun _ _ => Int.natCast_nonneg _) (Finset.mem_range.mpr hn)

/-- Without running jobs the response queues are empty. -/
theorem responses_of_idle (h : (machine size).Reachable q)
    (hidle : q.pool.numRunningAsyncJobs ≤ 0) (i : Nat) :
    (q.pool.workers i).responseQueue = [] := by
  have hi := (inv_of_reachable h).pool
  have hserved := served_of_reachable h
  refine List.eq_nil_iff_forall_not_mem.mpr fun msg hmem => ?_
  have hheld : msg ∈ (q.pool.workers i).held := List.mem_append_right _ hmem
  obtain ⟨hn, hrun, _⟩ := hserved.held i msg hheld
  have hload : 0 < (q.pool.workers i).load.toNat := by
    rw [(hi.workers i).load, length_runs]
    exact List.countP_pos_iff.mpr ⟨msg, hheld, by simpa using hrun⟩
  have hle := load_le_running h hn
  omega

/-! ## The contract -/

/-- The loads and the number of running jobs are exact. A task is called at most once, by the worker
that it was queued to. Its signal is raised by the main thread at most once, after the function has
returned. When a coroutine is about to return from `bio_run_async_and_wait`, its task has
returned. -/
theorem async_jobs_exact (h : (machine size).Reachable q) :
    (∀ i, (q.pool.workers i).load.toNat =
      (q.pool.workers i).held.countP fun msg => msg.type = .run) ∧
    q.pool.numRunningAsyncJobs =
      ∑ i ∈ Finset.range size.numThreads, ((q.pool.workers i).load.toNat : Int) ∧
    (∀ t, q.pool.started.countP (fun e => e.1 = t) ≤ 1) ∧
    (∀ t i, (t, i) ∈ q.pool.started → (t, i) ∈ q.pool.queued) ∧
    (∀ t i j, (t, i) ∈ q.pool.queued → (t, j) ∈ q.pool.queued → i = j) ∧
    (∀ t, q.pool.raised.countP (fun e => e.1 = t) ≤ 1) ∧
    (∀ t i, (t, i) ∈ q.pool.raised → (t, i) ∈ q.pool.finished) ∧
    (∀ c f, q.sched.phase = .running c → q.waits c = some f → f.stage = .waiting →
      ∃ i, (f.task, i) ∈ q.pool.finished) := by
  have hi := inv_of_reachable h
  have hstarted := hi.pool.started_queued
  have hfinished := hi.pool.raised_finished
  refine ⟨fun i => (hi.pool.workers i).load.trans (length_runs _), hi.pool.total,
    hi.pool.at_most_once hstarted, fun t i hmem => hstarted.subset hmem,
    fun t i j => hi.pool.one_worker,
    hi.pool.at_most_once ((hfinished.trans hi.pool.finished_started).trans hstarted),
    fun t i hmem => hfinished.subset hmem, fun c f hp hf hstage => ?_⟩
  have hok := hi.waits c f hf
  obtain ⟨x, hx, _, _, hcheck⟩ :=
    (hok.awaiting hstage).due (Sched.inv_of_reachable hi.sched).1 hp
  rw [List.mem_singleton.mp hx] at hcheck
  have hclosed := (Sched.checkSignal_iff_owner (Sched.accounted_of_reachable hi.sched)
    hok.held.made).mp hcheck
  obtain ⟨⟨t, i⟩, hmem, rfl⟩ := List.mem_map.mp (hok.raised hclosed)
  exact ⟨i, hfinished.subset hmem⟩

/-- The default options: a coroutine runs a task in one of two threads and waits for it. -/
theorem async_jobs_exact_wait :
    let size := PoolSize.ofOptions 0 0 (by decide)
    let q := (machine size).run init [.sched (.spawn false ⟨0, 1⟩), .sched .enterLoop,
      .sched .endPass, .sched .swap, .sched .resume, .runAsyncAndWait ⟨1, 1⟩, .submitStep,
      .submitStep, .submitStep, .waitStep, .worker 0, .worker 0, .sched .endPass, .worker 0,
      .worker 0, .update, .updateStep, .updateStep, .updateStep, .updateStep, .sched .swap,
      .sched .resume]
    q.sched.phase = .running ⟨0, 1⟩ ∧ q.waits ⟨0, 1⟩ = some ⟨0, ⟨1, 1⟩, .waiting⟩ ∧
      ∃ i, (0, i) ∈ q.pool.finished := by
  intro size q
  have hr : (machine size).Reachable q := Machine.Reachable.run (.init rfl) (by decide +kernel)
  have hp : q.sched.phase = .running ⟨0, 1⟩ := by decide +kernel
  have hw : q.waits ⟨0, 1⟩ = some ⟨0, ⟨1, 1⟩, .waiting⟩ := by decide +kernel
  obtain ⟨_, _, _, _, _, _, _, hreturn⟩ := async_jobs_exact hr
  exact ⟨hp, hw, hreturn ⟨0, 1⟩ _ hp hw rfl⟩

end AsyncState

end Bio
