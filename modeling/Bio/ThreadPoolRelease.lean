import Bio.ThreadPoolShutdownInvariant

/-!
# The messages at the end of the thread pool

The last drain of a response queue does not wait, and the worker may still be running. A run is good if
each last drain finds its worker at its end (`Drained`). Then nothing is left behind (`Clean`). In any
other run something is, from that drain on (`Doomed`).

Result: `messages_released_iff`.
-/

namespace Bio

namespace Shutdown

variable {size : PoolSize} {s : Shutdown}

/-- Every message that was allocated for a task has been freed once, and no message was left in a
response queue that was destroyed. `bio_thread_drain_responses` frees a message when it raises its
signal. -/
def AllReleased (tasks : Nat) (s : Shutdown) : Prop :=
  (∀ t < tasks, (s.pool.raised ++ s.freed).countP (fun e => e.1 = t) = 1) ∧ ∀ j, s.destroyed j = []

/-- The last drain ends only when the worker has exited. -/
def Drained (s : Shutdown) (a : ShutdownAction) : Prop :=
  a = .main → s.pc = .lastDraining → s.worker.responseQueue = [] → s.worker.pc = .exited

/-- Messages are left behind, or they will be: nobody drains the response queue any more. -/
def Doomed (s : Shutdown) : Prop :=
  (s.pc = .joining ∧ s.worker.held ≠ []) ∨ ∃ j, s.destroyed j ≠ []

/-- No message was left behind, and none will be. -/
def Clean (s : Shutdown) : Prop :=
  (s.pc = .joining → s.worker.held = []) ∧ ∀ j, s.destroyed j = []

/-- What the main thread does to the ghosts before the end of a worker, and where it begins to wait
for that end. -/
theorem mainStep_cases (size : PoolSize) (hpc : s.pc ≠ .joining) :
    (s.mainStep size).destroyed = s.destroyed ∧ (s.mainStep size).pool.queued = s.pool.queued ∧
      ((s.mainStep size).pc = .joining →
        s.pc = .lastDraining ∧ s.worker.responseQueue = [] ∧
          s.mainStep size = { s with pc := .joining }) := by
  have hconsume : ∀ t, s.consume = some t → t.destroyed = s.destroyed ∧
      t.pool.queued = s.pool.queued ∧ t.pc = s.pc := by
    intro t ht
    obtain ⟨msg, rest, _, rfl⟩ := consume_cases ht
    exact ⟨rfl, rfl, rfl⟩
  unfold mainStep
  cases hp : s.pc with
  | sending =>
    dsimp only
    split <;> exact ⟨rfl, rfl, nofun⟩
  | awaiting =>
    dsimp only
    split
    · next ht => exact ⟨(hconsume _ ht).1, (hconsume _ ht).2.1, nofun⟩
    · exact ⟨rfl, rfl, fun h => absurd h hpc⟩
  | draining =>
    dsimp only
    split
    · next ht =>
      obtain ⟨hdestroyed, hqueued, hsame⟩ := hconsume _ ht
      exact ⟨hdestroyed, hqueued, fun h => absurd (hsame.symm.trans h) hpc⟩
    · exact ⟨rfl, rfl, nofun⟩
  | lastDraining =>
    dsimp only
    split
    · next ht =>
      obtain ⟨hdestroyed, hqueued, hsame⟩ := hconsume _ ht
      exact ⟨hdestroyed, hqueued, fun h => absurd (hsame.symm.trans h) hpc⟩
    · next hnone => exact ⟨rfl, rfl, fun _ => ⟨rfl, consume_none hnone, rfl⟩⟩
  | joining => exact absurd hp hpc
  | returned => exact ⟨rfl, rfl, fun h => absurd h hpc⟩

theorem mainStep_joining (hpc : s.pc = .joining) : s.mainStep size = s.destroy size := by
  rw [mainStep, hpc]

theorem exited_of_joining (hready : s.mainReady = true) (hpc : s.pc = .joining) :
    s.worker.pc = .exited := by
  simpa [mainReady, hpc] using hready

theorem pc_destroy : (s.destroy size).pc ≠ .joining := by
  unfold Shutdown.destroy
  dsimp only
  split <;> nofun

/-- A worker keeps what it has. -/
theorem held_workerStep (s : Shutdown) (a : Nat) :
    (worker { s with pool := s.pool.workerStep a }).held.Perm s.worker.held := by
  show (Function.update s.pool.workers a (s.pool.workers a).step s.i).held.Perm _
  rw [Function.update_apply]
  split
  · next heq =>
    subst heq
    exact s.worker.held_step
  · exact List.Perm.refl _

theorem queued_perform (s : Shutdown) (a : ShutdownAction) :
    ((machine size).perform s a).pool.queued = s.pool.queued := by
  cases a with
  | worker j => rfl
  | main =>
    show (s.mainStep size).pool.queued = s.pool.queued
    by_cases hpc : s.pc = .joining
    · rw [mainStep_joining hpc]
      rfl
    · exact (mainStep_cases size hpc).2.1

theorem Doomed.step (hd : s.Doomed) (h : s.Inv size) {a : ShutdownAction}
    (he : (machine size).enabled s a) : ((machine size).perform s a).Doomed := by
  cases a with
  | worker j =>
    refine hd.imp_left fun ⟨hpc, hheld⟩ => ⟨hpc, fun hnil => hheld ?_⟩
    exact (hnil ▸ s.held_workerStep j).nil_eq.symm
  | main =>
    show (s.mainStep size).Doomed
    by_cases hpc : s.pc = .joining
    · rw [mainStep_joining hpc]
      rcases hd with ⟨_, hheld⟩ | ⟨j, hj⟩
      · refine .inr ⟨s.i, ?_⟩
        show Function.update s.destroyed s.i s.worker.responseQueue s.i ≠ []
        rw [Function.update_self,
          ← (held_of_exited (h.terminating (by rw [hpc]; rfl)) (exited_of_joining he hpc)).2]
        exact hheld
      · have hne : j ≠ s.i := fun heq => hj (h.after j (Nat.le_of_eq heq.symm))
        exact .inr ⟨j, fun hnil => hj ((Function.update_of_ne hne _ _).symm.trans hnil)⟩
    · obtain ⟨hdestroyed, _, _⟩ := mainStep_cases size hpc
      obtain ⟨j, hj⟩ := hd.resolve_left fun hleft => hpc hleft.1
      exact .inr ⟨j, hdestroyed ▸ hj⟩

/-- When the last drain ends too early, the termination message is left behind. -/
theorem doomed_of_not_drained (h : s.Inv size) {a : ShutdownAction} (hnot : ¬s.Drained a) :
    ((machine size).perform s a).Doomed := by
  simp only [Drained, Classical.not_imp] at hnot
  obtain ⟨rfl, hpc, hresponse, hrunning⟩ := hnot
  have hnone : s.consume = none := by rw [consume, hresponse]
  have hstep : s.mainStep size = { s with pc := .joining } := by
    unfold mainStep
    rw [hpc]
    dsimp only
    rw [hnone]
  show (s.mainStep size).Doomed
  rw [hstep]
  refine .inl ⟨rfl, ?_⟩
  show s.worker.held ≠ []
  rw [Worker.held]
  cases h.terminating (by rw [hpc]; rfl) with
  | queued l _ _ hqueue _ => simp [hqueue]
  | taken _ htaken _ _ => simp [htaken, WorkerPc.hands]
  | answering _ hanswering _ _ => simp [hanswering, WorkerPc.hands]
  | exited _ hexited _ _ => exact absurd hexited hrunning

theorem Clean.step (hc : s.Clean) (h : s.Inv size) {a : ShutdownAction}
    (he : (machine size).enabled s a) (hdrained : s.Drained a) :
    ((machine size).perform s a).Clean := by
  cases a with
  | worker j =>
    refine ⟨fun hpc => ?_, hc.2⟩
    exact List.Perm.eq_nil (hc.1 hpc ▸ s.held_workerStep j)
  | main =>
    show (s.mainStep size).Clean
    by_cases hpc : s.pc = .joining
    · rw [mainStep_joining hpc]
      refine ⟨fun hjoining => absurd hjoining pc_destroy, fun j => ?_⟩
      have hheld :=
        (held_of_exited (h.terminating (by rw [hpc]; rfl)) (exited_of_joining he hpc)).2
      show Function.update s.destroyed s.i s.worker.responseQueue j = []
      rw [Function.update_apply, ← hheld, hc.1 hpc]
      split
      · rfl
      · exact hc.2 j
    · obtain ⟨hdestroyed, _, hjoins⟩ := mainStep_cases size hpc
      refine ⟨fun hjoining => ?_, hdestroyed ▸ hc.2⟩
      obtain ⟨hlast, hresponse, hstep⟩ := hjoins hjoining
      have hheld := (held_of_exited (h.terminating (by rw [hlast]; rfl))
        (hdrained rfl hlast hresponse)).2
      rw [hstep]
      exact hheld.trans hresponse

variable {as : List ShutdownAction}

theorem inv_run (h : s.Inv size) (hl : (machine size).Legal s as) :
    ((machine size).run s as).Inv size :=
  Machine.run_invariant (fun _ _ h he => h.step he) h hl

theorem queued_run (hl : (machine size).Legal s as) :
    ((machine size).run s as).pool.queued = s.pool.queued :=
  Machine.run_invariant (P := fun t : Shutdown => t.pool.queued = s.pool.queued)
    (fun t a ht _ => (t.queued_perform a).trans ht) rfl hl

/-- A run in which a last drain ends too early leaves something behind. -/
theorem legal_or_doomed (h : s.Inv size) (hl : (machine size).Legal s as) :
    ((machine size).restrict Drained).Legal s as ∨ ((machine size).run s as).Doomed := by
  induction as generalizing s with
  | nil => exact .inl trivial
  | cons a as ih =>
    by_cases hdrained : s.Drained a
    · exact (ih (h.step hl.1) hl.2).imp_left fun hrest => ⟨⟨hl.1, hdrained⟩, hrest⟩
    · refine .inr (Machine.run_invariant (P := fun t : Shutdown => t.Doomed ∧ t.Inv size)
        (fun t b ht he => ⟨ht.1.step ht.2 he, ht.2.step he⟩) ?_ hl.2).1
      exact ⟨doomed_of_not_drained h hdrained, h.step hl.1⟩

theorem clean_run (hc : s.Clean) (h : s.Inv size)
    (hl : ((machine size).restrict Drained).Legal s as) : ((machine size).run s as).Clean := by
  have hrun := Machine.run_invariant (M := (machine size).restrict Drained)
    (P := fun t : Shutdown => t.Clean ∧ t.Inv size)
    (fun t b ht he => ⟨ht.1.step ht.2 he.1 he.2, ht.2.step he.1⟩) ⟨hc, h⟩ hl
  rw [Machine.run_restrict] at hrun
  exact hrun.1

/-- What was freed had been queued, and not more often. -/
theorem Inv.freed_queued (h : s.Inv size) : (s.pool.raised ++ s.freed).Subperm s.pool.queued := by
  refine List.subperm_ext_iff.mpr fun ⟨t, j⟩ _ => ?_
  rw [h.account t j]
  omega

/-- In the end everything that was queued has been freed, unless something was left behind. -/
theorem Inv.queued_freed (h : s.Inv size) (hc : s.Clean) (hpc : s.pc = .returned) :
    s.pool.queued.Perm (s.pool.raised ++ s.freed) := by
  have hi : s.i = size.numThreads := (h.index.resolve_right fun hr => hr.1 hpc).2
  refine List.perm_iff_count.mpr fun ⟨t, j⟩ => ?_
  have hheld : (s.pool.workers j).held = [] := by
    rcases Nat.lt_or_ge j s.i with hj | hj
    · exact (h.before j hj).2
    · exact h.absent j (hi ▸ hj)
  rw [h.account t j, hheld, hc.2 j, List.append_nil, runs_nil, List.count_nil, Nat.zero_add]

theorem countP_fst (l : List (Nat × Nat)) (t : Nat) :
    l.countP (fun e => e.1 = t) = (l.map Prod.fst).count t := by
  rw [List.count, List.countP_map]
  exact List.countP_congr fun e _ => by simp

/-- `bio_thread_cleanup` frees all messages, and leaves none behind, exactly if no call of
`bio_run_async` is still under way and each last drain finds its worker at its end. -/
theorem messages_released_iff {q : AsyncState} (hq : (AsyncState.machine size).Reachable q)
    (hl : (machine size).Legal (start q.pool) as)
    (hreturned : ((machine size).run (start q.pool) as).pc = .returned) :
    AllReleased q.nextTask ((machine size).run (start q.pool) as) ↔
      (∀ k, q.submits k = none) ∧ ((machine size).restrict Drained).Legal (start q.pool) as := by
  have hstart := inv_start hq
  have hinv := inv_run hstart hl
  have hqueued : ((machine size).run (start q.pool) as).pool.queued = q.pool.queued := queued_run hl
  constructor
  · rintro ⟨hfreed, hleft⟩
    refine ⟨fun k => Option.eq_none_iff_forall_ne_some.mpr fun f hf => ?_,
      (legal_or_doomed hstart hl).resolve_right ?_⟩
    · -- The message of a call that is under way was never queued.
      obtain ⟨_, hknown, hnew, _⟩ := (AsyncState.inv_of_reachable hq).submits k f hf
      have hle := hinv.freed_queued.countP_le fun e => e.1 = f.msg.task
      rw [hfreed _ hknown, hqueued, countP_fst, List.count_eq_zero.mpr hnew] at hle
      exact absurd hle (Nat.not_succ_le_zero 0)
    · rintro (⟨hjoining, _⟩ | ⟨j, hj⟩)
      · exact nomatch hreturned.symm.trans hjoining
      · exact hj (hleft j)
  · rintro ⟨hsubmits, hlegal⟩
    have hclean := clean_run (s := start q.pool) ⟨nofun, fun _ => rfl⟩ hstart hlegal
    refine ⟨fun t ht => ?_, hclean.2⟩
    rw [← (hinv.queued_freed hclean hreturned).countP_eq, hqueued, countP_fst]
    refine List.count_eq_one_of_mem (hqueued ▸ hinv.once) ?_
    refine (AsyncState.allocated_of_reachable hq t ht).resolve_right ?_
    rintro ⟨k, f, hf, _⟩
    exact nomatch (hsubmits k).symm.trans hf

instance (s : Shutdown) (a : ShutdownAction) : Decidable (s.Drained a) :=
  inferInstanceAs (Decidable (a = .main → s.pc = .lastDraining → s.worker.responseQueue = [] →
    s.worker.pc = .exited))

instance (s : Shutdown) (a : ShutdownAction) :
    Decidable (((machine size).restrict Drained).enabled s a) :=
  inferInstanceAs (Decidable ((machine size).enabled s a ∧ s.Drained a))

/-- One thread and one job: the worker has handed back the job and the termination message before the
last drain begins. -/
theorem messages_released_drained :
    let size := PoolSize.ofOptions 1 2 (by decide)
    let q := (AsyncState.machine size).run AsyncState.init
      [.runAsync Handle.invalid, .submitStep, .submitStep]
    let as : List ShutdownAction := .main :: List.replicate 8 (.worker 0) ++ List.replicate 4 .main
    AllReleased q.nextTask ((machine size).run (start q.pool) as) := by
  intro size q as
  have hq : (AsyncState.machine size).Reachable q := Machine.Reachable.run (.init rfl) (by decide +kernel)
  refine (messages_released_iff hq (by decide +kernel) (by decide +kernel)).mpr
    ⟨fun k => ?_, by decide +kernel⟩
  cases k <;> rfl

/-- The worker has not come to the job when the last drain finds its response queue empty. The message
of the job is never freed. -/
theorem message_left_behind :
    let size := PoolSize.ofOptions 1 2 (by decide)
    let q := (AsyncState.machine size).run AsyncState.init
      [.runAsync Handle.invalid, .submitStep, .submitStep]
    let as : List ShutdownAction := [.main, .main] ++ List.replicate 8 (.worker 0) ++ [.main]
    let s := (machine size).run (start q.pool) as
    (AsyncState.machine size).Reachable q ∧ q.sched.phase = .outside ∧ q.nextTask = 1 ∧
      (machine size).Legal (start q.pool) as ∧ s.pc = .returned ∧
      s.destroyed 0 = [⟨.run, true, 0, Handle.invalid⟩, terminateMsg] ∧
      s.pool.raised ++ s.freed = [] ∧ ¬AllReleased q.nextTask s := by
  intro size q as s
  have hdestroyed : s.destroyed 0 = [⟨.run, true, 0, Handle.invalid⟩, terminateMsg] := by decide +kernel
  refine ⟨Machine.Reachable.run (.init rfl) (by decide +kernel), by decide +kernel, by decide +kernel,
    by decide +kernel, by decide +kernel, hdestroyed, by decide +kernel, fun h => ?_⟩
  exact List.cons_ne_nil _ _ (hdestroyed.symm.trans (h.2 0))

end Shutdown

end Bio
