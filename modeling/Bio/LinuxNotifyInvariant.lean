import Bio.LinuxNotify

/-!
# No notification is lost while the counters can be compared

* `LinuxState.async_of_reachable`: the pool goes through the runs of `AsyncState`.
* `LinuxState.Inv`: after the second `bio_thread_update` has passed a worker, a response of it that
  was announced came with an increment that `ack_counter` does not contain yet. So a wait is
  submitted only without announced responses, and the wake of each later one selects a waiter.

Results: `notification_not_lost`, `notification_lost`.
-/

namespace Bio

/-! ## The invariant -/

/-- The last argument of `bio_platform_update`, where it is still of use. -/
def PollStage.notifiable : PollStage → Option Bool
  | .loading _ notifiable | .preparing _ notifiable | .submitting _ notifiable
  | .blocked _ notifiable => some notifiable
  | _ => none

/-- Between the two calls of `bio_thread_update`, before the counter is read for the last time. -/
def PollStage.inPlatform : PollStage → Bool
  | .start | .first | .again | .second | .swapping => false
  | _ => true

namespace LinuxState

variable {size : PoolSize} {s : LinuxState} {i : Nat}

/-- The responses of the worker whose increment has happened. -/
def counted (s : LinuxState) (i : Nat) : List WorkerMsg :=
  (s.async.pool.workers i).announced (s.incremented i)

/-- Since the load that `ack_counter` comes from, `bio_thread_update` has emptied the queue of the
worker. -/
def Drained (s : LinuxState) (i : Nat) : Prop :=
  match s.stage with
  | .again => False
  | .second => ∃ j, s.async.updating = some j ∧ i < j
  | _ => True

/-- The invariant. -/
structure Inv (s : LinuxState) : Prop where
  counter : s.notificationCounter = BitVec.ofNat 32 s.sent
  ack : s.ackCounter = BitVec.ofNat 32 s.acked
  le : s.acked ≤ s.sent
  incremented : ∀ i, s.incremented i = true → (s.async.pool.workers i).pc = .notifying
  polling : s.stage ≠ .start → s.async.sched.phase = .polling
  updating : s.async.updating.isSome = true → s.stage = .first ∨ s.stage = .second
  seen : ∀ i, s.Drained i → s.counted i ≠ [] → s.acked < s.sent
  loaded : ∀ c n, s.stage = .cancelled c n → c = BitVec.ofNat 32 n ∧ n ≤ s.sent
  idle : s.stage.notifiable = some false → s.async.pool.numRunningAsyncJobs ≤ 0
  wait : ∀ timed notifiable, s.stage = .blocked timed notifiable → s.completions = 0 →
    (notifiable = true → 0 < s.waiters) ∧ ∀ i, (s.async.pool.workers i).announced false = []

/-! ## The runs of the pool -/

theorem async_platformStep (s : LinuxState) : s.platformStep.async = s.async := by
  have hsubmit : ∀ b, (s.submitWait b).async = s.async := by
    intro b
    unfold submitWait
    split
    · split <;> rfl
    · rfl
  unfold LinuxState.platformStep
  split
  · rfl
  · split <;> rfl
  · rfl
  · rfl
  · exact hsubmit _
  · rfl
  · exact hsubmit _
  · rfl
  · rfl

/-- The platform only takes some runs away. -/
theorem async_of_reachable (h : (machine size).Reachable s) :
    (AsyncState.machine size).Reachable s.async := by
  refine Machine.refinement (f := LinuxState.async) ?_ (fun s a _ he => ?_) h
  · rintro s rfl
    exact .init rfl
  cases a with
  | async a => exact .single he.1
  | futexWake i =>
    obtain ⟨hn, hpc, _⟩ := he
    have hen : (AsyncState.machine size).enabled s.async (.worker i) :=
      ⟨hn, by rw [Worker.canStep, hpc]⟩
    exact .single hen
  | platformUpdate timeUntilNextTimer =>
    have hsame : (s.platformUpdate timeUntilNextTimer).async = s.async := by
      dsimp only [LinuxState.platformUpdate]
      split <;> split <;> rfl
    show Machine.Joined _ s.async (s.platformUpdate timeUntilNextTimer).async
    rw [hsame]
    exact .refl _
  | platformStep =>
    show Machine.Joined _ s.async s.platformStep.async
    rw [async_platformStep]
    exact .refl _
  | skipSubmit =>
    have hsame : s.skipSubmit.async = s.async := by
      unfold LinuxState.skipSubmit
      split <;> rfl
    show Machine.Joined _ s.async s.skipSubmit.async
    rw [hsame]
    exact .refl _
  | increment i => exact .refl _
  | complete => exact .refl _
  | drainIoCompletions => exact .refl _
  | timeOut => exact .refl _

/-! ## Steps of the main thread outside of the platform -/

variable {q : AsyncState} {stage : PollStage}

theorem Inv.keeps (hi : s.Inv) : PollStage.round.Keeps s.async s.stage := ⟨hi.polling, hi.updating⟩

/-- A queue that such a step passes is empty. -/
theorem drained_of_mainStep (h : PollStage.round.MainStep size s.async s.stage q stage)
    (hserved : q.Served size) (hd : Drained { s with async := q, stage := stage } i) :
    s.Drained i ∨ (q.pool.workers i).responseQueue = [] := by
  cases h with
  | user hs _ _ => exact .inl (by simp [Drained, hs])
  | raise _ heq _ _ hupdating =>
    subst heq
    simp only [Drained, hupdating] at hd ⊢
    exact .inl hd
  | swap hs _ _ => exact .inl (by simp [Drained, hs])
  | update hs _ _ _ => exact .inl (by simp [Drained, hs])
  | updateAgain _ heq _ hupdating =>
    subst heq
    simp [Drained, hupdating] at hd
  | drain heq _ _ hupdating =>
    subst heq
    simp only [Drained, hupdating] at hd ⊢
    exact .inl hd
  | next j heq _ hstage hu hupdating hnil =>
    subst heq
    rcases hstage with hs | hs
    · exact .inl (by simp [Drained, hs])
    · rw [PollStage.round_second] at hs
      simp only [Drained, hs, hupdating, hu, Option.some.injEq, exists_eq_left'] at hd ⊢
      by_cases hij : i = j
      · exact .inr (hij ▸ hnil)
      · exact .inl (by omega)
  | last j hu hn _ _ hstage =>
    rcases hstage with ⟨hs, _⟩ | ⟨hs, _⟩
    · exact .inl (by simp [Drained, hs])
    · by_cases hij : i < j
      · exact .inl (by simp [Drained, hs, hu, hij])
      · refine .inr (List.eq_nil_iff_forall_not_mem.mpr fun msg hmem => ?_)
        have hlt := (hserved.held i msg (List.mem_append_right _ hmem)).1
        omega

/-- In `bio_platform_update` such a step is a raise. -/
theorem in_platform_of_mainStep (h : PollStage.round.MainStep size s.async s.stage q stage)
    (hstage : stage.notifiable ≠ none ∨ ∃ c n, stage = .cancelled c n) :
    stage = s.stage ∧ s.stage.isBlocked = false ∧ q.pool = s.async.pool := by
  refine h.in_platform ?_
  rcases hstage with hstage | ⟨c, n, rfl⟩
  · refine ⟨?_, ?_, ?_, ?_, ?_⟩ <;> rintro rfl <;> exact hstage rfl
  · simp

/-- The step lemma for the main thread outside of the platform. -/
theorem Inv.main_step (hi : s.Inv) (hserved : q.Served size)
    (hmsg : AsyncState.MsgStep size s.async q)
    (hstep : PollStage.round.MainStep size s.async s.stage q stage) :
    Inv { s with async := q, stage := stage } := by
  have hcounted : ∀ i, counted { s with async := q, stage := stage } i ≠ [] → s.counted i ≠ [] := by
    intro i
    obtain ⟨hpc, hsuffix⟩ := hmsg.responses i
    exact Worker.announced_suffix hpc hsuffix
  have hincremented : ∀ i, s.incremented i = true → (q.pool.workers i).pc = .notifying := by
    intro i hinc
    rw [(hmsg.responses i).1]
    exact hi.incremented i hinc
  have hkeeps := hstep.keeps hi.keeps
  refine ⟨hi.counter, hi.ack, hi.le, hincremented, hkeeps.polling, hkeeps.updating, fun i hd hc => ?_,
    fun c n heq => ?_, fun heq => ?_, fun timed notifiable heq => ?_⟩
  · -- A queue counts as drained when it was found empty, and nothing in it is announced then.
    rcases drained_of_mainStep hstep hserved hd with hold | hnil
    · exact hi.seen i hold (hcounted i hc)
    · exact absurd (Worker.announced_of_nil hnil) hc
  · obtain ⟨hsame, _⟩ := in_platform_of_mainStep hstep (.inr ⟨c, n, heq⟩)
    exact hi.loaded c n (hsame ▸ heq)
  · have hmid : stage.notifiable ≠ none := by
      rw [show stage.notifiable = some false from heq]
      nofun
    obtain ⟨hsame, _, hpool⟩ := in_platform_of_mainStep hstep (.inl hmid)
    subst hsame
    show q.pool.numRunningAsyncJobs ≤ 0
    rw [hpool]
    exact hi.idle heq
  · have hmid : stage.notifiable ≠ none := by
      rw [show stage = .blocked timed notifiable from heq]
      nofun
    obtain ⟨hsame, hblocked, _⟩ := in_platform_of_mainStep hstep (.inl hmid)
    rw [← hsame, show stage = .blocked timed notifiable from heq] at hblocked
    cases hblocked

/-! ## Steps of the workers -/

/-- The step lemma for a worker outside of `bio_platform_notify`. -/
theorem Inv.worker_step (hi : s.Inv) (hserved : s.async.Served size)
    (hpc : (s.async.pool.workers i).pc ≠ .notifying) :
    ((machine size).perform s (.async (.worker i))).Inv := by
  have hnot : s.incremented i = false := by
    rw [← Bool.not_eq_true]
    exact mt (hi.incremented i) hpc
  have hpc' : ∀ j, s.incremented j = true →
      ((s.async.pool.workerStep i).workers j).pc = .notifying := by
    intro j hinc
    rw [ThreadPool.workers_workerStep, Function.update_of_ne fun heq => ?_]
    · exact hi.incremented j hinc
    · rw [heq, hnot] at hinc
      cases hinc
  refine ⟨hi.counter, hi.ack, hi.le, hpc', hi.polling, hi.updating,
    fun j hd hc => hi.seen j hd ?_, hi.loaded, hi.idle, fun timed notifiable hstage hc => ?_⟩
  · have hsame := AsyncState.announced_workerStep (b := s.incremented j) hserved hpc j fun heq => heq ▸ hnot
    intro hnil
    exact hc (hsame.trans hnil)
  · obtain ⟨hwaiters, hnil⟩ := hi.wait timed notifiable hstage hc
    refine ⟨hwaiters, fun j => ?_⟩
    exact (AsyncState.announced_workerStep hserved hpc j fun _ => rfl).trans (hnil j)

/-- The step lemma for the first statement of `bio_platform_notify`. -/
theorem Inv.increment (hi : s.Inv) (hpc : (s.async.pool.workers i).pc = .notifying) :
    (s.increment i).Inv := by
  refine ⟨?_, hi.ack, Nat.le_succ_of_le hi.le, fun j hinc => ?_, hi.polling, hi.updating,
    fun _ _ _ => Nat.lt_succ_of_le hi.le, fun c n heq => ?_, hi.idle, hi.wait⟩
  · -- The counter is the number of increments, up to the wrap-around.
    show s.notificationCounter + 1#32 = BitVec.ofNat 32 (s.sent + 1)
    rw [hi.counter, BitVec.ofNat_add]
  · by_cases hj : j = i
    · exact hj ▸ hpc
    · have hflag : (s.increment i).incremented j = s.incremented j := Function.update_of_ne hj ..
      exact hi.incremented j (hflag ▸ hinc)
  · obtain ⟨hc, hn⟩ := hi.loaded c n heq
    exact ⟨hc, Nat.le_succ_of_le hn⟩

/-- The step lemma for the second statement of `bio_platform_notify`. -/
theorem Inv.futexWake (hi : s.Inv)
    (hr : (AsyncState.machine size).Reachable (s.futexWake i).async)
    (hpc : (s.async.pool.workers i).pc = .notifying) (hinc : s.incremented i = true) :
    (s.futexWake i).Inv := by
  obtain ⟨hresponse, hpc'⟩ := Worker.responseQueue_step hpc
  have hworker : (s.futexWake i).async.pool.workers i = (s.async.pool.workers i).step :=
    Function.update_self ..
  have hother : ∀ j, j ≠ i → (s.futexWake i).async.pool.workers j = s.async.pool.workers j :=
    fun j hj => Function.update_of_ne hj ..
  -- The worker leaves `bio_platform_notify`: its response was counted and still is.
  have hcounted : ∀ j, (s.futexWake i).counted j = s.counted j := by
    intro j
    by_cases hj : j = i
    · subst hj
      simp [counted, hworker, Worker.announced, hpc', hresponse, hinc]
    · have hflag : (s.futexWake i).incremented j = s.incremented j := Function.update_of_ne hj ..
      rw [counted, counted, hother j hj, hflag]
  refine ⟨hi.counter, hi.ack, hi.le, fun j hj => ?_, hi.polling, hi.updating,
    fun j hd hc => hi.seen j hd (hcounted j ▸ hc), hi.loaded, hi.idle,
    fun timed notifiable hstage hc => ?_⟩
  · have hne : j ≠ i := by
      rintro rfl
      have hflag : (s.futexWake j).incremented j = false := Function.update_self ..
      rw [hflag] at hj
      cases hj
    have hflag : (s.futexWake i).incremented j = s.incremented j := Function.update_of_ne hne ..
    rw [hother j hne]
    exact hi.incremented j (hflag ▸ hj)
  · -- Nothing was selected, so the wait is not for the futex and there are no jobs.
    obtain ⟨hzero, hcompletions⟩ : ¬0 < s.waiters ∧ s.completions = 0 := by
      simp only [LinuxState.futexWake] at hc
      split at hc
      · cases hc
      · next hzero => exact ⟨hzero, hc⟩
    have hstage' : s.stage = .blocked timed notifiable := hstage
    have hnot : notifiable = false := by
      rw [← Bool.not_eq_true]
      exact mt (hi.wait timed notifiable hstage' hcompletions).1 hzero
    subst hnot
    refine ⟨fun h => absurd h Bool.false_ne_true, fun j => Worker.announced_of_nil ?_⟩
    exact AsyncState.responses_of_idle hr (hi.idle (by rw [hstage']; rfl)) j

/-! ## Steps of the platform -/

/-- When the counters can be compared, equal ones mean that there were no increments. -/
theorem Inv.acked_eq (hi : s.Inv) (hd : s.Distinguishable)
    (heq : s.notificationCounter = s.ackCounter) : s.acked = s.sent := by
  rw [hi.counter, hi.ack] at heq
  have hmod : s.sent % 2 ^ 32 = s.acked % 2 ^ 32 := by
    simpa only [BitVec.toNat_ofNat] using congrArg BitVec.toNat heq
  have hdvd : 2 ^ 32 ∣ s.sent - s.acked := (Nat.modEq_iff_dvd' hi.le).mp hmod.symm
  exact le_antisymm hi.le (hd hdvd)

/-- The step lemma for a step from one place to another in `bio_platform_update`, which reads no
counter. -/
theorem Inv.advance (hi : s.Inv) (hplace : s.stage.inPlatform = true)
    {waiters completions : Nat}
    (hloaded : ∀ c n, stage = .cancelled c n → c = BitVec.ofNat 32 n ∧ n ≤ s.sent)
    (hidle : stage.notifiable = some false → s.async.pool.numRunningAsyncJobs ≤ 0)
    (hwait : ∀ timed notifiable, stage = .blocked timed notifiable → completions = 0 →
      (notifiable = true → 0 < waiters) ∧ ∀ i, (s.async.pool.workers i).announced false = []) :
    Inv { s with waiters := waiters, completions := completions, stage := stage } := by
  have hdrained : ∀ i, s.Drained i := by
    intro i
    cases hs : s.stage <;> simp_all [Drained, PollStage.inPlatform]
  have hstart : s.stage ≠ .start := by
    intro hs
    simp [hs, PollStage.inPlatform] at hplace
  refine ⟨hi.counter, hi.ack, hi.le, hi.incremented, fun _ => hi.polling hstart,
    fun hsome => ?_, fun i _ hc => hi.seen i (hdrained i) hc, hloaded, hidle, hwait⟩
  rcases hi.updating hsome with hs | hs <;> simp [hs, PollStage.inPlatform] at hplace

/-- The counter is read, and `bio_thread_update` comes next. -/
theorem Inv.reload (hi : s.Inv) (hplace : s.stage.inPlatform = true) {completions n : Nat}
    (hle : n ≤ s.sent) :
    Inv { s with
      completions := completions
      stage := .again
      ackCounter := BitVec.ofNat 32 n
      acked := n } := by
  have hadvanced : Inv { s with completions := completions, stage := .again } :=
    hi.advance hplace nofun nofun nofun
  exact ⟨hi.counter, rfl, hle, hi.incremented, hadvanced.polling, hadvanced.updating,
    fun _ hd => absurd hd id, nofun, nofun, nofun⟩

/-- The kernel gets the wait. -/
theorem Inv.submit (hi : s.Inv) (hr : (AsyncState.machine size).Reachable s.async)
    {timed notifiable : Bool}
    (hs : s.stage = .submitting timed notifiable)
    (hd : notifiable = true → s.Distinguishable) :
    ((s.submitWait notifiable).setStage (.blocked timed notifiable)).Inv := by
  have hplace : s.stage.inPlatform = true := by rw [hs]; rfl
  have hidle : notifiable = false → s.async.pool.numRunningAsyncJobs ≤ 0 := by
    rintro rfl
    exact hi.idle (by rw [hs]; rfl)
  have hidle' : (PollStage.blocked timed notifiable).notifiable = some false →
      s.async.pool.numRunningAsyncJobs ≤ 0 := fun h => hidle (Option.some.inj h)
  cases notifiable with
  | false =>
    -- Without jobs there is no response to announce.
    refine hi.advance hplace nofun hidle' fun t n hstage _ => ?_
    cases hstage
    refine ⟨nofun, fun i => Worker.announced_of_nil ?_⟩
    exact AsyncState.responses_of_idle hr (hidle rfl) i
  | true =>
    rw [submitWait, if_pos rfl]
    split
    · next heq =>
      -- The futex compares equal, so nothing was announced since `ack_counter` was loaded.
      have hacked := hi.acked_eq (hd rfl) heq
      refine hi.advance hplace nofun hidle' fun t n _ _ => ⟨fun _ => Nat.succ_pos _, fun i => ?_⟩
      by_contra hne
      have hdrained : s.Drained i := by simp [Drained, hs]
      exact absurd (hi.seen i hdrained (Worker.announced_mono hne)) (by omega)
    · -- The futex compares unequal, and the wait completes at once.
      exact hi.advance hplace nofun hidle' fun t n _ hc => absurd hc (Nat.succ_ne_zero _)

/-- The step lemma for `bio_platform_update`. -/
theorem Inv.platformStep (hi : s.Inv) (hr : (AsyncState.machine size).Reachable s.async)
    (hcompares : s.Compares .platformStep) :
    s.platformStep.Inv := by
  unfold LinuxState.platformStep
  split
  · next shouldWaitForIo hs =>
    have hplace : s.stage.inPlatform = true := by rw [hs]; rfl
    cases shouldWaitForIo
    · exact hi.advance hplace nofun nofun nofun
    · exact hi.advance hplace nofun nofun nofun
  · next timed notifiable hs =>
    have hplace : s.stage.inPlatform = true := by rw [hs]; rfl
    split
    · refine hi.advance hplace (fun c n heq => ?_) nofun nofun
      cases heq
      exact ⟨hi.counter, le_rfl⟩
    · refine hi.advance hplace nofun (fun h => hi.idle ?_) nofun
      rw [hs]
      exact h
  · next c n hs =>
    obtain ⟨rfl, hle⟩ := hi.loaded c n hs
    exact hi.reload (by rw [hs]; rfl) hle
  · next timed notifiable hs =>
    refine hi.advance (by rw [hs]; rfl) nofun (fun h => hi.idle ?_) nofun
    rw [hs]
    exact h
  · next timed notifiable hs =>
    exact hi.submit hr hs fun hn => hcompares (by rw [hs]; exact hn)
  · next hs => exact hi.advance (by rw [hs]; rfl) nofun nofun nofun
  · next notifiable hs =>
    have hplace : s.stage.inPlatform = true := by rw [hs]; rfl
    unfold submitWait
    split
    · split <;> exact hi.advance hplace nofun nofun nofun
    · exact hi.advance hplace nofun nofun nofun
  · next hs =>
    rw [hi.counter]
    exact hi.reload (by rw [hs]; rfl) (le_refl s.sent)
  · exact hi

/-- The call of `bio_platform_update`. -/
theorem Inv.platformUpdate (hi : s.Inv) (hs : s.stage = .drained) (timeUntilNextTimer : Int) :
    (s.platformUpdate timeUntilNextTimer).Inv := by
  have hplace : s.stage.inPlatform = true := by rw [hs]; rfl
  dsimp only [LinuxState.platformUpdate]
  generalize (if s.async.sched.nextReadyCoros.isEmpty then timeUntilNextTimer else 0) =
    waitTimeoutMs
  split
  · exact hi.advance hplace nofun nofun nofun
  · refine hi.advance hplace nofun (fun h => ?_) nofun
    have hnot := of_decide_eq_false (Option.some.inj h)
    omega

/-- Completions come and go while the main thread is not blocked. When it is, they only come. -/
theorem Inv.setCompletions (hi : s.Inv) {n : Nat} (h : s.stage.isBlocked = true → n ≠ 0) :
    Inv { s with completions := n } := by
  refine ⟨hi.counter, hi.ack, hi.le, hi.incremented, hi.polling, hi.updating, hi.seen,
    hi.loaded, hi.idle, fun timed notifiable hs hn => absurd hn (h ?_)⟩
  rw [show s.stage = .blocked timed notifiable from hs]
  rfl

theorem Inv.step (hi : s.Inv) (hr : (machine size).Reachable s) {a : LinuxAction}
    (hen : (machine size).enabled s a) (hcompares : s.Compares a) :
    ((machine size).perform s a).Inv := by
  have hasync := async_of_reachable hr
  have hserved := AsyncState.served_of_reachable hasync
  have hasync' := async_of_reachable (hr.step hen)
  cases a with
  | async a =>
    by_cases hworker : ∃ i, a = .worker i
    · obtain ⟨i, rfl⟩ := hworker
      exact hi.worker_step hserved hen.2
    · -- Every other action is one of the main thread.
      have hmain : ∀ i, a ≠ .worker i := fun i heq => hworker ⟨i, heq⟩
      have hmsg := AsyncState.msgStep_of_step (AsyncState.inv_of_reachable hasync) hen.1 hmain
      have hserved' := AsyncState.served_of_reachable hasync'
      exact hi.main_step hserved' hmsg (LoopRound.mainStep_of_step hi.keeps hen.1 hen.2 hmain)
  | increment i => exact hi.increment hen.2.1
  | futexWake i => exact hi.futexWake hasync' hen.2.1 hen.2.2
  | complete => exact hi.setCompletions fun _ => Nat.succ_ne_zero _
  | drainIoCompletions =>
    refine hi.setCompletions fun hblocked => ?_
    rw [show s.stage.isBlocked = false from hen] at hblocked
    cases hblocked
  | platformUpdate timeUntilNextTimer => exact hi.platformUpdate hen timeUntilNextTimer
  | platformStep => exact hi.platformStep hasync hcompares
  | skipSubmit =>
    show s.skipSubmit.Inv
    unfold LinuxState.skipSubmit
    split
    · next hs => exact hi.advance (by rw [hs]; rfl) nofun nofun nofun
    · exact hi
  | timeOut =>
    have hcan : s.stage.canTimeOut = true := hen
    refine hi.advance ?_ nofun nofun nofun
    cases hs : s.stage <;> simp_all [PollStage.canTimeOut, PollStage.inPlatform]

theorem inv_of_reachable (h : ((machine size).restrict Compares).Reachable s) : s.Inv := by
  refine Machine.invariant (M := (machine size).restrict Compares) (P := Inv) ?_
    (fun _ _ hr hi he => hi.step hr.of_restrict he.1 he.2) h
  rintro s rfl
  refine ⟨rfl, rfl, le_rfl, nofun, fun h => absurd rfl h, nofun, fun i _ hc => ?_, nofun,
    nofun, nofun⟩
  exact absurd (Worker.announced_of_nil rfl) hc

/-! ## The contract -/

/-- In a run in which the comparisons of the counters can tell whether there were increments, the
main thread is never blocked while a response is announced and nothing would wake it. -/
theorem notification_not_lost (h : ((machine size).restrict Compares).Reachable s) :
    ¬s.LostNotification := by
  rintro ⟨hblocked, ⟨i, hannounced⟩, hcompletions⟩
  cases hs : s.stage with
  | blocked timed notifiable =>
    exact hannounced (((inv_of_reachable h).wait timed notifiable hs hcompletions).2 i)
  | _ =>
    rw [hs] at hblocked
    cases hblocked

instance (s : LinuxState) : ∀ a, Decidable (s.Compares a)
  | .platformStep => inferInstanceAs (Decidable (s.stage.compares = true →
      2 ^ 32 ∣ s.sent - s.acked → s.sent ≤ s.acked))
  | .async _ | .increment _ | .futexWake _ | .complete | .drainIoCompletions | .platformUpdate _
  | .skipSubmit | .timeOut => inferInstanceAs (Decidable True)

instance (s : LinuxState) (a : LinuxAction) :
    Decidable (((machine size).restrict Compares).enabled s a) :=
  inferInstanceAs (Decidable ((machine size).enabled s a ∧ s.Compares a))

/-- The default options: the main thread waits for a task. The worker puts the response into its
queue before the wait is submitted, and wakes the main thread after it. -/
theorem notification_not_lost_woken :
    let size := PoolSize.ofOptions 0 0 (by decide)
    let s := ((machine size).restrict Compares).run init [.async (.sched (.spawn false ⟨0, 1⟩)),
      .async (.sched .enterLoop), .async (.sched .endPass), .async .update, .async .updateStep,
      .async .updateStep, .async .updateStep, .platformUpdate (-1), .platformStep,
      .async (.sched .swap), .async (.sched .resume), .async (.runAsyncAndWait ⟨1, 1⟩),
      .async .submitStep, .async .submitStep, .async .submitStep, .async .waitStep,
      .async (.sched .endPass), .async .update, .async .updateStep, .async .updateStep,
      .async .updateStep, .async (.worker 0), .async (.worker 0), .async (.worker 0),
      .platformUpdate (-1), .platformStep, .async (.worker 0), .platformStep, .platformStep,
      .increment 0, .futexWake 0]
    s.stage.isBlocked = true ∧ (s.async.pool.workers 0).announced false ≠ [] ∧
      s.completions ≠ 0 := by
  intro size s
  have hr : ((machine size).restrict Compares).Reachable s :=
    Machine.Reachable.run (.init rfl) (by decide +kernel)
  have hblocked : s.stage.isBlocked = true := by decide +kernel
  have hannounced : (s.async.pool.workers 0).announced false ≠ [] := by decide +kernel
  exact ⟨hblocked, hannounced, fun hzero =>
    notification_not_lost hr ⟨hblocked, ⟨0, hannounced⟩, hzero⟩⟩

/-! ## The counters wrap around -/

/-- What the next steps depend on in a run with one thread in the pool, one coroutine and no I/O. -/
structure Snapshot where
  sched : Sched
  stage : PollStage
  updating : Option Nat
  submit : Option SubmitFrame
  wait : Option AsyncFrame
  worker : Worker
  nextTask : Nat

structure Snapshot.Shows (x : Snapshot) (c : Handle) (q : AsyncState) : Prop where
  sched : q.sched = x.sched
  updating : q.updating = x.updating
  submit : q.submits (some c) = x.submit
  outside : q.submits none = none
  wait : q.waits c = x.wait
  worker : q.pool.workers 0 = x.worker
  nextTask : q.nextTask = x.nextTask

/-- The state `s` after `n` notifications, when `ack_counter` is still `0`. -/
structure Snapshot.Of (x : Snapshot) (c : Handle) (n : Nat) (s : LinuxState) : Prop where
  async : x.Shows c s.async
  stage : s.stage = x.stage
  incremented : s.incremented 0 = false
  counter : s.notificationCounter = BitVec.ofNat 32 n
  ack : s.ackCounter = 0#32
  waiters : s.waiters = 0
  completions : s.completions = 0

/-- Some run leads there. -/
def Visits (size : PoolSize) (c : Handle) (x : Snapshot) (n : Nat) : Prop :=
  ∃ s, (machine size).Reachable s ∧ x.Of c n s

variable {size : PoolSize} {c : Handle} {n : Nat} {x y : Snapshot}

theorem Visits.async (h : Visits size c x n) (a : AsyncAction)
    (hstep : ∀ s, x.Of c n s → (machine size).enabled s (.async a) ∧
      y.Shows c ((AsyncState.machine size).perform s.async a) ∧
      s.stageAfter ((AsyncState.machine size).perform s.async a) a = y.stage) :
    Visits size c y n := by
  obtain ⟨s, hr, hx⟩ := h
  obtain ⟨he, hshows, hstage⟩ := hstep s hx
  exact ⟨_, hr.step he, hshows, hstage, hx.incremented, hx.counter, hx.ack, hx.waiters,
    hx.completions⟩

theorem shows_worker {q : AsyncState} (hx : x.Shows c q) :
    Snapshot.Shows { x with worker := x.worker.step } c { q with pool := q.pool.workerStep 0 } := by
  refine ⟨hx.sched, hx.updating, hx.submit, hx.outside, hx.wait, ?_, hx.nextTask⟩
  rw [ThreadPool.workers_workerStep, Function.update_self, hx.worker]

theorem Visits.worker (h : Visits size c x n) (hcan : x.worker.canStep size = true)
    (hpc : x.worker.pc ≠ .notifying) : Visits size c { x with worker := x.worker.step } n := by
  refine h.async (.worker 0) fun s hx => ⟨⟨⟨size.numThreads_pos, ?_⟩, ?_⟩, shows_worker hx.async,
    hx.stage⟩
  · rw [hx.async.worker]
    exact hcan
  · rw [← hx.async.worker] at hpc
    exact hpc

/-- A call of `bio_platform_notify`, when there is no waiter. -/
theorem Visits.notify (h : Visits size c x n) (hpc : x.worker.pc = .notifying) :
    Visits size c { x with worker := x.worker.step } (n + 1) := by
  obtain ⟨s, hr, hx⟩ := h
  have hpc' : (s.async.pool.workers 0).pc = .notifying := by rw [hx.async.worker]; exact hpc
  have hinc : (s.increment 0).incremented 0 = true := by simp [LinuxState.increment]
  have he : (machine size).enabled s (.increment 0) := ⟨size.numThreads_pos, hpc', hx.incremented⟩
  have he' : (machine size).enabled (s.increment 0) (.futexWake 0) :=
    ⟨size.numThreads_pos, hpc', hinc⟩
  refine ⟨((s.increment 0).futexWake 0), (hr.step he).step he', shows_worker hx.async, hx.stage,
    by simp [LinuxState.futexWake], ?_, hx.ack, ?_, ?_⟩
  · show s.notificationCounter + 1#32 = BitVec.ofNat 32 (n + 1)
    rw [hx.counter, BitVec.ofNat_add]
  · show s.waiters - 1 = 0
    rw [hx.waiters]
  · show (if 0 < s.waiters then s.completions + 1 else s.completions) = 0
    rw [hx.waiters, hx.completions]
    rfl

/-- The worker runs the task that it was given and notifies the main thread. -/
theorem Visits.job {msg : WorkerMsg} {load : BitVec 32} (h : Visits size c x n)
    (hasks : msg.Asks) (hworker : x.worker = ⟨[msg], [], load, true, .consuming⟩) :
    Visits size c { x with worker := ⟨[], [msg], load, true, .consuming⟩ } (n + 1) := by
  obtain ⟨sched, stage, updating, submit, wait, worker, nextTask⟩ := x
  subst hworker
  obtain ⟨hrun, hneed⟩ := hasks
  have hdispatch : (Worker.mk [msg] [] load true .consuming).step.step =
      ⟨[], [], load, true, .executing msg⟩ := by
    simp [Worker.step, hrun]
  have hproduce : (Worker.mk [] [] load true (.executing msg)).step.step =
      ⟨[], [msg], load, true, .notifying⟩ := by
    simp [Worker.step, hneed]
  have h₁ := (h.worker rfl (by simp)).worker rfl (by simp [Worker.step])
  dsimp only at h₁
  rw [hdispatch] at h₁
  have hroom : (Worker.mk [] [] load true (.executing msg)).step.canStep size = true := by
    simpa [Worker.step, Worker.canStep] using size.queueSize_pos
  have h₂ := (h₁.worker rfl (by simp)).worker hroom (by simp [Worker.step])
  dsimp only at h₂
  rw [hproduce] at h₂
  exact h₂.notify rfl

theorem Snapshot.Shows.mcoRunning {q : AsyncState} (hx : x.Shows c q)
    (hp : x.sched.phase = .running c) : q.sched.phase.mcoRunning = some c := by
  rw [hx.sched, hp]
  rfl

theorem Snapshot.Shows.busy {q : AsyncState} (hx : x.Shows c q) (hp : x.sched.phase = .running c)
    (hsubmit : x.submit = none) (hwait : x.wait = none) (hupdating : x.updating = none) :
    q.busy = false := by
  simp [AsyncState.busy, hx.sched, hp, Phase.mcoRunning, hx.submit, hsubmit, hx.wait, hwait,
    hx.updating, hupdating]

/-- `bio_run_async` with a signal that is not valid. -/
theorem Visits.runAsync (h : Visits size c x n) (hp : x.sched.phase = .running c)
    (hsubmit : x.submit = none) (hwait : x.wait = none) (hupdating : x.updating = none)
    (hsignal : x.sched.signals .invalid = none) :
    Visits size c { x with
      submit := some (.start ⟨.run, true, x.nextTask, .invalid⟩)
      nextTask := x.nextTask + 1 } n := by
  refine h.async (.runAsync .invalid) fun s hx => ?_
  have hbusy := hx.async.busy hp hsubmit hwait hupdating
  have hk := hx.async.mcoRunning hp
  obtain ⟨hsched, hu, hs, ho, hw, hworker, hnext⟩ := hx.async
  refine ⟨⟨⟨?_, hbusy, by simp [Handle.isValid], ?_⟩, trivial⟩,
    ⟨hsched, hu, ?_, ?_, hw, hworker, ?_⟩, hx.stage⟩
  · rw [hsched, hp]
    rfl
  · simp [AsyncState.isLocal, Sched.ownerOf, hsched, hsignal]
  · show (s.async.runAsync s.async.sched.phase.mcoRunning .invalid).submits (some c) = _
    rw [hk]
    simp [AsyncState.runAsync, AsyncState.setSubmit, hnext]
  · show (s.async.runAsync s.async.sched.phase.mcoRunning .invalid).submits none = _
    rw [hk]
    simp [AsyncState.runAsync, AsyncState.setSubmit, ho]
  · show s.async.nextTask + 1 = x.nextTask + 1
    rw [hnext]

theorem Visits.submitStep {f : SubmitFrame} (h : Visits size c x n)
    (hp : x.sched.phase = .running c) (hf : x.submit = some f)
    (hstep : ∀ q, x.Shows c q → y.Shows c (AsyncState.submitStep size q (some c) f))
    (hstage : y.stage = x.stage) : Visits size c y n := by
  refine h.async .submitStep fun s hx => ?_
  have hk := hx.async.mcoRunning hp
  have hs : s.async.submits s.async.sched.phase.mcoRunning = some f := by
    rw [hk, hx.async.submit, hf]
  refine ⟨⟨⟨?_, by rw [hs]; rfl⟩, trivial⟩, ?_, hx.stage.trans hstage.symm⟩
  · rw [hx.async.sched, hp]
    rfl
  · rw [AsyncState.perform_submitStep hs, hk]
    exact hstep s.async hx.async

/-- The main thread takes the response of a task whose signal is not live, and gives the worker
another task. -/
theorem Visits.submit {m msg : WorkerMsg} (h : Visits size c x n) (hone : size.numThreads = 1)
    (hp : x.sched.phase = .running c) (hf : x.submit = some (.start msg)) (hrun : m.type = .run)
    (hsignal : x.sched.signals m.signal = none)
    (hworker : x.worker = ⟨[], [m], 1#32, true, .consuming⟩) :
    Visits size c { x with
      submit := none
      worker := ⟨[msg], [], 1#32, true, .consuming⟩ } n := by
  have hdrained : Visits size c { x with worker := ⟨[], [], 0#32, true, .consuming⟩ } n := by
    refine h.submitStep hp hf (fun q hx => ?_) rfl
    obtain ⟨hsched, hu, hs, ho, hw, hq, hnext⟩ := hx
    rw [hworker] at hq
    have hdrain : q.drain 0 = some { q with
        pool := { q.pool.setWorker 0 ⟨[], [], 0#32, true, .consuming⟩ with
          numRunningAsyncJobs := q.pool.numRunningAsyncJobs - 1
          raised := (m.task, 0) :: q.pool.raised } } := by
      simp [AsyncState.drain, ThreadPool.consume, hq, hrun, hsched,
        Sched.raiseSignal_none hsignal]
    rw [AsyncState.submitStep, if_pos (by simp [SubmitFrame.start, hone]),
      show (SubmitFrame.start msg).i = 0 from rfl, hdrain]
    exact ⟨hsched, hu, hs, ho, hw, by simp [ThreadPool.setWorker], hnext⟩
  have hcompared : Visits size c { x with
      submit := some ⟨msg, 1, 0#32, some 0⟩
      worker := ⟨[], [], 0#32, true, .consuming⟩ } n := by
    refine hdrained.submitStep hp hf (fun q hx => ?_) rfl
    obtain ⟨hsched, hu, hs, ho, hw, hq, hnext⟩ := hx
    have hdrain : q.drain 0 = none := by
      simp [AsyncState.drain, ThreadPool.consume, hq]
    rw [AsyncState.submitStep, if_pos (by simp [SubmitFrame.start, hone]),
      show (SubmitFrame.start msg).i = 0 from rfl, hdrain]
    refine ⟨hsched, hu, ?_, ?_, hw, hq, hnext⟩
    · simp [AsyncState.setSubmit, hq, SubmitFrame.compare, SubmitFrame.start]
    · simp [AsyncState.setSubmit, ho]
  refine hcompared.submitStep hp rfl (fun q hx => ?_) rfl
  obtain ⟨hsched, hu, hs, ho, hw, hq, hnext⟩ := hx
  rw [AsyncState.submitStep, if_neg (by simp [hone])]
  dsimp only
  rw [hq, if_pos (by exact size.queueSize_pos)]
  refine ⟨hsched, hu, ?_, ?_, hw, ?_, hnext⟩
  · simp [AsyncState.setSubmit]
  · simp [AsyncState.setSubmit, ho]
  · simp [ThreadPool.workers_submit, hq]

/-- `bio_run_async_and_wait` up to its wait. -/
theorem Visits.runAsyncAndWait (h : Visits size c x n) (signal : Handle)
    (hp : x.sched.phase = .running c) (hsubmit : x.submit = none) (hwait : x.wait = none)
    (hupdating : x.updating = none) (hfresh : x.sched.Fresh signal) :
    Visits size c { x with
      sched := x.sched.makeSignal c signal
      submit := some (.start ⟨.run, true, x.nextTask, signal⟩)
      wait := some ⟨x.nextTask, signal, .submitting⟩
      nextTask := x.nextTask + 1 } n := by
  refine h.async (.runAsyncAndWait signal) fun s hx => ?_
  have hbusy := hx.async.busy hp hsubmit hwait hupdating
  have hk := hx.async.mcoRunning hp
  obtain ⟨hsched, hu, hs, ho, hw, hworker, hnext⟩ := hx.async
  rw [AsyncState.perform_runAsyncAndWait hk]
  refine ⟨⟨⟨by rw [hk]; rfl, hbusy, by rw [hsched]; exact hfresh⟩, trivial⟩,
    ⟨?_, hu, ?_, ?_, ?_, hworker, ?_⟩, hx.stage⟩
  all_goals
    simp [AsyncState.runAsyncAndWait, AsyncState.runAsync, AsyncState.setSubmit, AsyncState.setWait,
      hsched, ho, hnext]

/-- `bio_run_async_and_wait` waits for the signal. -/
theorem Visits.waitStep {f : AsyncFrame} (h : Visits size c x n) (hp : x.sched.phase = .running c)
    (hcount : x.sched.CanCount c) (hsubmit : x.submit = none)
    (hwait : x.wait = some f) (hstage : f.stage = .submitting) :
    Visits size c { x with
      sched := x.sched.waitForSignals c [f.signal] true
      wait := some { f with stage := .waiting } } n := by
  refine h.async .waitStep fun s hx => ?_
  have hk := hx.async.mcoRunning hp
  obtain ⟨hsched, hu, hs, ho, hw, hworker, hnext⟩ := hx.async
  rw [AsyncState.perform_waitStep hk (hw.trans hwait), AsyncState.waitStep, hstage]
  refine ⟨⟨⟨?_, ?_, ?_⟩, trivial⟩, ⟨?_, hu, hs, ho, ?_, hworker, hnext⟩, hx.stage⟩
  · rw [hk, hsched]
    simpa using hcount
  · rw [hk]
    simp [hw, hwait]
  · rw [hk, hs, hsubmit]
  · rw [hsched]
  · simp [AsyncState.setWait]

/-- The pass ends. -/
theorem Visits.endPass (h : Visits size c x n) (he : Sched.machine.enabled x.sched .endPass)
    (hupdating : x.updating = none) (hstage : x.stage = .start) :
    Visits size c { x with sched := Sched.machine.perform x.sched .endPass } n := by
  refine h.async (.sched .endPass) fun s hx => ?_
  obtain ⟨hsched, hu, hs, ho, hw, hworker, hnext⟩ := hx.async
  refine ⟨⟨⟨by rw [hsched]; exact he, ?_, nofun⟩, ?_⟩,
    ⟨?_, hu, hs, ho, hw, hworker, hnext⟩, hx.stage⟩
  · have hp : s.async.sched.phase = .pass := by rw [hsched]; exact he.1
    simp [AsyncState.busy, hp, Phase.mcoRunning, ho, hu, hupdating]
  · show s.stage.isBlocked = false
    rw [hx.stage, hstage]
    rfl
  · show Sched.machine.perform s.async.sched .endPass = _
    rw [hsched]

/-- The first `bio_thread_update` finds no response. -/
theorem Visits.update (h : Visits size c x n) (hone : size.numThreads = 1)
    (hp : x.sched.phase = .polling) (hstage : x.stage = .start) (hupdating : x.updating = none)
    (hnil : x.worker.responseQueue = []) : Visits size c { x with stage := .drained } n := by
  have hfirst : Visits size c { x with stage := .first, updating := some 0 } n := by
    refine h.async .update fun s hx => ?_
    obtain ⟨hsched, hu, hs, ho, hw, hworker, hnext⟩ := hx.async
    have hstart : s.stage = .start := hx.stage.trans hstage
    refine ⟨⟨⟨by rw [hsched, hp], by rw [hu, hupdating]⟩, .inl hstart⟩,
      ⟨hsched, rfl, hs, ho, hw, hworker, hnext⟩, ?_⟩
    exact if_pos hstart
  have hnext : Visits size c { x with stage := .first, updating := some 1 } n := by
    refine hfirst.async .updateStep fun s hx => ?_
    obtain ⟨hsched, hu, hs, ho, hw, hworker, hnext⟩ := hx.async
    have hdrain : s.async.drain 0 = none := by
      simp [AsyncState.drain, ThreadPool.consume, hworker, hnil]
    rw [AsyncState.perform_updateStep hu, AsyncState.updateStep, if_pos size.numThreads_pos, hdrain]
    exact ⟨⟨⟨by rw [hsched]; exact hp, by rw [hu]; rfl⟩, trivial⟩,
      ⟨hsched, rfl, hs, ho, hw, hworker, hnext⟩, hx.stage⟩
  refine hnext.async .updateStep fun s hx => ?_
  obtain ⟨hsched, hu, hs, ho, hw, hworker, hnext⟩ := hx.async
  rw [AsyncState.perform_updateStep hu, AsyncState.updateStep, if_neg (by rw [hone]; decide)]
  refine ⟨⟨⟨by rw [hsched]; exact hp, by rw [hu]; rfl⟩, trivial⟩,
    ⟨hsched, hupdating.symm, hs, ho, hw, hworker, hnext⟩, ?_⟩
  simp [stageAfter, LoopRound.after, hx.stage]

theorem reachable_platformStep {s t : LinuxState} (h : (machine size).Reachable s)
    (hcan : s.canUpdate = true) (heq : s.platformStep = t) : (machine size).Reachable t :=
  h.step_eq (a := .platformStep) hcan heq

/-- The main thread waits, after a number of notifications that is a multiple of `2 ^ 32`. -/
theorem Visits.sleep (h : Visits size c x n) (hstage : x.stage = .drained)
    (hready : x.sched.nextReadyCoros = []) (hload : x.worker.load = 1#32)
    (hwrap : BitVec.ofNat 32 n = 0#32) (hannounced : x.worker.announced false ≠ []) :
    ∃ s, (machine size).Reachable s ∧ s.LostNotification := by
  obtain ⟨s, hr, hx⟩ := h
  have hjobs : 0 < s.async.pool.numRunningAsyncJobs := by
    have hle := AsyncState.load_le_running (async_of_reachable hr) size.numThreads_pos
    rw [hx.async.worker, hload] at hle
    exact lt_of_lt_of_le (by decide) hle
  have hequal : s.notificationCounter = s.ackCounter := by rw [hx.counter, hx.ack, hwrap]
  -- The four steps of `bio_platform_update` up to the system call.
  have hupdate : s.platformUpdate (-1) = s.setStage (.loading false true) := by
    simp [LinuxState.platformUpdate, hx.async.sched, hready, hjobs]
  have hload' : (s.setStage (.loading false true)).platformStep =
      s.setStage (.preparing false true) := by
    simp [LinuxState.platformStep, LinuxState.setStage, hequal]
  have hsubmit : (s.setStage (.submitting false true)).platformStep =
      { s with waiters := s.waiters + 1, stage := .blocked false true } := by
    simp [LinuxState.platformStep, LinuxState.setStage, submitWait, hequal]
  have hr₁ : (machine size).Reachable (s.setStage (.loading false true)) :=
    hr.step_eq (a := .platformUpdate (-1)) (hx.stage.trans hstage) hupdate
  have hr₂ := reachable_platformStep hr₁ rfl hload'
  have hr₃ : (machine size).Reachable (s.setStage (.submitting false true)) :=
    reachable_platformStep hr₂ rfl rfl
  refine ⟨_, reachable_platformStep hr₃ rfl hsubmit, rfl, ⟨0, ?_⟩, hx.completions⟩
  show (s.async.pool.workers 0).announced false ≠ []
  rw [hx.async.worker]
  exact hannounced

/-- The run up to the first notification: with one thread in the pool, a coroutine submits a task.
While the coroutine is ready, `bio_platform_update` does not read the counter. -/
def firstJob : List LinuxAction :=
  [.async (.sched (.spawn false ⟨0, 1⟩)), .async (.sched .enterLoop), .async (.sched .endPass),
    .async .update, .async .updateStep, .async .updateStep, .platformUpdate (-1), .platformStep,
    .async (.sched .swap), .async (.sched .resume), .async (.runAsync .invalid),
    .async .submitStep, .async .submitStep, .async (.worker 0), .async (.worker 0),
    .async (.worker 0), .async (.worker 0), .increment 0, .futexWake 0]

/-- One thread. -/
def oneThread : PoolSize := PoolSize.ofOptions 1 0 (by decide)

/-- The scheduler while the coroutine submits tasks. -/
@[irreducible] def submitting : Sched := ((machine oneThread).run init firstJob).async.sched

/-- The coroutine is about to submit another task. -/
def afterJob (task : Nat) : Snapshot where
  sched := submitting
  stage := .start
  updating := none
  submit := none
  wait := none
  worker := ⟨[], [⟨.run, true, task, .invalid⟩], 1#32, true, .consuming⟩
  nextTask := task + 1

theorem visits_firstJob : Visits oneThread ⟨0, 1⟩ (afterJob 0) 1 := by
  have hr : (machine oneThread).Reachable ((machine oneThread).run init firstJob) :=
    Machine.Reachable.run (.init rfl) (by decide +kernel)
  have hshows : (afterJob 0).Shows ⟨0, 1⟩ ((machine oneThread).run init firstJob).async := by
    constructor
    · simp only [afterJob, submitting]
    all_goals decide +kernel
  refine ⟨_, hr, hshows, ?_, ?_, ?_, ?_, ?_, ?_⟩
  all_goals decide +kernel

theorem visits_jobs (n : Nat) : Visits oneThread ⟨0, 1⟩ (afterJob n) (n + 1) := by
  have hp : submitting.phase = .running ⟨0, 1⟩ := by decide +kernel
  have hsignal : submitting.signals .invalid = none := by decide +kernel
  induction n with
  | zero => exact visits_firstJob
  | succ n ih =>
    have hcalled := ih.runAsync hp rfl rfl rfl hsignal
    have hsubmitted := hcalled.submit (m := ⟨.run, true, n, .invalid⟩) rfl hp rfl rfl hsignal rfl
    exact hsubmitted.job ⟨rfl, rfl⟩ rfl

/-- After `2 ^ 32 - 1` tasks the coroutine waits for one more. Its notification comes between
`bio_thread_update` and the load, when the counter is `0` again. -/
theorem notification_lost : ∃ s, (machine oneThread).Reachable s ∧ s.LostNotification := by
  have hcalled := (visits_jobs (2 ^ 32 - 2)).runAsyncAndWait ⟨1, 1⟩ (by decide +kernel)
    rfl rfl rfl (by decide +kernel)
  have hsubmitted := hcalled.submit rfl (by decide +kernel) rfl rfl (by decide +kernel) rfl
  have hwaiting := hsubmitted.waitStep (by decide +kernel) (by decide +kernel) rfl rfl rfl
  have hended := hwaiting.endPass (by decide +kernel) rfl rfl
  have hupdated := hended.update rfl (by decide +kernel) rfl rfl rfl
  have hnotified := hupdated.job ⟨rfl, rfl⟩ rfl
  exact hnotified.sleep rfl (by decide +kernel) rfl (by decide) nofun

end LinuxState

end Bio
