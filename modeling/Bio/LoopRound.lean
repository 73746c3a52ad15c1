import Bio.AsyncInvariant
import Mathlib.Tactic.Simps.Basic

/-!
# The updates of a round of `bio_loop`

The part of `bio_loop` around `bio_platform_update`, which is the same on all platforms:
`bio_thread_update`, `bio_platform_update`, `bio_thread_update` again after a wait, and the swap of
the lists. A platform has places of its own in `bio_platform_update`; `LoopRound` names the others.

* `Worker.announced`: the responses for which a worker has called `bio_platform_notify`.
* `LoopRound.after`, `LoopRound.allows`: where the main thread is after an action of `AsyncState`,
  and where the action may happen.
* `LoopRound.MainStep`: what the main thread does outside of `bio_platform_update`. The rules about
  the place that it needs are those of `LoopRound.Keeps`, which it keeps.
-/

namespace Bio

/-! ## Announced responses -/

/-- The responses whose worker has come so far in `bio_platform_notify`. A worker that is in it has
put in the last response before. -/
def Worker.announced (w : Worker) (incremented : Bool) : List WorkerMsg :=
  if w.pc = .notifying ∧ incremented = false then w.responseQueue.dropLast else w.responseQueue

namespace Worker

variable {w w' : Worker} {b : Bool}

theorem announced_ne_nil :
    w.announced b ≠ [] ↔
      (if w.pc = .notifying ∧ b = false then 1 else 0) < w.responseQueue.length := by
  unfold announced
  split
  · rw [← List.length_pos_iff, List.length_dropLast]
    omega
  · exact List.length_pos_iff.symm

theorem announced_of_nil (h : w.responseQueue = []) : w.announced b = [] := by
  simp [announced, h]

/-- What is announced to the end was announced in part. -/
theorem announced_mono (h : w.announced false ≠ []) : w.announced b ≠ [] := by
  rw [announced_ne_nil] at h ⊢
  refine lt_of_le_of_lt ?_ h
  split <;> split <;> simp_all

/-- Taking responses out announces none. -/
theorem announced_suffix (hpc : w'.pc = w.pc) (hsuffix : w'.responseQueue <:+ w.responseQueue)
    (h : w'.announced b ≠ []) : w.announced b ≠ [] := by
  rw [announced_ne_nil] at h ⊢
  rw [hpc] at h
  exact lt_of_lt_of_le h hsuffix.length_le

/-- A response that is put into the queue is not announced yet. -/
theorem announced_step (hpc : w.pc ≠ .notifying)
    (hasks : ∀ msg ∈ w.pc.hands, msg.needNotification = true) :
    w.step.announced false = w.announced false := by
  unfold step
  cases h : w.pc with
  | consuming => cases w.requestQueue <;> simp [announced, h]
  | dispatching msg => cases htype : msg.type <;> simp [announced, h, htype]
  | executing msg => simp [announced, h]
  | producing msg =>
    have hneed : msg.needNotification = true := hasks msg (by simp [h, WorkerPc.hands])
    simp [announced, h, hneed]
  | notifying => exact absurd h hpc
  | exited => simp [announced, h]

theorem responseQueue_step (hpc : w.pc = .notifying) :
    w.step.responseQueue = w.responseQueue ∧ w.step.pc ≠ .notifying := by
  unfold step
  rw [hpc]
  refine ⟨rfl, ?_⟩
  dsimp only [loop]
  split <;> nofun

end Worker

namespace AsyncState

variable {size : PoolSize} {q : AsyncState} {i : Nat}

theorem announced_workerStep {b : Bool} (hserved : q.Served size)
    (hpc : (q.pool.workers i).pc ≠ .notifying) (j : Nat) (hb : j = i → b = false) :
    ((q.pool.workerStep i).workers j).announced b = (q.pool.workers j).announced b := by
  rw [ThreadPool.workers_workerStep, Function.update_apply]
  split
  · next heq =>
    subst heq
    rw [hb rfl]
    refine Worker.announced_step hpc fun msg hmem => ?_
    have hheld : msg ∈ (q.pool.workers j).held :=
      List.mem_append_left _ (List.mem_append_right _ hmem)
    exact (hserved.held j msg hheld).2.2
  · rfl

theorem updating_submitStep (q : AsyncState) (k : Option Handle) (f : SubmitFrame) :
    (q.submitStep size k f).updating = q.updating := by
  unfold AsyncState.submitStep
  split
  · split
    · next hd => exact (AsyncState.drain_frame hd).2.2
    · rfl
  · split
    · split <;> rfl
    · rfl

theorem updating_waitStep (q : AsyncState) (c : Handle) (f : AsyncFrame) :
    (q.waitStep c f).updating = q.updating := by
  unfold AsyncState.waitStep
  split <;> rfl

end AsyncState

/-! ## The places -/

/-- The places of the main thread that are the same on all platforms. -/
structure LoopRound (P : Type) where
  /-- before the first `bio_thread_update` -/
  start : P
  /-- in the first `bio_thread_update` -/
  first : P
  /-- after it, before `bio_platform_update` -/
  drained : P
  /-- before the second `bio_thread_update` -/
  again : P
  /-- in the second `bio_thread_update` -/
  second : P
  /-- before the swap of the lists -/
  swapping : P
  /-- the main thread does not run -/
  blocked : P → Bool
  again_ne_start : again ≠ start
  second_ne_first : second ≠ first

namespace LoopRound

variable {P : Type} [DecidableEq P] (r : LoopRound P)

/-- Where the main thread is after an action of `AsyncState`. -/
def after (place : P) (q : AsyncState) : AsyncAction → P
  | .sched a => if a = .swap then r.start else place
  | .update => if place = r.start then r.first else r.second
  | .updateStep =>
    if q.updating = none then
      if place = r.first then r.drained else r.swapping
    else place
  | _ => place

omit [DecidableEq P] in
/-- What an action of `AsyncState` needs from the platform. -/
def allows (pool : ThreadPool) (place : P) : AsyncAction → Prop
  | .sched a => if a = .swap then place = r.swapping else r.blocked place = false
  | .update => place = r.start ∨ place = r.again
  | .worker i => (pool.workers i).pc ≠ .notifying
  | _ => True

instance (pool : ThreadPool) (place : P) : ∀ a, Decidable (r.allows pool place a)
  | .sched a => inferInstanceAs (Decidable
      (if a = .swap then place = r.swapping else r.blocked place = false))
  | .update => inferInstanceAs (Decidable (place = r.start ∨ place = r.again))
  | .worker i => inferInstanceAs (Decidable ((pool.workers i).pc ≠ .notifying))
  | .runAsync _ | .runAsyncAndWait _ | .submitStep | .waitStep | .updateStep =>
    inferInstanceAs (Decidable True)

/-! ## Steps of the main thread outside of the platform -/

/-- The place fits what the loop and `bio_thread_update` do. -/
structure Keeps (q : AsyncState) (place : P) : Prop where
  polling : place ≠ r.start → q.sched.phase = .polling
  updating : q.updating.isSome = true → place = r.first ∨ place = r.second

/-- What such a step can do. -/
inductive MainStep (size : PoolSize) (q : AsyncState) (place : P) (q' : AsyncState) (place' : P) : Prop
  | user : place = r.start → place' = r.start → q'.updating = q.updating →
      MainStep size q place q' place'
  | raise : r.blocked place = false → place' = place → q'.sched.phase = q.sched.phase →
      q'.pool = q.pool → q'.updating = q.updating → MainStep size q place q' place'
  | swap : place = r.swapping → place' = r.start → q'.updating = none →
      MainStep size q place q' place'
  | update : place = r.start → place' = r.first → q'.sched.phase = .polling →
      q'.updating = some 0 → MainStep size q place q' place'
  | updateAgain : place = r.again → place' = r.second → q'.sched.phase = .polling →
      q'.updating = some 0 → MainStep size q place q' place'
  | drain : place' = place → q'.sched.phase = .polling → (place' = r.first ∨ place' = r.second) →
      q'.updating = q.updating → MainStep size q place q' place'
  | next (i : Nat) : place' = place → q'.sched.phase = .polling →
      (place' = r.first ∨ place' = r.second) → q.updating = some i → q'.updating = some (i + 1) →
      (q'.pool.workers i).responseQueue = [] → MainStep size q place q' place'
  | last (i : Nat) : q.updating = some i → size.numThreads ≤ i → q'.updating = none →
      q'.sched.phase = .polling →
      (place = r.first ∧ place' = r.drained ∨ place = r.second ∧ place' = r.swapping) →
      MainStep size q place q' place'

variable {r} {size : PoolSize} {q q' : AsyncState} {place place' : P}

omit [DecidableEq P] in
/-- While the loop polls, the rest of the program only raises signals. -/
theorem mainStep_sched (hk : r.Keeps q place) {a : Action}
    (hen : (AsyncState.machine size).enabled q (.sched a)) (hallows : r.allows q.pool place (.sched a)) :
    r.MainStep size q place ((AsyncState.machine size).perform q (.sched a))
      (if a = .swap then r.start else place) := by
  obtain ⟨hen, hbusy, _⟩ := hen
  have hupdating : q.updating = none := by
    simpa using (Bool.or_eq_false_iff.mp hbusy).2
  by_cases hswap : a = .swap
  · subst hswap
    rw [if_pos rfl]
    exact .swap hallows rfl hupdating
  · have hblocked : r.blocked place = false := by simpa [allows, hswap] using hallows
    rw [if_neg hswap]
    by_cases hstart : place = r.start
    · exact .user hstart hstart rfl
    · have hp := hk.polling hstart
      cases a with
      | raise ref => exact .raise hblocked rfl (Sched.raiseSignal_frame _ _).2.1 rfl rfl
      | swap => exact absurd rfl hswap
      | _ =>
        simp only [Sched.enabled, hp, Phase.userCode, Phase.mcoRunning, Phase.mcoDead] at hen
        simp at hen

theorem mainStep_updateStep (hk : r.Keeps q place)
    (hen : (AsyncState.machine size).enabled q .updateStep) :
    r.MainStep size q place ((AsyncState.machine size).perform q .updateStep)
      (r.after place ((AsyncState.machine size).perform q .updateStep) .updateStep) := by
  obtain ⟨hp, hsome⟩ := hen
  obtain ⟨i, hu⟩ := Option.isSome_iff_exists.mp hsome
  have hplace := hk.updating hsome
  rw [AsyncState.perform_updateStep hu]
  dsimp only [after]
  unfold AsyncState.updateStep
  split
  · split
    · next q' hd =>
      obtain ⟨hphase, _, hupdating⟩ := AsyncState.drain_frame hd
      rw [if_neg (by simp [hupdating, hu])]
      exact .drain rfl (hphase.trans hp) hplace hupdating
    · next hd =>
      rw [if_neg (by simp)]
      exact .next i rfl hp hplace hu rfl (AsyncState.drain_none (q := q) hd)
  · next hn =>
    rw [if_pos rfl]
    refine .last i hu (not_lt.mp hn) rfl hp ?_
    rcases hplace with hplace | hplace
    · exact .inl ⟨hplace, by rw [if_pos hplace]⟩
    · refine .inr ⟨hplace, ?_⟩
      rw [hplace, if_neg r.second_ne_first]

theorem mainStep_of_step (hk : r.Keeps q place) {a : AsyncAction}
    (hen : (AsyncState.machine size).enabled q a) (hallows : r.allows q.pool place a)
    (hmain : ∀ i, a ≠ .worker i) :
    r.MainStep size q place ((AsyncState.machine size).perform q a)
      (r.after place ((AsyncState.machine size).perform q a) a) := by
  -- The calls of user code do not happen while the loop polls.
  have hstart : q.sched.phase ≠ .polling → place = r.start := by
    intro hp
    by_contra hplace
    exact hp (hk.polling hplace)
  cases a with
  | sched a => exact mainStep_sched hk hen hallows
  | runAsync signal =>
    obtain ⟨huser, _⟩ := hen
    have hplace := hstart fun hp => by simp [hp, Phase.userCode] at huser
    exact .user hplace hplace rfl
  | runAsyncAndWait signal =>
    obtain ⟨huser, _⟩ := hen
    have hplace := hstart fun hp => by simp [hp, Phase.mcoRunning] at huser
    obtain ⟨c, hc⟩ := Option.isSome_iff_exists.mp huser
    rw [AsyncState.perform_runAsyncAndWait hc]
    exact .user hplace hplace rfl
  | submitStep =>
    obtain ⟨huser, hsome⟩ := hen
    have hplace := hstart fun hp => by simp [hp, Phase.userCode] at huser
    obtain ⟨f, hf⟩ := Option.isSome_iff_exists.mp hsome
    rw [AsyncState.perform_submitStep hf]
    exact .user hplace hplace (AsyncState.updating_submitStep ..)
  | waitStep =>
    obtain ⟨c, f, hp, _, hf⟩ := AsyncState.waiting_of_enabled hen
    have hplace := hstart (by simp [hp])
    rw [AsyncState.perform_waitStep (by rw [hp]; rfl) hf]
    exact .user hplace hplace (AsyncState.updating_waitStep ..)
  | update =>
    obtain ⟨hp, _⟩ := hen
    dsimp only [after]
    rcases hallows with hplace | hplace
    · exact .update hplace (if_pos hplace) hp rfl
    · refine .updateAgain hplace ?_ hp rfl
      rw [hplace, if_neg r.again_ne_start]
  | updateStep => exact mainStep_updateStep hk hen
  | worker i => exact absurd rfl (hmain i)

omit [DecidableEq P] in
/-- At a place of the platform such a step is a raise. -/
theorem MainStep.in_platform (h : r.MainStep size q place q' place')
    (hother : place' ≠ r.start ∧ place' ≠ r.first ∧ place' ≠ r.drained ∧ place' ≠ r.second ∧
      place' ≠ r.swapping) :
    place' = place ∧ r.blocked place = false ∧ q'.pool = q.pool := by
  obtain ⟨hstart, hfirst, hdrained, hsecond, hswapping⟩ := hother
  cases h with
  | user _ heq _ => exact absurd heq hstart
  | raise hblocked heq _ hpool _ => exact ⟨heq, hblocked, hpool⟩
  | swap _ heq _ => exact absurd heq hstart
  | update _ heq _ _ => exact absurd heq hfirst
  | updateAgain _ heq _ _ => exact absurd heq hsecond
  | drain _ _ heq _ => exact absurd heq (not_or.mpr ⟨hfirst, hsecond⟩)
  | next _ _ _ heq _ _ _ => exact absurd heq (not_or.mpr ⟨hfirst, hsecond⟩)
  | last _ _ _ _ _ heq =>
    rcases heq with ⟨_, heq⟩ | ⟨_, heq⟩
    · exact absurd heq hdrained
    · exact absurd heq hswapping

omit [DecidableEq P] in
theorem MainStep.keeps (h : r.MainStep size q place q' place') (hk : r.Keeps q place) :
    r.Keeps q' place' := by
  constructor
  · intro hplace
    cases h with
    | user _ heq _ => exact absurd heq hplace
    | raise _ heq hphase _ _ => exact hphase.trans (hk.polling (heq ▸ hplace))
    | swap _ heq _ => exact absurd heq hplace
    | update _ _ hp _ => exact hp
    | updateAgain _ _ hp _ => exact hp
    | drain _ hp _ _ => exact hp
    | next _ _ hp _ _ _ _ => exact hp
    | last _ _ _ _ hp _ => exact hp
  · intro hsome
    cases h with
    | user hs heq hupdating => exact (hs.trans heq.symm) ▸ hk.updating (hupdating ▸ hsome)
    | raise _ heq _ _ hupdating => exact heq ▸ hk.updating (hupdating ▸ hsome)
    | swap _ _ hupdating => simp [hupdating] at hsome
    | update _ heq _ _ => exact .inl heq
    | updateAgain _ heq _ _ => exact .inr heq
    | drain _ _ heq _ => exact heq
    | next _ _ _ heq _ _ _ => exact heq
    | last _ _ _ hupdating _ _ => simp [hupdating] at hsome

end LoopRound

end Bio
