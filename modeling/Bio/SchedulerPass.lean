import Bio.SchedulerLocal
import Bio.SchedulerLoop

/-!
# What the loop resumes

* `Effect.readyQueue`, `Effect.running`: the loop takes the coroutines from the front of the ready
  lists, and nothing else makes a coroutine run.
* `SitsOut`: a coroutine that does not run before the next swap of the lists. One that waits sits out,
  and a raise leaves it so.
-/

namespace Bio

namespace Sched

variable {s s' : Sched} {a : Action} {c : Handle}

theorem Grows.readyQueue (h : Grows s s') : ∃ l, s'.readyQueue = s.readyQueue ++ l := by
  obtain ⟨l, _, hnext, _, _⟩ := h.next
  refine ⟨readied l, ?_⟩
  rw [Sched.readyQueue, h.current, h.index, hnext, Sched.readyQueue, List.append_assoc]

/-- The ready lists grow at their end, and the loop takes the coroutines from the front. -/
theorem Effect.readyQueue (he : Effect s a s') (hidle : s.Idle) :
    (∃ l, s'.readyQueue = s.readyQueue ++ l) ∨
      ∃ c, a = .resume ∧ s.readyQueue = c :: s'.readyQueue ∧ s'.phase = .running c := by
  have hsame : ∀ {t : Sched}, t.readyQueue = s.readyQueue →
      ∃ l, t.readyQueue = s.readyQueue ++ l := fun h => ⟨[], by rw [h, List.append_nil]⟩
  cases he with
  | @spawn daemon h _ _ =>
    exact .inl (Grows.readyQueue ⟨rfl, rfl, [.becameReady h], rfl, rfl, rfl, by simp⟩)
  | makeSignal _ _ => exact .inl (steady_makeSignal s _ _).toGrows.readyQueue
  | raise _ => exact .inl (steady_raiseSignal s _).toGrows.readyQueue
  | monitor _ _ => exact .inl (steady_monitor s _ _ _).toGrows.readyQueue
  | unmonitor _ => exact .inl (steady_unmonitor s _).toGrows.readyQueue
  | yield _ => exact .inl (steady_suspend s _).toGrows.readyQueue
  | wait _ => exact .inl (steady_waitForSignals s _ _ _).toGrows.readyQueue
  | daemonize _ =>
    refine .inl (hsame ?_)
    unfold Sched.daemonize
    split
    · split <;> rfl
    · rfl
  | finish _ | issue _ _ | terminate _ => exact .inl (hsame rfl)
  | enterLoop hp =>
    refine .inl (hsame ?_)
    simp [Sched.readyQueue, hidle (.inl hp)]
  | @resume c _ hc =>
    refine .inr ⟨c, rfl, ?_, rfl⟩
    rw [readyQueue_resume hc]
    rfl
  | @destroy c _ =>
    have hremove : ∀ t : Sched, (t.removeCoro c).readyQueue = t.readyQueue := by
      intro t
      unfold Sched.removeCoro
      split <;> rfl
    cases hcoro : s.coros c with
    | none =>
      refine .inl (hsame ?_)
      simp only [destroyCoro, hcoro]
      exact hremove s
    | some coro =>
      rw [destroyCoro_eq hcoro, hremove]
      exact .inl (steady_beforeRemove s coro).toGrows.readyQueue
  | endPass _ hle =>
    refine .inl (hsame ?_)
    simp [Sched.readyQueue, Sched.endPass, List.drop_eq_nil_of_le hle]
  | swap hp =>
    refine .inl (hsame ?_)
    simp [Sched.readyQueue, Sched.swap, hidle (.inr hp)]

/-- Only the loop makes a coroutine run. -/
theorem Effect.running (he : Effect s a s') (hp : s'.phase = .running c) :
    s.phase = .running c ∨ a = .resume := by
  have hpass : ∀ {t : Sched}, t.phase = .pass → t.phase = .running c → False :=
    fun h h' => nomatch h.symm.trans h'
  cases he with
  | spawn _ _ => exact .inl hp
  | makeSignal _ _ => exact .inl ((makeSignal_phase ..).symm.trans hp)
  | raise _ => exact .inl ((raiseSignal_frame s _).2.1.symm.trans hp)
  | @monitor coro signal h _ _ =>
    refine .inl ?_
    unfold Sched.monitor at hp
    split at hp
    · exact hp
    · exact (raiseSignal_frame s signal).2.1.symm.trans hp
  | unmonitor _ =>
    refine .inl ?_
    unfold Sched.unmonitor at hp
    split at hp <;> exact hp
  | yield _ => exact (hpass (suspend_phase ..) hp).elim
  | wait hd =>
    rcases waitForSignals_phase s _ _ _ with hpass' | hsame
    · exact (hpass hpass' hp).elim
    · exact .inl (hsame.symm.trans hp)
  | daemonize _ =>
    refine .inl ?_
    unfold Sched.daemonize at hp
    split at hp
    · split at hp <;> exact hp
    · exact hp
  | finish _ => cases hp
  | issue _ _ => exact .inl hp
  | terminate _ => exact .inl hp
  | enterLoop _ => cases hp
  | resume _ _ => exact .inr rfl
  | destroy _ => exact (hpass (destroyCoro_phase ..) hp).elim
  | endPass _ _ =>
    revert hp
    show (if s.shouldTerminate = true then Phase.outside else .polling) = .running c → _
    split <;> nofun
  | swap _ => cases hp

/-- While the loop polls, the rest of the program raises signals and swaps the ready lists. -/
theorem polling_action (he : s.enabled a) (hp : s.phase = .polling) :
    (∃ ref, a = .raise ref) ∨ a = .swap := by
  cases a with
  | raise ref => exact .inl ⟨ref, rfl⟩
  | swap => exact .inr rfl
  | _ => simp [Sched.enabled, Phase.userCode, Phase.mcoRunning, Phase.mcoDead, hp] at he

/-- What the pass has still to resume. -/
def remaining (s : Sched) : List Handle := s.currentReadyCoros.drop s.coroIndex

theorem Grows.remaining (h : Grows s s') : s'.remaining = s.remaining := by
  rw [Sched.remaining, h.current, h.index, Sched.remaining]

/-- A pass is not given more to resume. -/
theorem Effect.remaining (he : Effect s a s') (hidle : s.Idle) (ha : a ≠ .swap) :
    s'.remaining ⊆ s.remaining := by
  have hsame : ∀ {t : Sched}, t.remaining = s.remaining → t.remaining ⊆ s.remaining :=
    fun h => h ▸ List.Subset.refl _
  cases he with
  | spawn _ _ | finish _ | issue _ _ | terminate _ => exact hsame rfl
  | makeSignal _ _ => exact hsame (steady_makeSignal s _ _).toGrows.remaining
  | raise _ => exact hsame (steady_raiseSignal s _).toGrows.remaining
  | monitor _ _ => exact hsame (steady_monitor s _ _ _).toGrows.remaining
  | unmonitor _ => exact hsame (steady_unmonitor s _).toGrows.remaining
  | yield _ => exact hsame (steady_suspend s _).toGrows.remaining
  | wait _ => exact hsame (steady_waitForSignals s _ _ _).toGrows.remaining
  | daemonize _ =>
    refine hsame ?_
    unfold Sched.daemonize
    split
    · split <;> rfl
    · rfl
  | enterLoop hp => simp [Sched.remaining, hidle (.inl hp)]
  | @resume c _ _ =>
    show s.currentReadyCoros.drop (s.coroIndex + 1) ⊆ s.currentReadyCoros.drop s.coroIndex
    exact (List.drop_sublist_drop_left _ (Nat.le_succ _)).subset
  | @destroy c _ =>
    have hremove : ∀ t : Sched, (t.removeCoro c).remaining = t.remaining := by
      intro t
      unfold Sched.removeCoro
      split <;> rfl
    cases hcoro : s.coros c with
    | none =>
      simp only [destroyCoro, hcoro]
      exact hsame (hremove s)
    | some coro =>
      rw [destroyCoro_eq hcoro]
      exact hsame ((hremove _).trans (steady_beforeRemove s coro).toGrows.remaining)
  | endPass _ _ => simp [Sched.remaining, Sched.endPass]
  | swap _ => exact absurd rfl ha

/-- The coroutine does not run before the next swap. -/
structure SitsOut (s : Sched) (c : Handle) : Prop where
  remaining : c ∉ s.remaining
  idle : s.phase ≠ .running c

theorem SitsOut.effect (h : s.SitsOut c) (he : Effect s a s') (hidle : s.Idle) (ha : a ≠ .swap) :
    s'.SitsOut c := by
  refine ⟨fun hmem => h.remaining (he.remaining hidle ha hmem), fun hp => ?_⟩
  rcases he.running hp with hrun | rfl
  · exact h.idle hrun
  · cases he with
    | @resume d _ hd =>
      obtain rfl : d = c := Phase.running.inj hp
      obtain ⟨hlt, hget⟩ := List.getElem?_eq_some_iff.mp hd
      refine h.remaining ?_
      rw [Sched.remaining, List.drop_eq_getElem_cons hlt, hget]
      exact List.mem_cons_self

theorem SitsOut.raise (h : s.SitsOut c) (ref : Handle) : (s.raiseSignal ref).1.SitsOut c := by
  refine ⟨?_, ?_⟩
  · rw [(steady_raiseSignal s ref).toGrows.remaining]
    exact h.remaining
  · rw [(raiseSignal_frame s ref).2.1]
    exact h.idle

theorem sitsOut_of_waiting (hi : s.Inv) (hc : s.coroState c = .waiting) : s.SitsOut c := by
  refine ⟨fun hmem => ?_, fun hp => ?_⟩
  · have hqueue := hi.view.not_ready_of_ne (c := c) (by simp [view, hc])
    exact hqueue (List.mem_append_left _ hmem)
  · have hrun : s.coroState c = .running := (hi.view.active c).mpr (by rw [view, hp]; rfl)
    rw [hc] at hrun
    cases hrun

end Sched

end Bio
