import Bio.TimerLifecycle

/-!
# The sleep of a timer

The coroutine of a timer sleeps on the signal of the current round. What wakes it is an entry of the
heap, or a cancel.

* `Asleep`: if the coroutine sleeps, it is for this signal.
* `ArmedInTime`: a sleeping timer has an entry in the heap that is not due after the timer. This needs
  that resets do not move the due time of a sleeping timer to before its entry.
* `WaitsPending`: a cancelled timer does not sleep. This needs that no timer is cancelled before
  the first round, and no interval timer inside its function, unless the time it would sleep until has
  passed.

Results: `armed_in_time_iff`, `cancelled_awake`.
-/

namespace Bio

namespace TimerState

variable {s s' : TimerState} {a : TimerAction} {h c sig : Handle} {t : Timer} {Q R : Prop}

/-- The coroutine `c` is inside its entrypoint, and if it waits, it is for the one signal `sig`, and
`Q` holds. -/
structure Asleep (x : Sched) (c sig : Handle) (Q : Prop) : Prop where
  within : x.Within c
  sleeps : x.Sleeps c sig Q

theorem Asleep.mono {x : Sched} (h : Asleep x c sig Q) (hQ : Q → R) : Asleep x c sig R :=
  ⟨h.within, h.sleeps.mono hQ⟩

/-- What other code does leaves the coroutine asleep, or wakes it. -/
theorem Asleep.joined {x y : Sched} {p : Phase} (h : Asleep x c sig Q)
    (hj : (schedPart p).Joined x y) (hr : Sched.machine.Reachable x) (hidle : p ≠ .running c) :
    Asleep y c sig Q := by
  refine (hj.invariant (P := fun z => Sched.machine.Reachable z ∧ Asleep z c sig Q) ?_ ⟨hr, h⟩).2
  rintro z b ⟨hr, hw, hs⟩ ⟨hen, hphase⟩
  have heff := Sched.Effect.of_step hen
  have hidle : z.phase ≠ .running c := hphase ▸ hidle
  exact ⟨hr.step hen, hw.effect heff hidle, hs.effect heff (Sched.inv_of_reachable hr).1 hw hidle⟩

/-- A raise of its signal wakes it. -/
theorem Asleep.raiseAll {x : Sched} (h : Asleep x c sig Q) (signals : List Handle) :
    Asleep (raiseAll x signals) c sig (Q ∧ sig ∉ signals) := by
  induction signals generalizing x Q with
  | nil => exact h.mono fun hq => ⟨hq, List.not_mem_nil⟩
  | cons signal rest ih =>
    have hone : Asleep (x.raiseSignal signal).1 c sig (Q ∧ signal ≠ sig) := by
      refine ⟨⟨?_, ?_⟩, h.sleeps.raiseSignal signal⟩
      · exact (Sched.shrinks_raiseSignal x signal).staysClosed.issued c h.within.issued
      · rw [(Sched.raiseSignal_frame x signal).2.1]
        exact h.within.alive
    refine (ih hone).mono fun ⟨⟨hq, hne⟩, hmem⟩ => ⟨hq, ?_⟩
    simp [hne.symm, hmem]

theorem Asleep.not_waiting {x : Sched} (h : Asleep x c sig Q) (hQ : ¬Q) :
    x.coroState c ≠ .waiting := h.sleeps.not_waiting hQ

/-! ## Entries of the heap -/

/-- The heap holds an entry for the signal that is not due after `due`. -/
def Armed (heap : TimerHeap) (sig : Handle) (due : Int) : Prop :=
  ∃ e ∈ heap.contents, e.signal = sig ∧ e.dueTimeMs ≤ due

theorem mem_raiseAfter {x : TimerCtx} {signal : Handle} {timeMs : Int} {e : TimerEntry}
    (he : e ∈ x.heap.contents) : e ∈ (x.raiseAfter signal timeMs).heap.contents := by
  unfold TimerCtx.raiseAfter TimerHeap.raiseSignalAfter
  split
  · dsimp only
    rw [(x.heap.insert_spec x.clock signal timeMs).1]
    exact Multiset.mem_cons_of_mem he
  · exact he

/-- An entry leaves the heap when its signal is raised. -/
theorem Asleep.update {due : Int} (h : Asleep s.sched c sig (Armed s.ctx.heap sig due))
    (hi : s.ctx.Inv) : Asleep s.update.sched c sig (Armed s.update.ctx.heap sig due) := by
  refine (h.raiseAll ((s.ctx.heap.update s.ctx.clock).2.map TimerEntry.signal)).mono ?_
  rintro ⟨⟨e, he, rfl, hdue⟩, hnot⟩
  refine ⟨e, ?_, rfl, hdue⟩
  rw [TimerHeap.contents, ← (TimerHeap.update_spec hi.ordered s.ctx.clock).contents] at he
  rcases Multiset.mem_add.mp he with hfired | hleft
  · exact absurd (List.mem_map_of_mem hfired) hnot
  · exact hleft

theorem Asleep.spawn {due : Int} (h : Asleep s.sched c sig (Armed s.ctx.heap sig due))
    (hr : Sched.machine.Reachable s.sched) (hi : s.ctx.Inv) (hidle : s.sched.phase ≠ .running c)
    {daemon : Bool} {coro : Handle} (hen : s.sched.enabled (.spawn daemon coro)) :
    Asleep (s.spawn daemon coro).sched c sig (Armed (s.spawn daemon coro).ctx.heap sig due) := by
  have hone : Asleep (s.sched.spawnEx daemon coro) c sig (Armed s.ctx.heap sig due) :=
    h.joined (Machine.Joined.single (M := schedPart s.sched.phase) (a := .spawn daemon coro)
      ⟨hen, rfl⟩) hr hidle
  unfold TimerState.spawn
  dsimp only
  split
  · exact Asleep.update (s := { s with sched := s.sched.spawnEx daemon coro }) hone hi
  · exact hone

/-- The step lemma for a coroutine that does not run. -/
theorem Asleep.armed_effect {due : Int} (h : Asleep s.sched c sig (Armed s.ctx.heap sig due))
    (hi : s.Inv) (he : Effect s a s') (hidle : s.sched.phase ≠ .running c) :
    Asleep s'.sched c sig (Armed s'.ctx.heap sig due) := by
  have hctx := TimerCtx.inv_of_reachable hi.ctx
  have hkeep : (∀ e ∈ s.ctx.heap.contents, e ∈ s'.ctx.heap.contents) →
      Asleep s'.sched c sig (Armed s'.ctx.heap sig due) := fun hmono =>
    (h.joined (sched_joined he) hi.sched hidle).mono fun ⟨e, hmem, hrest⟩ => ⟨e, hmono e hmem, hrest⟩
  cases he with
  | tick | sched _ _ | reset _ _ _ _ | cancel _ _ _ _ | stale => exact hkeep fun _ hmem => hmem
  | spawn hen _ => exact h.spawn hi.sched hctx hidle hen
  | raiseAfter _ _ => exact hkeep fun _ => mem_raiseAfter
  | update _ => exact h.update hctx
  | @create type timeoutMs elapsed handle coro hp _ hfresh hfresh' hne =>
    have hissue := Machine.Joined.single (M := schedPart s.sched.phase) (s := s.sched)
      (a := .issue handle) ⟨⟨hp, hfresh⟩, rfl⟩
    refine Asleep.spawn (s := (s.makeTimer type timeoutMs handle coro).tick elapsed)
      (h.joined hissue hi.sched hidle) (reachable_of_schedPart hissue hi.sched)
      (hctx.step (.tick elapsed)) hidle ⟨hp, hfresh'.1, ?_⟩
    simp [makeTimer, TimerState.tick, Sched.perform, hne.symm, hfresh'.2]
  | arm _ _ _ _ => exact hkeep fun _ => mem_raiseAfter
  | wake _ _ _ =>
    refine hkeep fun e hmem => ?_
    unfold TimerState.wake
    split
    · exact hmem
    · split <;> exact hmem
  | return' _ _ _ =>
    refine hkeep fun e hmem => ?_
    unfold TimerState.return'
    split <;> exact hmem

/-- Unless the coroutine of a waiting timer wakes, only time passes while it runs. -/
theorem idle_of_waiting (hi : s.Inv) (he : Effect s a s') (ht : s.timers h = some t)
    (hpc : t.pc = .waiting) (hstays : ∀ t', s'.timers h = some t' → t'.pc = .waiting) :
    s.sched.phase ≠ .running t.coro ∨ s'.sched = s.sched ∧ s'.ctx.heap = s.ctx.heap := by
  by_cases hp : s.sched.phase = .running t.coro
  · right
    have hcur : s.Current h t := ⟨ht, hp⟩
    have huser : s.userRuns ≠ true := fun hu => by
      obtain ⟨now, hnow⟩ := calling_of_userRuns hi.linked hu hcur
      rw [hpc] at hnow
      cases hnow
    have hsame : ∀ {k u}, s.Current k u → k = h ∧ u = t := by
      intro k u hcur'
      obtain rfl := hi.linked.inj hcur'.1 ht (Phase.running.inj (hcur'.2.symm.trans hp))
      exact ⟨rfl, Option.some.inj (hcur'.1.symm.trans ht)⟩
    cases he with
    | tick | stale => exact ⟨rfl, rfl⟩
    | sched _ hu | spawn _ hu | raiseAfter _ hu | create _ hu _ _ _ | reset _ hu _ _
    | cancel _ hu _ _ => exact absurd hu huser
    | update hpoll =>
      rw [hp] at hpoll
      cases hpoll
    | arm hcur' hpc' _ _ =>
      obtain ⟨rfl, rfl⟩ := hsame hcur'
      rw [hpc] at hpc'
      cases hpc'
    | return' hcur' hpc' _ =>
      obtain ⟨rfl, rfl⟩ := hsame hcur'
      rw [hpc] at hpc'
      cases hpc'
    -- A coroutine that returns from its wait leaves the place.
    | @wake k u impl hcur' _ himpl =>
      obtain ⟨rfl, rfl⟩ := hsame hcur'
      unfold TimerState.wake at hstays
      split at hstays
      · cases hstays _ (Function.update_self ..)
      · split at hstays
        · cases hstays _ (Function.update_self ..)
        · cases hstays _ (Function.update_self ..)
  · exact .inl hp

/-! ## Arming -/

/-- Behind `arm` the coroutine sleeps on the new signal, unless the timer is due. -/
theorem asleep_arm (hi : s.Inv) {impl : TimerImpl} {signal : Handle} (hcur : s.Current h t)
    (hfresh : s.sched.Fresh signal) (hQ : s.ctx.clock < impl.dueTimeMs → Q) :
    Asleep (s.arm h t impl signal).sched t.coro signal Q := by
  have hfresh' : Sched.machine.enabled s.sched (.makeSignal signal) :=
    ⟨by simp [hcur.2, Phase.mcoRunning], hfresh⟩
  have hmake := hi.sched.step_eq hfresh' (Sched.perform_makeSignal hcur.2 signal)
  have hphase : (s.sched.makeSignal t.coro signal).phase = .running t.coro :=
    (Sched.makeSignal_phase s.sched t.coro signal).trans hcur.2
  rw [arm_sched, armSched]
  have hraise := joined_raiseAll (x := s.sched.makeSignal t.coro signal) (by rw [hphase]; nofun)
    (s.ctx.heap.raiseSignalAfter s.ctx.clock signal (impl.dueTimeMs - s.ctx.clock)).2
  have hr := reachable_of_schedPart hraise hmake
  have hp := fun signals => (raiseAll_phase (s.sched.makeSignal t.coro signal) signals).trans hphase
  refine ⟨(Sched.Inside.wait hr (hp _) [signal] true).within,
    Sched.sleeps_wait_any hr (hp _) fun hown => ?_⟩
  unfold TimerHeap.raiseSignalAfter at hown
  split at hown
  · next hpos => exact hQ (by omega)
  · -- A timer that is due raises its signal before it waits.
    have hclosed := Sched.checkSignal_iff_none.mp
      (Sched.checkSignal_raiseSignal (s.sched.makeSignal t.coro signal) signal)
    cases hclosed.symm.trans hown

/-- How a timer comes to wait: it waited before, possibly with a reset or a cancel now, or its
coroutine arms it. -/
theorem Effect.waiting {u : Timer} (he : Effect s a s') (hu : s'.timers h = some u)
    (hpc : u.pc = .waiting) :
    s.timers h = some u ∨
    (∃ t timeoutMs, a = .reset h timeoutMs ∧ s.timers h = some t ∧ t.resolves = true ∧
      u = Timer.modify t fun impl =>
        { impl with timeoutMs := timeoutMs, dueTimeMs := s.ctx.clock + timeoutMs }) ∨
    (∃ t, s.timers h = some t ∧ s'.ctx = s.ctx ∧
      s'.sched = raiseAll s.sched (t.impl.map TimerImpl.wakeSignal).toList ∧
      u = { Timer.modify t fun impl => { impl with cancelled := true } with resolves := false }) ∨
    ∃ t impl signal, s.Current h t ∧ t.pc = .head ∧ t.impl = some impl ∧ s.sched.Fresh signal ∧
      s' = s.arm h t impl signal ∧
      u = { t with impl := some { impl with wakeSignal := signal }, pc := .waiting } := by
  rcases (Moves.of_effect he).timer hu with ⟨hold, _⟩ | ⟨_, _, _, _, _, _, rfl, _⟩ |
    ⟨t, events, ht, hs, _⟩
  · exact .inl hold
  · cases hpc
  · cases hs with
    | reset hres => exact .inr (.inl ⟨t, _, rfl, ht, hres, rfl⟩)
    | cancel hres =>
      cases he with
      | cancel _ _ ht' _ =>
        obtain rfl := Option.some.inj (ht.symm.trans ht')
        exact .inr (.inr (.inl ⟨t, ht, rfl, rfl, rfl⟩))
      | stale => exact .inl hu
    | @arm _ impl signal hhead himpl =>
      cases he with
      | @arm k t' impl' _ hcur hhead' himpl' hfresh =>
        -- The timer that was armed is the only one that changed.
        by_cases heq : h = k
        · subst heq
          obtain rfl := Option.some.inj (ht.symm.trans hcur.1)
          obtain rfl := Option.some.inj (himpl.symm.trans himpl')
          exact .inr (.inr (.inr ⟨t, impl, signal, hcur, hhead, himpl, hfresh, rfl, rfl⟩))
        · have hsame : s.timers h = some _ := (Function.update_of_ne heq _ s.timers).symm.trans hu
          exact .inl hsame
      | stale => exact .inl hu
    | invoke _ _ _ _ | retry _ _ _ _ | leave _ _ | rearm _ _ _ => cases hpc

/-! ## Armed in time -/

/-- A timer whose coroutine waits for its wake signal, and that is not cancelled, has an entry in the
heap that is not due after the timer. -/
def ArmedInTime (s : TimerState) : Prop :=
  ∀ h t impl, s.timers h = some t → t.impl = some impl → impl.cancelled = false →
    t.pc = .waiting → s.sched.coroState t.coro = .waiting →
    Armed s.ctx.heap impl.wakeSignal impl.dueTimeMs

/-- A reset does not move the due time of a timer that sleeps to before its entry in the heap. -/
def ResetsBehindEntry (s : TimerState) : TimerAction → Prop
  | .reset handle timeoutMs => ∀ t ∈ s.timers handle, ∀ impl ∈ t.impl, t.resolves = true →
      t.pc = .waiting → s.sched.coroState t.coro = .waiting →
      Armed s.ctx.heap impl.wakeSignal (s.ctx.clock + timeoutMs)
  | _ => True

/-- What holds while a timer waits. -/
def WaitsArmed (s : TimerState) : Prop :=
  ∀ h t impl, s.timers h = some t → t.impl = some impl → t.pc = .waiting →
    Asleep s.sched t.coro impl.wakeSignal (Armed s.ctx.heap impl.wakeSignal impl.dueTimeMs)

theorem Asleep.replace {x : Sched} (h : Asleep x c sig Q) (hR : x.coroState c = .waiting → R) :
    Asleep x c sig R := by
  refine ⟨h.within, fun v hv hwait => ?_⟩
  obtain ⟨hblocking, hstamp, _⟩ := h.sleeps v hv hwait
  obtain ⟨coro, hc, rfl⟩ := Option.map_eq_some_iff.mp hv
  exact ⟨hblocking, hstamp, hR (by rw [Sched.coroState, hc]; exact hwait)⟩

/-- A new entry is not due after the timer, since the cached clock is behind. -/
theorem armed_arm (hi : s.Inv) (h : Handle) (t : Timer) {impl : TimerImpl} (signal : Handle)
    (hlater : s.ctx.clock < impl.dueTimeMs) :
    Armed (s.arm h t impl signal).ctx.heap signal impl.dueTimeMs := by
  have hbehind := (TimerCtx.inv_of_reachable hi.ctx).behind
  have hctx : (s.arm h t impl signal).ctx.heap =
      s.ctx.heap.insert s.ctx.clock signal (impl.dueTimeMs - s.ctx.clock) := by
    show (s.ctx.heap.raiseSignalAfter s.ctx.clock signal (impl.dueTimeMs - s.ctx.clock)).1 = _
    rw [TimerHeap.raiseSignalAfter, if_pos (by omega)]
  rw [hctx, Armed, (s.ctx.heap.insert_spec s.ctx.clock signal _).1]
  exact ⟨_, Multiset.mem_cons_self _ _, rfl, by dsimp only; omega⟩

theorem WaitsArmed.step (hw : s.WaitsArmed) (hi : s.Inv) (he : Effect s a s')
    (hQ : s.ResetsBehindEntry a) : s'.WaitsArmed := by
  intro h u impl hu himpl hpc
  have hstep : ∀ {t due}, s.timers h = some t → t.pc = .waiting → t.coro = u.coro →
      Asleep s.sched u.coro impl.wakeSignal (Armed s.ctx.heap impl.wakeSignal due) →
      Asleep s'.sched u.coro impl.wakeSignal (Armed s'.ctx.heap impl.wakeSignal due) := by
    intro t due ht htpc hcoro hasleep
    rcases idle_of_waiting hi he ht htpc (fun t' ht' => Option.some.inj (ht'.symm.trans hu) ▸ hpc) with
      hidle | ⟨hsched, hheap⟩
    · exact hasleep.armed_effect hi he (hcoro ▸ hidle)
    · rwa [hsched, hheap]
  rcases Effect.waiting he hu hpc with hold | ⟨t, timeoutMs, rfl, ht, hres, rfl⟩ |
    ⟨t, ht, hctx, hsched, rfl⟩ | ⟨t, old, signal, hcur, hhead, hold, hfresh, rfl, rfl⟩
  · -- The record is the one from before the step.
    exact hstep hold hpc rfl (hw h u impl hold himpl hpc)
  · -- A reset: the entry stays where it is, so the condition compares it with the new due time.
    obtain ⟨old, hold, rfl⟩ := Option.map_eq_some_iff.mp himpl
    have hasleep := hw h t old ht hold hpc
    exact hstep ht hpc rfl (hasleep.replace fun hwait => hQ t ht old hold hres hpc hwait)
  · obtain ⟨old, hold, rfl⟩ := Option.map_eq_some_iff.mp himpl
    exact hstep ht hpc rfl (hw h t old ht hold hpc)
  · obtain rfl := Option.some.inj himpl
    exact asleep_arm hi hcur hfresh fun hlater => armed_arm hi h t signal hlater

theorem armed_of_restrict (hr : (machine.restrict ResetsBehindEntry).Reachable s) :
    s.ArmedInTime := by
  have hw : s.WaitsArmed := by
    refine Machine.invariant (M := machine.restrict ResetsBehindEntry) ?_ ?_ hr
    · rintro _ ⟨clock, memory, rfl⟩
      simp [WaitsArmed, init]
    · intro s a hreach hw he
      have hi := inv_of_reachable hreach.of_restrict
      exact hw.step hi (hi.effect he.1) he.2
  intro h t impl ht himpl _ hpc hwait
  by_contra hnot
  exact (hw h t impl ht himpl hpc).not_waiting hnot hwait

/-- A reset that leaves its timer armed in time meets the condition. -/
theorem resets_of_armed (hr : machine.Reachable s) (harmed : (machine.perform s a).ArmedInTime) :
    s.ResetsBehindEntry a := by
  cases a with
  | reset handle timeoutMs =>
    intro t ht impl himpl hres hpc hwait
    have hok := life_of_reachable hr ht
    have hflag : impl.cancelled = false := by
      rw [Bool.eq_false_iff, ne_eq, hok.flag impl himpl]
      exact (hok.resolves.mp hres).1
    have hperform : machine.perform s (.reset handle timeoutMs) =
        (s.setTimer handle (Timer.modify t fun impl =>
          { impl with timeoutMs := timeoutMs, dueTimeMs := s.ctx.clock + timeoutMs })).log
            (.reset handle s.ctx.clock timeoutMs) := by
      show s.resetTimer handle timeoutMs = _
      rw [resetTimer, filter_resolves.mpr ⟨ht, hres⟩]
    rw [hperform] at harmed
    exact harmed handle _ { impl with timeoutMs := timeoutMs, dueTimeMs := s.ctx.clock + timeoutMs }
      (Function.update_self ..) (Option.map_eq_some_iff.mpr ⟨impl, himpl, rfl⟩) hflag hpc hwait
  | _ => trivial

/-- A run keeps every sleeping timer armed in time in all its states exactly when none of its resets
moves the due time of a sleeping timer to before its entry. -/
theorem armed_in_time_iff (clock : Int) (memory : Nat → TimerEntry) {as : List TimerAction}
    (hl : machine.Legal (init clock memory) as) :
    (∀ bs, bs <+: as → (machine.run (init clock memory) bs).ArmedInTime) ↔
      (machine.restrict ResetsBehindEntry).Legal (init clock memory) as :=
  Machine.always_iff (fun _ => armed_of_restrict) (fun _ _ hr _ => resets_of_armed hr)
    ⟨clock, memory, rfl⟩ hl

instance (heap : TimerHeap) (sig : Handle) (due : Int) : Decidable (Armed heap sig due) :=
  decidable_of_iff (∃ i ∈ List.range heap.numTimers,
      (heap.timerEntries i).signal = sig ∧ (heap.timerEntries i).dueTimeMs ≤ due)
    (by simp [Armed, TimerHeap.contents, Heap.mem_contents])

instance (s : TimerState) : ∀ a, Decidable (s.ResetsBehindEntry a)
  | .reset handle timeoutMs => inferInstanceAs (Decidable (∀ t ∈ s.timers handle, ∀ impl ∈ t.impl,
      t.resolves = true → t.pc = .waiting → s.sched.coroState t.coro = .waiting →
      Armed s.ctx.heap impl.wakeSignal (s.ctx.clock + timeoutMs)))
  | .tick _ | .sched _ | .raiseAfter _ _ | .update | .create _ _ _ _ _ | .cancel _ | .arm _ | .wake
  | .return' => isTrue trivial

instance (s : TimerState) (a : TimerAction) :
    Decidable ((machine.restrict ResetsBehindEntry).enabled s a) :=
  inferInstanceAs (Decidable (machine.enabled s a ∧ s.ResetsBehindEntry a))

/-- A timer of 100 ms sleeps, and another coroutine runs at 40. -/
def sleepingTimer : List TimerAction :=
  [.create .oneshot 100 0 ⟨0, 1⟩ ⟨1, 1⟩, .sched (.spawn false ⟨2, 1⟩), .sched .enterLoop,
    .sched .endPass, .update, .sched .swap, .sched .resume, .arm ⟨3, 1⟩, .tick 40, .sched .resume]

theorem armed_in_time_postponed :
    machine.Legal (init 0 TimerCtx.zeroMemory) (sleepingTimer ++ [.reset ⟨0, 1⟩ 100]) ∧
    (machine.run (init 0 TimerCtx.zeroMemory) (sleepingTimer ++ [.reset ⟨0, 1⟩ 100])).ArmedInTime := by
  have hl : machine.Legal (init 0 TimerCtx.zeroMemory) (sleepingTimer ++ [.reset ⟨0, 1⟩ 100]) := by
    decide +kernel
  exact ⟨hl, (armed_in_time_iff 0 TimerCtx.zeroMemory hl).mpr (by decide +kernel) _ List.prefix_rfl⟩

/-- The sleeping timer is reset to 10 ms: it is due at 50, but its coroutine is woken at 100. -/
theorem armed_too_late :
    let s := machine.run (init 0 TimerCtx.zeroMemory) (sleepingTimer ++ [.reset ⟨0, 1⟩ 10])
    machine.Reachable s ∧ ¬s.ArmedInTime := by
  intro s
  refine ⟨Machine.Reachable.run (.init ⟨0, TimerCtx.zeroMemory, rfl⟩) (by decide +kernel), fun h => ?_⟩
  have ht : s.timers ⟨0, 1⟩ = some ⟨some ⟨.oneshot, 10, ⟨3, 1⟩, 50, false⟩, true, ⟨1, 1⟩, .waiting⟩ := by
    decide +kernel
  have harmed := h ⟨0, 1⟩ _ _ ht rfl rfl rfl (by decide +kernel)
  revert harmed
  decide +kernel

/-! ## Cancelled timers -/

/-- A timer that is cancelled in front of a round is due by then, or will be when the round comes. -/
def CancelsInTime (s : TimerState) : TimerAction → Prop
  | .cancel handle => ∀ t ∈ s.timers handle, ∀ impl ∈ t.impl, t.resolves = true →
      (t.pc = .head → impl.dueTimeMs ≤ s.ctx.clock) ∧
      (impl.type = .interval → ∀ now ∈ Timer.calledAt t, now + impl.timeoutMs ≤ s.ctx.clock)
  | _ => True

/-- After a cancel, the next round finds the timer due. -/
structure NoMoreSleep (clock : Int) (h : Handle) (events : List TimerEvent) (t : Timer) : Prop where
  life : LifeOk h events t
  order : events.Pairwise fun a b => a = .cancelled h → b ≠ .slept h
  due : .cancelled h ∈ events → ∀ impl ∈ t.impl, t.pc = .head → impl.dueTimeMs ≤ clock
  next : .cancelled h ∈ events → ∀ impl ∈ t.impl, impl.type = .interval →
    ∀ now, t.pc = .calling now → now + impl.timeoutMs ≤ clock

theorem NoMoreSleep.born (clock : Int) (h : Handle) (type : TimerType) (timeoutMs : Int)
    (coro : Handle) :
    NoMoreSleep clock h [.created h type clock timeoutMs] (newTimer clock type timeoutMs coro) :=
  ⟨LifeOk.born clock h type timeoutMs coro, List.pairwise_singleton _ _, by simp, by simp⟩

theorem NoMoreSleep.mono {clock clock' : Int} {events : List TimerEvent}
    (hok : NoMoreSleep clock h events t) (hle : clock ≤ clock') : NoMoreSleep clock' h events t :=
  ⟨hok.life, hok.order, fun hc impl himpl hpc => (hok.due hc impl himpl hpc).trans hle,
    fun hc impl himpl htype now hpc => (hok.next hc impl himpl htype now hpc).trans hle⟩

theorem NoMoreSleep.step {clock : Int} {events new : List TimerEvent} {t' : Timer}
    (hok : NoMoreSleep clock h events t) (hs : TimerStep clock h a t new t')
    (hQ : a = .cancel h → ∀ impl ∈ t.impl, t.resolves = true →
      (t.pc = .head → impl.dueTimeMs ≤ clock) ∧
      (impl.type = .interval → ∀ now ∈ Timer.calledAt t, now + impl.timeoutMs ≤ clock)) :
    NoMoreSleep clock h (events ++ new) t' := by
  have hlife := hok.life.step hs
  have horder : ∀ e : TimerEvent, (.cancelled h ∈ events → e ≠ .slept h) →
      (events ++ [e]).Pairwise fun a b => a = .cancelled h → b ≠ .slept h := by
    intro e he
    refine List.pairwise_append.mpr ⟨hok.order, List.pairwise_singleton _ e, fun a ha b hb hc => ?_⟩
    rw [List.mem_singleton.mp hb]
    exact he (hc ▸ ha)
  have hactive : ∀ impl, t.impl = some impl → impl.cancelled = false → .cancelled h ∉ events := by
    intro impl himpl hc
    rw [← hok.life.flag impl himpl, hc]
    simp
  cases hs with
  | reset hres =>
    have hnot := (hok.life.resolves.mp hres).1
    exact ⟨hlife, horder _ fun _ => by simp, fun hc => absurd hc (by simpa using hnot),
      fun hc => absurd hc (by simpa using hnot)⟩
  | cancel hres =>
    refine ⟨hlife, horder _ fun _ => by simp, fun _ impl himpl hpc => ?_,
      fun _ impl himpl htype now hpc => ?_⟩
    · obtain ⟨old, hold, rfl⟩ := Option.map_eq_some_iff.mp himpl
      exact (hQ rfl old hold hres).1 hpc
    · obtain ⟨old, hold, rfl⟩ := Option.map_eq_some_iff.mp himpl
      exact (hQ rfl old hold hres).2 htype now (by rw [Timer.calledAt, show t.pc = _ from hpc]; rfl)
  | arm hpc himpl =>
    refine ⟨hlife, ?_, fun _ _ _ => by simp, fun _ _ _ _ _ => by simp⟩
    split
    · next hlater =>
      -- A cancelled timer is due when its round comes, so it does not sleep.
      refine horder _ fun hc => ?_
      have hdue := hok.due hc _ himpl hpc
      omega
    · simpa using hok.order
  | invoke _ himpl hc _ =>
    have hnot := hactive _ himpl hc
    exact ⟨hlife, horder _ fun _ => by simp, fun hc => absurd hc (by simpa using hnot),
      fun hc => absurd hc (by simpa using hnot)⟩
  | retry _ himpl hc _ =>
    have hnot := hactive _ himpl hc
    exact ⟨hlife, by simpa using hok.order, fun hc => absurd hc (by simpa using hnot),
      fun hc => absurd hc (by simpa using hnot)⟩
  | leave _ _ => exact ⟨hlife, horder _ fun _ => by simp, fun _ => by simp, fun _ => by simp⟩
  | rearm hpc himpl htype =>
    -- A timer that its callback cancelled is past its next due time already.
    rw [List.append_nil] at hlife ⊢
    refine ⟨hlife, hok.order, ?_, fun _ _ _ _ _ => by simp⟩
    rintro hc _ ⟨⟩ _
    exact hok.next hc _ himpl htype _ hpc

theorem noMoreSleep_of_restrict (hr : (machine.restrict CancelsInTime).Reachable s)
    (ht : s.timers h = some t) : NoMoreSleep s.ctx.clock h (s.eventsOf h) t := by
  refine timer_invariant (Q := CancelsInTime) NoMoreSleep.born (fun _ _ _ _ _ hle hok => hok.mono hle)
    ?_ hr h t ht
  rintro s a h t new t' _ hQ ht hs hok
  refine hok.step hs ?_
  rintro rfl impl himpl hres
  exact hQ t ht impl himpl hres

/-- What holds while a timer waits. -/
def WaitsPending (s : TimerState) : Prop :=
  ∀ h t impl, s.timers h = some t → t.impl = some impl → t.pc = .waiting →
    Asleep s.sched t.coro impl.wakeSignal (impl.cancelled = false)

theorem WaitsPending.step (hw : s.WaitsPending) (hi : s.Inv) (he : Effect s a s')
    (hok : ∀ h t, s.timers h = some t → NoMoreSleep s.ctx.clock h (s.eventsOf h) t) :
    s'.WaitsPending := by
  intro h u impl hu himpl hpc
  have hstep : ∀ {t Q}, s.timers h = some t → t.pc = .waiting → t.coro = u.coro →
      Asleep s.sched u.coro impl.wakeSignal Q → Asleep s'.sched u.coro impl.wakeSignal Q := by
    intro t Q ht htpc hcoro hasleep
    rcases idle_of_waiting hi he ht htpc (fun t' ht' => Option.some.inj (ht'.symm.trans hu) ▸ hpc) with
      hidle | ⟨hsched, _⟩
    · exact hasleep.joined (sched_joined he) hi.sched (hcoro ▸ hidle)
    · rwa [hsched]
  rcases Effect.waiting he hu hpc with hold | ⟨t, timeoutMs, rfl, ht, hres, rfl⟩ |
    ⟨t, ht, hctx, hsched, rfl⟩ | ⟨t, old, signal, hcur, hhead, hold, hfresh, rfl, rfl⟩
  · exact hstep hold hpc rfl (hw h u impl hold himpl hpc)
  · obtain ⟨old, hold, rfl⟩ := Option.map_eq_some_iff.mp himpl
    exact hstep ht hpc rfl (hw h t old ht hold hpc)
  · -- The cancel raises the signal that the coroutine sleeps on.
    obtain ⟨old, hold, rfl⟩ := Option.map_eq_some_iff.mp himpl
    rw [hsched, hold]
    refine ((hw h t old ht hold hpc).raiseAll [old.wakeSignal]).mono fun ⟨_, hnot⟩ => ?_
    exact absurd (List.mem_singleton.mpr rfl) hnot
  · obtain rfl := Option.some.inj himpl
    refine asleep_arm hi hcur hfresh fun hlater => ?_
    have hsleep := hok h t hcur.1
    rw [Bool.eq_false_iff, ne_eq, hsleep.life.flag old hold]
    intro hc
    have hdue := hsleep.due hc old hold hhead
    omega

/-- When no timer is cancelled in front of a round that would find it not yet due, a cancelled timer
never sleeps again: there is no suspension after the cancel, its coroutine does not wait for its wake
signal in any state, and it leaves the loop when it runs. -/
theorem cancelled_awake (hr : (machine.restrict CancelsInTime).Reachable s) (h : Handle) :
    ((s.eventsOf h).Pairwise fun a b => a = .cancelled h → b ≠ .slept h) ∧
    ∀ t, s.timers h = some t → .cancelled h ∈ s.eventsOf h → t.pc = .waiting →
      s.sched.coroState t.coro ≠ .waiting ∧
      (s.Current h t → ((machine.perform s .wake).timers h).map Timer.pc = some .left) := by
  have hw : s.WaitsPending := by
    refine Machine.invariant (M := machine.restrict CancelsInTime) ?_ ?_ hr
    · rintro _ ⟨clock, memory, rfl⟩
      simp [WaitsPending, init]
    · intro s a hreach hw he
      have hi := inv_of_reachable hreach.of_restrict
      exact hw.step hi (hi.effect he.1) fun h t ht => noMoreSleep_of_restrict hreach ht
  have hi := inv_of_reachable hr.of_restrict
  constructor
  · cases ht : s.timers h with
    | some t => exact (noMoreSleep_of_restrict hr ht).order
    | none =>
      rw [hi.unborn h ht]
      exact .nil
  · intro t ht hc hpc
    obtain ⟨impl, himpl⟩ := Option.ne_none_iff_exists'.mp
      (mt (hi.live h t ht).mp (by simp [hpc]))
    have hflag := ((noMoreSleep_of_restrict hr ht).life.flag impl himpl).mpr hc
    refine ⟨(hw h t impl ht himpl hpc).not_waiting (by simp [hflag]), fun hcur => ?_⟩
    rw [perform_wake hi.linked hcur himpl, TimerState.wake, if_pos hflag]
    simp [leave, setTimer, log]

instance (s : TimerState) : ∀ a, Decidable (s.CancelsInTime a)
  | .cancel handle => inferInstanceAs (Decidable (∀ t ∈ s.timers handle, ∀ impl ∈ t.impl,
      t.resolves = true → (t.pc = .head → impl.dueTimeMs ≤ s.ctx.clock) ∧
        (impl.type = .interval → ∀ now ∈ Timer.calledAt t, now + impl.timeoutMs ≤ s.ctx.clock)))
  | .tick _ | .sched _ | .raiseAfter _ _ | .update | .create _ _ _ _ _ | .reset _ _ | .arm _ | .wake
  | .return' => isTrue trivial

instance (s : TimerState) (a : TimerAction) :
    Decidable ((machine.restrict CancelsInTime).enabled s a) :=
  inferInstanceAs (Decidable (machine.enabled s a ∧ s.CancelsInTime a))

/-- The sleeping timer is cancelled, and its coroutine runs in the next pass. -/
theorem cancelled_awake_sleeping :
    let s := (machine.restrict CancelsInTime).run (init 0 TimerCtx.zeroMemory)
      (sleepingTimer ++ [.cancel ⟨0, 1⟩, .sched .finish, .sched .destroy, .sched .endPass, .update,
        .sched .swap, .sched .resume])
    s.sched.phase = .running ⟨1, 1⟩ ∧
      ((machine.perform s .wake).timers ⟨0, 1⟩).map Timer.pc = some .left := by
  intro s
  have hr : (machine.restrict CancelsInTime).Reachable s :=
    Machine.Reachable.run (.init ⟨0, TimerCtx.zeroMemory, rfl⟩) (by decide +kernel)
  have ht : s.timers ⟨0, 1⟩ =
      some ⟨some ⟨.oneshot, 100, ⟨3, 1⟩, 100, true⟩, false, ⟨1, 1⟩, .waiting⟩ := by decide +kernel
  have hp : s.sched.phase = .running ⟨1, 1⟩ := by decide +kernel
  exact ⟨hp, ((cancelled_awake hr ⟨0, 1⟩).2 _ ht (by decide +kernel) rfl).2 ⟨ht, hp⟩⟩

/-- A timer of 100 ms is cancelled before its coroutine runs for the first time, and still sleeps. -/
theorem cancelled_asleep :
    let s := machine.run (init 0 TimerCtx.zeroMemory) [.create .oneshot 100 0 ⟨0, 1⟩ ⟨1, 1⟩,
      .cancel ⟨0, 1⟩, .sched .enterLoop, .sched .endPass, .update, .sched .swap, .sched .resume,
      .arm ⟨2, 1⟩]
    machine.Reachable s ∧ s.sched.coroState ⟨1, 1⟩ = .waiting ∧
      ¬(s.eventsOf ⟨0, 1⟩).Pairwise fun a b => a = .cancelled ⟨0, 1⟩ → b ≠ .slept ⟨0, 1⟩ := by
  intro s
  refine ⟨Machine.Reachable.run (.init ⟨0, TimerCtx.zeroMemory, rfl⟩) (by decide +kernel),
    by decide +kernel, ?_⟩
  have hevents : s.eventsOf ⟨0, 1⟩ =
      [.created ⟨0, 1⟩ .oneshot 0 100, .cancelled ⟨0, 1⟩, .slept ⟨0, 1⟩] := by decide +kernel
  rw [hevents]
  decide

end TimerState

end Bio
