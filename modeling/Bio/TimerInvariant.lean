import Bio.Timer
import Bio.SchedulerLocal

/-!
# Timers under all interleavings

* `TimerState.Effect`: what an enabled action does.
* `TimerState.sched_joined`, `TimerState.ctx_joined`: an action is a run of the scheduler and a run of
  the timer heap. This is how facts about the two carry over.
* `TimerState.TimerStep`, `TimerState.Moves`: what an action does to one timer, with the events it logs.
  `timer_invariant` is the induction over the runs in these terms.
-/

namespace Bio

namespace TimerState

variable {s s' : TimerState} {a : TimerAction} {h : Handle} {t : Timer}

/-- The coroutine of the timer `h` runs. -/
def Current (s : TimerState) (h : Handle) (t : Timer) : Prop :=
  s.timers h = some t ∧ s.sched.phase = .running t.coro

/-- Timers and their coroutines refer to each other. -/
structure Linked (s : TimerState) : Prop where
  coro : ∀ h t, s.timers h = some t → s.userdata t.coro = some h
  timer : ∀ c h, s.userdata c = some h → ∃ t, s.timers h = some t ∧ t.coro = c

theorem Linked.inj (hl : s.Linked) {h' : Handle} {t' : Timer} (ht : s.timers h = some t)
    (ht' : s.timers h' = some t') (hc : t.coro = t'.coro) : h = h' := by
  have hud := hl.coro h t ht
  rw [hc, hl.coro h' t' ht'] at hud
  exact (Option.some.inj hud).symm

theorem current_eq_some (hl : s.Linked) : s.current = some (h, t) ↔ s.Current h t := by
  unfold current Current
  constructor
  · intro hcur
    obtain ⟨c, hc, hrest⟩ := Option.bind_eq_some_iff.mp hcur
    obtain ⟨d, hd, hrest⟩ := Option.bind_eq_some_iff.mp hrest
    obtain ⟨u, hu, heq⟩ := Option.map_eq_some_iff.mp hrest
    obtain ⟨rfl, rfl⟩ := Prod.mk.inj heq
    obtain ⟨u', hu', hcoro⟩ := hl.timer c d hd
    obtain rfl := Option.some.inj (hu.symm.trans hu')
    exact ⟨hu, hcoro ▸ Phase.eq_running hc⟩
  · rintro ⟨ht, hp⟩
    simp [hp, Phase.mcoRunning, hl.coro h t ht, ht]

theorem current_any (hl : s.Linked) {p : Timer → Bool}
    (hany : s.current.any (fun x => p x.2) = true) :
    ∃ h t, s.Current h t ∧ p t = true := by
  cases hcur : s.current with
  | none => simp [hcur] at hany
  | some x => exact ⟨x.1, x.2, (current_eq_some hl).mp hcur, by simpa [hcur] using hany⟩

/-- Where user code runs, the coroutine of a timer is inside the function of the timer. -/
theorem calling_of_userRuns (hl : s.Linked) (hu : s.userRuns = true) (hcur : s.Current h t) :
    ∃ now, t.pc = .calling now := by
  rw [userRuns, (current_eq_some hl).mpr hcur] at hu
  obtain ⟨impl, resolves, coro, pc⟩ := t
  cases pc with
  | calling now => exact ⟨now, rfl⟩
  | _ => cases hu

theorem filter_resolves : (s.timers h).filter Timer.resolves = some t ↔
    s.timers h = some t ∧ t.resolves = true := Option.filter_eq_some_iff

/-! ## What an action does -/

/-- What an enabled action does, with its guard spelled out. -/
inductive Effect (s : TimerState) : TimerAction → TimerState → Prop
  | tick {ms : Nat} : Effect s (.tick ms) (s.tick ms)
  | sched {a : Action} : s.sched.enabled a → s.userRuns = true →
      Effect s (.sched a) { s with sched := s.sched.perform a }
  | spawn {daemon : Bool} {coro : Handle} : s.sched.enabled (.spawn daemon coro) →
      s.userRuns = true → Effect s (.sched (.spawn daemon coro)) (s.spawn daemon coro)
  | raiseAfter {signal : Handle} {timeMs : Int} : s.sched.phase.userCode = true →
      s.userRuns = true → Effect s (.raiseAfter signal timeMs) (s.raiseAfter signal timeMs)
  | update : s.sched.phase = .polling → Effect s .update s.update
  | create {type : TimerType} {timeoutMs : Int} {elapsed : Nat} {handle coro : Handle} :
      s.sched.phase.userCode = true → s.userRuns = true → s.sched.Fresh handle →
      s.sched.Fresh coro → handle ≠ coro →
      Effect s (.create type timeoutMs elapsed handle coro)
        (s.create type timeoutMs elapsed handle coro)
  | reset {handle : Handle} {timeoutMs : Int} {t : Timer} : s.sched.phase.userCode = true →
      s.userRuns = true → s.timers handle = some t → t.resolves = true →
      Effect s (.reset handle timeoutMs) ((s.setTimer handle (Timer.modify t fun impl =>
        { impl with timeoutMs := timeoutMs, dueTimeMs := s.ctx.clock + timeoutMs })).log
          (.reset handle s.ctx.clock timeoutMs))
  | cancel {handle : Handle} {t : Timer} : s.sched.phase.userCode = true →
      s.userRuns = true → s.timers handle = some t → t.resolves = true →
      Effect s (.cancel handle)
        { (s.setTimer handle
            { Timer.modify t fun impl => { impl with cancelled := true } with resolves := false }).log
              (.cancelled handle) with
          sched := raiseAll s.sched (t.impl.map TimerImpl.wakeSignal).toList }
  /-- the handle of a call is closed -/
  | stale {a : TimerAction} : Effect s a s
  | arm {h : Handle} {t : Timer} {impl : TimerImpl} {signal : Handle} : s.Current h t →
      t.pc = .head → t.impl = some impl → s.sched.Fresh signal →
      Effect s (.arm signal) (s.arm h t impl signal)
  | wake {h : Handle} {t : Timer} {impl : TimerImpl} : s.Current h t → t.pc = .waiting →
      t.impl = some impl → Effect s .wake (s.wake h t impl)
  | return' {h : Handle} {t : Timer} {impl : TimerImpl} {now : Int} : s.Current h t →
      t.pc = .calling now → t.impl = some impl → Effect s .return' (s.return' h t impl now)

section Perform

variable {impl : TimerImpl}

theorem perform_arm (hl : s.Linked) (hcur : s.Current h t) (himpl : t.impl = some impl)
    (signal : Handle) : machine.perform s (.arm signal) = s.arm h t impl signal := by
  obtain ⟨_, resolves, coro, pc⟩ := t
  obtain rfl : _ = some impl := himpl
  simp only [machine, perform, (current_eq_some hl).mpr hcur]

theorem perform_wake (hl : s.Linked) (hcur : s.Current h t) (himpl : t.impl = some impl) :
    machine.perform s .wake = s.wake h t impl := by
  obtain ⟨_, resolves, coro, pc⟩ := t
  obtain rfl : _ = some impl := himpl
  simp only [machine, perform, (current_eq_some hl).mpr hcur]

theorem perform_return (hl : s.Linked) (hcur : s.Current h t) (himpl : t.impl = some impl) {now : Int}
    (hpc : t.pc = .calling now) : machine.perform s .return' = s.return' h t impl now := by
  obtain ⟨_, resolves, coro, _⟩ := t
  obtain rfl : _ = some impl := himpl
  obtain rfl : _ = TimerPc.calling now := hpc
  simp only [machine, perform, (current_eq_some hl).mpr hcur]

end Perform

theorem Effect.of_step (hl : s.Linked)
    (hlive : ∀ h t, s.timers h = some t → t.pc ≠ .left → t.impl ≠ none)
    (he : machine.enabled s a) : Effect s a (machine.perform s a) := by
  have hmem : ∀ {h t}, s.Current h t → t.pc ≠ .left → ∃ impl, t.impl = some impl :=
    fun hcur hpc => Option.ne_none_iff_exists'.mp (hlive _ _ hcur.1 hpc)
  cases a with
  | tick ms => exact .tick
  | sched a =>
    cases a with
    | spawn daemon coro => exact .spawn he.1 he.2.1
    | _ => exact .sched he.1 he.2.1
  | raiseAfter signal timeMs => exact .raiseAfter he.1 he.2
  | update => exact .update he
  | create type timeoutMs elapsed handle coro => exact .create he.1 he.2.1 he.2.2.1 he.2.2.2.1 he.2.2.2.2
  | reset handle timeoutMs =>
    show Effect s _ (s.resetTimer handle timeoutMs)
    unfold resetTimer
    split
    · next t ht =>
      obtain ⟨ht, hres⟩ := filter_resolves.mp ht
      exact .reset he.1 he.2 ht hres
    · exact .stale
  | cancel handle =>
    show Effect s _ (s.cancelTimer handle)
    unfold cancelTimer
    split
    · next t ht =>
      obtain ⟨ht, hres⟩ := filter_resolves.mp ht
      exact .cancel he.1 he.2 ht hres
    · exact .stale
  | arm signal =>
    obtain ⟨h, t, hcur, hpc⟩ := current_any (p := fun t => decide (t.pc = .head)) hl he.1
    have hpc : t.pc = .head := of_decide_eq_true hpc
    obtain ⟨impl, himpl⟩ := hmem hcur (by simp [hpc])
    rw [perform_arm hl hcur himpl]
    exact .arm hcur hpc himpl he.2
  | wake =>
    obtain ⟨h, t, hcur, hpc⟩ := current_any (p := fun t => decide (t.pc = .waiting)) hl he
    have hpc : t.pc = .waiting := of_decide_eq_true hpc
    obtain ⟨impl, himpl⟩ := hmem hcur (by simp [hpc])
    rw [perform_wake hl hcur himpl]
    exact .wake hcur hpc himpl
  | return' =>
    obtain ⟨⟨h, t⟩, hmcur, hpc⟩ := (Option.any_eq_true ..).mp he
    dsimp only at hpc
    obtain ⟨now, hpc⟩ : ∃ now, t.pc = .calling now := by
      revert hpc
      cases t.pc <;> simp
    have hcur := (current_eq_some hl).mp hmcur
    obtain ⟨impl, himpl⟩ := hmem hcur (by simp [hpc])
    rw [perform_return hl hcur himpl hpc]
    exact .return' hcur hpc himpl

/-! ## Actions as runs of the scheduler and of the heap -/

/-- The scheduler with the phase fixed that an action starts in. -/
def schedPart (p : Phase) : Machine Sched Action := Sched.machine.restrict fun x _ => x.phase = p

theorem joined_raiseAll {x : Sched} (hp : x.phase ≠ .pass) (signals : List Handle) :
    (schedPart x.phase).Joined x (raiseAll x signals) := by
  induction signals generalizing x with
  | nil => exact Machine.Joined.refl x
  | cons signal rest ih =>
    have hphase : (x.raiseSignal signal).1.phase = x.phase := (Sched.raiseSignal_frame x signal).2.1
    have hone := Machine.Joined.single (M := schedPart x.phase) (s := x) (a := .raise signal) ⟨hp, rfl⟩
    exact hone.trans (hphase ▸ ih (hphase ▸ hp))

theorem raiseAll_phase (x : Sched) (signals : List Handle) :
    (raiseAll x signals).phase = x.phase := by
  induction signals generalizing x with
  | nil => rfl
  | cons signal rest ih => exact (ih _).trans (Sched.raiseSignal_frame x signal).2.1

theorem raiseAll_issued (x : Sched) (signals : List Handle) :
    x.issued ⊆ (raiseAll x signals).issued := by
  induction signals generalizing x with
  | nil => exact List.Subset.refl _
  | cons signal rest ih =>
    exact List.Subset.trans (fun _ => (Sched.shrinks_raiseSignal x signal).staysClosed.issued _) (ih _)

theorem joined_spawn (hp : s.sched.phase ≠ .pass) {daemon : Bool} {coro : Handle}
    (he : s.sched.enabled (.spawn daemon coro)) :
    (schedPart s.sched.phase).Joined s.sched (s.spawn daemon coro).sched := by
  have hone := Machine.Joined.single (M := schedPart s.sched.phase) (s := s.sched)
    (a := .spawn daemon coro) ⟨he, rfl⟩
  unfold spawn
  dsimp only
  split
  · exact hone.trans (joined_raiseAll (x := s.sched.spawnEx daemon coro) hp _)
  · exact hone

theorem pass_of_userCode {p : Phase} (h : p.userCode = true) : p ≠ .pass := by
  rintro rfl
  cases h

/-- The scheduler after `arm`: a signal is made, possibly raised, and waited for. -/
def armSched (x : Sched) (c signal : Handle) (raised : List Handle) : Sched :=
  (raiseAll (x.makeSignal c signal) raised).waitForSignals c [signal] true

theorem joined_arm {x : Sched} {c signal : Handle} (hp : x.phase = .running c)
    (hfresh : x.Fresh signal) (raised : List Handle) :
    (schedPart x.phase).Joined x (armSched x c signal raised) := by
  have hphase : (x.makeSignal c signal).phase = x.phase := Sched.makeSignal_phase x c signal
  have hphase' : (raiseAll (x.makeSignal c signal) raised).phase = .running c := by
    rw [raiseAll_phase, hphase, hp]
  have hmake := Machine.Joined.single (M := schedPart x.phase) (s := x) (a := .makeSignal signal)
    ⟨⟨by simp [hp, Phase.mcoRunning], hfresh⟩, rfl⟩
  have hraise := joined_raiseAll (x := x.makeSignal c signal) (by rw [hphase, hp]; nofun) raised
  have hwait := Machine.Joined.single (M := schedPart x.phase)
    (s := raiseAll (x.makeSignal c signal) raised) (a := .wait [signal] true)
    ⟨Sched.wait_enabled hphase' _ _, hphase'.trans hp.symm⟩
  rw [show (schedPart x.phase).perform = Sched.machine.perform from rfl] at hmake hwait
  rw [Sched.perform_makeSignal hp] at hmake
  rw [Sched.perform_wait hphase'] at hwait
  rw [hphase] at hraise
  exact (hmake.trans hraise).trans hwait

theorem arm_sched (s : TimerState) (h : Handle) (t : Timer) (impl : TimerImpl) (signal : Handle) :
    (s.arm h t impl signal).sched = armSched s.sched t.coro signal
      (s.ctx.heap.raiseSignalAfter s.ctx.clock signal (impl.dueTimeMs - s.ctx.clock)).2 := rfl

theorem joined_leave (hcur : s.Current h t) :
    (schedPart s.sched.phase).Joined s.sched (s.leave h t).sched := by
  refine Machine.Joined.single (M := schedPart s.sched.phase) (s := s.sched) (a := .finish) ⟨?_, rfl⟩
  show Option.isSome _ = true
  rw [hcur.2]
  rfl

/-- An action is a run of the scheduler. -/
theorem sched_joined (he : Effect s a s') : (schedPart s.sched.phase).Joined s.sched s'.sched := by
  cases he with
  | tick | reset _ _ _ _ | stale => exact Machine.Joined.refl _
  | @sched a hen _ => exact Machine.Joined.single (M := schedPart s.sched.phase) (a := a) ⟨hen, rfl⟩
  | spawn hen _ => exact joined_spawn (pass_of_userCode hen.1) hen
  | raiseAfter hp _ => exact joined_raiseAll (pass_of_userCode hp) _
  | update hp => exact joined_raiseAll (by rw [hp]; nofun) _
  | @create type timeoutMs elapsed handle coro hp _ hfresh hfresh' hne =>
    have hissue := Machine.Joined.single (M := schedPart s.sched.phase) (s := s.sched)
      (a := .issue handle) ⟨⟨hp, hfresh⟩, rfl⟩
    refine hissue.trans (joined_spawn (s := (s.makeTimer type timeoutMs handle coro).tick elapsed)
      (pass_of_userCode hp) ⟨hp, hfresh'.1, ?_⟩)
    simp [makeTimer, TimerState.tick, Sched.perform, hne.symm, hfresh'.2]
  | cancel hp _ _ _ => exact joined_raiseAll (pass_of_userCode hp) _
  | arm hcur _ _ hfresh =>
    rw [arm_sched]
    exact joined_arm hcur.2 hfresh _
  | wake hcur _ _ =>
    unfold TimerState.wake
    split
    · exact joined_leave hcur
    · split <;> exact Machine.Joined.refl _
  | return' hcur _ _ =>
    unfold TimerState.return'
    split
    · exact joined_leave hcur
    · exact Machine.Joined.refl _

theorem joined_call (x : TimerCtx) (a : TimerCall) : TimerCtx.machine.Joined x (x.perform a) :=
  Machine.Joined.single (M := TimerCtx.machine) (a := a) trivial

theorem spawn_ctx (s : TimerState) (daemon : Bool) (coro : Handle) :
    (s.spawn daemon coro).ctx = s.ctx.update ∨ (s.spawn daemon coro).ctx = s.ctx := by
  unfold spawn
  dsimp only
  split
  · exact .inl rfl
  · exact .inr rfl

/-- An action is a run of the timer heap. -/
theorem ctx_joined (he : Effect s a s') : TimerCtx.machine.Joined s.ctx s'.ctx := by
  have hspawn : ∀ (s : TimerState) daemon coro, TimerCtx.machine.Joined s.ctx
      (s.spawn daemon coro).ctx := by
    intro s daemon coro
    rcases spawn_ctx s daemon coro with heq | heq <;> rw [heq]
    · exact joined_call s.ctx .update
    · exact Machine.Joined.refl _
  cases he with
  | @tick ms => exact joined_call s.ctx (.tick ms)
  | sched _ _ | reset _ _ _ _ | cancel _ _ _ _ | stale => exact Machine.Joined.refl _
  | spawn _ _ => exact hspawn _ _ _
  | @raiseAfter signal timeMs _ _ => exact joined_call s.ctx (.raiseAfter signal timeMs)
  | update _ => exact joined_call s.ctx .update
  | @create type timeoutMs elapsed handle coro _ _ _ _ _ =>
    exact (joined_call s.ctx (.tick elapsed)).trans
      (hspawn ((s.makeTimer type timeoutMs handle coro).tick elapsed) false coro)
  | @arm h t impl signal _ _ _ _ =>
    exact joined_call s.ctx (.raiseAfter signal (impl.dueTimeMs - s.ctx.clock))
  | wake _ _ _ =>
    unfold TimerState.wake
    split
    · exact Machine.Joined.refl _
    · split <;> exact Machine.Joined.refl _
  | return' _ _ _ =>
    unfold TimerState.return'
    split <;> exact Machine.Joined.refl _

theorem clock_le (he : Effect s a s') : s.ctx.clock ≤ s'.ctx.clock := by
  refine (ctx_joined he).invariant (P := fun x => s.ctx.clock ≤ x.clock) (fun x b hx _ => ?_) le_rfl
  cases b with
  | tick ms => exact hx.trans (Int.le_add_of_nonneg_right (Int.natCast_nonneg ms))
  | raiseAfter signal timeMs => exact hx
  | update => exact hx

theorem reachable_of_schedPart {x y : Sched} {p : Phase} (h : (schedPart p).Joined x y)
    (hr : Sched.machine.Reachable x) : Sched.machine.Reachable y :=
  h.invariant (P := Sched.machine.Reachable) (fun _ _ hr he => hr.step he.1) hr

theorem issued_of_schedPart {x y : Sched} {p : Phase} (h : (schedPart p).Joined x y) :
    x.issued ⊆ y.issued :=
  h.invariant (P := fun z => x.issued ⊆ z.issued)
    (fun _ _ hsub he _ hx => (Sched.Effect.of_step he.1).stays_closed.issued _ (hsub hx))
    (List.Subset.refl _)

end TimerState

/-! ## What an action does to one timer -/

/-- The timer that an event is about. -/
def TimerEvent.timer : TimerEvent → Handle
  | .created h _ _ _ | .reset h _ _ | .cancelled h | .slept h | .invoked h _ | .freed h => h

/-- `TimerStep clock h a t events t'`: the action `a` at this clock turns the timer `t` with the handle
`h` into `t'`, which makes these events. -/
inductive TimerStep (clock : Int) (h : Handle) :
    TimerAction → Timer → List TimerEvent → Timer → Prop
  | reset {t : Timer} {timeoutMs : Int} : t.resolves = true →
      TimerStep clock h (.reset h timeoutMs) t [.reset h clock timeoutMs]
        (TimerState.Timer.modify t fun impl =>
          { impl with timeoutMs := timeoutMs, dueTimeMs := clock + timeoutMs })
  | cancel {t : Timer} : t.resolves = true →
      TimerStep clock h (.cancel h) t [.cancelled h]
        { TimerState.Timer.modify t fun impl => { impl with cancelled := true } with resolves := false }
  | arm {t : Timer} {impl : TimerImpl} {signal : Handle} : t.pc = .head → t.impl = some impl →
      TimerStep clock h (.arm signal) t (if impl.dueTimeMs - clock > 0 then [.slept h] else [])
        { t with impl := some { impl with wakeSignal := signal }, pc := .waiting }
  | invoke {t : Timer} {impl : TimerImpl} : t.pc = .waiting → t.impl = some impl →
      impl.cancelled = false → impl.dueTimeMs ≤ clock →
      TimerStep clock h .wake t [.invoked h clock] { t with pc := .calling clock }
  | retry {t : Timer} {impl : TimerImpl} : t.pc = .waiting → t.impl = some impl →
      impl.cancelled = false → clock < impl.dueTimeMs →
      TimerStep clock h .wake t [] { t with pc := .head }
  | leave {a : TimerAction} {t : Timer} {impl : TimerImpl} : t.impl = some impl →
      (t.pc = .waiting ∧ impl.cancelled = true ∨
        (∃ now, t.pc = .calling now) ∧ impl.type = .oneshot) →
      TimerStep clock h a t [.freed h] { t with impl := none, resolves := false, pc := .left }
  | rearm {t : Timer} {impl : TimerImpl} {now : Int} : t.pc = .calling now → t.impl = some impl →
      impl.type = .interval →
      TimerStep clock h .return' t []
        { t with impl := some { impl with dueTimeMs := now + impl.timeoutMs }, pc := .head }

section TimerStep

variable {clock : Int} {h : Handle} {a : TimerAction} {t t' : Timer} {events : List TimerEvent}

theorem TimerStep.coro_eq (hs : TimerStep clock h a t events t') : t'.coro = t.coro := by
  cases hs <;> rfl

theorem TimerStep.timer_eq (hs : TimerStep clock h a t events t') : ∀ e ∈ events, e.timer = h := by
  cases hs with
  | arm _ _ =>
    split
    · simp [TimerEvent.timer]
    · simp
  | _ => simp [TimerEvent.timer]

end TimerStep

namespace TimerState

variable {s s' : TimerState} {a : TimerAction} {h : Handle} {t : Timer}

/-- The timer that `bio_create_timer` makes. -/
def newTimer (clock : Int) (type : TimerType) (timeoutMs : Int) (coro : Handle) : Timer where
  impl := some
    { type := type, timeoutMs := timeoutMs, wakeSignal := Handle.invalid
      dueTimeMs := clock + timeoutMs, cancelled := false }
  resolves := true
  coro := coro
  pc := .head

/-- The timers and the history change in one of three ways. -/
inductive Moves (s : TimerState) : TimerAction → TimerState → Prop
  | same {a : TimerAction} {s' : TimerState} : s'.timers = s.timers → s'.userdata = s.userdata →
      s'.history = s.history → Moves s a s'
  | born {a : TimerAction} {s' : TimerState} {handle coro : Handle} {type : TimerType}
      {timeoutMs : Int} : s.sched.Fresh handle → s.sched.Fresh coro →
      handle ∈ s'.sched.issued → coro ∈ s'.sched.issued →
      s'.timers = Function.update s.timers handle
        (some (newTimer s.ctx.clock type timeoutMs coro)) →
      s'.userdata = Function.update s.userdata coro (some handle) →
      s'.history = s.history ++ [.created handle type s.ctx.clock timeoutMs] → Moves s a s'
  | one {a : TimerAction} {s' : TimerState} {h : Handle} {t t' : Timer} {events : List TimerEvent} :
      s.timers h = some t → TimerStep s.ctx.clock h a t events t' →
      s'.timers = Function.update s.timers h (some t') → s'.userdata = s.userdata →
      s'.history = s.history ++ events → Moves s a s'

theorem spawn_frame (s : TimerState) (daemon : Bool) (coro : Handle) :
    (s.spawn daemon coro).timers = s.timers ∧ (s.spawn daemon coro).userdata = s.userdata ∧
      (s.spawn daemon coro).history = s.history := by
  unfold spawn
  dsimp only
  split <;> exact ⟨rfl, rfl, rfl⟩

theorem create_issued {type : TimerType} {timeoutMs : Int} {elapsed : Nat} {handle coro x : Handle}
    (hx : x ∈ [coro, handle]) :
    x ∈ (s.create type timeoutMs elapsed handle coro).sched.issued := by
  have hmem : x ∈ coro :: handle :: s.sched.issued := List.mem_append_left s.sched.issued hx
  unfold TimerState.create spawn
  dsimp only
  split
  · exact raiseAll_issued _ _ hmem
  · exact hmem

theorem Moves.of_effect (he : Effect s a s') : Moves s a s' := by
  cases he with
  | tick | sched _ _ | raiseAfter _ _ | update _ | stale => exact .same rfl rfl rfl
  | @spawn daemon coro _ _ =>
    obtain ⟨h₁, h₂, h₃⟩ := spawn_frame s daemon coro
    exact .same h₁ h₂ h₃
  | @create type timeoutMs elapsed handle coro _ _ hfresh hfresh' _ =>
    obtain ⟨h₁, h₂, h₃⟩ :=
      spawn_frame ((s.makeTimer type timeoutMs handle coro).tick elapsed) false coro
    exact .born hfresh hfresh' (create_issued (by simp)) (create_issued (by simp)) h₁ h₂ h₃
  | reset _ _ ht hres => exact .one ht (.reset hres) rfl rfl rfl
  | cancel _ _ ht hres => exact .one ht (.cancel hres) rfl rfl rfl
  | @arm h t impl signal hcur hpc himpl _ =>
    refine .one hcur.1 (.arm hpc himpl) rfl rfl ?_
    simp only [TimerState.arm]
    split
    · rfl
    · simp [TimerState.raiseAfter, setTimer]
  | @wake h t impl hcur hpc himpl =>
    unfold TimerState.wake
    split
    · next hc => exact .one hcur.1 (.leave himpl (.inl ⟨hpc, hc⟩)) rfl rfl rfl
    · next hc =>
      have hc : impl.cancelled = false := by simpa using hc
      split
      · next hdue => exact .one hcur.1 (.invoke hpc himpl hc hdue) rfl rfl rfl
      · next hdue =>
        exact .one hcur.1 (.retry hpc himpl hc (not_le.mp hdue)) rfl rfl
          (List.append_nil _).symm
  | @return' h t impl now hcur hpc himpl =>
    unfold TimerState.return'
    split
    · next htype =>
      exact .one hcur.1 (.leave himpl (.inr ⟨⟨now, hpc⟩, htype⟩)) rfl rfl rfl
    · next htype =>
      exact .one hcur.1 (.rearm hpc himpl htype) rfl rfl
        (List.append_nil _).symm

/-! ## The invariant -/

/-- The events of one timer. -/
def eventsOf (s : TimerState) (h : Handle) : List TimerEvent :=
  s.history.filter fun e => e.timer = h

theorem eventsOf_append {events : List TimerEvent} (hs : s'.history = s.history ++ events)
    (h : Handle) :
    s'.eventsOf h = s.eventsOf h ++ events.filter fun e => e.timer = h := by
  rw [eventsOf, hs, List.filter_append]
  rfl

theorem eventsOf_other {events : List TimerEvent} (hs : s'.history = s.history ++ events)
    (h : Handle) (hne : ∀ e ∈ events, e.timer ≠ h) : s'.eventsOf h = s.eventsOf h := by
  rw [eventsOf_append hs, List.filter_eq_nil_iff.mpr (by simpa using hne), List.append_nil]

theorem eventsOf_same {events : List TimerEvent} (hs : s'.history = s.history ++ events)
    (h : Handle) (heq : ∀ e ∈ events, e.timer = h) : s'.eventsOf h = s.eventsOf h ++ events := by
  rw [eventsOf_append hs, List.filter_eq_self.mpr (by simpa using heq)]

structure Inv (s : TimerState) : Prop where
  sched : Sched.machine.Reachable s.sched
  ctx : TimerCtx.machine.Reachable s.ctx
  linked : s.Linked
  issued : ∀ h t, s.timers h = some t → h ∈ s.sched.issued ∧ t.coro ∈ s.sched.issued
  unborn : ∀ h, s.timers h = none → s.eventsOf h = []
  live : ∀ h t, s.timers h = some t → (t.impl = none ↔ t.pc = .left)

theorem Inv.init (clock : Int) (memory : Nat → TimerEntry) : (init clock memory).Inv where
  sched := .init rfl
  ctx := .init ⟨clock, memory, rfl⟩
  linked := ⟨by simp [TimerState.init], by simp [TimerState.init]⟩
  issued := by simp [TimerState.init]
  unborn := fun _ _ => rfl
  live := by simp [TimerState.init]

theorem Inv.effect (hi : s.Inv) (he : machine.enabled s a) : Effect s a (machine.perform s a) :=
  .of_step hi.linked (fun h t ht hpc => mt (hi.live h t ht).mp hpc) he

theorem live_step {clock : Int} {t t' : Timer} {events : List TimerEvent}
    (hs : TimerStep clock h a t events t') (hlive : t.impl = none ↔ t.pc = .left) :
    t'.impl = none ↔ t'.pc = .left := by
  cases hs with
  | reset _ => simpa [Timer.modify] using hlive
  | cancel _ => simpa [Timer.modify] using hlive
  | invoke _ himpl _ _ => simp [himpl]
  | retry _ himpl _ _ => simp [himpl]
  | _ => simp

theorem Linked.born (hl : s.Linked) {handle coro : Handle} {new : Timer} (hcoro : new.coro = coro)
    (hnew : s.timers handle = none) (hfresh : s.userdata coro = none)
    (htimers : s'.timers = Function.update s.timers handle (some new))
    (hud : s'.userdata = Function.update s.userdata coro (some handle)) : s'.Linked := by
  constructor
  · intro h t ht
    rw [htimers] at ht
    by_cases heq : h = handle
    · subst heq
      obtain rfl : new = t := by simpa using ht
      simp [hud, hcoro]
    · rw [Function.update_of_ne heq] at ht
      have hold := hl.coro h t ht
      have hne : t.coro ≠ coro := by
        rintro rfl
        rw [hfresh] at hold
        cases hold
      rwa [hud, Function.update_of_ne hne]
  · intro c h hc
    rw [hud] at hc
    by_cases heq : c = coro
    · subst heq
      obtain rfl : handle = h := by simpa using hc
      exact ⟨new, by simp [htimers], hcoro⟩
    · rw [Function.update_of_ne heq] at hc
      obtain ⟨t, ht, hct⟩ := hl.timer c h hc
      have hne : h ≠ handle := by
        rintro rfl
        rw [hnew] at ht
        cases ht
      exact ⟨t, by rw [htimers, Function.update_of_ne hne, ht], hct⟩

theorem Linked.one (hl : s.Linked) {t' : Timer} (ht : s.timers h = some t) (hcoro : t'.coro = t.coro)
    (htimers : s'.timers = Function.update s.timers h (some t'))
    (hud : s'.userdata = s.userdata) : s'.Linked := by
  constructor
  · intro k u hu
    rw [hud]
    rw [htimers] at hu
    by_cases heq : k = h
    · subst heq
      obtain rfl : t' = u := by simpa using hu
      rw [hcoro]
      exact hl.coro k t ht
    · exact hl.coro k u (by rwa [Function.update_of_ne heq] at hu)
  · intro c k hc
    rw [hud] at hc
    obtain ⟨u, hu, huc⟩ := hl.timer c k hc
    by_cases heq : k = h
    · subst heq
      obtain rfl := Option.some.inj (ht.symm.trans hu)
      exact ⟨t', by simp [htimers], hcoro.trans huc⟩
    · exact ⟨u, by rw [htimers, Function.update_of_ne heq, hu], huc⟩

/-- A handle that is not issued is not the handle of a timer, and not that of its coroutine. -/
theorem Inv.fresh_timer (hi : s.Inv) (hf : s.sched.Fresh h) : s.timers h = none := by
  by_contra hne
  obtain ⟨t, ht⟩ := Option.ne_none_iff_exists'.mp hne
  exact hf.2 (hi.issued h t ht).1

theorem Inv.fresh_coro (hi : s.Inv) {c : Handle} (hf : s.sched.Fresh c) : s.userdata c = none := by
  by_contra hne
  obtain ⟨h, hh⟩ := Option.ne_none_iff_exists'.mp hne
  obtain ⟨t, ht, rfl⟩ := hi.linked.timer c h hh
  exact hf.2 (hi.issued h t ht).2

/-- The same for one timer: it did not change, it is new, or it made a step. -/
theorem Moves.timer (hm : Moves s a s') {k : Handle} {u : Timer} (hu : s'.timers k = some u) :
    (s.timers k = some u ∧ s'.eventsOf k = s.eventsOf k) ∨
    (∃ type timeoutMs coro, s.sched.Fresh k ∧ k ∈ s'.sched.issued ∧ coro ∈ s'.sched.issued ∧
      u = newTimer s.ctx.clock type timeoutMs coro ∧
      s'.eventsOf k = s.eventsOf k ++ [.created k type s.ctx.clock timeoutMs]) ∨
    ∃ t events, s.timers k = some t ∧ TimerStep s.ctx.clock k a t events u ∧
      s'.eventsOf k = s.eventsOf k ++ events := by
  cases hm with
  | same htimers _ hhist =>
    rw [eventsOf, hhist]
    exact .inl ⟨htimers ▸ hu, rfl⟩
  | @born handle coro type timeoutMs hfresh _ hin hin' htimers _ hhist =>
    by_cases heq : k = handle
    · subst heq
      have hu : newTimer s.ctx.clock type timeoutMs coro = u := by simpa [htimers] using hu
      exact .inr (.inl ⟨type, timeoutMs, coro, hfresh, hin, hin', hu.symm,
        eventsOf_same hhist k (by simp [TimerEvent.timer])⟩)
    · rw [htimers, Function.update_of_ne heq] at hu
      exact .inl ⟨hu, eventsOf_other hhist k (by simpa [TimerEvent.timer] using Ne.symm heq)⟩
  | @one h t t' events ht hs htimers _ hhist =>
    by_cases heq : k = h
    · subst heq
      obtain rfl : t' = u := by simpa [htimers] using hu
      exact .inr (.inr ⟨t, events, ht, hs, eventsOf_same hhist k hs.timer_eq⟩)
    · rw [htimers, Function.update_of_ne heq] at hu
      exact .inl ⟨hu, eventsOf_other hhist k fun e he => (hs.timer_eq e he).trans_ne (Ne.symm heq)⟩

theorem Inv.unborn_step (hi : s.Inv) (hm : Moves s a s') (hh : s'.timers h = none) :
    s'.eventsOf h = [] := by
  cases hm with
  | same htimers _ hhist =>
    rw [eventsOf, hhist]
    exact hi.unborn h (htimers ▸ hh)
  | @born handle coro type timeoutMs _ _ _ _ htimers _ hhist =>
    by_cases heq : h = handle
    · simp [htimers, heq] at hh
    · rw [htimers, Function.update_of_ne heq] at hh
      rw [eventsOf_other hhist h (by simpa [TimerEvent.timer] using Ne.symm heq)]
      exact hi.unborn h hh
  | @one k t t' events ht hs htimers _ hhist =>
    by_cases heq : h = k
    · simp [htimers, heq] at hh
    · rw [htimers, Function.update_of_ne heq] at hh
      rw [eventsOf_other hhist h fun e he => (hs.timer_eq e he).trans_ne (Ne.symm heq)]
      exact hi.unborn h hh

theorem Inv.linked_step (hi : s.Inv) (hm : Moves s a s') : s'.Linked := by
  cases hm with
  | same htimers hud _ =>
    constructor
    · rw [htimers, hud]
      exact hi.linked.coro
    · rw [htimers, hud]
      exact hi.linked.timer
  | born hfresh hfresh' _ _ htimers hud _ =>
    exact hi.linked.born rfl (hi.fresh_timer hfresh) (hi.fresh_coro hfresh') htimers hud
  | one ht hs htimers hud _ => exact hi.linked.one ht hs.coro_eq htimers hud

/-- Every action keeps the invariant. -/
theorem Inv.step (hi : s.Inv) (he : machine.enabled s a) : (machine.perform s a).Inv := by
  have heff := hi.effect he
  have hsched := sched_joined heff
  have hissued := issued_of_schedPart hsched
  have hm := Moves.of_effect heff
  refine ⟨reachable_of_schedPart hsched hi.sched, (ctx_joined heff).reachable hi.ctx,
    hi.linked_step hm, fun h t ht => ?_, fun h hh => hi.unborn_step hm hh, fun h t ht => ?_⟩
  · rcases hm.timer ht with ⟨hold, _⟩ | ⟨_, _, coro, _, hin, hin', rfl, _⟩ | ⟨t₀, _, hold, hs, _⟩
    · exact ⟨hissued (hi.issued h t hold).1, hissued (hi.issued h t hold).2⟩
    · exact ⟨hin, hin'⟩
    · rw [hs.coro_eq]
      exact ⟨hissued (hi.issued h t₀ hold).1, hissued (hi.issued h t₀ hold).2⟩
  · rcases hm.timer ht with ⟨hold, _⟩ | ⟨_, _, _, _, _, _, rfl, _⟩ | ⟨t₀, _, hold, hs, _⟩
    · exact hi.live h t hold
    · simp [newTimer]
    · exact live_step hs (hi.live h t₀ hold)

theorem inv_of_reachable (hr : machine.Reachable s) : s.Inv :=
  Machine.invariant (fun _ ⟨clock, memory, h⟩ => h ▸ Inv.init clock memory)
    (fun _ _ _ hi he => hi.step he) hr

/-- The rule for what holds of each timer along a run: it holds of a new timer, does not depend on the
progress of the clock, and is kept when the timer changes. -/
theorem timer_invariant {Q : TimerState → TimerAction → Prop}
    {P : Int → Handle → List TimerEvent → Timer → Prop}
    (born : ∀ clock h type timeoutMs coro,
      P clock h [.created h type clock timeoutMs] (newTimer clock type timeoutMs coro))
    (mono : ∀ clock clock' h events t, clock ≤ clock' → P clock h events t → P clock' h events t)
    (step : ∀ s a h t new t', machine.Reachable s → Q s a → s.timers h = some t →
      TimerStep s.ctx.clock h a t new t' → P s.ctx.clock h (s.eventsOf h) t →
      P s.ctx.clock h (s.eventsOf h ++ new) t')
    (hr : (machine.restrict Q).Reachable s) :
    ∀ h t, s.timers h = some t → P s.ctx.clock h (s.eventsOf h) t := by
  refine Machine.invariant (M := machine.restrict Q)
    (P := fun s => ∀ h t, s.timers h = some t → P s.ctx.clock h (s.eventsOf h) t) ?_ ?_ hr
  · rintro _ ⟨clock, memory, rfl⟩
    simp [init]
  · intro s a hreach hP he k u hu
    have hi := inv_of_reachable hreach.of_restrict
    have heff : Effect s a ((machine.restrict Q).perform s a) := hi.effect he.1
    refine mono _ _ k _ u (clock_le heff) ?_
    rcases (Moves.of_effect heff).timer hu with
      ⟨hold, hev⟩ | ⟨type, timeoutMs, coro, hfresh, _, _, rfl, hev⟩ |
      ⟨t, events, hold, hs, hev⟩
    · rw [hev]
      exact hP k u hold
    · rw [hev, hi.unborn k (hi.fresh_timer hfresh)]
      exact born _ _ _ _ _
    · rw [hev]
      exact step s a k t events u hreach.of_restrict he.2 hold hs (hP k t hold)

end TimerState

end Bio
