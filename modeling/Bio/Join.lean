import Bio.SchedulerLocal

/-!
# Monitors and `bio_join`

`bio_join` makes a signal, monitors its target with it and waits for it. The signal and the monitor
are local to the call, so no other code can raise the one or discard the other: this is what the
machine of this file adds to the scheduler. The actions of the scheduler are its actions, except
that they do not name the handles of a call that has not returned, and that a coroutine inside the
call does nothing else.

Result: `monitor_delivery`.
-/

namespace Bio

namespace Sched

/-- `bio_join` in the coroutine `c`, up to the point where it returns or suspends. -/
def join (s : Sched) (c target signal monitor : Handle) : Sched :=
  let s := s.makeSignal c signal
  let s := (s.monitor target signal monitor).1
  s.waitForSignals c [signal] true

end Sched

/-- A call of `bio_join` that has not returned. -/
structure JoinFrame where
  caller : Handle
  target : Handle
  signal : Handle
  monitor : Handle
deriving DecidableEq

structure JoinState where
  sched : Sched
  frames : List JoinFrame

inductive JoinAction
  /-- anything but `bio_join` -/
  | sched (a : Action)
  /-- the running coroutine calls `bio_join` -/
  | join (target signal monitor : Handle)
  /-- `bio_join` returns in the running coroutine -/
  | leave

namespace JoinState

/-- The coroutine that runs is in a call of `bio_join`. -/
def inJoin (j : JoinState) : Prop := ∃ f ∈ j.frames, j.sched.phase = .running f.caller

instance (j : JoinState) : Decidable j.inJoin :=
  inferInstanceAs (Decidable (∃ f ∈ j.frames, j.sched.phase = .running f.caller))

def enabled (j : JoinState) : JoinAction → Prop
  | .sched a => j.sched.enabled a ∧ ¬j.inJoin ∧
      ∀ f ∈ j.frames, a.names f.signal = false ∧ a ≠ .unmonitor f.monitor
  | .join _ signal monitor =>
      j.sched.phase.mcoRunning.any (fun c => j.sched.CanCount c) = true ∧ ¬j.inJoin ∧
        j.sched.Fresh signal ∧ j.sched.Fresh monitor ∧ signal ≠ monitor
  | .leave => j.inJoin

def perform (j : JoinState) : JoinAction → JoinState
  | .sched a => { j with sched := j.sched.perform a }
  | .join target signal monitor =>
    match j.sched.phase.mcoRunning with
    | some c =>
      { sched := j.sched.join c target signal monitor
        frames := ⟨c, target, signal, monitor⟩ :: j.frames }
    | none => j
  | .leave => { j with frames := j.frames.filter fun f => j.sched.phase ≠ .running f.caller }

def machine : Machine JoinState JoinAction where
  init := fun j => j = ⟨Sched.init, []⟩
  enabled := enabled
  perform := perform

instance (j : JoinState) : ∀ a : JoinAction, Decidable (machine.enabled j a)
  | .sched a => inferInstanceAs (Decidable (j.sched.enabled a ∧ ¬j.inJoin ∧
      ∀ f ∈ j.frames, a.names f.signal = false ∧ a ≠ .unmonitor f.monitor))
  | .join _ signal monitor => inferInstanceAs (Decidable
      (j.sched.phase.mcoRunning.any (fun c => j.sched.CanCount c) = true ∧ ¬j.inJoin ∧
        j.sched.Fresh signal ∧ j.sched.Fresh monitor ∧ signal ≠ monitor))
  | .leave => inferInstanceAs (Decidable j.inJoin)

end JoinState

/-! ## A call that has not returned -/

/-- What holds of a call of `bio_join`: it is about to return and the target is gone, or its caller
is parked. Then the signal is live and the monitor registered, or the target is gone. -/
inductive JoinFrame.Ok (f : JoinFrame) (s : Sched) : Prop
  | returned (phase : s.phase = .running f.caller)
      (dead : f.target ≠ f.caller → s.coros f.target = none)
  | parked (k : Int) (parked : s.Parked f.caller [f.signal] 1 k)
      (made : .madeSignal f.caller f.signal ∈ s.history) (issued : f.target ∈ s.issued)
      (carried : ∀ m mon, s.monitors m = some mon → mon.signal = f.signal → mon.target = f.target)
      (pending : s.ownerOf f.signal = some f.caller →
        s.monitors f.monitor = some ⟨f.target, f.signal⟩)
      (raised : s.ownerOf f.signal ≠ some f.caller → s.coros f.target = none)

namespace JoinFrame.Ok

variable {f : JoinFrame} {s s' : Sched}

theorem signal_issued (h : f.Ok s) (hr : Sched.machine.Reachable s)
    (hphase : s.phase ≠ .running f.caller) : f.signal ∈ s.issued := by
  cases h with
  | returned hp _ => exact absurd hp hphase
  | parked _ _ hmade _ _ _ _ =>
    exact ((Sched.accounted_of_reachable hr).made_issued _ _ hmade).2

/-- The step lemma: an action that does not name the handles of the call keeps it. -/
theorem effect (h : f.Ok s) (hr : Sched.machine.Reachable s) {a : Action}
    (he : Sched.machine.enabled s a) (hphase : s.phase ≠ .running f.caller)
    (hsignal : a.names f.signal = false) (hmonitor : a ≠ .unmonitor f.monitor) :
    f.Ok (Sched.machine.perform s a) := by
  have heff : s.Effect a (Sched.machine.perform s a) := Sched.Effect.of_enabled he
  have hi := (Sched.inv_of_reachable hr).1
  have ha := Sched.accounted_of_reachable hr
  have ha' := Sched.accounted_of_reachable (hr.step he)
  cases h with
  | returned hp _ => exact absurd hp hphase
  | parked k hp hmade hissued hcarried hpending hraised =>
    have hclosed := heff.stays_closed
    by_cases hres : a = .resume → s.currentReadyCoros[s.coroIndex]? ≠ some f.caller
    · have hp' := hp.effect (List.nodup_singleton _) hi heff hres
      have hmade' := heff.appends.mem hmade
      obtain ⟨coro, hc⟩ := hp.live
      obtain ⟨coro', hc'⟩ := hp'.live
      refine .parked k hp' hmade' (hclosed.issued _ hissued) ?_ (fun hown => ?_) (fun hown => ?_)
      · -- No other monitor gets the signal: the action does not name it.
        intro m mon hm hsig
        rcases heff.monitor_new hm with hm | ⟨rfl, _⟩
        · exact hcarried m mon hm hsig
        · simp [Action.names, hsig] at hsignal
      · -- The signal is live after the step, so it was before. Only the end of the target drops the
        -- monitor, and that raises the signal.
        have hnot : .raisedSignal f.signal ∉ s.history :=
          fun hmem => (ha'.own _ _ hown).2 (heff.appends.mem hmem)
        have hown' := ha.pending _ _ hmade hnot (by simp [hc]) (by simp)
        refine heff.monitor_stays hi (hpending hown') hmonitor ?_
        rintro rfl hdying
        have hperform : Sched.machine.perform s .destroy = s.destroyCoro f.target := by
          show s.perform .destroy = _
          simp [Sched.perform, hdying, Phase.mcoDead]
        have hcheck := ((Sched.destroyCoro_monitors hi hdying).1 _ _ (hpending hown')).2
        rw [hperform] at hown
        obtain ⟨signal, hs, _⟩ := Option.map_eq_some_iff.mp hown
        simp [Sched.checkSignal, hs] at hcheck
      · -- Only the end of a monitored target raises a signal that the action does not name.
        by_cases hown' : s.ownerOf f.signal = some f.caller
        · rcases Sched.closed_of_step hr he hown' (by simp [hc']) hown with
            hnames | ⟨c, m, rfl, hdying, hm⟩
          · rw [hsignal] at hnames
            cases hnames
          · have htarget : c = f.target := hcarried m _ hm rfl
            show (s.perform .destroy).coros f.target = none
            simp [Sched.perform, hdying, Phase.mcoDead, htarget, Sched.destroyCoro_coros]
        · exact hclosed.coro _ hissued (hraised hown')
    · -- The caller is resumed. It was ready, so its signal had been raised.
      obtain ⟨rfl, hpick⟩ : a = .resume ∧ s.currentReadyCoros[s.coroIndex]? = some f.caller := by
        simpa using hres
      have hready := hp.coroState.1.mp (Sched.ready_of_picked hi hpick)
      have hown : s.ownerOf f.signal ≠ some f.caller := by
        intro hown
        obtain ⟨w, hw⟩ := Option.ne_none_iff_exists'.mp fun hnone =>
          Sched.stampOf_isNone.mp hnone hown
        simp [Sched.raisedIn, hw] at hready
      refine .returned ?_ fun _ => hclosed.coro _ hissued (hraised hown)
      show (s.perform .resume).phase = _
      simp [Sched.perform, hpick, Sched.resume]

end JoinFrame.Ok

/-! ## The call itself -/

namespace Sched

variable {s : Sched} {c : Handle}

/-- Where a coroutine that made a signal and passed it to `bio_monitor` stands. It has waited `n`
times so far. -/
structure Joining (s : Sched) (c target signal monitor : Handle) (n : Int) : Prop where
  reachable : machine.Reachable s
  phase : s.phase = .running c
  counter : ∃ v, s.waitView c = some v ∧ v.counter = n
  made : .madeSignal c signal ∈ s.history
  carried : ∀ m mon, s.monitors m = some mon → mon.signal = signal → mon.target = target
  registered : s.ownerOf signal = some c → s.monitors monitor = some ⟨target, signal⟩ ∧
    target ∈ s.issued
  raised : s.ownerOf signal ≠ some c → s.signals signal = none ∧
    (target ≠ c → s.coros target = none)

theorem join_enabled (hr : machine.Reachable s) (hp : s.phase = .running c) (target : Handle)
    {signal monitor : Handle} (hs : s.Fresh signal) (hm : s.Fresh monitor)
    (hne : signal ≠ monitor) :
    machine.enabled s (.makeSignal signal) ∧ (s.makeSignal c signal).phase = .running c ∧
      machine.Reachable (s.makeSignal c signal) ∧
      machine.enabled (s.makeSignal c signal) (.monitor target signal monitor) := by
  obtain ⟨coro, hc⟩ := live_of_active (c := c) (inv_of_reachable hr).1 (by rw [hp]; rfl)
  have he : machine.enabled s (.makeSignal signal) := ⟨by simp [hp, Phase.mcoRunning], hs⟩
  have hphase : (s.makeSignal c signal).phase = .running c := by simp [Sched.makeSignal, hc, hp]
  refine ⟨he, hphase, hr.step_eq he (perform_makeSignal hp signal), by rw [hphase]; rfl, hm.1, ?_⟩
  simp [Sched.makeSignal, hc, Ne.symm hne, hm.2]

/-- Before it waits, `bio_join` has a registered monitor or the target is gone. -/
theorem joining (hr : machine.Reachable s) (hp : s.phase = .running c) {coro : Coro}
    (hc : s.coros c = some coro) (target : Handle) {signal monitor : Handle} (hs : s.Fresh signal)
    (hm : s.Fresh monitor) (hne : signal ≠ monitor) :
    ((s.makeSignal c signal).monitor target signal monitor).1.Joining c target signal monitor
      coro.waitCounter := by
  obtain ⟨_, hp₁, hr₁, he₂⟩ := join_enabled hr hp target hs hm hne
  have hr₂ : machine.Reachable ((s.makeSignal c signal).monitor target signal monitor).1 :=
    hr₁.step he₂
  set s₁ := s.makeSignal c signal with hs₁
  have hs₁' : s₁ = { s with
      signals := Function.update s.signals signal
        (some { owner := c, waitCounter := coro.waitCounter - 1 })
      coros := Function.update s.coros c
        (some { coro with pendingSignals := coro.pendingSignals ++ [signal] })
      issued := signal :: s.issued
      history := s.history ++ [.madeSignal c signal] } := by
    rw [hs₁]
    simp only [Sched.makeSignal, hc]
  have hown₁ : s₁.ownerOf signal = some c := by rw [hs₁']; simp [ownerOf]
  have hmade₁ : .madeSignal c signal ∈ s₁.history := by rw [hs₁']; simp
  have hcarried₁ : ∀ m mon, s₁.monitors m = some mon → mon.signal ≠ signal := by
    intro m mon hmon heq
    have hold : s.monitors m = some mon := by rw [hs₁'] at hmon; exact hmon
    have hf := fates_of_reachable hr
    exact hs.2 (heq ▸ (hf.issued m _ _ (hf.made m mon hold)).2)
  have hview₁ : s₁.waitView c = some coro.waitView := by
    rw [hs₁']
    simp [waitView, Coro.waitView]
  by_cases hcan : s₁.canMonitor target signal = true
  · -- The monitor is registered.
    obtain ⟨htarget, _, hother⟩ := canMonitor_iff.mp hcan
    obtain ⟨impl, himpl⟩ := Option.ne_none_iff_exists'.mp htarget
    have hct : c ≠ target := fun heq => hother (heq ▸ hown₁)
    unfold Sched.monitor at hr₂ ⊢
    rw [if_pos hcan] at hr₂ ⊢
    refine ⟨hr₂, hp₁, ?_, List.mem_append_left _ hmade₁, fun m mon hmon hsig => ?_,
      fun _ => ⟨Function.update_self .., ?_⟩, fun hown => absurd hown₁ hown⟩
    · refine ⟨coro.waitView, ?_, rfl⟩
      rw [← hview₁]
      exact congrArg (Option.map Coro.waitView) (Function.update_of_ne hct ..)
    · have hmon' : Function.update s₁.monitors monitor (some ⟨target, signal⟩) m = some mon := hmon
      rcases Table.insert_some hmon' with ⟨_, rfl⟩ | ⟨_, hold⟩
      · rfl
      · exact absurd hsig (hcarried₁ m mon hold)
    · exact List.mem_cons_of_mem _ (issued_of_live (inv_of_reachable hr₁).1 himpl)
  · -- `bio_monitor` refuses and raises the signal at once: the target is gone or is the caller.
    unfold Sched.monitor at hr₂ ⊢
    rw [if_neg hcan] at hr₂ ⊢
    obtain ⟨hmonitors, hphase, _⟩ := raiseSignal_frame s₁ signal
    have hcheck := checkSignal_raiseSignal s₁ signal
    have hnone : (s₁.raiseSignal signal).1.signals signal = none := by
      simpa [checkSignal] using hcheck
    refine ⟨hr₂, hphase.trans hp₁, ?_, (appends_raiseSignal s₁ signal).mem hmade₁,
      fun m mon hmon hsig => absurd hsig (hcarried₁ m mon (hmonitors ▸ hmon)), fun hown => ?_,
      fun _ => ⟨hnone, fun htc => ?_⟩⟩
    · obtain ⟨stamp, hstamp⟩ := Option.ne_none_iff_exists'.mp fun h =>
        (stampOf_isNone (s := s₁) (c := c)).mp h hown₁
      exact ⟨_, (raiseSignal_own hstamp hview₁).1, WaitView.notify_counter ..⟩
    · rw [ownerOf, hnone] at hown
      cases hown
    · refine ((shrinks_raiseSignal s₁ signal).live target).mpr ?_
      by_contra hlive
      refine hcan (canMonitor_iff.mpr ⟨hlive, fun h => ?_, ?_⟩)
      · rw [ownerOf, h] at hown₁
        cases hown₁
      · rw [hown₁]
        exact fun heq => htc (Option.some.inj heq).symm

/-- The call of `bio_join` establishes what `JoinFrame.Ok` says. -/
theorem Joining.wait {target signal monitor : Handle} {n : Int}
    (hj : s.Joining c target signal monitor n) (hn : n + 1 < 2 ^ 31) :
    JoinFrame.Ok ⟨c, target, signal, monitor⟩ (s.waitForSignals c [signal] true) := by
  have hi := (inv_of_reachable hj.reachable).1
  obtain ⟨coro, hc⟩ := live_of_active (c := c) hi (by rw [hj.phase]; rfl)
  obtain ⟨hmon, hown, _⟩ := waitForSignals_frame s c [signal] true
  have hclosed := staysClosed_waitForSignals s c [signal] true
  have hmade := (appends_waitForSignals s c [signal] true).mem hj.made
  by_cases hlive : s.ownerOf signal = some c
  · -- The signal is live, so the call parks the caller.
    obtain ⟨hreg, hissued⟩ := hj.registered hlive
    have howned : s.ownedBy c signal = true := by simp [ownedBy, hlive]
    have hset : s.waitSet c [signal] = [signal] := by simp [waitSet, howned]
    have hthreshold : s.threshold c [signal] true = 1 := by simp [threshold, howned]
    obtain ⟨v, hv, rfl⟩ := hj.counter
    obtain rfl : coro.waitView = v := by simpa [waitView, hc] using hv
    have hparked := parked_of_wait hj.reachable hc hn
      (show s.suspends c [signal] true = true by simp [suspends, howned])
    rw [hset, hthreshold] at hparked
    refine .parked _ hparked hmade (hclosed.issued _ hissued) ?_ (fun _ => hmon ▸ hreg) ?_
    · rw [hmon]
      exact hj.carried
    · rw [hown]
      exact fun h => absurd hlive h
  · -- Nothing to wait for: the call returns at once.
    obtain ⟨hnone, hdead⟩ := hj.raised hlive
    have hreturns : s.suspends c [signal] true = false := by simp [suspends, ownedBy, hlive]
    refine .returned ((waitForSignals_phase_iff hc hj.phase [signal] true).mpr hreturns) ?_
    intro htc
    rw [waitForSignals_eq hc, if_neg (by simp [hreturns])]
    exact (Function.update_of_ne htc ..).trans (hdead htc)

end Sched

/-! ## Every reachable state -/

namespace JoinState

variable {j : JoinState}

/-- The invariant: the scheduler's part is a state of the scheduler, and every call is as it
should be. -/
structure Inv (j : JoinState) : Prop where
  reachable : Sched.machine.Reachable j.sched
  frames : ∀ f ∈ j.frames, f.Ok j.sched

theorem not_inJoin (h : ¬j.inJoin) {f : JoinFrame} (hf : f ∈ j.frames) :
    j.sched.phase ≠ .running f.caller := fun hp => h ⟨f, hf, hp⟩

theorem perform_join {c target signal monitor : Handle} (hp : j.sched.phase = .running c) :
    machine.perform j (.join target signal monitor) =
      ⟨j.sched.join c target signal monitor, ⟨c, target, signal, monitor⟩ :: j.frames⟩ := by
  show j.perform (.join target signal monitor) = _
  simp [perform, hp, Phase.mcoRunning]

theorem Inv.step (hi : j.Inv) {a : JoinAction} (he : machine.enabled j a) :
    (machine.perform j a).Inv := by
  cases a with
  | sched a =>
    obtain ⟨hen, hnot, hnames⟩ := he
    exact ⟨hi.reachable.step hen, fun f hf => (hi.frames f hf).effect hi.reachable hen
      (not_inJoin hnot hf) (hnames f hf).1 (hnames f hf).2⟩
  | join target signal monitor =>
    obtain ⟨hrun, hnot, hs, hm, hne⟩ := he
    obtain ⟨c, hp, hcount⟩ := Sched.running_of_any hrun
    rw [perform_join hp]
    obtain ⟨coro, hc⟩ := Sched.live_of_active (c := c) (Sched.inv_of_reachable hi.reachable).1
      (by rw [hp]; rfl)
    have hj := Sched.joining hi.reachable hp hc target hs hm hne
    have hwait := Sched.wait_enabled hj.phase [signal] true
    refine ⟨hj.reachable.step_eq hwait (Sched.perform_wait hj.phase _ _), fun f hmem => ?_⟩
    rcases List.mem_cons.mp hmem with rfl | hf
    · exact hj.wait (hcount coro (by simp [hc]))
    · have hother : Phase.running c ≠ .running f.caller := hp ▸ not_inJoin hnot hf
      obtain ⟨he₁, hp₁, hr₁, he₂⟩ := Sched.join_enabled hi.reachable hp target hs hm hne
      have h₁ := (hi.frames f hf).effect hi.reachable he₁ (hp ▸ hother) rfl (by simp)
      rw [Sched.perform_makeSignal hp] at h₁
      have hold := (hi.frames f hf).signal_issued hi.reachable (hp ▸ hother)
      have hnew : signal ≠ f.signal := fun heq => hs.2 (heq ▸ hold)
      have h₂ : f.Ok ((j.sched.makeSignal c signal).monitor target signal monitor).1 :=
        h₁.effect hr₁ he₂ (hp₁ ▸ hother) (by simp [Action.names, hnew]) (by simp)
      have h₃ := h₂.effect hj.reachable hwait (hj.phase ▸ hother) rfl (by simp)
      rw [Sched.perform_wait hj.phase] at h₃
      exact h₃
  | leave =>
    refine ⟨hi.reachable, fun f hf => hi.frames f ?_⟩
    exact (List.mem_filter.mp hf).1

/-- Each action is a run of the scheduler. -/
theorem step_joined (hi : j.Inv) {a : JoinAction} (he : machine.enabled j a) :
    Sched.machine.Joined j.sched (machine.perform j a).sched := by
  cases a with
  | sched a => exact Machine.Joined.single he.1
  | join target signal monitor =>
    obtain ⟨hrun, hnot, hs, hm, hne⟩ := he
    obtain ⟨c, hp, hcount⟩ := Sched.running_of_any hrun
    obtain ⟨he₁, hp₁, hr₁, he₂⟩ := Sched.join_enabled hi.reachable hp target hs hm hne
    obtain ⟨coro, hc⟩ := Sched.live_of_active (c := c) (Sched.inv_of_reachable hi.reachable).1
      (by rw [hp]; rfl)
    have hj := Sched.joining hi.reachable hp hc target hs hm hne
    have h₁ := Machine.Joined.single he₁
    rw [Sched.perform_makeSignal hp] at h₁
    have h₃ := Machine.Joined.single (Sched.wait_enabled hj.phase [signal] true)
    rw [Sched.perform_wait hj.phase] at h₃
    rw [perform_join hp]
    exact (h₁.trans (Machine.Joined.single he₂)).trans h₃
  | leave => exact Machine.Joined.refl _

theorem inv_of_reachable (h : machine.Reachable j) : j.Inv := by
  refine Machine.invariant (P := Inv) ?_ (fun j a _ hi he => hi.step he) h
  rintro j rfl
  exact ⟨.init rfl, nofun⟩

end JoinState

/-! ## The contract -/

/-- What `bio_monitor`, `bio_unmonitor` and the termination of a coroutine do in the state `s`. -/
structure Sched.MonitorContract (s : Sched) : Prop where
  /-- the target is live, the signal is not raised and not the target's own -/
  registers : ∀ t sig m, s.coroState t ≠ .dead → s.checkSignal sig = false →
    s.ownerOf sig ≠ some t → (s.monitor t sig m).2 = m ∧
      (s.monitor t sig m).1.monitors = Function.update s.monitors m (some ⟨t, sig⟩) ∧
      (s.monitor t sig m).1.signals = s.signals
  /-- in every other case -/
  raises : ∀ t sig m, (s.coroState t = .dead ∨ s.checkSignal sig = true ∨ s.ownerOf sig = some t) →
    s.monitor t sig m = ((s.raiseSignal sig).1, Handle.invalid) ∧
      (s.monitor t sig m).1.checkSignal sig = true ∧
      (s.monitor t sig m).1.monitors = s.monitors
  /-- a monitor is registered and its target is live, or it was discarded once, or its target
  terminated and it fired once -/
  fate : ∀ m t sig, .monitored m t sig ∈ s.history →
    (s.monitors m = some ⟨t, sig⟩ ∧ s.discards m = 0 ∧ s.fires m = 0 ∧ s.coroState t ≠ .dead) ∨
    (s.monitors m = none ∧ s.discards m = 1 ∧ s.fires m = 0) ∨
    (s.monitors m = none ∧ s.discards m = 0 ∧ s.fires m = 1 ∧ .terminated t ∈ s.history)
  /-- the termination fires the monitors that are registered -/
  delivers : ∀ t, s.phase = .dying t → ∀ m sig, s.monitors m = some ⟨t, sig⟩ →
    (s.destroyCoro t).monitors m = none ∧ (s.destroyCoro t).fires m = 1 ∧
      (s.destroyCoro t).checkSignal sig = true
  /-- and raises no other signal -/
  only : ∀ t, s.phase = .dying t → ∀ sig, .raisedSignal sig ∈ (s.destroyCoro t).history →
    .raisedSignal sig ∈ s.history ∨ ∃ m, s.monitors m = some ⟨t, sig⟩
  once : ∀ sig, s.history.count (.raisedSignal sig) ≤ 1
  /-- a monitor that was discarded or fired is not touched again -/
  inert : ∀ m, s.discards m ≠ 0 ∨ s.fires m ≠ 0 → s.unmonitor m = s

theorem Sched.monitorContract {s : Sched} (h : machine.Reachable s) : s.MonitorContract := by
  have hi := (inv_of_reachable h).1
  have hf := fates_of_reachable h
  have hdead : ∀ t, s.coroState t = .dead ↔ s.coros t = none := by
    intro t
    refine (hi.view.dead_iff t).trans ?_
    simp [Sched.view, pendingOf]
  have hsig : ∀ sig, s.checkSignal sig = true ↔ s.signals sig = none := by
    intro sig
    simp [checkSignal]
  refine ⟨fun t sig m ht hs ho => ?_, fun t sig m hcase => ?_, fun m t sig hm => ?_,
    fun t hp m sig hm => ?_, fun t hp => (destroyCoro_monitors hi hp).2.2,
    (accounted_of_reachable h).raised_once, fun m hm => ?_⟩
  · have hcan : s.canMonitor t sig = true := by
      refine canMonitor_iff.mpr ⟨mt (hdead t).mpr ht, fun hnone => ?_, ho⟩
      rw [(hsig sig).mpr hnone] at hs
      cases hs
    simp [monitor, hcan]
  · have hcan : ¬s.canMonitor t sig = true := by
      intro hcan
      obtain ⟨ht, hs, ho⟩ := canMonitor_iff.mp hcan
      rcases hcase with hcase | hcase | hcase
      · exact ht ((hdead t).mp hcase)
      · exact hs ((hsig sig).mp hcase)
      · exact ho hcase
    rw [show s.monitor t sig m = ((s.raiseSignal sig).1, Handle.invalid) from if_neg hcan]
    exact ⟨rfl, checkSignal_raiseSignal s sig, (raiseSignal_frame s sig).1⟩
  · cases hf.fate m t sig hm with
    | registered hreg h₁ h₂ =>
      refine .inl ⟨hreg, h₁, h₂, fun hnone => ?_⟩
      obtain ⟨l, hl, _⟩ := hi.view.filed.mem m t (by simp [Sched.view, targetOf, hreg])
      simp [Sched.view, monitorsOf, (hdead t).mp hnone] at hl
    | discarded hnone h₁ h₂ => exact .inr (.inl ⟨hnone, h₁, h₂⟩)
    | fired hnone h₁ h₂ ht => exact .inr (.inr ⟨hnone, h₁, h₂, ht.resolve_right (by simp)⟩)
  · obtain ⟨hnone, hcheck⟩ := (destroyCoro_monitors hi hp).1 m sig hm
    refine ⟨hnone, ?_, hcheck⟩
    have he : machine.enabled s .destroy := by
      show Option.isSome _ = true
      rw [hp]
      rfl
    have hperform : machine.perform s .destroy = s.destroyCoro t := by
      show s.perform .destroy = _
      simp [perform, hp, Phase.mcoDead]
    have happ := (Effect.of_step he).appends
    have hf' := fates_of_reachable (h.step he)
    have hmade := happ.mem (hf.made m _ hm)
    have hdiscards : (machine.perform s .destroy).discards m = s.discards m :=
      happ.count_eq (by simp [records, Event.ofTrigger])
    rw [hperform] at hf' hdiscards
    cases hf'.fate m t sig (hperform ▸ hmade) with
    | registered hreg _ _ => rw [hnone] at hreg; cases hreg
    | discarded _ h₁ _ =>
      cases hf.fate m t sig (hf.made m _ hm) with
      | registered _ h₀ _ => rw [hdiscards, h₀] at h₁; cases h₁
      | discarded hreg _ _ => rw [hm] at hreg; cases hreg
      | fired hreg _ _ _ => rw [hm] at hreg; cases hreg
    | fired _ _ h₂ _ => exact h₂
  · have hnone : s.monitors m = none := by
      by_contra hne
      obtain ⟨mon, hmon⟩ := Option.ne_none_iff_exists'.mp hne
      cases hf.fate m _ _ (hf.made m mon hmon) with
      | registered _ h₁ h₂ => exact hm.elim (fun h => h h₁) (fun h => h h₂)
      | discarded hreg _ _ => exact hne hreg
      | fired hreg _ _ _ => exact hne hreg
    simp only [unmonitor, hnone]

namespace JoinState

variable {j : JoinState}

theorem run_joined (h : machine.Reachable j) {as : List JoinAction} (hl : machine.Legal j as) :
    Sched.machine.Joined j.sched (machine.run j as).sched := by
  refine (Machine.run_invariant (P := fun k => machine.Reachable k ∧
    Sched.machine.Joined j.sched k.sched) ?_ ⟨h, Machine.Joined.refl _⟩ hl).2
  exact fun k a hk he => ⟨hk.1.step he, hk.2.trans (step_joined (inv_of_reachable hk.1) he)⟩

/-- Monitors are delivered as the contract says, and when `bio_join` returns in another coroutine
than its target, the target is dead and stays so. -/
theorem monitor_delivery (h : machine.Reachable j) :
    j.sched.MonitorContract ∧
    ∀ f ∈ j.frames, j.sched.phase = .running f.caller → f.target ≠ f.caller →
      j.sched.coroState f.target = .dead ∧
      (f.target ∈ j.sched.issued → ∀ as, machine.Legal j as →
        (machine.run j as).sched.coroState f.target = .dead ∧
        (machine.run j as).sched.phase.active ≠ some f.target) := by
  have hinv := inv_of_reachable h
  refine ⟨Sched.monitorContract hinv.reachable, fun f hf hp hne => ?_⟩
  have hgone : j.sched.coros f.target = none := by
    cases hinv.frames f hf with
    | returned _ hdead => exact hdead hne
    | parked _ hparked _ _ _ _ _ =>
      exact absurd (by rw [hp]; rfl) (hparked.not_active (Sched.inv_of_reachable hinv.reachable).1)
  have hdead : ∀ s : Sched, s.coros f.target = none → s.coroState f.target = .dead :=
    fun s hs => by simp [Sched.coroState, hs]
  refine ⟨hdead _ hgone, fun hissued as hlegal => ?_⟩
  have hrun := (inv_of_reachable (h.run hlegal)).reachable
  have hgone' := (Sched.stays_dead (run_joined h hlegal) hissued hgone).2
  refine ⟨hdead _ hgone', fun hactive => ?_⟩
  have hrunning : (machine.run j as).sched.coroState f.target = .running :=
    ((Sched.inv_of_reachable hrun).1.view.active f.target).mpr hactive
  rw [hdead _ hgone'] at hrunning
  cases hrunning

/-- A coroutine joins another one, which terminates. -/
theorem monitor_delivery_join :
    let j := machine.run ⟨Sched.init, []⟩ [.sched (.spawn false ⟨0, 1⟩), .sched (.spawn false ⟨1, 1⟩),
      .sched .enterLoop, .sched .endPass, .sched .swap, .sched .resume,
      .join ⟨1, 1⟩ ⟨2, 1⟩ ⟨3, 1⟩, .sched .resume, .sched .finish, .sched .destroy, .sched .endPass,
      .sched .swap, .sched .resume]
    j.sched.phase = .running ⟨0, 1⟩ ∧ j.frames = [⟨⟨0, 1⟩, ⟨1, 1⟩, ⟨2, 1⟩, ⟨3, 1⟩⟩] ∧
      j.sched.coroState ⟨1, 1⟩ = .dead := by
  intro j
  have hr : machine.Reachable j := Machine.Reachable.run (.init rfl) (by decide)
  obtain ⟨_, hjoin⟩ := monitor_delivery hr
  exact ⟨rfl, rfl, (hjoin ⟨⟨0, 1⟩, ⟨1, 1⟩, ⟨2, 1⟩, ⟨3, 1⟩⟩ (List.mem_singleton.mpr rfl) rfl
    (by decide)).1⟩

end JoinState

/-- Two monitors share a signal. One of them is discarded, and yet the termination of the target
raises its signal, which the other one carries too. -/
theorem unmonitored_signal_raised :
    ∃ s : Sched, Sched.machine.Reachable s ∧ s.phase = .dying ⟨0, 1⟩ ∧
      .monitored ⟨3, 1⟩ ⟨0, 1⟩ ⟨2, 1⟩ ∈ s.history ∧ .unmonitored ⟨3, 1⟩ ∈ s.history ∧
      .raisedSignal ⟨2, 1⟩ ∉ s.history ∧
      .raisedSignal ⟨2, 1⟩ ∈ (s.destroyCoro ⟨0, 1⟩).history := by
  refine ⟨Sched.machine.run Sched.init [.spawn false ⟨0, 1⟩, .spawn false ⟨1, 1⟩, .enterLoop,
    .endPass, .swap, .resume, .yield, .resume, .makeSignal ⟨2, 1⟩,
    .monitor ⟨0, 1⟩ ⟨2, 1⟩ ⟨3, 1⟩, .monitor ⟨0, 1⟩ ⟨2, 1⟩ ⟨4, 1⟩, .unmonitor ⟨3, 1⟩, .yield,
    .endPass, .swap, .resume, .finish], Machine.Reachable.run (.init rfl) (by decide), rfl, ?_⟩
  decide

end Bio
