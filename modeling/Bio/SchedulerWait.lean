import Bio.SchedulerSignals
import Mathlib.Data.List.Dedup

/-!
# Waiting for signals

`bio_wait_for_signals` keeps no set of signals. It keeps a count in the coroutine and a generation
number in each signal, and `bio_raise_signal` compares the numbers and counts down.

* `WaitView` and `stampOf` are all that decides when a coroutine is woken. An action of another
  coroutine changes them through raises only (`Effect.keeps`).
* `Parked` relates the count to the set of signals for which the coroutine waits. It is kept by
  every action until the coroutine is resumed.

Result: `wait_exact_iff`. The count is the number of array entries, so it fits the set when no entry
is repeated. With a repeated entry `wait_all` never returns.
-/

namespace Bio

/-- The fields of a coroutine that decide when it is woken. -/
structure WaitView where
  state : CoroState
  blocking : Int
  counter : Int
deriving DecidableEq

namespace WaitView

/-- What the raise of a signal with the generation number `stamp` does to its owner. -/
def notify (v : WaitView) (stamp : Int) : WaitView :=
  if v.state = .waiting ∧ int32 stamp = int32 v.counter then
    if v.blocking - 1 = 0 then { v with state := .ready, blocking := v.blocking - 1 }
    else { v with blocking := v.blocking - 1 }
  else v

theorem notify_counter (v : WaitView) (stamp : Int) : (v.notify stamp).counter = v.counter := by
  unfold notify
  split
  · split <;> rfl
  · rfl

end WaitView

def Coro.waitView (coro : Coro) : WaitView where
  state := coro.state
  blocking := coro.numBlockingSignals
  counter := coro.waitCounter

namespace Sched

variable {s s' s'' : Sched} {c : Handle}

def waitView (s : Sched) (c : Handle) : Option WaitView := (s.coros c).map Coro.waitView

/-- The generation number of a live signal of `c`. -/
def stampOf (s : Sched) (c h : Handle) : Option Int :=
  (s.signals h).bind fun signal => if signal.owner = c then some signal.waitCounter else none

/-- Nothing that decides when `c` is woken changes. -/
structure SameFor (c : Handle) (s s' : Sched) : Prop where
  view : s'.waitView c = s.waitView c
  stamp : ∀ h, s'.stampOf c h = s.stampOf c h

theorem SameFor.refl (c : Handle) (s : Sched) : SameFor c s s := ⟨rfl, fun _ => rfl⟩

theorem SameFor.trans (h : SameFor c s s') (h' : SameFor c s' s'') : SameFor c s s'' :=
  ⟨h'.view.trans h.view, fun x => (h'.stamp x).trans (h.stamp x)⟩

theorem SameFor.of_eq (hc : s'.coros c = s.coros c) (hs : s'.signals = s.signals) :
    SameFor c s s' :=
  ⟨by simp only [waitView, hc], fun h => by simp only [stampOf, hs]⟩

/-- A write to other coroutines, or to fields of `c` that do not matter here. -/
theorem SameFor.update {d : Handle} {v : Option Coro}
    (hc : s'.coros = Function.update s.coros d v) (hs : s'.signals = s.signals)
    (hd : d = c → v.map Coro.waitView = s.waitView c) : SameFor c s s' := by
  refine ⟨?_, fun h => by simp only [stampOf, hs]⟩
  by_cases hdc : d = c
  · subst hdc
    simpa [waitView, hc] using hd rfl
  · simp only [waitView, hc, Function.update_of_ne (Ne.symm hdc)]

/-- A write to fields of one coroutine that do not matter here. -/
theorem SameFor.modify {d : Handle} {f : Coro → Coro}
    (hc : s'.coros = Function.update s.coros d ((s.coros d).map f)) (hs : s'.signals = s.signals)
    (hf : ∀ coro, (f coro).waitView = coro.waitView) : SameFor c s s' := by
  refine SameFor.update hc hs ?_
  rintro rfl
  rw [Option.map_map]
  exact congrFun (congrArg Option.map (funext hf)) _

theorem stampOf_update {h : Handle} {v : Option Signal}
    (hs : s'.signals = Function.update s.signals h v) (x : Handle) :
    s'.stampOf c x = if x = h then
      v.bind fun signal => if signal.owner = c then some signal.waitCounter else none
      else s.stampOf c x := by
  by_cases hx : x = h
  · subst hx
    simp [stampOf, hs]
  · simp [stampOf, hs, hx]

theorem stampOf_some {h : Handle} {signal : Signal} (hs : s.signals h = some signal) :
    s.stampOf c h = if signal.owner = c then some signal.waitCounter else none := by
  simp [stampOf, hs]

/-! ## Raises -/

/-- A raise of anything but a live signal of `c` does not concern `c`. -/
theorem sameFor_raiseSignal {h : Handle} (hh : s.stampOf c h = none) :
    SameFor c s (s.raiseSignal h).1 := by
  cases hs : s.signals h with
  | none =>
    rw [raiseSignal_none hs]
    exact SameFor.refl c s
  | some signal =>
    have hne : signal.owner ≠ c := by
      intro heq
      simp [stampOf_some hs, heq] at hh
    rw [raiseSignal_some hs]
    have hnotify : SameFor c s (s.notifyOwner signal).1 := by
      rcases notifyOwner_cases s signal with he | ⟨owner, _, _, ⟨_, he⟩ | ⟨_, he⟩⟩ <;> rw [he]
      · exact SameFor.refl c s
      · exact SameFor.update rfl rfl fun heq => absurd heq hne
      · exact SameFor.update rfl rfl fun heq => absurd heq hne
    refine hnotify.trans ⟨?_, fun x => ?_⟩
    · exact congrArg (Option.map Coro.waitView) (Function.update_of_ne hne.symm ..)
    · refine (stampOf_update (s := (s.notifyOwner signal).1) rfl x).trans ?_
      split
      · next hx => rw [hx, stampOf, notifyOwner_signals, hs]; simp [hne]
      · rfl

/-- The raise of a live signal of `c`. -/
theorem raiseSignal_own {h : Handle} {stamp : Int} {v : WaitView}
    (hh : s.stampOf c h = some stamp) (hv : s.waitView c = some v) :
    (s.raiseSignal h).1.waitView c = some (v.notify stamp) ∧
      ∀ x, (s.raiseSignal h).1.stampOf c x = if x = h then none else s.stampOf c x := by
  obtain ⟨signal, hs, hown⟩ := Option.bind_eq_some_iff.mp hh
  obtain ⟨coro, hc, rfl⟩ := Option.map_eq_some_iff.mp hv
  have howner : signal.owner = c ∧ signal.waitCounter = stamp := by
    revert hown
    split <;> simp_all
  obtain ⟨rfl, rfl⟩ := howner
  rw [raiseSignal_some hs]
  refine ⟨?_, fun x => ?_⟩
  · have hdrop : (((s.notifyOwner signal).1.dropSignal h signal).log (.raisedSignal h)).waitView
        signal.owner = (s.notifyOwner signal).1.waitView signal.owner := by
      simp only [waitView, dropSignal, log, Function.update_self, Option.map_map]
      rfl
    rw [hdrop]
    unfold notifyOwner
    simp only [hc, blocks, decide_eq_true_eq]
    split
    · next hb =>
      split
      · next hn => simp [waitView, pushReady, setCoro, Coro.waitView, WaitView.notify, hb, hn]
      · next hn => simp [waitView, setCoro, Coro.waitView, WaitView.notify, hb, hn]
    · next hb =>
      simp [waitView, hc, WaitView.notify, Coro.waitView, hb]
  · refine (stampOf_update (s := (s.notifyOwner signal).1) rfl x).trans ?_
    split
    · rfl
    · simp only [stampOf, notifyOwner_signals]

/-! ## What the other coroutines do -/

theorem sameFor_dropMonitor (s : Sched) (ref : Handle) (monitor : Monitor) :
    SameFor c s (s.dropMonitor ref monitor) :=
  SameFor.modify rfl rfl fun _ => rfl

theorem sameFor_destroySignal {d h : Handle} (hd : s.ownerOf h = some d) (hne : d ≠ c) :
    SameFor c s (s.destroySignal h) := by
  obtain ⟨signal, hs, rfl⟩ := Option.map_eq_some_iff.mp hd
  simp only [destroySignal, hs]
  refine ⟨?_, fun x => ?_⟩
  · exact congrArg (Option.map Coro.waitView) (Function.update_of_ne hne.symm ..)
  · refine (stampOf_update (s := s) rfl x).trans ?_
    split
    · next hx => rw [hx, stampOf_some hs, if_neg hne]; rfl
    · rfl

theorem sameFor_destroySignals (l : List Handle) : ∀ {s : Sched} {d : Handle}, s.Inv →
    s.pendingOf d = some l → d ≠ c → SameFor c s (l.foldl destroySignal s) := by
  induction l with
  | nil => exact fun _ _ _ => SameFor.refl c _
  | cons h l ih =>
    intro s d hi hl hne
    have ho : s.ownerOf h = some d := hi.view.signals.own d _ hl h List.mem_cons_self
    exact (sameFor_destroySignal ho hne).trans
      (ih (hi.destroySignal h) (destroySignal_pendingOf ho hl) hne)

theorem sameFor_removeCoro {d : Handle} (s : Sched) (hne : d ≠ c) :
    SameFor c s (s.removeCoro d) := by
  unfold removeCoro
  split
  · exact SameFor.update rfl rfl fun heq => absurd heq hne
  · exact SameFor.of_eq rfl rfl

theorem sameFor_suspend {d : Handle} (s : Sched) (hne : d ≠ c) : SameFor c s (s.suspend d) := by
  unfold suspend
  split
  · dsimp only
    split
    · exact SameFor.update (s := s) rfl rfl fun heq => absurd heq hne
    · exact SameFor.update (s := s) rfl rfl fun heq => absurd heq hne
  · exact SameFor.of_eq rfl rfl

/-- The stamps that a wait of `d` leaves. -/
theorem stampOf_stamp (s : Sched) (d : Handle) (counter : Int) (l : List Handle) (h : Handle) :
    (s.stamp d counter l).stampOf c h =
      if d = c ∧ h ∈ l then (s.stampOf c h).map fun _ => counter else s.stampOf c h := by
  cases hs : s.signals h with
  | none => simp [stampOf, Sched.stamp, hs]
  | some signal =>
    by_cases ho : signal.owner = c
    · subst ho
      by_cases hd : d = signal.owner ∧ h ∈ l
      · obtain ⟨rfl, hl⟩ := hd
        simp [stampOf, Sched.stamp, hs, hl]
      · have hd' : ¬(signal.owner = d ∧ h ∈ l) := fun h' => hd ⟨h'.1.symm, h'.2⟩
        simp [stampOf, Sched.stamp, hs, hd, hd']
    · have hnone : s.stampOf c h = none := by simp [stampOf_some hs, ho]
      simp only [hnone, Option.map_none, ite_self]
      simp only [stampOf, Sched.stamp, hs, Option.map_some, Option.bind_some]
      split <;> simp_all

theorem sameFor_waitForSignals {d : Handle} (s : Sched) (hne : d ≠ c) (signals : List Handle)
    (waitAll : Bool) : SameFor c s (s.waitForSignals d signals waitAll) := by
  cases hc : s.coros d with
  | none =>
    simp only [waitForSignals, hc]
    exact SameFor.refl c s
  | some coro =>
    have hloop : SameFor c s (s.afterWaitLoop d coro signals) := by
      refine ⟨?_, fun h => ?_⟩
      · exact congrArg (Option.map Coro.waitView) (Function.update_of_ne hne.symm ..)
      · refine (stampOf_stamp _ d _ signals h).trans ?_
        rw [if_neg fun h' => hne h'.1]
        rfl
    rw [waitForSignals_eq hc]
    split
    · refine (hloop.trans ?_).trans (sameFor_suspend _ hne)
      exact SameFor.update rfl rfl fun heq => absurd heq hne
    · exact hloop

end Sched

/-- The actions that touch what decides when the coroutine that does them is woken. -/
def Action.ofCoro : Action → Bool
  | .makeSignal _ | .yield | .wait _ _ | .destroy => true
  | _ => false

namespace Sched

variable {s s' s'' : Sched} {c : Handle}

/-- The frame rule: a property of what decides when `c` is woken, kept by raises, is kept by every
action except its creation, its resumption and what it does itself. -/
theorem Effect.keeps {P : Sched → Prop} (hsame : ∀ t t', SameFor c t t' → P t → P t')
    (hraise : ∀ t h, P t → P (t.raiseSignal h).1) {a : Action} (he : Effect s a s') (hi : s.Inv)
    (hspawn : ∀ daemon, a ≠ .spawn daemon c)
    (hidle : a.ofCoro = true → s.phase.active ≠ some c)
    (hres : a = .resume → s.currentReadyCoros[s.coroIndex]? ≠ some c) (hP : P s) : P s' := by
  have hrunning : a.ofCoro = true → ∀ d, s.phase = .running d → d ≠ c := by
    rintro ha d hd rfl
    exact hidle ha (by rw [hd]; rfl)
  have hquiet : ∀ t : Sched, t.coros = s.coros → t.signals = s.signals → P t :=
    fun t hc hs => hsame s t (SameFor.of_eq (congrFun hc c) hs) hP
  cases he with
  | @spawn daemon h _ fresh =>
    exact hsame _ _ (SameFor.update (s := s) rfl rfl fun heq => absurd (heq ▸ rfl) (hspawn daemon)) hP
  | @makeSignal d h hp fresh =>
    refine hsame _ _ ?_ hP
    unfold Sched.makeSignal
    split
    · refine ⟨?_, fun x => ?_⟩
      · exact congrArg (Option.map Coro.waitView) (Function.update_of_ne (hrunning rfl d hp).symm ..)
      · refine (stampOf_update (s := s) rfl x).trans ?_
        split
        · next hx =>
          -- The new signal had no stamp, and its owner is another coroutine.
          have hnone : s.ownerOf h = none := by
            by_contra hne
            exact fresh.2 (hi.view.signal_issued h hne)
          simp [stampOf, ownerOf_eq_none.mp hnone, hx, hrunning rfl d hp]
        · rfl
    · exact SameFor.refl c s
  | raise _ => exact hraise _ _ hP
  | monitor _ _ =>
    unfold Sched.monitor
    split
    · exact hsame _ _ (SameFor.modify (s := s)
        (f := fun impl => { impl with monitors := impl.monitors ++ [_] }) rfl rfl fun _ => rfl) hP
    · exact hraise _ _ hP
  | unmonitor _ =>
    unfold Sched.unmonitor
    split
    · exact hsame _ _ ((sameFor_dropMonitor s _ _).trans (SameFor.of_eq rfl rfl)) hP
    · exact hP
  | yield hp => exact hsame _ _ (sameFor_suspend s (hrunning rfl _ hp)) hP
  | wait hp => exact hsame _ _ (sameFor_waitForSignals s (hrunning rfl _ hp) _ _) hP
  | daemonize _ =>
    unfold Sched.daemonize
    split
    · next coro hc =>
      split
      · exact hP
      · refine hsame _ _ (SameFor.update (s := s) rfl rfl ?_) hP
        rintro rfl
        simp [waitView, hc, Coro.waitView]
    · exact hP
  | finish _ => exact hquiet _ rfl rfl
  | issue _ _ => exact hquiet _ rfl rfl
  | terminate _ => exact hquiet _ rfl rfl
  | enterLoop _ => exact hquiet _ rfl rfl
  | @resume d _ hd =>
    refine hsame _ _ (SameFor.update (s := s) (d := d) rfl rfl fun heq => ?_) hP
    exact absurd (heq ▸ hd) (hres rfl)
  | @destroy d hp =>
    have hne : d ≠ c := by
      rintro rfl
      exact hidle rfl (by rw [hp]; rfl)
    obtain ⟨coro, hc⟩ := live_of_active (c := d) hi (by rw [hp]; rfl)
    have hpending : s.pendingOf d = some coro.pendingSignals := by simp [pendingOf, hc]
    rw [destroyCoro_eq hc]
    -- The end of another coroutine closes its signals and raises those of its monitors.
    refine hsame _ _ (sameFor_removeCoro _ hne) ?_
    refine foldl_induction (fun t m ht => ?_) _
      (hsame _ _ (sameFor_destroySignals _ hi hpending hne) hP)
    unfold Sched.triggerMonitor
    split
    · next monitor _ =>
      exact hsame _ _ ((sameFor_dropMonitor _ m monitor).trans (SameFor.of_eq rfl rfl))
        (hraise t monitor.signal ht)
    · exact ht
  | endPass _ _ => exact hquiet _ rfl rfl
  | swap _ => exact hquiet _ rfl rfl

/-- The coroutine `c` exists and its entrypoint has not returned. -/
structure Within (s : Sched) (c : Handle) : Prop where
  issued : c ∈ s.issued
  alive : s.phase ≠ .dying c

/-- Only the coroutine itself can return from its entrypoint. -/
theorem Within.effect (h : s.Within c) {a : Action} (he : Effect s a s')
    (hidle : s.phase ≠ .running c) : s'.Within c := by
  refine ⟨he.stays_closed.issued c h.issued, ?_⟩
  have hraise : ∀ ref, (s.raiseSignal ref).1.phase ≠ .dying c := by
    intro ref
    rw [(raiseSignal_frame s ref).2.1]
    exact h.alive
  cases he with
  | makeSignal _ _ =>
    unfold Sched.makeSignal
    split <;> exact h.alive
  | raise _ => exact hraise _
  | monitor _ _ =>
    unfold Sched.monitor
    split
    · exact h.alive
    · exact hraise _
  | unmonitor _ =>
    unfold Sched.unmonitor
    split <;> exact h.alive
  | yield _ =>
    rw [suspend_phase]
    nofun
  | @wait d signals waitAll _ =>
    rcases waitForSignals_phase s d signals waitAll with hphase | hphase <;> rw [hphase]
    · nofun
    · exact h.alive
  | daemonize _ =>
    unfold Sched.daemonize
    split
    · split <;> exact h.alive
    · exact h.alive
  | finish hp =>
    rintro ⟨⟩
    exact hidle hp
  | destroy _ =>
    rw [destroyCoro_phase]
    nofun
  | endPass _ _ =>
    unfold Sched.endPass
    dsimp only
    split <;> nofun
  | spawn _ _ => exact h.alive
  | issue _ _ => exact h.alive
  | terminate _ => exact h.alive
  | enterLoop _ => nofun
  | resume _ _ => nofun
  | swap _ => nofun

theorem Within.not_active (h : s.Within c) (hidle : s.phase ≠ .running c) :
    s.phase.active ≠ some c := by
  have halive := h.alive
  cases hp : s.phase <;> simp [hp] at halive hidle ⊢
  · exact hidle
  · exact halive

theorem Within.not_spawn (h : s.Within c) {a : Action} (he : Effect s a s') (daemon : Bool) :
    a ≠ .spawn daemon c := by
  rintro rfl
  cases he with
  | spawn _ fresh => exact fresh.2 h.issued

/-- The frame rule for a coroutine that is inside a call and not running: what raises keep, and what
holds when the coroutine is resumed, is kept by every action. -/
theorem Effect.keeps_within {P : Sched → Prop} (hsame : ∀ t t', SameFor c t t' → P t → P t')
    (hraise : ∀ t h, P t → P (t.raiseSignal h).1) {a : Action} (he : Effect s a s') (hi : s.Inv)
    (hin : s.Within c) (hidle : s.phase ≠ .running c) (hres : P s → P (s.resume c)) (hP : P s) :
    P s' := by
  by_cases hpick : a = .resume → s.currentReadyCoros[s.coroIndex]? ≠ some c
  · exact he.keeps hsame hraise hi (hin.not_spawn he) (fun _ => hin.not_active hidle) hpick hP
  · obtain ⟨rfl, hc⟩ : a = .resume ∧ s.currentReadyCoros[s.coroIndex]? = some c := by
      simpa using hpick
    cases he with
    | resume _ hd =>
      obtain rfl := Option.some.inj (hc.symm.trans hd)
      exact hres hP

/-! ## Generation numbers -/

/-- The signals of `c` carry the numbers of its past waits. -/
def StampedFor (c : Handle) (s : Sched) : Prop := ∀ v, s.waitView c = some v →
  0 ≤ v.counter ∧ ∀ h stamp, s.stampOf c h = some stamp → -1 ≤ stamp ∧ stamp ≤ v.counter

theorem StampedFor.same (hs : SameFor c s s') (h : StampedFor c s) : StampedFor c s' := by
  intro v hv
  rw [hs.view] at hv
  refine ⟨(h v hv).1, fun x stamp hx => ?_⟩
  rw [hs.stamp] at hx
  exact (h v hv).2 x stamp hx

theorem StampedFor.raiseSignal (hs : StampedFor c s) (h : Handle) :
    StampedFor c (s.raiseSignal h).1 := by
  cases hh : s.stampOf c h with
  | none => exact hs.same (sameFor_raiseSignal hh)
  | some stamp =>
    cases hv : s.waitView c with
    | none =>
      intro v hv'
      have hnone : s.coros c = none := by simpa [waitView] using hv
      simp [waitView, ((shrinks_raiseSignal s h).live c).mpr hnone] at hv'
    | some v =>
      obtain ⟨hview, hstamp⟩ := raiseSignal_own hh hv
      obtain ⟨hpos, hle⟩ := hs v hv
      intro v' hv'
      rw [hview] at hv'
      cases hv'
      rw [WaitView.notify_counter]
      refine ⟨hpos, fun x w hx => ?_⟩
      rw [hstamp] at hx
      split at hx
      · cases hx
      · exact hle x w hx

/-- No signal of a coroutine that is not there. -/
theorem stampOf_dead (hi : s.Inv) (hc : s.coros c = none) (h : Handle) : s.stampOf c h = none := by
  by_contra hne
  obtain ⟨stamp, hstamp⟩ := Option.ne_none_iff_exists'.mp hne
  obtain ⟨signal, hs, hown⟩ := Option.bind_eq_some_iff.mp hstamp
  have howner : signal.owner = c := by
    by_contra hother
    simp [hother] at hown
  obtain ⟨coro, hlive, _⟩ := live_of_owner hi (h := h) (c := c) (by simp [ownerOf, hs, howner])
  rw [hc] at hlive
  cases hlive

/-- The coroutine stops running: its state follows the count of its blocking signals. -/
theorem suspend_own {v : WaitView} (hv : s.waitView c = some v) :
    (s.suspend c).waitView c =
        some { v with state := if 0 < v.blocking then .waiting else .ready } ∧
      ∀ h, (s.suspend c).stampOf c h = s.stampOf c h := by
  obtain ⟨coro, hc, rfl⟩ := Option.map_eq_some_iff.mp hv
  rw [suspend_eq hc]
  split
  · next hpos =>
    rw [gt_iff_lt] at hpos
    exact ⟨by simp [waitView, setCoro, hpos, Coro.waitView], fun _ => rfl⟩
  · next hpos =>
    rw [gt_iff_lt] at hpos
    exact ⟨by simp [waitView, setCoro, pushReady, hpos, Coro.waitView], fun _ => rfl⟩

/-- What a wait leaves of its caller. -/
def afterWait (v : WaitView) (count : Nat) (waitAll suspended : Bool) : WaitView :=
  if suspended then
    { state := .waiting, blocking := if waitAll then count else 1, counter := v.counter + 1 }
  else { v with counter := v.counter + 1 }

theorem afterWait_counter (v : WaitView) (count : Nat) (waitAll suspended : Bool) :
    (afterWait v count waitAll suspended).counter = v.counter + 1 := by
  unfold afterWait
  split <;> rfl

theorem waitForSignals_own {v : WaitView} (hv : s.waitView c = some v) (signals : List Handle)
    (waitAll : Bool) :
    (s.waitForSignals c signals waitAll).waitView c =
        some (afterWait v (signals.countP (s.ownedBy c)) waitAll (s.suspends c signals waitAll)) ∧
      ∀ h, (s.waitForSignals c signals waitAll).stampOf c h =
        if h ∈ signals then (s.stampOf c h).map fun _ => v.counter + 1 else s.stampOf c h := by
  obtain ⟨coro, hc, rfl⟩ := Option.map_eq_some_iff.mp hv
  have hstamp : ∀ h, (s.afterWaitLoop c coro signals).stampOf c h =
      if h ∈ signals then (s.stampOf c h).map fun _ => coro.waitCounter + 1
      else s.stampOf c h := by
    intro h
    refine (stampOf_stamp _ c _ signals h).trans ?_
    simp only [true_and]
    rfl
  rw [waitForSignals_eq hc]
  split
  · next hsusp =>
    have hcount : 0 < signals.countP (s.ownedBy c) := by
      simp only [suspends, decide_eq_true_eq] at hsusp
      exact hsusp.1
    set t := (s.afterWaitLoop c coro signals).modifyCoro c fun coro =>
      { coro with
        numBlockingSignals := if waitAll then (signals.countP (s.ownedBy c) : Int) else 1 } with ht
    have hview : t.waitView c = some
        { state := coro.state
          blocking := if waitAll then (signals.countP (s.ownedBy c) : Int) else 1
          counter := coro.waitCounter + 1 } := by
      simp [ht, waitView, modifyCoro, afterWaitLoop, Sched.stamp, setCoro, Coro.waitView]
    obtain ⟨hview', hstamp'⟩ := suspend_own hview
    refine ⟨?_, fun h => (hstamp' h).trans (hstamp h)⟩
    rw [hview', afterWait, if_pos hsusp]
    have hpos : (0 : Int) < if waitAll then (signals.countP (s.ownedBy c) : Int) else 1 := by
      split
      · exact Int.ofNat_lt.mpr hcount
      · decide
    simp only [if_pos hpos]
    rfl
  · next hsusp =>
    refine ⟨?_, hstamp⟩
    rw [afterWait, if_neg hsusp]
    simp [waitView, afterWaitLoop, Sched.stamp, setCoro, Coro.waitView]

theorem StampedFor.effect (hs : StampedFor c s) (hi : s.Inv) {a : Action} (he : Effect s a s') :
    StampedFor c s' := by
  -- What is left are the creation of `c`, its resumption and what it does itself.
  have hframe : (∀ daemon, a ≠ .spawn daemon c) → (a.ofCoro = true → s.phase.active ≠ some c) →
      (a = .resume → s.currentReadyCoros[s.coroIndex]? ≠ some c) → StampedFor c s' :=
    fun h₁ h₂ h₃ => he.keeps (fun _ _ => StampedFor.same) (fun _ h ht => ht.raiseSignal h) hi h₁ h₂ h₃ hs
  cases he with
  | @spawn daemon h _ fresh =>
    by_cases hc : h = c
    · subst hc
      have hnone : s.coros h = none := by
        by_contra hne
        obtain ⟨coro, hcoro⟩ := Option.ne_none_iff_exists'.mp hne
        exact fresh.2 (issued_of_live hi hcoro)
      intro v hv
      have hview : (s.spawnEx daemon h).waitView h = some ⟨.ready, 0, 0⟩ := by
        simp [waitView, spawnEx, Coro.waitView]
      rw [hview] at hv
      cases hv
      refine ⟨Int.le_refl 0, fun x stamp hx => ?_⟩
      have hx' : s.stampOf h x = some stamp := hx
      -- A signal is never older than its owner.
      rw [stampOf_dead hi hnone] at hx'
      cases hx'
    · exact hframe (fun _ heq => hc (by cases heq; rfl)) nofun nofun
  | @makeSignal d h hp fresh =>
    by_cases hc : d = c
    · subst hc
      obtain ⟨coro, hcoro⟩ := live_of_active (c := d) hi (by rw [hp]; rfl)
      obtain ⟨hpos, hle⟩ := hs coro.waitView (by simp [waitView, hcoro])
      intro v hv
      have hview : (s.makeSignal d h).waitView d = some coro.waitView := by
        simp [waitView, Sched.makeSignal, hcoro, Coro.waitView]
      rw [hview] at hv
      cases hv
      refine ⟨hpos, fun x stamp hx => ?_⟩
      have hstamp : (s.makeSignal d h).stampOf d x =
          if x = h then some (coro.waitCounter - 1) else s.stampOf d x := by
        simp only [Sched.makeSignal, hcoro]
        refine (stampOf_update (s := s) rfl x).trans ?_
        simp
      rw [hstamp] at hx
      split at hx
      · cases hx
        have hpos' : 0 ≤ coro.waitCounter := hpos
        exact ⟨by omega, by show coro.waitCounter - 1 ≤ coro.waitCounter; omega⟩
      · exact hle x stamp hx
    · exact hframe nofun (fun _ heq => hc (by rw [hp] at heq; exact Option.some.inj heq)) nofun
  | @yield d hp =>
    by_cases hc : d = c
    · subst hc
      obtain ⟨coro, hcoro⟩ := live_of_active (c := d) hi (by rw [hp]; rfl)
      have hv : s.waitView d = some coro.waitView := by simp [waitView, hcoro]
      obtain ⟨hview, hstamp⟩ := suspend_own hv
      intro v hv'
      rw [hview] at hv'
      cases hv'
      refine ⟨(hs _ hv).1, fun x stamp hx => ?_⟩
      rw [hstamp] at hx
      exact (hs _ hv).2 x stamp hx
    · exact hframe nofun (fun _ heq => hc (by rw [hp] at heq; exact Option.some.inj heq)) nofun
  | @wait d signals waitAll hp =>
    by_cases hc : d = c
    · subst hc
      obtain ⟨coro, hcoro⟩ := live_of_active (c := d) hi (by rw [hp]; rfl)
      have hv : s.waitView d = some coro.waitView := by simp [waitView, hcoro]
      obtain ⟨hpos, hle⟩ := hs _ hv
      obtain ⟨hview, hstamp⟩ := waitForSignals_own hv signals waitAll
      intro v hv'
      rw [hview] at hv'
      cases hv'
      rw [afterWait_counter]
      refine ⟨by omega, fun x stamp hx => ?_⟩
      rw [hstamp] at hx
      split at hx
      · obtain ⟨_, _, rfl⟩ := Option.map_eq_some_iff.mp hx
        exact ⟨by omega, Int.le_refl _⟩
      · have := hle x stamp hx
        omega
    · exact hframe nofun (fun _ heq => hc (by rw [hp] at heq; exact Option.some.inj heq)) nofun
  | @resume d _ hd =>
    by_cases hc : d = c
    · subst hc
      intro v hv
      obtain ⟨coro, hcoro, rfl⟩ := Option.map_eq_some_iff.mp hv
      obtain ⟨old, hold, rfl⟩ : ∃ old, s.coros d = some old ∧
          { old with state := .running, numBlockingSignals := 0 } = coro := by
        have hcoro' : Function.update s.coros d ((s.coros d).map fun coro =>
          { coro with state := .running, numBlockingSignals := 0 }) d = some coro := hcoro
        rw [Function.update_self] at hcoro'
        exact Option.map_eq_some_iff.mp hcoro'
      exact hs old.waitView (by simp [waitView, hold])
    · exact hframe nofun nofun fun _ heq => hc (by rw [hd] at heq; exact Option.some.inj heq)
  | @destroy d hp =>
    by_cases hc : d = c
    · subst hc
      intro v hv
      simp [waitView, destroyCoro_coros] at hv
    · exact hframe nofun (fun _ heq => hc (by rw [hp] at heq; exact Option.some.inj heq)) nofun
  | _ => exact hframe nofun nofun nofun

theorem stamped_of_reachable (h : machine.Reachable s) : StampedFor c s := by
  refine Machine.invariant (P := StampedFor c) ?_ ?_ h
  · rintro s rfl
    exact fun v hv => by simp [Sched.init, waitView] at hv
  · exact fun s a hr hs he => hs.effect (inv_of_reachable hr).1 (Effect.of_enabled he)

/-! ## Parked coroutines -/

end Sched

/-- Marking one more element of a list without repetitions raises the number of the marked ones
by one. -/
theorem countP_mark {α : Type*} [DecidableEq α] {l : List α} (hl : l.Nodup) {x : α}
    (hx : x ∈ l) {p q : α → Bool} (hp : p x = false)
    (hq : ∀ y, q y = if y = x then true else p y) : l.countP q = l.countP p + 1 := by
  induction l with
  | nil => cases hx
  | cons y l ih =>
    obtain ⟨hy, hl⟩ := List.nodup_cons.mp hl
    rcases List.mem_cons.mp hx with rfl | hx
    · have hrest : l.countP q = l.countP p := by
        refine List.countP_congr fun z hz => ?_
        have hne : z ≠ x := fun heq => hy (heq ▸ hz)
        simp [hq z, hne]
      simp [hrest, hp, hq x]
    · have hne : y ≠ x := fun heq => hy (heq ▸ hx)
      simp only [List.countP_cons, ih hl hx, hq y, if_neg hne]
      omega

/-- 32-bit numbers are told apart by their representation. -/
theorem int32_inj {x y : Int} (hx : -2 ^ 31 ≤ x) (hx' : x < 2 ^ 31) (hy : -2 ^ 31 ≤ y)
    (hy' : y < 2 ^ 31) (h : int32 x = int32 y) : x = y := by
  have hint := congrArg BitVec.toInt h
  simp only [int32, BitVec.toInt_ofInt] at hint
  rwa [Int.bmod_eq_of_le (by omega) (by omega), Int.bmod_eq_of_le (by omega) (by omega)] at hint

namespace Sched

variable {s s' : Sched} {c : Handle} {W : List Handle} {n k : Int}

/-- How many of the signals in `W` are not live any more. -/
def raisedIn (s : Sched) (c : Handle) (W : List Handle) : Nat :=
  W.countP fun h => (s.stampOf c h).isNone

/-- The coroutine `c` waits with the generation number `k` for `n` of the signals in `W`. It is
ready as soon as that many have been raised. -/
structure Parked (s : Sched) (c : Handle) (W : List Handle) (n k : Int) : Prop where
  stamped : ∀ h, h ∈ W → ∀ stamp, s.stampOf c h = some stamp → stamp = k
  stale : ∀ h, h ∉ W → ∀ stamp, s.stampOf c h = some stamp → int32 stamp ≠ int32 k
  view : ∃ v, s.waitView c = some v ∧ v.counter = k ∧
    ((v.state = .waiting ∧ v.blocking = n - s.raisedIn c W ∧ (s.raisedIn c W : Int) < n) ∨
      (v.state = .ready ∧ n ≤ s.raisedIn c W))

theorem raisedIn_congr (h : ∀ x, s'.stampOf c x = s.stampOf c x) :
    s'.raisedIn c W = s.raisedIn c W := by
  simp only [raisedIn, h]

theorem Parked.same (hs : SameFor c s s') (hp : s.Parked c W n k) : s'.Parked c W n k := by
  refine ⟨fun h hh stamp hst => ?_, fun h hh stamp hst => ?_, ?_⟩
  · exact hp.stamped h hh stamp (by rwa [hs.stamp] at hst)
  · exact hp.stale h hh stamp (by rwa [hs.stamp] at hst)
  · rw [hs.view, raisedIn_congr hs.stamp]
    exact hp.view

/-- The step lemma for raises: a raise of a signal in `W` counts, any other one does not. -/
theorem Parked.raiseSignal (hW : W.Nodup) (hp : s.Parked c W n k) (h : Handle) :
    (s.raiseSignal h).1.Parked c W n k := by
  cases hh : s.stampOf c h with
  | none => exact hp.same (sameFor_raiseSignal hh)
  | some stamp =>
    obtain ⟨v, hv, hk, hstate⟩ := hp.view
    obtain ⟨hview, hstamp⟩ := raiseSignal_own hh hv
    have hold : ∀ x w, (s.raiseSignal h).1.stampOf c x = some w → s.stampOf c x = some w := by
      intro x w hx
      rw [hstamp] at hx
      split at hx
      · cases hx
      · exact hx
    refine ⟨fun x hx w hw => hp.stamped x hx w (hold x w hw),
      fun x hx w hw => hp.stale x hx w (hold x w hw), v.notify stamp, hview,
      (v.notify_counter stamp).trans hk, ?_⟩
    by_cases hmem : h ∈ W
    · -- The signal is one of those waited for. The raise counts, and the last one wakes `c`.
      obtain rfl := hp.stamped h hmem stamp hh
      have hcount : (s.raiseSignal h).1.raisedIn c W = s.raisedIn c W + 1 := by
        refine countP_mark hW hmem (by simp [hh]) fun y => ?_
        rw [hstamp]
        split <;> rfl
      rw [hcount]
      rcases hstate with ⟨hwait, hblocking, hlt⟩ | ⟨hready, hle⟩
      · by_cases hlast : v.blocking - 1 = 0
        · exact .inr ⟨by simp [WaitView.notify, hwait, hk, hlast], by omega⟩
        · refine .inl ⟨by simp [WaitView.notify, hwait, hk, hlast], ?_, by omega⟩
          have hb : (v.notify stamp).blocking = v.blocking - 1 := by
            simp [WaitView.notify, hwait, hk, hlast]
          rw [hb]
          omega
      · exact .inr ⟨by simp [WaitView.notify, hready], by omega⟩
    · -- The stamp is from an earlier wait, so the raise does not count.
      have hne : int32 stamp ≠ int32 v.counter := hk ▸ hp.stale h hmem stamp hh
      have hsame : v.notify stamp = v := by simp [WaitView.notify, hne]
      have hcount : (s.raiseSignal h).1.raisedIn c W = s.raisedIn c W := by
        refine List.countP_congr fun x hx => ?_
        have hxh : x ≠ h := fun heq => hmem (heq ▸ hx)
        rw [hstamp, if_neg hxh]
      rw [hsame, hcount]
      exact hstate

theorem coroState_of_waitView (h : s'.waitView c = s.waitView c) :
    s'.coroState c = s.coroState c := by
  have hstate : ∀ t : Sched, t.coroState c = (t.waitView c).elim .dead WaitView.state := by
    intro t
    cases hc : t.coros c <;> simp [Sched.coroState, waitView, hc, Coro.waitView]
  rw [hstate, hstate, h]

theorem Parked.coroState (hp : s.Parked c W n k) :
    (s.coroState c = .ready ↔ n ≤ s.raisedIn c W) ∧
      (s.coroState c = .waiting ∨ s.coroState c = .ready) := by
  obtain ⟨v, hv, _, hstate⟩ := hp.view
  obtain ⟨coro, hc, rfl⟩ := Option.map_eq_some_iff.mp hv
  have hst : s.coroState c = coro.waitView.state := by simp [Sched.coroState, hc, Coro.waitView]
  rw [hst]
  rcases hstate with ⟨hwait, _, hlt⟩ | ⟨hready, hle⟩
  · rw [hwait]
    exact ⟨⟨by simp, fun hle => by omega⟩, .inl rfl⟩
  · rw [hready]
    exact ⟨⟨fun _ => hle, fun _ => rfl⟩, .inr rfl⟩

theorem Parked.live (hp : s.Parked c W n k) : ∃ coro, s.coros c = some coro := by
  obtain ⟨v, hv, _⟩ := hp.view
  obtain ⟨coro, hc, _⟩ := Option.map_eq_some_iff.mp hv
  exact ⟨coro, hc⟩

theorem Parked.not_active (hp : s.Parked c W n k) (hi : s.Inv) : s.phase.active ≠ some c := by
  intro ha
  have hrun : s.coroState c = .running := (hi.view.active c).mpr ha
  rcases hp.coroState.2 with h | h <;> rw [h] at hrun <;> cases hrun

/-- A raise of a signal that is not in `W` leaves the parked coroutine as it is. -/
theorem Parked.raise_other (hp : s.Parked c W n k) {h : Handle} (hh : h ∉ W) :
    (s.raiseSignal h).1.coroState c = s.coroState c := by
  have hview : (s.raiseSignal h).1.waitView c = s.waitView c := by
    cases hst : s.stampOf c h with
    | none => exact (sameFor_raiseSignal hst).view
    | some stamp =>
      obtain ⟨v, hv, hk, _⟩ := hp.view
      have hne : int32 stamp ≠ int32 v.counter := hk ▸ hp.stale h hh stamp hst
      rw [(raiseSignal_own hst hv).1, hv]
      simp [WaitView.notify, hne]
  exact coroState_of_waitView hview

/-- Until it is resumed, a parked coroutine stays parked. -/
theorem Parked.effect (hW : W.Nodup) (hp : s.Parked c W n k) (hi : s.Inv) {a : Action}
    (he : Effect s a s') (hres : a = .resume → s.currentReadyCoros[s.coroIndex]? ≠ some c) :
    s'.Parked c W n k := by
  obtain ⟨coro, hc⟩ := hp.live
  refine he.keeps (P := fun t => t.Parked c W n k) (fun _ _ hs h => h.same hs)
    (fun _ h ht => ht.raiseSignal hW h) hi ?_ (fun _ => hp.not_active hi) hres hp
  rintro daemon rfl
  cases he with
  | spawn _ fresh => exact fresh.2 (issued_of_live hi hc)

/-! ## The contract of a wait -/

/-- The machine up to the next resumption of `c`. -/
def untilResumed (c : Handle) : Machine Sched Action :=
  machine.restrict fun s a => a = .resume → s.currentReadyCoros[s.coroIndex]? ≠ some c

instance (c : Handle) (s : Sched) (a : Action) : Decidable ((untilResumed c).enabled s a) :=
  inferInstanceAs (Decidable (_ ∧ (_ → _)))

/-- The distinct live signals of `c` in the array. -/
def waitSet (s : Sched) (c : Handle) (signals : List Handle) : List Handle :=
  (signals.filter (s.ownedBy c)).dedup

/-- The signals that have been raised are those that the wait is for. -/
def Due (s : Sched) (W : List Handle) (waitAll : Bool) : Prop :=
  if waitAll then ∀ h, h ∈ W → s.checkSignal h = true else ∃ h, h ∈ W ∧ s.checkSignal h = true

/-- What a call of `bio_wait_for_signals` by `c` is for: when it returns at once, and in a state of
any run up to the resumption of `c` after a suspending call, that `c` is ready when the wait is due,
that it became ready once, and that no other signal wakes it. -/
structure WaitExact (s : Sched) (c : Handle) (signals : List Handle) (waitAll : Bool) : Prop where
  returns : (s.waitForSignals c signals waitAll).phase = .running c ↔
    s.waitSet c signals = [] ∨
      (waitAll = false ∧ ∃ h, h ∈ signals ∧ h ≠ Handle.invalid ∧ s.checkSignal h = true)
  wakes : (s.waitForSignals c signals waitAll).phase ≠ .running c →
    ∀ as, (untilResumed c).Legal (s.waitForSignals c signals waitAll) as →
      let t := (untilResumed c).run (s.waitForSignals c signals waitAll) as
      (t.coroState c = .waiting ∨ t.coroState c = .ready) ∧
      (t.coroState c = .ready ↔ t.Due (s.waitSet c signals) waitAll) ∧
      (t.history.count (.becameReady c) = s.history.count (.becameReady c) +
        if t.coroState c = .ready then 1 else 0) ∧
      ∀ h, ((t.raiseSignal h).1.coroState c = .ready ↔
          (t.raiseSignal h).1.Due (s.waitSet c signals) waitAll) ∧
        (h ∉ s.waitSet c signals → (t.raiseSignal h).1.coroState c = t.coroState c)

theorem mem_waitSet {signals : List Handle} {h : Handle} :
    h ∈ s.waitSet c signals ↔ h ∈ signals ∧ s.ownerOf h = some c := by
  simp [waitSet, ownedBy]

theorem nodup_waitSet (s : Sched) (c : Handle) (signals : List Handle) :
    (s.waitSet c signals).Nodup := List.nodup_dedup _

theorem stampOf_isNone {h : Handle} : s.stampOf c h = none ↔ s.ownerOf h ≠ some c := by
  cases hs : s.signals h with
  | none => simp [stampOf, ownerOf, hs]
  | some signal =>
    by_cases ho : signal.owner = c <;> simp [stampOf, ownerOf, hs, ho]

theorem suspends_iff {signals : List Handle} {waitAll : Bool} :
    s.suspends c signals waitAll = false ↔ s.waitSet c signals = [] ∨
      (waitAll = false ∧ ∃ h, h ∈ signals ∧ h ≠ Handle.invalid ∧ s.checkSignal h = true) := by
  have hempty : s.waitSet c signals = [] ↔ signals.countP (s.ownedBy c) = 0 := by
    rw [waitSet, List.dedup_eq_nil, List.countP_eq_length_filter, List.length_eq_zero_iff]
  have hraised : signals.any s.isRaised = true ↔
      ∃ h, h ∈ signals ∧ h ≠ Handle.invalid ∧ s.checkSignal h = true := by
    simp [isRaised, Handle.isValid, and_comm]
  rw [hempty, ← hraised, suspends, decide_eq_false_iff_not, not_and_or, not_or,
    Nat.pos_iff_ne_zero, not_not, Bool.not_eq_true, Bool.not_eq_false]

/-- A call that does not suspend leaves its caller running. -/
theorem waitForSignals_phase_iff {coro : Coro} (hc : s.coros c = some coro)
    (hp : s.phase = .running c) (signals : List Handle) (waitAll : Bool) :
    (s.waitForSignals c signals waitAll).phase = .running c ↔
      s.suspends c signals waitAll = false := by
  rw [waitForSignals_eq hc]
  split
  · next hs => simp [suspend_phase, hs]
  · next hs =>
    have hphase : (s.afterWaitLoop c coro signals).phase = .running c := hp
    simp [hphase, hs]

/-- How many raises wake the caller of a wait. -/
def threshold (s : Sched) (c : Handle) (signals : List Handle) (waitAll : Bool) : Int :=
  if waitAll then (signals.countP (s.ownedBy c) : Int) else 1

theorem parked_of_wait (h : machine.Reachable s) {coro : Coro} (hc : s.coros c = some coro)
    (hbound : coro.waitCounter + 1 < 2 ^ 31) {signals : List Handle} {waitAll : Bool}
    (hsusp : s.suspends c signals waitAll = true) :
    (s.waitForSignals c signals waitAll).Parked c (s.waitSet c signals)
      (s.threshold c signals waitAll) (coro.waitCounter + 1) := by
  have hv : s.waitView c = some coro.waitView := by simp [waitView, hc]
  obtain ⟨hpos, hle⟩ := stamped_of_reachable h _ hv
  have hpos' : 0 ≤ coro.waitCounter := hpos
  obtain ⟨hview, hstamp⟩ := waitForSignals_own hv signals waitAll
  have hlive : ∀ x, x ∈ s.waitSet c signals →
      (s.waitForSignals c signals waitAll).stampOf c x = some (coro.waitCounter + 1) := by
    intro x hx
    obtain ⟨hmem, hown⟩ := mem_waitSet.mp hx
    obtain ⟨w, hw⟩ := Option.ne_none_iff_exists'.mp fun hnone =>
      (stampOf_isNone (s := s) (c := c) (h := x)).mp hnone hown
    rw [hstamp, if_pos hmem, hw]
    rfl
  refine ⟨fun x hx w hw => ?_, fun x hx w hw => ?_, _, hview, afterWait_counter .., .inl ?_⟩
  · rw [hlive x hx] at hw
    exact (Option.some.inj hw).symm
  · rw [hstamp] at hw
    split at hw
    · next hmem =>
      obtain ⟨w', hw', _⟩ := Option.map_eq_some_iff.mp hw
      refine absurd (mem_waitSet.mpr ⟨hmem, ?_⟩) hx
      by_contra hne
      rw [stampOf_isNone.mpr hne] at hw'
      cases hw'
    · intro heq
      -- A stale stamp is smaller. As long as the counter has not wrapped around, it differs.
      have hrange : -1 ≤ w ∧ w ≤ coro.waitCounter := hle x w hw
      have := int32_inj (by omega) (by omega) (by omega) hbound heq
      omega
  · have hzero : (s.waitForSignals c signals waitAll).raisedIn c (s.waitSet c signals) = 0 := by
      refine List.countP_eq_zero.mpr fun x hx => ?_
      simp [hlive x hx]
    have hcount : 0 < signals.countP (s.ownedBy c) := by
      simp only [suspends, decide_eq_true_eq] at hsusp
      exact hsusp.1
    rw [hzero, afterWait, if_pos hsusp]
    refine ⟨rfl, by simp [threshold], ?_⟩
    unfold threshold
    split
    · exact Int.ofNat_lt.mpr hcount
    · decide

/-- A signal that `c` made resolves as long as `c` owns it. -/
theorem checkSignal_iff (ha : s.Accounted none) {h : Handle} (hm : .madeSignal c h ∈ s.history) :
    s.checkSignal h = true ↔ (s.stampOf c h).isNone = true := by
  rw [Option.isNone_iff_eq_none, stampOf_isNone]
  cases hs : s.signals h with
  | none => simp [checkSignal, ownerOf, hs]
  | some signal =>
    have ho : s.ownerOf h = some signal.owner := by simp [ownerOf, hs]
    simp [checkSignal, hs, ho, ha.made_unique _ c h (ha.own _ h ho).1 hm]

/-- The parked coroutine is ready when its wait is due. -/
theorem due_iff (ha : s.Accounted none) {waitAll : Bool}
    (hm : ∀ h, h ∈ W → .madeSignal c h ∈ s.history)
    (hn : n = if waitAll then (W.length : Int) else 1) :
    n ≤ s.raisedIn c W ↔ s.Due W waitAll := by
  have hcount : s.raisedIn c W = W.countP s.checkSignal :=
    List.countP_congr fun h hh => (checkSignal_iff ha (hm h hh)).symm
  rw [hcount, hn]
  cases waitAll with
  | true =>
    have hle : W.countP s.checkSignal ≤ W.length := List.countP_le_length
    simp only [Due, if_true]
    rw [← List.countP_eq_length]
    omega
  | false =>
    simp only [Due, Bool.false_eq_true, if_false]
    rw [← List.countP_pos_iff]
    omega

/-- What is known of a state between a suspending wait of `c` and the next resumption of `c`. -/
structure Asleep (s : Sched) (c : Handle) (W : List Handle) (n k : Int) (resumed : Nat) : Prop where
  reachable : machine.Reachable s
  parked : s.Parked c W n k
  made : ∀ h, h ∈ W → .madeSignal c h ∈ s.history
  resumed : s.history.count (.resumed c) = resumed

theorem Asleep.step {m : Nat} (hW : W.Nodup) (ha : s.Asleep c W n k m) {a : Action}
    (he : (untilResumed c).enabled s a) : ((untilResumed c).perform s a).Asleep c W n k m := by
  have heff := Effect.of_enabled he.1
  have hi := (inv_of_reachable ha.reachable).1
  refine ⟨ha.reachable.step he.1, ha.parked.effect hW hi heff he.2,
    fun h hh => heff.appends.mem (ha.made h hh), ?_⟩
  refine (heff.appends.count_eq ?_).trans ha.resumed
  cases a with
  | resume =>
    have hne := he.2 rfl
    unfold records
    cases hd : s.currentReadyCoros[s.coroIndex]? with
    | none => rfl
    | some d =>
      have hcd : c ≠ d := fun heq => hne (heq ▸ hd)
      simp [hcd]
  | makeSignal h => simp [records]
  | _ => simp [records, Event.ofRaise, Event.ofNotify, Event.ofTrigger]

/-- The run lemma. -/
theorem Asleep.run {m : Nat} (hW : W.Nodup) (ha : s.Asleep c W n k m) {as : List Action}
    (h : (untilResumed c).Legal s as) : ((untilResumed c).run s as).Asleep c W n k m :=
  Machine.run_invariant (P := fun t => t.Asleep c W n k m) (fun _ _ ht he => ht.step hW he) ha h

/-- All signals of a list can be raised one after the other. -/
theorem raise_all (c : Handle) (l : List Handle) : ∀ {s : Sched}, s.phase ≠ .pass →
    (untilResumed c).Legal s (l.map Action.raise) ∧
      ∀ h, h ∈ l ∨ s.checkSignal h = true →
        ((untilResumed c).run s (l.map Action.raise)).checkSignal h = true := by
  induction l with
  | nil => exact fun _ => ⟨trivial, fun h hh => hh.resolve_left List.not_mem_nil⟩
  | cons x l ih =>
    intro s hs
    have hphase : (s.raiseSignal x).1.phase ≠ .pass := by
      rw [(raiseSignal_frame s x).2.1]
      exact hs
    obtain ⟨hlegal, hraised⟩ := ih hphase
    refine ⟨⟨⟨hs, nofun⟩, hlegal⟩, fun h hh => hraised h ?_⟩
    rcases hh with hh | hh
    · rcases List.mem_cons.mp hh with rfl | hh
      · exact .inr (checkSignal_raiseSignal s h)
      · exact .inl hh
    · exact .inr (checkSignal_shrinks (shrinks_raiseSignal s x) hh)

/-- From the pass, user code or the updates are one step away that does not resume `c`. -/
theorem leave_pass (hi : s.Inv) (hp : s.phase = .pass) (hc : s.coroState c = .waiting) :
    ∃ a, (untilResumed c).enabled s a ∧ ((untilResumed c).perform s a).phase ≠ .pass := by
  by_cases hlt : s.coroIndex < s.currentReadyCoros.length
  · have hget := List.getElem?_eq_getElem hlt
    refine ⟨.resume, ⟨⟨hp, hlt⟩, fun _ hpick => ?_⟩, ?_⟩
    · rw [ready_of_picked hi hpick] at hc
      cases hc
    · show (s.perform .resume).phase ≠ .pass
      rw [perform, hget]
      simp [resume]
  · refine ⟨.endPass, ⟨⟨hp, Nat.le_of_not_lt hlt⟩, by simp⟩, ?_⟩
    show s.endPass.phase ≠ .pass
    simp only [endPass]
    split <;> simp

theorem asleep_of_wait (h : machine.Reachable s) (hp : s.phase = .running c) {coro : Coro}
    (hc : s.coros c = some coro) (hbound : coro.waitCounter + 1 < 2 ^ 31) {signals : List Handle}
    {waitAll : Bool} (hsusp : s.suspends c signals waitAll = true) :
    (s.waitForSignals c signals waitAll).Asleep c (s.waitSet c signals)
      (s.threshold c signals waitAll) (coro.waitCounter + 1) (s.history.count (.resumed c)) := by
  have he : s.enabled (.wait signals waitAll) := by simp [enabled, hp, Phase.mcoRunning]
  have hperform : s.perform (.wait signals waitAll) = s.waitForSignals c signals waitAll := by
    simp [perform, inCoro, hp, Phase.mcoRunning]
  have hr : machine.Reachable (s.perform (.wait signals waitAll)) :=
    Machine.Reachable.step h (show machine.enabled s (.wait signals waitAll) from he)
  rw [hperform] at hr
  refine ⟨hr, parked_of_wait h hc hbound hsusp, fun x hx => ?_, ?_⟩
  · have hm := ((accounted_of_reachable h).own c x (mem_waitSet.mp hx).2).1
    exact (appends_waitForSignals s c signals waitAll).mem hm
  · exact (appends_waitForSignals s c signals waitAll).count_eq rfl

/-- A wait is exact when it is for one signal, or when no live signal of the caller is repeated in
the array. With a repetition the caller is not even woken after all the signals have been raised. -/
theorem wait_exact_iff (h : machine.Reachable s) (hp : s.phase = .running c)
    (hbound : ∀ coro, s.coros c = some coro → coro.waitCounter + 1 < 2 ^ 31)
    (signals : List Handle) (waitAll : Bool) :
    WaitExact s c signals waitAll ↔
      waitAll = false ∨ (signals.filter (s.ownedBy c)).Nodup := by
  have hi := (inv_of_reachable h).1
  obtain ⟨coro, hc⟩ := live_of_active (c := c) hi (by rw [hp]; rfl)
  have hphase := waitForSignals_phase_iff hc hp signals waitAll
  have hW := nodup_waitSet s c signals
  constructor
  · intro hexact
    by_contra hcon
    obtain ⟨hall, hdup⟩ := not_or.mp hcon
    obtain rfl : waitAll = true := by simpa using hall
    have hlen : (s.waitSet c signals).length < signals.countP (s.ownedBy c) := by
      rw [List.countP_eq_length_filter]
      refine Nat.lt_of_le_of_ne (List.dedup_sublist _).length_le fun heq => hdup ?_
      rw [← (List.dedup_sublist _).eq_of_length heq]
      exact hW
    have hsusp : s.suspends c signals true = true := by
      simp only [suspends, decide_eq_true_eq]
      exact ⟨by omega, .inl trivial⟩
    have ha := asleep_of_wait h hp hc (hbound coro hc) hsusp
    have hnot : (s.waitForSignals c signals true).phase ≠ .running c := by
      rw [Ne, hphase, hsusp]
      decide
    have hpass := (waitForSignals_phase s c signals true).resolve_right (hp ▸ hnot)
    -- One step out of the pass, then every signal of the wait is raised.
    have hwaiting : ∀ t : Sched, t.Parked c (s.waitSet c signals) (s.threshold c signals true)
        (coro.waitCounter + 1) → t.coroState c ≠ .ready := by
      intro t ht hready
      have hle := ht.coroState.1.mp hready
      have hle' : t.raisedIn c (s.waitSet c signals) ≤ (s.waitSet c signals).length :=
        List.countP_le_length
      simp only [threshold, if_true] at hle
      omega
    have hi' := (inv_of_reachable ha.reachable).1
    obtain ⟨a, hen, hout⟩ := leave_pass (c := c) hi' hpass
      (ha.parked.coroState.2.resolve_right (hwaiting _ ha.parked))
    obtain ⟨hlegal, hraised⟩ := raise_all c (s.waitSet c signals) hout
    have hrun : (untilResumed c).Legal (s.waitForSignals c signals true)
        (a :: (s.waitSet c signals).map Action.raise) := ⟨hen, hlegal⟩
    obtain ⟨_, hiff, _⟩ := hexact.wakes hnot _ hrun
    refine hwaiting _ (ha.run hW hrun).parked (hiff.mpr ?_)
    exact fun x hx => hraised x (.inl hx)
  · intro hcond
    refine ⟨hphase.trans suspends_iff, fun hnot as hlegal => ?_⟩
    have hsusp : s.suspends c signals waitAll = true := by
      rwa [Ne, hphase, Bool.not_eq_false] at hnot
    have hn : s.threshold c signals waitAll =
        if waitAll then ((s.waitSet c signals).length : Int) else 1 := by
      rcases hcond with rfl | hnodup
      · rfl
      · rw [threshold, List.countP_eq_length_filter, waitSet, hnodup.dedup]
    have ha := (asleep_of_wait h hp hc (hbound coro hc) hsusp).run hW hlegal
    have hacc := accounted_of_reachable ha.reachable
    intro t
    refine ⟨ha.parked.coroState.2, ha.parked.coroState.1.trans (due_iff hacc ha.made hn), ?_,
      fun x => ⟨?_, fun hx => ?_⟩⟩
    · have hbal := balanced_of_reachable h c
      have hrun : s.coroState c ≠ .ready := by
        rw [show s.coroState c = .running from (hi.view.active c).mpr (by rw [Sched.view, hp]; rfl)]
        decide
      rw [balanced_of_reachable ha.reachable c, ha.resumed, hbal, if_neg hrun, Nat.add_zero]
    · have hraise := ha.parked.raiseSignal hW x
      refine hraise.coroState.1.trans (due_iff ?_ (fun y hy => ?_) hn)
      · exact hacc.raiseSignal (inv_of_reachable ha.reachable).1 x
      · exact (appends_raiseSignal t x).mem (ha.made y hy)
    · exact ha.parked.raise_other hx

/-- A wait for two signals, with a zero handle and a handle that was never a signal in between. -/
theorem wait_exact_iff_two_signals :
    let s := machine.run Sched.init [.spawn false ⟨0, 1⟩, .enterLoop, .endPass, .swap, .resume,
      .makeSignal ⟨1, 1⟩, .makeSignal ⟨2, 1⟩]
    s.phase = .running ⟨0, 1⟩ ∧
      WaitExact s ⟨0, 1⟩ [⟨1, 1⟩, Handle.invalid, ⟨7, 3⟩, ⟨2, 1⟩] true := by
  intro s
  have hr : machine.Reachable s := Machine.Reachable.run (.init rfl) (by decide)
  have hbound : ∀ coro, s.coros ⟨0, 1⟩ = some coro → coro.waitCounter + 1 < 2 ^ 31 := by
    intro coro hcoro
    cases hcoro
    decide
  exact ⟨rfl, (wait_exact_iff hr rfl hbound _ _).mpr (.inr (by decide))⟩

/-- A wait for all of `{signal, signal}` goes on after the signal has been raised. -/
theorem wait_repeated_not_exact :
    let s := machine.run Sched.init [.spawn false ⟨0, 1⟩, .enterLoop, .endPass, .swap, .resume,
      .makeSignal ⟨1, 1⟩]
    ¬WaitExact s ⟨0, 1⟩ [⟨1, 1⟩, ⟨1, 1⟩] true := by
  intro s hexact
  obtain ⟨_, hiff, _⟩ := hexact.wakes (by decide) [.endPass, .raise ⟨1, 1⟩] (by decide)
  have hready := hiff.mpr fun h hh => by
    obtain rfl : h = ⟨1, 1⟩ := by simpa using (mem_waitSet.mp hh).1
    rfl
  revert hready
  decide

end Sched

end Bio
