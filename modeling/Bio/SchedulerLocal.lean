import Bio.SchedulerWait
import Bio.SchedulerMonitor

/-!
# Local signals

Several parts of the library make a signal, hand it to one party and wait for it. What they have in
common:

* `Inside`: a coroutine in the middle of a call goes on living,
* `Held`: a signal that no monitor carries is closed only by an action that names it,
* `Awaiting`: a wait is left only when one of its signals has been raised,
* `Sleeps`: a coroutine that waits for one signal is woken by it. This needs no bound on the wait
  counter, since the signal carries the counter itself.
-/

namespace Bio

namespace Sched

variable {s s' : Sched} {a : Action} {c : Handle}

/-- The next wait of `c` increments its counter, a C `int`, without overflow. -/
def CanCount (s : Sched) (c : Handle) : Prop := ∀ coro ∈ s.coros c, coro.waitCounter + 1 < 2 ^ 31

instance (s : Sched) (c : Handle) : Decidable (s.CanCount c) :=
  match h : s.coros c with
  | none => isTrue (by simp [CanCount, h])
  | some coro => decidable_of_iff (coro.waitCounter + 1 < 2 ^ 31) (by simp [CanCount, h])

theorem running_of_any (h : s.phase.mcoRunning.any (fun c => s.CanCount c) = true) :
    ∃ c, s.phase = .running c ∧ s.CanCount c := by
  revert h
  cases s.phase <;> simp [Phase.mcoRunning]

/-- A raise counts no wait. -/
theorem CanCount.raise (h : s.CanCount c) (ref : Handle) : (s.raiseSignal ref).1.CanCount c := by
  intro coro hcoro
  have hview : (s.raiseSignal ref).1.waitView c = some coro.waitView := by
    simpa [waitView] using congrArg (Option.map Coro.waitView) hcoro
  obtain ⟨old, hold, hcounter⟩ : ∃ old, s.coros c = some old ∧
      coro.waitView.counter = old.waitView.counter := by
    have hlive : s.coros c ≠ none := by
      refine mt ((shrinks_raiseSignal s ref).live c).mpr ?_
      rw [show (s.raiseSignal ref).1.coros c = some coro from hcoro]
      simp
    obtain ⟨old, hold⟩ := Option.ne_none_iff_exists'.mp hlive
    have hold' : s.waitView c = some old.waitView := by simp [waitView, hold]
    refine ⟨old, hold, ?_⟩
    cases hst : s.stampOf c ref with
    | none =>
      rw [(sameFor_raiseSignal hst).view, hold'] at hview
      rw [Option.some.inj hview]
    | some stamp =>
      rw [(raiseSignal_own hst hold').1] at hview
      rw [← Option.some.inj hview, WaitView.notify_counter]
  show coro.waitView.counter + 1 < 2 ^ 31
  rw [hcounter]
  exact h old hold

/-- A new signal counts no wait. -/
theorem CanCount.makeSignal (h : s.CanCount c) (signal : Handle) :
    (s.makeSignal c signal).CanCount c := by
  unfold Sched.makeSignal
  split
  · next coro hcoro =>
    intro coro' hcoro'
    simp only [Function.update_self, Option.mem_def, Option.some.injEq] at hcoro'
    rw [← hcoro']
    exact h coro hcoro
  · exact h

/-! ## Signals and their makers -/

/-- A live signal has the owner that made it. -/
theorem ownerOf_of_made (ha : s.Accounted none) {h : Handle}
    (hmade : .madeSignal c h ∈ s.history) (hlive : s.ownerOf h ≠ none) : s.ownerOf h = some c := by
  obtain ⟨d, hd⟩ := Option.ne_none_iff_exists'.mp hlive
  rw [hd, ha.made_unique d c h (ha.own d h hd).1 hmade]

theorem checkSignal_iff_none {h : Handle} : s.checkSignal h = true ↔ s.ownerOf h = none := by
  simp [checkSignal, ownerOf]

theorem checkSignal_closed (hclosed : StaysClosed s s') {h : Handle}
    (hissued : h ∈ s.issued) (hcheck : s.checkSignal h = true) : s'.checkSignal h = true :=
  checkSignal_iff_none.mpr (hclosed.signal h hissued (checkSignal_iff_none.mp hcheck))

theorem checkSignal_iff_owner (ha : s.Accounted none) {h : Handle}
    (hmade : .madeSignal c h ∈ s.history) : s.checkSignal h = true ↔ s.ownerOf h ≠ some c := by
  rw [checkSignal_iff ha hmade, Option.isNone_iff_eq_none, stampOf_isNone]

/-- A signal that `c` made and that `c` does not own any more stays closed. -/
theorem closed_stays (ha : s.Accounted none) (hclosed : StaysClosed s s') {h : Handle}
    (hmade : .madeSignal c h ∈ s.history) (hnot : s.ownerOf h ≠ some c) : s'.ownerOf h = none := by
  refine hclosed.signal h (ha.made_issued c h hmade).2 ?_
  by_contra hlive
  exact hnot (ownerOf_of_made ha hmade hlive)

theorem valid_of_issued (hi : s.Inv) {h : Handle} (hh : h ∈ s.issued) : h.isValid = true := by
  have hne : h ≠ Handle.invalid := fun heq => hi.view.invalid_issued (heq ▸ hh)
  simp [Handle.isValid, hne]

theorem makeSignal_fresh {h x : Handle} (hc : s.coros c ≠ none) (hx : s.Fresh x) (hne : x ≠ h) :
    (s.makeSignal c h).Fresh x := by
  obtain ⟨coro, hcoro⟩ := Option.ne_none_iff_exists'.mp hc
  exact ⟨hx.1, by simp [Sched.makeSignal, hcoro, hne, hx.2]⟩

theorem makeSignal_phase (s : Sched) (c h : Handle) : (s.makeSignal c h).phase = s.phase := by
  unfold Sched.makeSignal
  split <;> rfl

theorem makeSignal_owner {h : Handle} (hc : s.coros c ≠ none) :
    (s.makeSignal c h).ownerOf h = some c := by
  obtain ⟨coro, hcoro⟩ := Option.ne_none_iff_exists'.mp hc
  simp [Sched.makeSignal, ownerOf, hcoro]

theorem makeSignal_monitors (s : Sched) (c h : Handle) :
    (s.makeSignal c h).monitors = s.monitors := by
  unfold Sched.makeSignal
  split <;> rfl

theorem makeSignal_issued {h x : Handle} (hx : x ∈ s.issued) : x ∈ (s.makeSignal c h).issued := by
  unfold Sched.makeSignal
  split
  · exact List.mem_cons_of_mem _ hx
  · exact hx

/-! ## A coroutine in the middle of a call -/

/-- The coroutine is there and its entrypoint has not returned. -/
structure Inside (s : Sched) (c : Handle) : Prop where
  within : s.Within c
  live : s.coros c ≠ none

/-- The step lemma for a coroutine that is not running. -/
theorem Inside.step (h : s.Inside c) (hr : machine.Reachable s) (he : machine.enabled s a)
    (hidle : s.phase ≠ .running c) : (machine.perform s a).Inside c := by
  have heff : Effect s a (machine.perform s a) := Effect.of_step he
  refine ⟨h.within.effect heff hidle, ?_⟩
  have hview : ∀ t : Sched, t.coros c = none ↔ t.waitView c = none := by simp [waitView]
  have hlive := h.live
  rw [ne_eq, hview] at hlive ⊢
  refine heff.keeps_within (P := fun t => t.waitView c ≠ none) (fun t t' hs ht => ?_)
    (fun t ref ht => ?_) (inv_of_reachable hr).1 h.within hidle (fun ht => ?_) hlive
  · rw [hs.view]
    exact ht
  · rw [ne_eq, ← hview] at ht ⊢
    exact mt ((shrinks_raiseSignal t ref).live c).mp ht
  · simpa [waitView, Sched.resume, modifyCoro] using ht

/-- A raise does not end a coroutine. -/
theorem Inside.raise (h : s.Inside c) (ref : Handle) : ((s.raiseSignal ref).1).Inside c := by
  have hshrinks := shrinks_raiseSignal s ref
  refine ⟨⟨hshrinks.staysClosed.issued c h.within.issued, ?_⟩, mt (hshrinks.live c).mp h.live⟩
  rw [(raiseSignal_frame s ref).2.1]
  exact h.within.alive

theorem Inside.of_running (hr : machine.Reachable s) (hp : s.phase = .running c) : s.Inside c := by
  have hi := (inv_of_reachable hr).1
  obtain ⟨coro, hc⟩ := live_of_active (c := c) hi (by rw [hp]; rfl)
  exact ⟨⟨issued_of_live hi hc, by rw [hp]; nofun⟩, by simp [hc]⟩

/-- A coroutine that stops running is still there. -/
theorem Inside.of_suspended (hr : machine.Reachable s) (hp : s.phase = .running c)
    (hclosed : StaysClosed s s') (hphase : s'.phase = .pass ∨ s'.phase = s.phase)
    (hview : (s'.waitView c).isSome = true) : s'.Inside c := by
  have hwithin := (Inside.of_running hr hp).within
  refine ⟨⟨hclosed.issued _ hwithin.issued, ?_⟩, fun hnone => by simp [waitView, hnone] at hview⟩
  rcases hphase with h | h <;> rw [h]
  · simp
  · exact hwithin.alive

theorem yield_enabled (hp : s.phase = .running c) : machine.enabled s .yield := by
  show Option.isSome _ = true
  rw [hp]
  rfl

theorem wait_enabled (hp : s.phase = .running c) (signals : List Handle) (waitAll : Bool) :
    machine.enabled s (.wait signals waitAll) := by
  show Option.isSome _ = true
  rw [hp]
  rfl

theorem Inside.yield (hr : machine.Reachable s) (hp : s.phase = .running c) :
    (s.suspend c).Inside c := by
  have hclosed := (Effect.of_step (yield_enabled hp)).stays_closed
  rw [perform_yield hp] at hclosed
  obtain ⟨v, hv⟩ := Option.ne_none_iff_exists'.mp
    (mt Option.map_eq_none_iff.mp (Inside.of_running hr hp).live)
  refine Inside.of_suspended hr hp hclosed (.inl (suspend_phase s c)) ?_
  rw [(suspend_own (show s.waitView c = some v from hv)).1]
  rfl

theorem Inside.wait (hr : machine.Reachable s) (hp : s.phase = .running c) (signals : List Handle)
    (waitAll : Bool) : (s.waitForSignals c signals waitAll).Inside c := by
  have hclosed := (Effect.of_step (wait_enabled hp signals waitAll)).stays_closed
  rw [perform_wait hp] at hclosed
  obtain ⟨v, hv⟩ := Option.ne_none_iff_exists'.mp
    (mt Option.map_eq_none_iff.mp (Inside.of_running hr hp).live)
  refine Inside.of_suspended hr hp hclosed (waitForSignals_phase s c signals waitAll) ?_
  rw [(waitForSignals_own (show s.waitView c = some v from hv) signals waitAll).1]
  rfl

/-- A coroutine that runs is there until it returns from its entrypoint. -/
theorem Inside.own (hr : machine.Reachable s) (hp : s.phase = .running c)
    (he : machine.enabled s a) (hfinish : a ≠ .finish) : (machine.perform s a).Inside c := by
  have hstays : (machine.perform s a).phase = s.phase → (machine.perform s a).Inside c :=
    fun hsame => Inside.of_running (hr.step he) (hsame.trans hp)
  have hnot : ∀ {p : Phase}, s.phase = p → p ≠ .running c → (machine.perform s a).Inside c :=
    fun heq hne => absurd (heq.symm.trans hp) hne
  have heff : Effect s a (machine.perform s a) := Effect.of_step he
  revert hstays hnot heff
  generalize machine.perform s a = s'
  intro hstays hnot heff
  cases heff with
  | spawn _ _ => exact hstays rfl
  | makeSignal _ _ => exact hstays (makeSignal_phase ..)
  | @raise ref _ => exact hstays (raiseSignal_frame s ref).2.1
  | @monitor coro signal h _ _ =>
    refine hstays ?_
    unfold Sched.monitor
    split
    · rfl
    · exact (raiseSignal_frame s signal).2.1
  | unmonitor _ =>
    refine hstays ?_
    unfold Sched.unmonitor
    split <;> rfl
  | yield hd =>
    obtain rfl := Phase.running.inj (hd.symm.trans hp)
    exact Inside.yield hr hp
  | @wait d signals waitAll hd =>
    obtain rfl := Phase.running.inj (hd.symm.trans hp)
    exact Inside.wait hr hp signals waitAll
  | daemonize _ =>
    refine hstays ?_
    unfold Sched.daemonize
    split
    · split <;> rfl
    · rfl
  | finish _ => exact absurd rfl hfinish
  | issue _ _ => exact hstays rfl
  | terminate hd => exact hnot hd nofun
  | enterLoop hd => exact hnot hd nofun
  | resume hd _ => exact hnot hd nofun
  | destroy hd => exact hnot hd nofun
  | endPass hd _ => exact hnot hd nofun
  | swap hd => exact hnot hd nofun

/-- A coroutine whose entrypoint has returned stays in its cleanup until it is gone. -/
theorem Effect.stays_dying (he : Effect s a s') (hp : s.phase = .dying c) :
    s'.phase = .dying c ∨ s'.coros c = none := by
  have hnot : ∀ {p : Phase}, s.phase = p → p ≠ .dying c → s'.phase = .dying c ∨ s'.coros c = none :=
    fun heq hne => absurd (heq.symm.trans hp) hne
  cases he with
  | spawn _ _ => exact .inl hp
  | makeSignal hd _ => exact hnot hd nofun
  | @raise ref _ => exact .inl ((raiseSignal_frame s ref).2.1.trans hp)
  | @monitor coro signal h _ _ =>
    refine .inl ?_
    unfold Sched.monitor
    split
    · exact hp
    · exact (raiseSignal_frame s signal).2.1.trans hp
  | unmonitor _ =>
    refine .inl ?_
    unfold Sched.unmonitor
    split <;> exact hp
  | yield hd => exact hnot hd nofun
  | wait hd => exact hnot hd nofun
  | daemonize hd => exact hnot hd nofun
  | finish hd => exact hnot hd nofun
  | issue _ _ => exact .inl hp
  | terminate hd => exact hnot hd nofun
  | enterLoop hd => exact hnot hd nofun
  | resume hd _ => exact hnot hd nofun
  | @destroy d hd =>
    obtain rfl := Phase.dying.inj (hd.symm.trans hp)
    exact .inr (destroyCoro_coros s d)
  | endPass hd _ => exact hnot hd nofun
  | swap hd => exact hnot hd nofun

/-- A coroutine is there until it returns from its entrypoint, and never again. -/
theorem inside_step_iff (hr : machine.Reachable s) (he : machine.enabled s a) (hc : c ∈ s.issued) :
    (machine.perform s a).Inside c ↔ s.Inside c ∧ ¬(a = .finish ∧ s.phase = .running c) := by
  have heff : Effect s a (machine.perform s a) := Effect.of_step he
  constructor
  · intro h
    refine ⟨⟨⟨hc, fun hp => ?_⟩, fun hnone => h.live (heff.stays_closed.coro c hc hnone)⟩, ?_⟩
    · exact (heff.stays_dying hp).elim h.within.alive h.live
    · rintro ⟨rfl, hp⟩
      refine h.within.alive ?_
      show (s.perform .finish).phase = _
      rw [perform, inCoro_eq hp]
  · rintro ⟨h, hnot⟩
    by_cases hp : s.phase = .running c
    · exact Inside.own hr hp he fun hfinish => hnot ⟨hfinish, hp⟩
    · exact h.step hr he hp

/-! ## A signal that no monitor carries -/

/-- The coroutine `c` made the signal and no monitor carries it. -/
structure Held (s : Sched) (c signal : Handle) : Prop where
  made : .madeSignal c signal ∈ s.history
  carried : ∀ m mon, s.monitors m = some mon → mon.signal ≠ signal

variable {signal : Handle}

theorem Held.issued (h : s.Held c signal) (ha : s.Accounted none) : signal ∈ s.issued :=
  (ha.made_issued c signal h.made).2

/-- The step lemma, for an action that does not name the signal while it is live. -/
theorem Held.step (h : s.Held c signal) (hr : machine.Reachable s) (he : machine.enabled s a)
    (hnames : a.names signal = true → s.ownerOf signal ≠ some c) :
    (machine.perform s a).Held c signal := by
  refine ⟨(Effect.of_step he).appends.mem h.made, fun m mon hm heq => ?_⟩
  rcases (Effect.of_step he).monitor_new hm with hold | ⟨rfl, hlive⟩
  · exact h.carried m mon hold heq
  · have hown : s.ownerOf mon.signal ≠ none := mt ownerOf_eq_none.mp hlive
    rw [heq] at hown
    exact hnames (by simp [Action.names, heq])
      (ownerOf_of_made (accounted_of_reachable hr) h.made hown)

/-- Such an action does not close the signal, and a closed signal stays closed. -/
theorem Held.owner_iff (h : s.Held c signal) (hr : machine.Reachable s)
    (he : machine.enabled s a) (hlive : (machine.perform s a).coros c ≠ none)
    (hnames : a.names signal = true → s.ownerOf signal ≠ some c) :
    (machine.perform s a).ownerOf signal = some c ↔ s.ownerOf signal = some c := by
  constructor
  · intro hown
    by_contra hnot
    have hclosed := (Effect.of_step he).stays_closed
    rw [closed_stays (accounted_of_reachable hr) hclosed h.made hnot] at hown
    cases hown
  · intro hown
    by_contra hnot
    rcases closed_of_step hr he hown hlive hnot with hn | ⟨d, m, _, _, hm⟩
    · exact hnames hn hown
    · exact h.carried m _ hm rfl

/-- A raise closes the signal. -/
theorem Held.raise (h : s.Held c signal) (ref : Handle) :
    ((s.raiseSignal ref).1).Held c signal := by
  refine ⟨(appends_raiseSignal s ref).mem h.made, ?_⟩
  rw [(raiseSignal_frame s ref).1]
  exact h.carried

/-- A new signal is held. -/
theorem Held.of_makeSignal (hr : machine.Reachable s) (hp : s.phase = .running c)
    (hfresh : s.Fresh signal) : (s.makeSignal c signal).Held c signal := by
  have he : machine.enabled s (.makeSignal signal) := ⟨by simp [hp, Phase.mcoRunning], hfresh⟩
  have ha := accounted_of_reachable (hr.step_eq he (perform_makeSignal hp signal))
  refine ⟨(ha.own c signal (makeSignal_owner (Inside.of_running hr hp).live)).1, fun m mon hm heq => ?_⟩
  rw [makeSignal_monitors] at hm
  have hfates := fates_of_reachable hr
  exact hfresh.2 (heq ▸ (hfates.issued m _ _ (hfates.made m mon hm)).2)

/-! ## Waits -/

/-- One of the signals has been raised. -/
def RaisedAmong (s : Sched) (signals : List Handle) : Prop :=
  ∃ h ∈ signals, h.isValid = true ∧ h ∈ s.issued ∧ s.checkSignal h = true

/-- The coroutine waits for some of the signals, or one of them has been raised. -/
def Awaiting (s : Sched) (c : Handle) (signals : List Handle) : Prop :=
  (∃ W k, W.Nodup ∧ s.Parked c W 1 k ∧
    ∀ h ∈ W, h ∈ signals ∧ h.isValid = true ∧ .madeSignal c h ∈ s.history) ∨
  s.RaisedAmong signals

variable {signals : List Handle}

theorem RaisedAmong.closed (hclosed : StaysClosed s s') (h : s.RaisedAmong signals) :
    s'.RaisedAmong signals := by
  obtain ⟨x, hmem, hvalid, hissued, hcheck⟩ := h
  exact ⟨x, hmem, hvalid, hclosed.issued x hissued, checkSignal_closed hclosed hissued hcheck⟩

theorem raised_of_ready (ha : s.Accounted none) {W : List Handle} {k : Int}
    (hparked : s.Parked c W 1 k)
    (hmem : ∀ h ∈ W, h ∈ signals ∧ h.isValid = true ∧ .madeSignal c h ∈ s.history)
    (hready : s.coroState c = .ready) : s.RaisedAmong signals := by
  obtain ⟨x, hx, hcheck⟩ : s.Due W false :=
    (due_iff ha (fun x hx => (hmem x hx).2.2) rfl).mp (hparked.coroState.1.mp hready)
  obtain ⟨hsig, hvalid, hmade⟩ := hmem x hx
  exact ⟨x, hsig, hvalid, (ha.made_issued c x hmade).2, hcheck⟩

/-- The step lemma: the coroutine is resumed only when one of the signals has been raised. -/
theorem Awaiting.step (h : s.Awaiting c signals) (hr : machine.Reachable s)
    (he : machine.enabled s a) : (machine.perform s a).Awaiting c signals := by
  have heff : Effect s a (machine.perform s a) := Effect.of_step he
  have hclosed := heff.stays_closed
  have hi := (inv_of_reachable hr).1
  have ha := accounted_of_reachable hr
  rcases h with ⟨W, k, hW, hparked, hmem⟩ | hdue
  · by_cases hres : a = .resume → s.currentReadyCoros[s.coroIndex]? ≠ some c
    · refine .inl ⟨W, k, hW, hparked.effect hW hi heff hres, fun x hx => ?_⟩
      obtain ⟨hsig, hvalid, hmade⟩ := hmem x hx
      exact ⟨hsig, hvalid, heff.appends.mem hmade⟩
    · obtain ⟨_, hpick⟩ : a = .resume ∧ s.currentReadyCoros[s.coroIndex]? = some c := by
        simpa using hres
      exact .inr (RaisedAmong.closed hclosed
        (raised_of_ready ha hparked hmem (ready_of_picked hi hpick)))
  · exact .inr (hdue.closed hclosed)

/-- The coroutine runs: one of the signals has been raised. -/
theorem Awaiting.due (h : s.Awaiting c signals) (hi : s.Inv) (hp : s.phase = .running c) :
    s.RaisedAmong signals := by
  rcases h with ⟨W, k, _, hparked, _⟩ | hdue
  · exact absurd (by rw [hp]; rfl) (hparked.not_active hi)
  · exact hdue

/-- The coroutine waits as long as none of the signals has been raised. -/
theorem Awaiting.waiting (h : s.Awaiting c signals) (ha : s.Accounted none)
    (hnot : ¬s.RaisedAmong signals) : s.coroState c = .waiting := by
  rcases h with ⟨W, k, _, hparked, hmem⟩ | hdue
  · rcases hparked.coroState.2 with hwait | hready
    · exact hwait
    · exact absurd (raised_of_ready ha hparked hmem hready) hnot
  · exact absurd hdue hnot

/-- A wait with at least one signal of the caller suspends it, or one of the signals has been raised
before. -/
theorem awaiting_of_wait (hr : machine.Reachable s) (hp : s.phase = .running c)
    (hcount : s.CanCount c) {own : Handle} (hmem : own ∈ signals)
    (hmade : .madeSignal c own ∈ s.history)
    (hissued : ∀ h ∈ signals, h.isValid = true → h ∈ s.issued) :
    (s.waitForSignals c signals false).Awaiting c signals := by
  have hi := (inv_of_reachable hr).1
  have ha := accounted_of_reachable hr
  obtain ⟨coro, hc⟩ := live_of_active (c := c) hi (by rw [hp]; rfl)
  cases hsusp : s.suspends c signals false with
  | true =>
    have hparked := parked_of_wait hr hc (hcount coro (by simp [hc])) hsusp
    refine .inl ⟨_, _, nodup_waitSet s c signals, hparked, fun x hx => ?_⟩
    obtain ⟨hx', hown⟩ := mem_waitSet.mp hx
    have hmade := (ha.own c x hown).1
    exact ⟨hx', valid_of_issued hi (ha.made_issued c x hmade).2,
      (appends_waitForSignals s c signals false).mem hmade⟩
  | false =>
    refine .inr (RaisedAmong.closed (staysClosed_waitForSignals s c signals false) ?_)
    have howned := (ha.made_issued c own hmade).2
    by_cases hown : s.ownerOf own = some c
    · -- There is a signal to wait for, so another one has been raised.
      rcases suspends_iff.mp hsusp with hempty | ⟨_, x, hx, hvalid, hcheck⟩
      · have hwait : own ∈ s.waitSet c signals := mem_waitSet.mpr ⟨hmem, hown⟩
        rw [hempty] at hwait
        cases hwait
      · have hvalid' : x.isValid = true := by simp [Handle.isValid, hvalid]
        exact ⟨x, hx, hvalid', hissued x hx hvalid', hcheck⟩
    · exact ⟨own, hmem, valid_of_issued hi howned, howned,
        (checkSignal_iff_owner ha hmade).mpr hown⟩

/-- `bio_wait_for_one_signal`: with one signal, all is any. -/
theorem waitForSignals_one (s : Sched) (c h : Handle) :
    s.waitForSignals c [h] true = s.waitForSignals c [h] false := by
  unfold waitForSignals
  cases s.coros c with
  | none => rfl
  | some coro =>
    simp only [List.foldl_cons, List.foldl_nil, waitRound, setCoro]
    cases hs : s.signals h with
    | none => simp
    | some signal => by_cases hown : signal.owner = c <;> simp [hown]

/-! ## A wait for one's own signal -/

/-- The coroutine is in a wait for one signal, which it made and which no monitor carries. -/
structure Waits (s : Sched) (c signal : Handle) : Prop where
  inside : s.Inside c
  held : s.Held c signal
  awaiting : s.Awaiting c [signal]

theorem raisedAmong_one (ha : s.Accounted none) (hmade : .madeSignal c signal ∈ s.history) :
    s.RaisedAmong [signal] → s.ownerOf signal ≠ some c := by
  rintro ⟨x, hx, _, _, hcheck⟩
  obtain rfl := List.mem_singleton.mp hx
  exact (checkSignal_iff_owner ha hmade).mp hcheck

/-- The step lemma, for an action that does not name the signal while it is live. -/
theorem Waits.step (h : s.Waits c signal) (hr : machine.Reachable s) (he : machine.enabled s a)
    (hidle : s.phase ≠ .running c) (hnames : a.names signal = true → s.ownerOf signal ≠ some c) :
    (machine.perform s a).Waits c signal ∧
      ((machine.perform s a).ownerOf signal = some c ↔ s.ownerOf signal = some c) := by
  have hinside := h.inside.step hr he hidle
  exact ⟨⟨hinside, h.held.step hr he hnames, h.awaiting.step hr he⟩,
    h.held.owner_iff hr he hinside.live hnames⟩

theorem Waits.raise (h : s.Waits c signal) (hr : machine.Reachable s) (hp : s.phase ≠ .pass)
    (ref : Handle) : ((s.raiseSignal ref).1).Waits c signal :=
  ⟨h.inside.raise ref, h.held.raise ref, h.awaiting.step (a := Action.raise ref) hr hp⟩

/-- The coroutine waits as long as its signal is live. -/
theorem Waits.waiting (h : s.Waits c signal) (hr : machine.Reachable s)
    (hlive : s.ownerOf signal = some c) : s.coroState c = .waiting := by
  have ha := accounted_of_reachable hr
  exact h.awaiting.waiting ha fun hdue => raisedAmong_one ha h.held.made hdue hlive

/-- The coroutine runs only after its signal was closed. -/
theorem Waits.closed (h : s.Waits c signal) (hr : machine.Reachable s)
    (hp : s.phase = .running c) : s.ownerOf signal ≠ some c :=
  raisedAmong_one (accounted_of_reachable hr) h.held.made
    (h.awaiting.due (inv_of_reachable hr).1 hp)

/-- `bio_wait_for_one_signal` of a signal of the caller. -/
theorem Held.wait (h : s.Held c signal) (hr : machine.Reachable s) (hp : s.phase = .running c)
    (hcount : s.CanCount c) : (s.waitForSignals c [signal] true).Waits c signal := by
  have hissued := h.issued (accounted_of_reachable hr)
  have hheld := h.step hr (wait_enabled hp [signal] true) nofun
  have hawait := awaiting_of_wait hr hp hcount (List.mem_singleton_self signal) h.made
    fun x hx _ => List.mem_singleton.mp hx ▸ hissued
  rw [← waitForSignals_one] at hawait
  rw [perform_wait hp] at hheld
  exact ⟨Inside.wait hr hp [signal] true, hheld, hawait⟩

/-- `bio_wait_for_one_signal` of a new signal. -/
theorem waits_of_new (hr : machine.Reachable s) (hp : s.phase = .running c)
    (hcount : s.CanCount c) (hfresh : s.Fresh signal) :
    ((s.makeSignal c signal).waitForSignals c [signal] true).Waits c signal ∧
      ((s.makeSignal c signal).waitForSignals c [signal] true).ownerOf signal = some c := by
  have hmake : machine.enabled s (.makeSignal signal) := ⟨by rw [hp]; rfl, hfresh⟩
  have hr₁ := hr.step_eq hmake (perform_makeSignal hp signal)
  have hp₁ : (s.makeSignal c signal).phase = .running c := (makeSignal_phase ..).trans hp
  refine ⟨(Held.of_makeSignal hr hp hfresh).wait hr₁ hp₁ (hcount.makeSignal signal), ?_⟩
  rw [ownerOf_waitForSignals]
  exact makeSignal_owner (Inside.of_running hr hp).live

/-! ## A wait for one signal -/

section Sleeps

variable {sig : Handle} {Q R : Prop}

/-- If `c` waits, it is for the one signal `sig`, and `Q` holds. -/
def Sleeps (s : Sched) (c sig : Handle) (Q : Prop) : Prop :=
  ∀ v, s.waitView c = some v → v.state = .waiting →
    v.blocking = 1 ∧ s.stampOf c sig = some v.counter ∧ Q

theorem Sleeps.mono (h : s.Sleeps c sig Q) (hQ : Q → R) : s.Sleeps c sig R := by
  intro v hv hwait
  obtain ⟨hblocking, hstamp, hq⟩ := h v hv hwait
  exact ⟨hblocking, hstamp, hQ hq⟩

theorem Sleeps.same (hs : SameFor c s s') (h : s.Sleeps c sig Q) : s'.Sleeps c sig Q := by
  intro v hv hwait
  rw [hs.view] at hv
  rw [hs.stamp]
  exact h v hv hwait

theorem waitView_raiseSignal_none {ref : Handle} (h : s.waitView c = none) :
    (s.raiseSignal ref).1.waitView c = none := by
  have hnone : s.coros c = none := by simpa [waitView] using h
  simp [waitView, ((shrinks_raiseSignal s ref).live c).mpr hnone]

/-- The step lemma for raises: after the raise of its signal `c` does not wait. -/
theorem Sleeps.raiseSignal (h : s.Sleeps c sig Q) (ref : Handle) :
    (s.raiseSignal ref).1.Sleeps c sig (Q ∧ ref ≠ sig) := by
  intro v hv hwait
  cases hst : s.stampOf c ref with
  | none =>
    have hsame := sameFor_raiseSignal hst
    rw [hsame.view] at hv
    obtain ⟨hblocking, hstamp, hq⟩ := h v hv hwait
    refine ⟨hblocking, (hsame.stamp sig).trans hstamp, hq, ?_⟩
    rintro rfl
    rw [hst] at hstamp
    cases hstamp
  | some stamp =>
    cases hv₀ : s.waitView c with
    | none =>
      rw [waitView_raiseSignal_none hv₀] at hv
      cases hv
    | some v₀ =>
      obtain ⟨hview, hstamps⟩ := raiseSignal_own hst hv₀
      obtain rfl := Option.some.inj (hview.symm.trans hv)
      unfold WaitView.notify at hwait ⊢
      by_cases hb : v₀.state = .waiting ∧ int32 stamp = int32 v₀.counter
      · simp [hb, (h v₀ hv₀ hb.1).1] at hwait
      · rw [if_neg hb] at hwait ⊢
        obtain ⟨hblocking, hstamp, hq⟩ := h v₀ hv₀ hwait
        have hne : ref ≠ sig := by
          rintro rfl
          obtain rfl := Option.some.inj (hst.symm.trans hstamp)
          exact hb ⟨hwait, rfl⟩
        exact ⟨hblocking, by rw [hstamps, if_neg hne.symm, hstamp], hq, hne⟩

theorem Sleeps.resume (s : Sched) (c sig : Handle) (Q : Prop) : (s.resume c).Sleeps c sig Q := by
  intro v hv hwait
  obtain ⟨coro, hc, rfl⟩ := Option.map_eq_some_iff.mp hv
  have hc' : (s.coros c).map (fun coro =>
      { coro with state := .running, numBlockingSignals := 0 }) = some coro := by
    simpa [Sched.resume, modifyCoro] using hc
  obtain ⟨old, _, rfl⟩ := Option.map_eq_some_iff.mp hc'
  cases hwait

/-- Until it is resumed, a sleeping coroutine sleeps or is woken. -/
theorem Sleeps.effect (h : s.Sleeps c sig Q) {a : Action} (he : Effect s a s') (hi : s.Inv)
    (hin : s.Within c) (hidle : s.phase ≠ .running c) : s'.Sleeps c sig Q :=
  he.keeps_within (P := fun t => t.Sleeps c sig Q) (fun _ _ hs ht => ht.same hs)
    (fun _ ref ht => (ht.raiseSignal ref).mono And.left) hi hin hidle
    (fun _ => Sleeps.resume s c sig Q) h

theorem Sleeps.not_waiting (h : s.Sleeps c sig Q) (hQ : ¬Q) : s.coroState c ≠ .waiting := by
  intro hwait
  cases hc : s.coros c with
  | none => simp [coroState, hc] at hwait
  | some coro =>
    have hstate : coro.waitView.state = .waiting := by
      simpa [coroState, hc, Coro.waitView] using hwait
    exact hQ (h coro.waitView (by simp [waitView, hc]) hstate).2.2

theorem Sleeps.owned (h : s.Sleeps c sig Q) : s.Sleeps c sig (s.ownerOf sig = some c) := by
  intro v hv hwait
  obtain ⟨hblocking, hstamp, _⟩ := h v hv hwait
  refine ⟨hblocking, hstamp, ?_⟩
  by_contra hnot
  rw [stampOf_isNone.mpr hnot] at hstamp
  cases hstamp

/-- A wait for one live signal. -/
theorem sleeps_wait (hv : (s.waitView c).isSome = true) (hown : s.ownerOf sig = some c) (hQ : Q) :
    (s.waitForSignals c [sig] true).Sleeps c sig Q := by
  obtain ⟨v, hv⟩ := Option.isSome_iff_exists.mp hv
  obtain ⟨hview, hstamps⟩ := waitForSignals_own hv [sig] true
  have howned : s.ownedBy c sig = true := by simp [ownedBy, hown]
  obtain ⟨stamp, hstamp⟩ := Option.ne_none_iff_exists'.mp fun hnone => stampOf_isNone.mp hnone hown
  intro v' hv' _
  obtain rfl := Option.some.inj (hview.symm.trans hv')
  refine ⟨?_, ?_, hQ⟩
  · simp [afterWait, suspends, howned]
  · rw [hstamps, if_pos (List.mem_singleton.mpr rfl), hstamp, afterWait_counter]
    rfl

/-- A wait for one signal: if it suspends, the signal is the caller's. -/
theorem sleeps_wait_any (hr : machine.Reachable s)
    (hp : s.phase = .running c) (hQ : s.ownerOf sig = some c → Q) :
    (s.waitForSignals c [sig] true).Sleeps c sig Q := by
  have hlive := (Inside.of_running hr hp).live
  obtain ⟨coro, hc⟩ := Option.ne_none_iff_exists'.mp hlive
  by_cases hown : s.ownerOf sig = some c
  · exact sleeps_wait (by simp [waitView, hc]) hown (hQ hown)
  · -- The call returns at once, and its caller runs.
    have hsusp : s.suspends c [sig] true = false := by
      rw [suspends_iff, List.eq_nil_iff_forall_not_mem]
      refine .inl fun x hx => ?_
      obtain ⟨hmem, hx⟩ := mem_waitSet.mp hx
      exact hown (List.mem_singleton.mp hmem ▸ hx)
    have hphase := (waitForSignals_phase_iff hc hp [sig] true).mpr hsusp
    have hr' := hr.step_eq (wait_enabled hp [sig] true) (perform_wait hp [sig] true)
    intro v hv hwait
    obtain ⟨coro', hc', rfl⟩ := Option.map_eq_some_iff.mp hv
    have hrun : (s.waitForSignals c [sig] true).coroState c = .running :=
      ((inv_of_reachable hr').1.view.active c).mpr (by rw [view, hphase]; rfl)
    rw [coroState, hc'] at hrun
    exact absurd (hrun.symm.trans hwait) (by decide)

end Sleeps

/-! ## What the running coroutine does with its own signals -/

/-- The scheduler while the coroutine `c` runs and raises only signals that it made. -/
def ownPart (c : Handle) : Machine Sched Action :=
  machine.restrict fun s b =>
    s.phase = .running c ∧ ∀ h, b.names h = true → .madeSignal c h ∈ s.history

theorem ownPart_closed {t : Sched} (h : (ownPart c).Joined s t) : StaysClosed s t :=
  h.invariant (P := StaysClosed s)
    (fun _ _ hs hen => hs.trans (Effect.of_step hen.1).stays_closed) (Shrinks.refl s).staysClosed

end Sched

end Bio
