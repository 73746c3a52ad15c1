import Bio.SchedulerInvariant

/-!
# What the history of a run says

Handles are never issued twice, so what is closed stays closed (`Effect.stays_closed`), and the
history ghost can be compared with the state: readiness with resumption, terminations with the
coroutines that are left.

Results: `Effect.appends` says which events each action records, and `ready_queue_exact` that the
ready lists hold each ready coroutine once and nothing else.
-/

namespace Bio

namespace Sched

variable {s s' s'' : Sched}

/-! ## Closed handles stay closed -/

/-- `s'` has the coroutines of `s`, at most its signals and monitors, and issued no handle. -/
structure Shrinks (s s' : Sched) : Prop where
  live : ∀ c, s'.coros c = none ↔ s.coros c = none
  owner : ∀ h c, s'.ownerOf h = some c → s.ownerOf h = some c
  monitor : ∀ m mon, s'.monitors m = some mon → s.monitors m = some mon
  issued : s'.issued = s.issued

theorem Shrinks.refl (s : Sched) : Shrinks s s :=
  ⟨fun _ => Iff.rfl, fun _ _ h => h, fun _ _ h => h, rfl⟩

theorem Shrinks.trans (h : Shrinks s s') (h' : Shrinks s' s'') : Shrinks s s'' :=
  ⟨fun c => (h'.live c).trans (h.live c), fun x c hx => h.owner x c (h'.owner x c hx),
    fun m mon hm => h.monitor m mon (h'.monitor m mon hm), h'.issued.trans h.issued⟩

theorem shrinks_notifyOwner (s : Sched) (signal : Signal) :
    Shrinks s (s.notifyOwner signal).1 := by
  rcases notifyOwner_cases s signal with he | ⟨owner, ho, _, ⟨_, he⟩ | ⟨_, he⟩⟩ <;> rw [he]
  · exact Shrinks.refl s
  all_goals
    refine ⟨fun c => ?_, fun _ _ h => h, fun _ _ h => h, rfl⟩
    by_cases hc : c = signal.owner
    · subst hc
      simp [setCoro, pushReady, ho]
    · simp [setCoro, pushReady, hc]

theorem shrinks_dropSignal (s : Sched) (ref : Handle) (signal : Signal) :
    Shrinks s (s.dropSignal ref signal) := by
  refine ⟨fun c => Table.update_map_eq_none c, fun h c hc => ?_, fun _ _ h => h, rfl⟩
  have hown : (s.dropSignal ref signal).ownerOf = Function.update s.ownerOf ref none :=
    (ownerOf_update (s := s) rfl).trans rfl
  rw [hown] at hc
  exact (Table.erase_some hc).2

theorem shrinks_dropMonitor (s : Sched) (ref : Handle) (monitor : Monitor) :
    Shrinks s (s.dropMonitor ref monitor) :=
  ⟨fun c => Table.update_map_eq_none c, fun _ _ h => h, fun _ _ h => (Table.erase_some h).2, rfl⟩

theorem shrinks_log (s : Sched) (e : Event) : Shrinks s (s.log e) :=
  ⟨fun _ => Iff.rfl, fun _ _ h => h, fun _ _ h => h, rfl⟩

theorem shrinks_raiseSignal (s : Sched) (ref : Handle) : Shrinks s (s.raiseSignal ref).1 := by
  cases hs : s.signals ref with
  | none =>
    rw [raiseSignal_none hs]
    exact Shrinks.refl s
  | some signal =>
    rw [raiseSignal_some hs]
    exact ((shrinks_notifyOwner s signal).trans (shrinks_dropSignal _ ref signal)).trans
      (shrinks_log _ _)

theorem shrinks_destroySignal (s : Sched) (ref : Handle) : Shrinks s (s.destroySignal ref) := by
  unfold destroySignal
  split
  · exact shrinks_dropSignal s ref _
  · exact Shrinks.refl s

theorem shrinks_triggerMonitor (s : Sched) (ref : Handle) : Shrinks s (s.triggerMonitor ref) := by
  unfold triggerMonitor
  split
  · next monitor _ =>
    exact ((shrinks_raiseSignal s monitor.signal).trans (shrinks_dropMonitor _ ref monitor)).trans
      (shrinks_log _ _)
  · exact Shrinks.refl s

theorem shrinks_unmonitor (s : Sched) (ref : Handle) : Shrinks s (s.unmonitor ref) := by
  unfold unmonitor
  split
  · exact (shrinks_dropMonitor s ref _).trans (shrinks_log _ _)
  · exact Shrinks.refl s

theorem shrinks_foldl {f : Sched → Handle → Sched} (hf : ∀ s h, Shrinks s (f s h))
    (l : List Handle) : ∀ s, Shrinks s (l.foldl f s) := by
  induction l with
  | nil => exact Shrinks.refl
  | cons h l ih => exact fun s => (hf s h).trans (ih (f s h))

/-- The state in which `destroyCoro` removes the coroutine itself. -/
def beforeRemove (s : Sched) (coro : Coro) : Sched :=
  coro.monitors.foldl triggerMonitor (coro.pendingSignals.foldl destroySignal s)

theorem destroyCoro_eq {c : Handle} {coro : Coro} (hc : s.coros c = some coro) :
    s.destroyCoro c = (s.beforeRemove coro).removeCoro c := by
  simp only [destroyCoro, hc, beforeRemove]

theorem shrinks_beforeRemove (s : Sched) (coro : Coro) : Shrinks s (s.beforeRemove coro) :=
  (shrinks_foldl shrinks_destroySignal _ s).trans (shrinks_foldl shrinks_triggerMonitor _ _)

/-- A step keeps what was issued, and a handle that was issued and does not resolve any more never
resolves again. -/
structure StaysClosed (s s' : Sched) : Prop where
  issued : ∀ h, h ∈ s.issued → h ∈ s'.issued
  coro : ∀ c, c ∈ s.issued → s.coros c = none → s'.coros c = none
  signal : ∀ h, h ∈ s.issued → s.ownerOf h = none → s'.ownerOf h = none
  monitor : ∀ m, m ∈ s.issued → s.monitors m = none → s'.monitors m = none

theorem Shrinks.staysClosed (h : Shrinks s s') : StaysClosed s s' where
  issued := fun x hx => h.issued ▸ hx
  coro := fun c _ hc => (h.live c).mpr hc
  signal := fun x _ hx => by
    cases hx' : s'.ownerOf x with
    | none => rfl
    | some c => rw [h.owner x c hx'] at hx; cases hx
  monitor := fun m _ hm => by
    cases hm' : s'.monitors m with
    | none => rfl
    | some mon => rw [h.monitor m mon hm'] at hm; cases hm

theorem StaysClosed.trans (h : StaysClosed s s') (h' : StaysClosed s' s'') : StaysClosed s s'' where
  issued := fun x hx => h'.issued x (h.issued x hx)
  coro := fun c hi hc => h'.coro c (h.issued c hi) (h.coro c hi hc)
  signal := fun x hi hx => h'.signal x (h.issued x hi) (h.signal x hi hx)
  monitor := fun m hi hm => h'.monitor m (h.issued m hi) (h.monitor m hi hm)

theorem ownerOf_eq_none {h : Handle} : s.ownerOf h = none ↔ s.signals h = none := by
  simp [ownerOf]

theorem checkSignal_shrinks (hs : Shrinks s s') {h : Handle} (hh : s.checkSignal h = true) :
    s'.checkSignal h = true := by
  have hnone : s.ownerOf h = none := ownerOf_eq_none.mpr (by simpa [checkSignal] using hh)
  have hnone' : s'.ownerOf h = none := by
    by_contra hne
    obtain ⟨d, hd⟩ := Option.ne_none_iff_exists'.mp hne
    rw [hs.owner h d hd] at hnone
    cases hnone
  simp [checkSignal, ownerOf_eq_none.mp hnone']

theorem checkSignal_raiseSignal (s : Sched) (h : Handle) :
    (s.raiseSignal h).1.checkSignal h = true := by
  cases hs : s.signals h with
  | none => simp [raiseSignal_none hs, checkSignal, hs]
  | some signal => simp [raiseSignal_some hs, checkSignal, dropSignal, log]

/-- Only the coroutines change, and none is added. -/
theorem staysClosed_of_coros (hcoros : ∀ c, s'.coros c = none ↔ s.coros c = none)
    (hsignals : s'.ownerOf = s.ownerOf) (hmonitors : s'.monitors = s.monitors)
    (hissued : s'.issued = s.issued) : StaysClosed s s' where
  issued := fun _ hh => hissued ▸ hh
  coro := fun c _ hc => (hcoros c).mpr hc
  signal := fun _ _ hh => hsignals ▸ hh
  monitor := fun _ _ hm => hmonitors ▸ hm

theorem suspend_eq {c : Handle} {coro : Coro} (hc : s.coros c = some coro) :
    s.suspend c =
      if coro.numBlockingSignals > 0 then
        ({ s with phase := .pass } : Sched).setCoro c { coro with state := .waiting }
      else
        (({ s with phase := .pass } : Sched).setCoro c { coro with state := .ready }).pushReady c := by
  simp only [suspend, hc]

theorem setCoro_eq_none {c : Handle} {old new : Coro} (hc : s.coros c = some old) (x : Handle) :
    (s.setCoro c new).coros x = none ↔ s.coros x = none := by
  by_cases hx : x = c
  · subst hx
    simp [setCoro, hc]
  · simp [setCoro, hx]

theorem staysClosed_suspend (s : Sched) (c : Handle) : StaysClosed s (s.suspend c) := by
  cases hc : s.coros c with
  | none =>
    simp only [suspend, hc]
    exact staysClosed_of_coros (fun _ => Iff.rfl) rfl rfl rfl
  | some coro =>
    rw [suspend_eq hc]
    split
    · exact staysClosed_of_coros (fun x => setCoro_eq_none (s := s) hc x) rfl rfl rfl
    · exact staysClosed_of_coros (fun x => setCoro_eq_none (s := s) hc x) rfl rfl rfl

theorem staysClosed_waitForSignals (s : Sched) (c : Handle) (signals : List Handle)
    (waitAll : Bool) : StaysClosed s (s.waitForSignals c signals waitAll) := by
  cases hc : s.coros c with
  | none =>
    simp only [waitForSignals, hc]
    exact (Shrinks.refl s).staysClosed
  | some coro =>
    have hloop : StaysClosed s (s.afterWaitLoop c coro signals) :=
      staysClosed_of_coros (setCoro_eq_none hc)
        (congrArg View.own (view_stamp (s.setCoro c _) c (coro.waitCounter + 1) signals)) rfl rfl
    rw [waitForSignals_eq hc]
    split
    · refine (hloop.trans ?_).trans (staysClosed_suspend _ c)
      exact staysClosed_of_coros (fun x => Table.update_map_eq_none x) rfl rfl rfl
    · exact hloop

theorem Effect.stays_closed {a : Action} (he : Effect s a s') : StaysClosed s s' := by
  cases he with
  | @spawn daemon h _ fresh =>
    refine ⟨fun x hx => List.mem_cons_of_mem _ hx, fun c hi hc => ?_, fun _ _ hh => hh,
      fun _ _ hm => hm⟩
    have hne : c ≠ h := fun heq => fresh.2 (heq ▸ hi)
    exact (Function.update_of_ne hne ..).trans hc
  | @makeSignal c h _ fresh =>
    unfold Sched.makeSignal
    split
    · next coro hc =>
      refine ⟨fun x hx => List.mem_cons_of_mem _ hx, fun x _ hx => ?_, fun x hi hx => ?_,
        fun _ _ hm => hm⟩
      · exact (setCoro_eq_none hc x).mpr hx
      · have hne : x ≠ h := fun heq => fresh.2 (heq ▸ hi)
        rw [ownerOf_eq_none] at hx ⊢
        exact (Function.update_of_ne hne ..).trans hx
    · exact (Shrinks.refl s).staysClosed
  | raise _ => exact (shrinks_raiseSignal s _).staysClosed
  | @monitor coro signal h _ fresh =>
    unfold Sched.monitor
    split
    · refine ⟨fun x hx => List.mem_cons_of_mem _ hx, fun x _ hx => (Table.update_map_eq_none x).mpr hx,
        fun _ _ hx => hx, fun m hi hm => ?_⟩
      have hne : m ≠ h := fun heq => fresh.2 (heq ▸ hi)
      exact (Function.update_of_ne hne ..).trans hm
    · exact (shrinks_raiseSignal s _).staysClosed
  | unmonitor _ => exact (shrinks_unmonitor s _).staysClosed
  | yield _ => exact staysClosed_suspend s _
  | wait _ => exact staysClosed_waitForSignals s _ _ _
  | daemonize _ =>
    unfold Sched.daemonize
    split
    · next coro hc =>
      split
      · exact (Shrinks.refl s).staysClosed
      · exact staysClosed_of_coros (setCoro_eq_none hc) rfl rfl rfl
    · exact (Shrinks.refl s).staysClosed
  | finish _ => exact staysClosed_of_coros (fun _ => Iff.rfl) rfl rfl rfl
  | issue _ _ =>
    exact ⟨fun x hx => List.mem_cons_of_mem _ hx, fun _ _ h => h, fun _ _ h => h, fun _ _ h => h⟩
  | terminate _ => exact staysClosed_of_coros (fun _ => Iff.rfl) rfl rfl rfl
  | enterLoop _ => exact staysClosed_of_coros (fun _ => Iff.rfl) rfl rfl rfl
  | resume _ _ => exact staysClosed_of_coros (fun x => Table.update_map_eq_none x) rfl rfl rfl
  | @destroy c _ =>
    have hremove : ∀ t : Sched, StaysClosed t (t.removeCoro c) := by
      intro t
      unfold removeCoro
      split
      · refine ⟨fun _ h => h, fun x _ hx => ?_, fun _ _ h => h, fun _ _ h => h⟩
        by_cases hxc : x = c
        · exact hxc ▸ Function.update_self ..
        · exact (Function.update_of_ne hxc ..).trans hx
      · exact staysClosed_of_coros (fun _ => Iff.rfl) rfl rfl rfl
    cases hc : s.coros c with
    | none =>
      simp only [destroyCoro, hc]
      exact hremove s
    | some coro =>
      rw [destroyCoro_eq hc]
      exact (shrinks_beforeRemove s coro).staysClosed.trans (hremove _)
  | endPass _ _ => exact staysClosed_of_coros (fun _ => Iff.rfl) rfl rfl rfl
  | swap _ => exact staysClosed_of_coros (fun _ => Iff.rfl) rfl rfl rfl

/-- A coroutine that is gone never comes back. -/
theorem stays_dead {c : Handle} (h : machine.Joined s s') (hissued : c ∈ s.issued)
    (hc : s.coros c = none) : c ∈ s'.issued ∧ s'.coros c = none := by
  obtain ⟨as, hlegal, rfl⟩ := h
  refine Machine.run_invariant (P := fun t => c ∈ t.issued ∧ t.coros c = none) ?_ ⟨hissued, hc⟩ hlegal
  intro t a ht he
  have hclosed := (Effect.of_step he).stays_closed
  exact ⟨hclosed.issued c ht.1, hclosed.coro c ht.1 ht.2⟩

end Sched

/-! ## The events of each function -/

/-- The event that scheduling a coroutine records. -/
def Event.ofNotify : Event → Bool
  | .becameReady _ => true
  | _ => false

/-- The events that `bio_raise_signal` records. -/
def Event.ofRaise : Event → Bool
  | .becameReady _ | .raisedSignal _ => true
  | _ => false

/-- The events of the destruction of a coroutine, before the coroutine itself is removed. -/
def Event.ofTrigger : Event → Bool
  | .becameReady _ | .raisedSignal _ | .firedMonitor _ => true
  | _ => false

theorem Event.ofRaise_of_ofNotify {e : Event} (h : e.ofNotify = true) : e.ofRaise = true := by
  cases e <;> first | rfl | cases h

theorem Event.ofTrigger_of_ofRaise {e : Event} (h : e.ofRaise = true) : e.ofTrigger = true := by
  cases e <;> first | rfl | cases h

namespace Sched

variable {s s' s'' : Sched}

/-- `s'` has the history of `s` and further events, all of which satisfy `p`. -/
def Appends (p : Event → Bool) (s s' : Sched) : Prop :=
  ∃ l, s'.history = s.history ++ l ∧ ∀ e, e ∈ l → p e = true

theorem Appends.refl (p : Event → Bool) (s : Sched) : Appends p s s :=
  ⟨[], (List.append_nil _).symm, nofun⟩

theorem Appends.of_eq {p : Event → Bool} (h : s'.history = s.history) : Appends p s s' :=
  ⟨[], by rw [h, List.append_nil], nofun⟩

theorem Appends.single {p : Event → Bool} {e : Event} (h : s'.history = s.history ++ [e])
    (he : p e = true) : Appends p s s' :=
  ⟨[e], h, fun e' he' => by rw [List.mem_singleton.mp he']; exact he⟩

theorem Appends.trans {p : Event → Bool} (h : Appends p s s') (h' : Appends p s' s'') :
    Appends p s s'' := by
  obtain ⟨l, hl, hp⟩ := h
  obtain ⟨l', hl', hp'⟩ := h'
  refine ⟨l ++ l', by rw [hl', hl, List.append_assoc], fun e he => ?_⟩
  rcases List.mem_append.mp he with he | he
  · exact hp e he
  · exact hp' e he

theorem Appends.mono {p q : Event → Bool} (hpq : ∀ e, p e = true → q e = true)
    (h : Appends p s s') : Appends q s s' := by
  obtain ⟨l, hl, hp⟩ := h
  exact ⟨l, hl, fun e he => hpq e (hp e he)⟩

theorem Appends.mem_iff {p : Event → Bool} (h : Appends p s s') {e : Event} (he : p e = false) :
    e ∈ s'.history ↔ e ∈ s.history := by
  obtain ⟨l, hl, hp⟩ := h
  rw [hl, List.mem_append]
  refine ⟨fun h => h.resolve_right fun hin => ?_, .inl⟩
  rw [hp e hin] at he
  cases he

theorem Appends.count_eq {p : Event → Bool} (h : Appends p s s') {e : Event} (he : p e = false) :
    s'.history.count e = s.history.count e := by
  obtain ⟨l, hl, hp⟩ := h
  have hzero : l.count e = 0 := List.count_eq_zero.mpr fun hmem => by
    rw [hp e hmem] at he
    cases he
  rw [hl, List.count_append, hzero, Nat.add_zero]

theorem Appends.mem {p : Event → Bool} (h : Appends p s s') {e : Event} (he : e ∈ s.history) :
    e ∈ s'.history := by
  obtain ⟨l, hl, _⟩ := h
  rw [hl]
  exact List.mem_append_left _ he

theorem appends_foldl {p : Event → Bool} {f : Sched → Handle → Sched}
    (hf : ∀ s h, Appends p s (f s h)) (l : List Handle) : ∀ s, Appends p s (l.foldl f s) := by
  induction l with
  | nil => exact Appends.refl p
  | cons h l ih => exact fun s => (hf s h).trans (ih (f s h))

theorem appends_notifyOwner (s : Sched) (signal : Signal) :
    Appends Event.ofNotify s (s.notifyOwner signal).1 := by
  rcases notifyOwner_cases s signal with he | ⟨owner, _, _, ⟨_, he⟩ | ⟨_, he⟩⟩ <;> rw [he]
  · exact Appends.refl _ s
  · exact Appends.of_eq rfl
  · exact Appends.single rfl rfl

theorem appends_raiseSignal (s : Sched) (ref : Handle) :
    Appends Event.ofRaise s (s.raiseSignal ref).1 := by
  cases hs : s.signals ref with
  | none =>
    rw [raiseSignal_none hs]
    exact Appends.refl _ s
  | some signal =>
    rw [raiseSignal_some hs]
    exact ((appends_notifyOwner s signal).mono fun _ => Event.ofRaise_of_ofNotify).trans
      (Appends.single rfl rfl)

theorem appends_destroySignal (s : Sched) (ref : Handle) :
    Appends Event.ofTrigger s (s.destroySignal ref) := by
  unfold destroySignal
  split
  · exact Appends.of_eq rfl
  · exact Appends.refl _ s

theorem appends_triggerMonitor (s : Sched) (ref : Handle) :
    Appends Event.ofTrigger s (s.triggerMonitor ref) := by
  unfold triggerMonitor
  split
  · next monitor _ =>
    exact ((appends_raiseSignal s monitor.signal).mono fun _ => Event.ofTrigger_of_ofRaise).trans
      (Appends.single rfl rfl)
  · exact Appends.refl _ s

theorem appends_beforeRemove (s : Sched) (coro : Coro) :
    Appends Event.ofTrigger s (s.beforeRemove coro) :=
  (appends_foldl appends_destroySignal _ s).trans (appends_foldl appends_triggerMonitor _ _)

theorem appends_suspend (s : Sched) (c : Handle) : Appends Event.ofNotify s (s.suspend c) := by
  cases hc : s.coros c with
  | none =>
    simp only [suspend, hc]
    exact Appends.of_eq rfl
  | some coro =>
    rw [suspend_eq hc]
    split
    · exact Appends.of_eq rfl
    · exact Appends.single rfl rfl

theorem appends_waitForSignals (s : Sched) (c : Handle) (signals : List Handle) (waitAll : Bool) :
    Appends Event.ofNotify s (s.waitForSignals c signals waitAll) := by
  cases hc : s.coros c with
  | none =>
    simp only [waitForSignals, hc]
    exact Appends.refl _ s
  | some coro =>
    rw [waitForSignals_eq hc]
    split
    · exact Appends.trans (Appends.of_eq rfl) (appends_suspend _ c)
    · exact Appends.of_eq rfl

/-- The events that an action can record. -/
def records (s : Sched) : Action → Event → Bool
  | .spawn _ handle, e => e = .becameReady handle
  | .makeSignal handle, e => s.phase.mcoRunning.any fun c => e = .madeSignal c handle
  | .raise _, e => e.ofRaise
  | .monitor coro signal handle, e => e.ofRaise || e = .monitored handle coro signal
  | .unmonitor ref, e => e = .unmonitored ref
  | .yield, e => e.ofNotify
  | .wait _ _, e => e.ofNotify
  | .resume, e => s.currentReadyCoros[s.coroIndex]?.any fun c => e = .resumed c
  | .destroy, e => e.ofTrigger || s.phase.mcoDead.any fun c => e = .terminated c
  | .swap, e => e = .swapped
  | _, _ => false

theorem Effect.appends {a : Action} (he : Effect s a s') : Appends (s.records a) s s' := by
  cases he with
  | spawn _ _ => exact Appends.single rfl (by simp [records])
  | makeSignal hp _ =>
    unfold Sched.makeSignal
    split
    · exact Appends.single rfl (by simp [records, hp, Phase.mcoRunning])
    · exact Appends.refl _ s
  | raise _ => exact appends_raiseSignal s _
  | monitor _ _ =>
    unfold Sched.monitor
    split
    · exact Appends.single rfl (by simp [records])
    · exact (appends_raiseSignal s _).mono fun e h => by simp [records, h]
  | unmonitor _ =>
    unfold Sched.unmonitor
    split
    · exact Appends.single rfl (by simp [records])
    · exact Appends.refl _ s
  | yield _ => exact appends_suspend s _
  | wait _ => exact appends_waitForSignals s _ _ _
  | daemonize _ =>
    unfold Sched.daemonize
    split
    · split <;> exact Appends.of_eq rfl
    · exact Appends.refl _ s
  | finish _ => exact Appends.of_eq rfl
  | issue _ _ => exact Appends.of_eq rfl
  | terminate _ => exact Appends.of_eq rfl
  | enterLoop _ => exact Appends.of_eq rfl
  | resume _ hc => exact Appends.single rfl (by simp [records, hc])
  | @destroy c hp =>
    have hremove : ∀ t : Sched, Appends (s.records .destroy) t (t.removeCoro c) := by
      intro t
      unfold removeCoro
      split
      · exact Appends.single rfl (by simp [records, hp, Phase.mcoDead])
      · exact Appends.of_eq rfl
    cases hc : s.coros c with
    | none =>
      simp only [destroyCoro, hc]
      exact hremove s
    | some coro =>
      rw [destroyCoro_eq hc]
      exact ((appends_beforeRemove s coro).mono fun e h => by simp [records, h]).trans (hremove _)
  | endPass _ _ => exact Appends.of_eq rfl
  | swap _ => exact Appends.single rfl (by simp [records])

/-! ## Readiness and resumption -/

/-- A coroutine was resumed once for each time it became ready, except for a readiness that it is
still waiting to use. -/
def Balanced (s : Sched) : Prop := ∀ c,
  s.history.count (.becameReady c) =
    s.history.count (.resumed c) + if s.coroState c = .ready then 1 else 0

theorem Balanced.quiet (hb : s.Balanced)
    (hstate : ∀ c, s'.coroState c = .ready ↔ s.coroState c = .ready)
    {l : List Event} (hh : s'.history = s.history ++ l)
    (hl : ∀ c, Event.becameReady c ∉ l ∧ Event.resumed c ∉ l) : s'.Balanced := by
  intro c
  have hc := hb c
  simp only [hh, List.count_append, List.count_eq_zero.mpr (hl c).1,
    List.count_eq_zero.mpr (hl c).2, hstate c]
  omega

theorem Balanced.push (hb : s.Balanced) {c : Handle} (hc : s.coroState c ≠ .ready)
    (hstate : s'.coroState = Function.update s.coroState c .ready)
    (hh : s'.history = s.history ++ [.becameReady c]) : s'.Balanced := by
  intro c'
  have hb' := hb c'
  by_cases hcc : c' = c
  · subst hcc
    rw [if_neg hc] at hb'
    simp [hh, hstate, List.count_append, hb']
  · simpa [hh, hstate, List.count_append, hcc, Ne.symm hcc] using hb'

theorem coroState_dropSignal (s : Sched) (ref : Handle) (signal : Signal) :
    (s.dropSignal ref signal).coroState = s.coroState :=
  congrArg View.state (view_dropSignal s ref signal)

theorem coroState_dropMonitor (s : Sched) (ref : Handle) (monitor : Monitor) :
    (s.dropMonitor ref monitor).coroState = s.coroState :=
  congrArg View.state (view_dropMonitor s ref monitor)

theorem coroState_setCoro (s : Sched) (c : Handle) (coro : Coro) :
    (s.setCoro c coro).coroState = Function.update s.coroState c coro.state :=
  (coroState_update (s := s) rfl).trans rfl

theorem Balanced.notifyOwner (hb : s.Balanced) (signal : Signal) :
    (s.notifyOwner signal).1.Balanced := by
  rcases notifyOwner_cases s signal with he | ⟨owner, ho, hblocks, ⟨_, he⟩ | ⟨_, he⟩⟩ <;> rw [he]
  · exact hb
  · refine hb.quiet (l := []) (fun c => ?_) (List.append_nil _).symm (by simp)
    rw [coroState_setCoro, Function.update_apply]
    split
    · next hc => simp [hc, coroState, ho]
    · rfl
  · refine hb.push ?_ (coroState_setCoro s _ _) rfl
    simp [coroState, ho, blocks_waiting hblocks]

theorem Balanced.raiseSignal (hb : s.Balanced) (ref : Handle) : (s.raiseSignal ref).1.Balanced := by
  cases hs : s.signals ref with
  | none =>
    rw [raiseSignal_none hs]
    exact hb
  | some signal =>
    rw [raiseSignal_some hs]
    refine (hb.notifyOwner signal).quiet (l := [.raisedSignal ref]) (fun c => ?_) rfl (by simp)
    exact iff_of_eq (congrArg (· = _) (congrFun (coroState_dropSignal _ ref signal) c))

theorem Balanced.destroySignal (hb : s.Balanced) (ref : Handle) : (s.destroySignal ref).Balanced := by
  unfold Sched.destroySignal
  split
  · next signal _ =>
    refine hb.quiet (l := []) (fun c => ?_) (List.append_nil _).symm (by simp)
    rw [coroState_dropSignal]
  · exact hb

theorem Balanced.triggerMonitor (hb : s.Balanced) (ref : Handle) :
    (s.triggerMonitor ref).Balanced := by
  unfold Sched.triggerMonitor
  split
  · next monitor _ =>
    refine (hb.raiseSignal monitor.signal).quiet (l := [.firedMonitor ref]) (fun c => ?_) rfl
      (by simp)
    exact iff_of_eq (congrArg (· = _) (congrFun (coroState_dropMonitor _ ref monitor) c))
  · exact hb

theorem foldl_induction {P : Sched → Prop} {f : Sched → Handle → Sched}
    (hf : ∀ s h, P s → P (f s h)) (l : List Handle) : ∀ {s : Sched}, P s → P (l.foldl f s) := by
  induction l with
  | nil => exact fun h => h
  | cons h l ih => exact fun hs => ih (hf _ h hs)

theorem Balanced.beforeRemove (hb : s.Balanced) (coro : Coro) : (s.beforeRemove coro).Balanced :=
  foldl_induction (fun _ h hs => hs.triggerMonitor h) _
    (foldl_induction (fun _ h hs => hs.destroySignal h) _ hb)

theorem Balanced.suspend (hb : s.Balanced) {c : Handle} (hc : s.coroState c = .running) :
    (s.suspend c).Balanced := by
  cases hl : s.coros c with
  | none => simp [coroState, hl] at hc
  | some coro =>
    rw [suspend_eq hl]
    split
    · refine hb.quiet (l := []) (fun c' => ?_) (List.append_nil _).symm (by simp)
      rw [coroState_setCoro, Function.update_apply]
      split
      · next he => simp [he, hc]
      · rfl
    · exact hb.push (by rw [hc]; decide) (coroState_setCoro s c _) rfl

/-- The coroutine that the loop picks is ready. -/
theorem ready_of_picked (hi : s.Inv) {c : Handle}
    (hc : s.currentReadyCoros[s.coroIndex]? = some c) : s.coroState c = .ready := by
  have hcount := hi.view.queue c
  by_contra hne
  simp [Sched.view, readyQueue_resume hc, hne] at hcount

/-- While its signals and monitors are dealt with, the dead coroutine is still there. -/
theorem inv_beforeRemove (hi : s.Inv) {c : Handle} {coro : Coro} (hc : s.coros c = some coro) :
    (s.beforeRemove coro).Inv ∧ (s.beforeRemove coro).phase = s.phase ∧
      (s.beforeRemove coro).pendingOf c = some [] ∧
      (s.beforeRemove coro).monitorsOf c = some [] := by
  have hp : s.pendingOf c = some coro.pendingSignals := by simp [pendingOf, hc]
  have hm : s.monitorsOf c = some coro.monitors := by simp [monitorsOf, hc]
  obtain ⟨hi₁, hp₁, hm₁, hph₁⟩ := destroySignals_spec coro.pendingSignals hi hp
  rw [← hm₁] at hm
  obtain ⟨hi₂, hm₂, hp₂, hph₂⟩ := triggerMonitors_spec coro.monitors hi₁ hm hp₁
  exact ⟨hi₂, hph₂.trans hph₁, hp₂, hm₂⟩

theorem coroState_beforeRemove (hi : s.Inv) {c : Handle} {coro : Coro}
    (hc : s.coros c = some coro) (hp : s.phase = .dying c) :
    (s.beforeRemove coro).coroState c = .running := by
  obtain ⟨hi', hphase, _⟩ := inv_beforeRemove hi hc
  refine (hi'.view.active c).mpr ?_
  show (s.beforeRemove coro).phase.active = some c
  rw [hphase, hp]
  rfl

/-- Nothing but the fields of one coroutine that are not its state changes. -/
theorem Balanced.setCoro (hb : s.Balanced) {c : Handle} {old new : Coro}
    (hcoros : s'.coros = Function.update s.coros c (some new)) (hc : s.coros c = some old)
    (hstate : new.state = old.state) (hh : s'.history = s.history) : s'.Balanced := by
  refine hb.quiet (l := []) (fun c' => ?_) (by rw [hh, List.append_nil]) (by simp)
  rw [coroState_update hcoros, Function.update_apply]
  split
  · next he => simp [he, coroState, hc, hstate]
  · rfl

theorem coroState_modifyCoro (s : Sched) (c : Handle) {f : Coro → Coro}
    (hf : ∀ coro, (f coro).state = coro.state) : (s.modifyCoro c f).coroState = s.coroState :=
  coroState_modify (s := s) rfl hf

theorem Balanced.modifyCoro (hb : s.Balanced) (c : Handle) {f : Coro → Coro}
    (hf : ∀ coro, (f coro).state = coro.state) : (s.modifyCoro c f).Balanced :=
  hb.quiet (l := []) (fun c' => by rw [coroState_modifyCoro s c hf]) (List.append_nil _).symm
    (by simp)

theorem Balanced.waitForSignals (hb : s.Balanced) {c : Handle} (hc : s.coroState c = .running)
    (signals : List Handle) (waitAll : Bool) : (s.waitForSignals c signals waitAll).Balanced := by
  cases hl : s.coros c with
  | none => simp [coroState, hl] at hc
  | some coro =>
    have hloop : (s.afterWaitLoop c coro signals).Balanced := hb.setCoro rfl hl rfl rfl
    have hcoro : (s.afterWaitLoop c coro signals).coros c =
        some { coro with waitCounter := coro.waitCounter + 1 } := Function.update_self ..
    have hrunning : (s.afterWaitLoop c coro signals).coroState c = .running := by
      rw [coroState, hl] at hc
      simpa [coroState, hcoro] using hc
    rw [waitForSignals_eq hl]
    split
    · refine Balanced.suspend (hloop.modifyCoro c ?_) ?_
      · exact fun _ => rfl
      · rw [coroState_modifyCoro]
        · exact hrunning
        · exact fun _ => rfl
    · exact hloop

theorem Balanced.effect (hb : s.Balanced) (hi : s.Inv) {a : Action} (he : Effect s a s') :
    s'.Balanced := by
  have hrun : ∀ c, s.phase.active = some c → s.coroState c = .running :=
    fun c hc => (hi.view.active c).mpr hc
  have hquiet : ∀ t : Sched, t.coros = s.coros → t.history = s.history → t.Balanced :=
    fun t hc hh => hb.quiet (l := []) (fun c => by rw [coroState_eq hc])
      (by rw [hh, List.append_nil]) (by simp)
  cases he with
  | @spawn daemon h _ fresh =>
    refine hb.push ?_ ((coroState_update (s := s) rfl).trans rfl) rfl
    intro hready
    refine fresh.2 (hi.view.coro_issued h fun hnone => ?_)
    rw [show s.coroState h = .dead from (hi.view.dead_iff h).mpr hnone] at hready
    cases hready
  | @makeSignal c h _ _ =>
    unfold Sched.makeSignal
    split
    · next coro hc =>
      refine hb.quiet (l := [.madeSignal c h]) (fun c' => ?_) rfl (by simp)
      rw [coroState_update (s := s) rfl, Function.update_apply]
      split
      · next he => simp [he, coroState, hc]
      · rfl
    · exact hb
  | raise _ => exact hb.raiseSignal _
  | @monitor coro signal h _ _ =>
    unfold Sched.monitor
    split
    · refine hb.quiet (l := [.monitored h coro signal]) (fun c' => ?_) rfl (by simp)
      exact iff_of_eq (congrArg (· = _) (congrFun (coroState_modify (s := s)
        (f := fun impl => { impl with monitors := impl.monitors ++ [h] }) rfl fun _ => rfl) c'))
    · exact hb.raiseSignal _
  | @unmonitor ref _ =>
    unfold Sched.unmonitor
    split
    · next monitor _ =>
      refine hb.quiet (l := [.unmonitored ref]) (fun c' => ?_) rfl (by simp)
      exact iff_of_eq (congrArg (· = _) (congrFun (coroState_dropMonitor s ref monitor) c'))
    · exact hb
  | yield hp => exact hb.suspend (hrun _ (by rw [hp]; rfl))
  | wait hp => exact hb.waitForSignals (hrun _ (by rw [hp]; rfl)) _ _
  | daemonize _ =>
    unfold Sched.daemonize
    split
    · next coro hc =>
      split
      · exact hb
      · exact hb.setCoro rfl hc rfl rfl
    · exact hb
  | finish _ => exact hquiet _ rfl rfl
  | issue _ _ => exact hquiet _ rfl rfl
  | terminate _ => exact hquiet _ rfl rfl
  | enterLoop _ => exact hquiet _ rfl rfl
  | @resume c _ hc =>
    have hready : s.coroState c = .ready := ready_of_picked hi hc
    intro c'
    have hb' := hb c'
    have hstate : (s.resume c).coroState c' = if c' = c then .running else s.coroState c' := by
      rw [coroState_update (s := s) rfl, Function.update_apply]
      cases hl : s.coros c with
      | none => simp [coroState, hl] at hready
      | some coro => rfl
    rw [hstate]
    by_cases hcc : c' = c
    · subst hcc
      rw [if_pos hready] at hb'
      simp [Sched.resume, List.count_append, hb']
    · simpa [Sched.resume, List.count_append, hcc, Ne.symm hcc] using hb'
  | @destroy c hp =>
    have hr := hrun c (by rw [hp]; rfl)
    cases hc : s.coros c with
    | none => simp [coroState, hc] at hr
    | some coro =>
      rw [destroyCoro_eq hc]
      have hb' := hb.beforeRemove coro
      have hstate := coroState_beforeRemove hi hc hp
      cases hc' : (s.beforeRemove coro).coros c with
      | none => simp [coroState, hc'] at hstate
      | some coro' =>
        simp only [removeCoro, hc']
        refine hb'.quiet (l := [.terminated c]) (fun c' => ?_) rfl (by simp)
        rw [coroState_update (s := s.beforeRemove coro) rfl, Function.update_apply]
        split
        · next he => simp [he, hstate]
        · rfl
  | endPass _ _ => exact hquiet _ rfl rfl
  | swap _ =>
    exact hb.quiet (l := [.swapped]) (fun c => Iff.rfl) rfl (by simp)

/-! ## Terminated coroutines -/

/-- A coroutine that has terminated is gone. -/
def Gone (s : Sched) : Prop :=
  ∀ c, .terminated c ∈ s.history → c ∈ s.issued ∧ s.coros c = none

theorem removeCoro_coros (s : Sched) (c : Handle) : (s.removeCoro c).coros c = none := by
  unfold removeCoro
  split
  · exact Function.update_self ..
  · next hc => exact hc

theorem destroyCoro_coros (s : Sched) (c : Handle) : (s.destroyCoro c).coros c = none := by
  unfold destroyCoro
  split <;> exact removeCoro_coros _ c

theorem live_of_active (hi : s.Inv) {c : Handle} (ha : s.phase.active = some c) :
    ∃ coro, s.coros c = some coro := live_of_running ((hi.view.active c).mpr ha)

theorem issued_of_live (hi : s.Inv) {c : Handle} {coro : Coro} (hc : s.coros c = some coro) :
    c ∈ s.issued :=
  hi.view.coro_issued c (by simp [Sched.view, pendingOf, hc])

theorem Gone.effect (hg : s.Gone) (hi : s.Inv) {a : Action} (he : Effect s a s') : s'.Gone := by
  intro c hc
  have hclosed := he.stays_closed
  by_cases hrec : s.records a (.terminated c) = true
  · -- Only the destruction of `c` records its termination.
    cases he with
    | @destroy c' hp =>
      have hcc : c = c' := by
        simpa [records, Event.ofTrigger, hp, Phase.mcoDead] using hrec
      subst hcc
      obtain ⟨coro, hlive⟩ := live_of_active (c := c) hi (by rw [hp]; rfl)
      exact ⟨hclosed.issued c (issued_of_live hi hlive), destroyCoro_coros s c⟩
    | _ => simp [records, Event.ofRaise, Event.ofNotify] at hrec
  · obtain ⟨hissued, hnone⟩ := hg c ((he.appends.mem_iff (by simpa using hrec)).mp hc)
    exact ⟨hclosed.issued c hissued, hclosed.coro c hissued hnone⟩

theorem balanced_of_reachable (h : machine.Reachable s) : s.Balanced := by
  refine Machine.invariant (P := Balanced) ?_ ?_ h
  · rintro s rfl
    exact fun c => by simp [Sched.init, coroState]
  · exact fun s a hr hb he => hb.effect (inv_of_reachable hr).1 (Effect.of_enabled he)

theorem gone_of_reachable (h : machine.Reachable s) : s.Gone := by
  refine Machine.invariant (P := Gone) ?_ ?_ h
  · rintro s rfl
    exact fun c hc => by simp [Sched.init] at hc
  · exact fun s a hr hg he => hg.effect (inv_of_reachable hr).1 (Effect.of_enabled he)

/-- In every reachable state a live coroutine is in the ready lists once if it is ready and not at
all if it waits or runs, at most one coroutine runs, and a terminated one is in no list. So the
loop resumes ready coroutines only, and each readiness is used for one resumption. -/
theorem ready_queue_exact (h : machine.Reachable s) :
    (∀ c coro, s.coros c = some coro →
      (coro.state = .ready ∧ s.readyQueue.count c = 1) ∨
      ((coro.state = .waiting ∨ coro.state = .running) ∧ s.readyQueue.count c = 0)) ∧
    (∀ c c', s.coroState c = .running → s.coroState c' = .running → c = c') ∧
    (∀ c, s.coroState c = .dead → c ∉ s.readyQueue) ∧
    (∀ c, .terminated c ∈ s.history → s.coroState c = .dead ∧ c ∉ s.readyQueue) ∧
    (machine.enabled s .resume → ∃ c, machine.perform s .resume = s.resume c ∧
      s.coroState c = .ready ∧ .terminated c ∉ s.history ∧ c ∉ (s.resume c).readyQueue) ∧
    (∀ c, s.history.count (.becameReady c) = s.history.count (.resumed c) +
      if s.coroState c = .ready then 1 else 0) := by
  obtain ⟨hi, hidle⟩ := inv_of_reachable h
  have hgone := gone_of_reachable h
  have hdead : ∀ c, s.coroState c = .dead → c ∉ s.readyQueue :=
    fun c hc => hi.view.not_ready_of_ne (by rw [show s.view.state c = .dead from hc]; decide)
  have hterm : ∀ c, .terminated c ∈ s.history → s.coroState c = .dead :=
    fun c hc => by simp [coroState, (hgone c hc).2]
  refine ⟨fun c coro hc => ?_, fun c c' hc hc' => ?_, hdead,
    fun c hc => ⟨hterm c hc, hdead c (hterm c hc)⟩, fun he => ?_, balanced_of_reachable h⟩
  · have hstate : s.coroState c = coro.state := by simp [coroState, hc]
    have hcount : s.readyQueue.count c = if s.coroState c = .ready then 1 else 0 :=
      hi.view.queue c
    rw [hstate] at hcount
    have hok := (hi.coro c coro hc).1
    revert hcount hok
    cases coro.state <;> simp
  · have h₁ := (hi.view.active c).mp hc
    rw [(hi.view.active c').mp hc'] at h₁
    exact (Option.some.inj h₁).symm
  · obtain ⟨hp, hlt⟩ := he
    have hc := List.getElem?_eq_getElem hlt
    have hready := ready_of_picked hi hc
    refine ⟨_, ?_, hready, fun hmem => ?_, ?_⟩
    · show s.perform .resume = _
      rw [perform, hc]
    · rw [hterm _ hmem] at hready
      cases hready
    · have hi' := hi.resume hp hc
      refine hi'.view.not_ready_of_ne ?_
      have hrun := (hi'.view.active (s.currentReadyCoros[s.coroIndex])).mpr rfl
      rw [hrun]
      decide

/-- Two coroutines: the first one waits, the second one is about to be resumed. -/
theorem ready_queue_exact_two_coros :
    let s := machine.run Sched.init [.spawn false ⟨0, 1⟩, .spawn false ⟨1, 1⟩, .enterLoop, .endPass,
      .swap, .resume, .makeSignal ⟨2, 1⟩, .wait [⟨2, 1⟩] true]
    s.coroState ⟨0, 1⟩ = .waiting ∧ s.readyQueue.count ⟨1, 1⟩ = 1 ∧
      ∃ c, machine.perform s .resume = s.resume c ∧ s.coroState c = .ready := by
  intro s
  have hr : machine.Reachable s := Machine.Reachable.run (.init rfl) (by decide)
  obtain ⟨hlive, _, _, _, hresume, _⟩ := ready_queue_exact hr
  obtain ⟨c, hc, hready, _⟩ := hresume (by decide)
  refine ⟨rfl, ?_, c, hc, hready⟩
  rcases hlive ⟨1, 1⟩ _ rfl with ⟨_, hone⟩ | ⟨hne, _⟩
  · exact hone
  · revert hne
    decide

end Sched

end Bio
