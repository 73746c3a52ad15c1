import Bio.SchedulerSignals

/-!
# Monitors

The life of a monitor: `bio_monitor` registers it, and then it is either discarded by
`bio_unmonitor` or fired by the termination of its target, once (`Fates`). What the termination does
is said by `destroyCoro_monitors`: it closes the monitors of the dead coroutine and no others, and
raises the signals that they carry and no others.
-/

namespace Bio

/-- The event is about no monitor. -/
def Event.noMonitor : Event → Bool
  | .monitored _ _ _ | .unmonitored _ | .firedMonitor _ => false
  | _ => true

theorem Event.noMonitor_of_ofRaise {e : Event} (h : e.ofRaise = true) : e.noMonitor = true := by
  cases e <;> first | rfl | cases h

namespace Sched

variable {s s' : Sched} {dying : Option Handle}

/-- How often a monitor was discarded and how often it fired. -/
def discards (s : Sched) (m : Handle) : Nat := s.history.count (.unmonitored m)
def fires (s : Sched) (m : Handle) : Nat := s.history.count (.firedMonitor m)

/-- What can have become of a monitor of `target` with the signal `signal`. -/
inductive Fate (s : Sched) (dying : Option Handle) (m target signal : Handle) : Prop
  | registered (h : s.monitors m = some ⟨target, signal⟩) (hd : s.discards m = 0)
      (hf : s.fires m = 0)
  | discarded (h : s.monitors m = none) (hd : s.discards m = 1) (hf : s.fires m = 0)
  | fired (h : s.monitors m = none) (hd : s.discards m = 0) (hf : s.fires m = 1)
      (ht : .terminated target ∈ s.history ∨ dying = some target)

/-- The history agrees with the table of monitors. While the monitors of a dead coroutine are
triggered, that coroutine is not terminated yet. -/
structure Fates (s : Sched) (dying : Option Handle) : Prop where
  fate : ∀ m t sig, .monitored m t sig ∈ s.history → Fate s dying m t sig
  made : ∀ m mon, s.monitors m = some mon → .monitored m mon.target mon.signal ∈ s.history
  issued : ∀ m t sig, .monitored m t sig ∈ s.history → m ∈ s.issued ∧ sig ∈ s.issued
  unused : ∀ m, m ∉ s.issued → s.discards m = 0 ∧ s.fires m = 0

/-- No monitor is registered, discarded or fired. -/
theorem Fates.quiet (hf : s.Fates dying) (happ : Appends Event.noMonitor s s')
    (hmon : s'.monitors = s.monitors) (hissued : ∀ h, h ∈ s.issued → h ∈ s'.issued) :
    s'.Fates dying := by
  have hd : ∀ m, s'.discards m = s.discards m := fun m => happ.count_eq rfl
  have hfi : ∀ m, s'.fires m = s.fires m := fun m => happ.count_eq rfl
  have hmem : ∀ m t sig, .monitored m t sig ∈ s'.history ↔ .monitored m t sig ∈ s.history :=
    fun m t sig => happ.mem_iff rfl
  refine ⟨fun m t sig hm => ?_, fun m mon hm => ?_, fun m t sig hm => ?_, fun m hm => ?_⟩
  · cases hf.fate m t sig ((hmem m t sig).mp hm) with
    | registered h h₁ h₂ => exact .registered (hmon ▸ h) ((hd m).trans h₁) ((hfi m).trans h₂)
    | discarded h h₁ h₂ => exact .discarded (hmon ▸ h) ((hd m).trans h₁) ((hfi m).trans h₂)
    | fired h h₁ h₂ ht =>
      exact .fired (hmon ▸ h) ((hd m).trans h₁) ((hfi m).trans h₂) (ht.imp_left happ.mem)
  · exact (hmem ..).mpr (hf.made m mon (hmon ▸ hm))
  · exact (hf.issued m t sig ((hmem m t sig).mp hm)).imp (hissued m) (hissued sig)
  · rw [hd, hfi]
    exact hf.unused m (mt (hissued m) hm)

theorem Fates.raiseSignal (hf : s.Fates dying) (ref : Handle) :
    (s.raiseSignal ref).1.Fates dying :=
  hf.quiet ((appends_raiseSignal s ref).mono fun _ => Event.noMonitor_of_ofRaise)
    (raiseSignal_frame s ref).1 fun _ h => (raiseSignal_frame s ref).2.2.1 ▸ h

/-- A registered monitor ends: it leaves the table, and the event that says so is recorded. -/
theorem Fates.close (hf : s.Fates dying) {ref : Handle} {mon : Monitor} {e : Event}
    (hreg : s.monitors ref = some mon) (hh : s'.history = s.history ++ [e])
    (hmon : s'.monitors = Function.update s.monitors ref none) (hissued : s'.issued = s.issued)
    (hissued' : ref ∈ s.issued)
    (he : e = .unmonitored ref ∨ (e = .firedMonitor ref ∧ dying = some mon.target)) :
    s'.Fates dying := by
  have hmem : ∀ m t sig, .monitored m t sig ∈ s'.history ↔ .monitored m t sig ∈ s.history := by
    intro m t sig
    rcases he with rfl | ⟨rfl, _⟩ <;> simp [hh]
  have hother : ∀ m, m ≠ ref → s'.discards m = s.discards m ∧ s'.fires m = s.fires m := by
    intro m hm
    rcases he with rfl | ⟨rfl, _⟩ <;> simp [discards, fires, hh, List.count_append, Ne.symm hm]
  have hmade := hf.made ref mon hreg
  have hzero : s.discards ref = 0 ∧ s.fires ref = 0 := by
    cases hf.fate ref _ _ hmade with
    | registered _ h₁ h₂ => exact ⟨h₁, h₂⟩
    | discarded h _ _ => rw [hreg] at h; cases h
    | fired h _ _ _ => rw [hreg] at h; cases h
  have hunmonitored : s.history.count (.unmonitored ref) = 0 := hzero.1
  have hfired : s.history.count (.firedMonitor ref) = 0 := hzero.2
  refine ⟨fun m t sig hm => ?_, fun m mon' hm => ?_, fun m t sig hm => ?_, fun m hm => ?_⟩
  · by_cases hmr : m = ref
    · subst hmr
      have hnone : s'.monitors m = none := by simp [hmon]
      rcases he with rfl | ⟨rfl, hdy⟩
      · refine .discarded hnone ?_ ?_
        · simp [discards, hh, List.count_append, hunmonitored]
        · simp [fires, hh, List.count_append, hfired]
      · have htarget : t = mon.target := by
          cases hf.fate m t sig ((hmem m t sig).mp hm) with
          | registered h _ _ => rw [hreg] at h; cases h; rfl
          | discarded h _ _ => rw [hreg] at h; cases h
          | fired h _ _ _ => rw [hreg] at h; cases h
        refine .fired hnone ?_ ?_ (.inr (htarget ▸ hdy))
        · simp [discards, hh, List.count_append, hunmonitored]
        · simp [fires, hh, List.count_append, hfired]
    · have hsame : s'.monitors m = s.monitors m := by simp [hmon, hmr]
      obtain ⟨hd, hfi⟩ := hother m hmr
      cases hf.fate m t sig ((hmem m t sig).mp hm) with
      | registered h h₁ h₂ => exact .registered (hsame.trans h) (hd.trans h₁) (hfi.trans h₂)
      | discarded h h₁ h₂ => exact .discarded (hsame.trans h) (hd.trans h₁) (hfi.trans h₂)
      | fired h h₁ h₂ ht =>
        refine .fired (hsame.trans h) (hd.trans h₁) (hfi.trans h₂) (ht.imp_left fun ht => ?_)
        exact hh ▸ List.mem_append_left _ ht
  · exact (hmem ..).mpr (hf.made m mon' (Table.erase_some (hmon ▸ hm)).2)
  · exact hissued ▸ hf.issued m t sig ((hmem m t sig).mp hm)
  · have hne : m ≠ ref := fun heq => hm (hissued ▸ heq ▸ hissued')
    rw [(hother m hne).1, (hother m hne).2]
    exact hf.unused m (hissued ▸ hm)

theorem monitor_issued (hi : s.Inv) {m : Handle} {mon : Monitor} (hm : s.monitors m = some mon) :
    m ∈ s.issued :=
  hi.view.monitor_issued m (by simp [Sched.view, targetOf, hm])

theorem Fates.unmonitor (hf : s.Fates dying) (hi : s.Inv) (ref : Handle) :
    (s.unmonitor ref).Fates dying := by
  unfold Sched.unmonitor
  split
  · next mon hm => exact hf.close hm rfl rfl rfl (monitor_issued hi hm) (.inl rfl)
  · exact hf

theorem Fates.triggerMonitor (hf : s.Fates dying) (hi : s.Inv) {ref : Handle} {mon : Monitor}
    (hm : s.monitors ref = some mon) (hd : dying = some mon.target) :
    (s.triggerMonitor ref).Fates dying := by
  obtain ⟨hmonitors, _, hissued, _⟩ := raiseSignal_frame s mon.signal
  simp only [Sched.triggerMonitor, hm]
  refine (hf.raiseSignal mon.signal).close (hmonitors ▸ hm) rfl rfl rfl ?_ (.inr ⟨rfl, hd⟩)
  rw [hissued]
  exact monitor_issued hi hm

/-- What is left of the list of a dead coroutine after its first monitor was triggered. -/
theorem triggerMonitor_lists {c m : Handle} {l : List Handle} (hi : s.Inv)
    (hl : s.monitorsOf c = some (m :: l)) : ∃ mon, s.monitors m = some mon ∧ mon.target = c ∧
      (s.triggerMonitor m).monitorsOf c = some l := by
  have htarget : s.targetOf m = some c := hi.view.filed.own c _ hl m List.mem_cons_self
  obtain ⟨mon, hm, ht⟩ := Option.map_eq_some_iff.mp htarget
  refine ⟨mon, hm, ht, ?_⟩
  simp only [triggerMonitor, hm]
  refine (congrFun (congrArg View.monitors
    (view_dropMonitor (s.raiseSignal mon.signal).1 m mon)) c).trans ?_
  simp [View.dropMonitor, view, ht, (raiseSignal_frame s mon.signal).2.2.2.1, hl]

theorem Fates.triggerMonitors (l : List Handle) : ∀ {s : Sched} {c : Handle}, s.Inv →
    s.Fates (some c) → s.monitorsOf c = some l →
    (l.foldl Sched.triggerMonitor s).Fates (some c) := by
  induction l with
  | nil => exact fun _ hf _ => hf
  | cons m l ih =>
    intro s c hi hf hl
    obtain ⟨mon, hm, ht, hl'⟩ := triggerMonitor_lists hi hl
    exact ih (hi.triggerMonitor m) (hf.triggerMonitor hi hm (by rw [ht])) hl'

theorem monitors_destroySignals (l : List Handle) : ∀ s : Sched,
    (l.foldl Sched.destroySignal s).monitors = s.monitors ∧
      (l.foldl Sched.destroySignal s).history = s.history ∧
      (l.foldl Sched.destroySignal s).issued = s.issued := by
  induction l with
  | nil => exact fun _ => ⟨rfl, rfl, rfl⟩
  | cons h l ih =>
    intro s
    have hone : (s.destroySignal h).monitors = s.monitors ∧
        (s.destroySignal h).history = s.history ∧ (s.destroySignal h).issued = s.issued := by
      unfold destroySignal
      split <;> exact ⟨rfl, rfl, rfl⟩
    obtain ⟨h₁, h₂, h₃⟩ := ih (s.destroySignal h)
    exact ⟨h₁.trans hone.1, h₂.trans hone.2.1, h₃.trans hone.2.2⟩

theorem Fates.destroyCoro (hf : s.Fates none) (hi : s.Inv) {c : Handle}
    (hp : s.phase = .dying c) : (s.destroyCoro c).Fates none := by
  obtain ⟨coro, hc⟩ := live_of_active (c := c) hi (by rw [hp]; rfl)
  have hpending : s.pendingOf c = some coro.pendingSignals := by simp [pendingOf, hc]
  have hlist : s.monitorsOf c = some coro.monitors := by simp [monitorsOf, hc]
  obtain ⟨hi₁, _, hm₁, _⟩ := destroySignals_spec coro.pendingSignals hi hpending
  obtain ⟨hmon, hhist, hissued⟩ := monitors_destroySignals coro.pendingSignals s
  -- While the coroutine is torn down, its monitors have fired and it is not recorded as gone yet.
  have hweak : s.Fates (some c) := by
    refine { hf with fate := fun m t sig hm => ?_ }
    cases hf.fate m t sig hm with
    | registered h h₁ h₂ => exact .registered h h₁ h₂
    | discarded h h₁ h₂ => exact .discarded h h₁ h₂
    | fired h h₁ h₂ ht => exact .fired h h₁ h₂ (.inl (ht.resolve_right (by simp)))
  have hbefore : (s.beforeRemove coro).Fates (some c) := by
    refine Fates.triggerMonitors _ hi₁ (hweak.quiet (Appends.of_eq hhist) hmon ?_) (hm₁ ▸ hlist)
    exact fun _ h => hissued ▸ h
  obtain ⟨coro', hc'⟩ : ∃ coro', (s.beforeRemove coro).coros c = some coro' := by
    refine Option.ne_none_iff_exists'.mp (mt ((shrinks_beforeRemove s coro).live c).mp ?_)
    simp [hc]
  rw [destroyCoro_eq hc]
  have happ : Appends Event.noMonitor (s.beforeRemove coro) ((s.beforeRemove coro).removeCoro c) := by
    simp only [removeCoro, hc']
    exact Appends.single rfl rfl
  -- The last statement records it, so no exception is left.
  have hterm : .terminated c ∈ ((s.beforeRemove coro).removeCoro c).history := by
    simp [removeCoro, hc']
  have hquiet : ((s.beforeRemove coro).removeCoro c).Fates (some c) := by
    refine hbefore.quiet happ ?_ fun _ h => ?_
    · simp only [removeCoro, hc']
    · simpa only [removeCoro, hc'] using h
  refine { hquiet with fate := fun m t sig hm => ?_ }
  cases hquiet.fate m t sig hm with
  | registered h h₁ h₂ => exact .registered h h₁ h₂
  | discarded h h₁ h₂ => exact .discarded h h₁ h₂
  | fired h h₁ h₂ ht =>
    refine .fired h h₁ h₂ (.inl (ht.elim id fun heq => ?_))
    obtain rfl := Option.some.inj heq
    exact hterm

theorem Fates.register (hf : s.Fates dying) {m t sig : Handle} (fresh : m ∉ s.issued)
    (hsig : sig ∈ s.issued)
    (hh : s'.history = s.history ++ [.monitored m t sig])
    (hmon : s'.monitors = Function.update s.monitors m (some ⟨t, sig⟩))
    (hissued : s'.issued = m :: s.issued) : s'.Fates dying := by
  have hd : ∀ x, s'.discards x = s.discards x := by
    intro x
    simp [discards, hh, List.count_append]
  have hfi : ∀ x, s'.fires x = s.fires x := by
    intro x
    simp [fires, hh, List.count_append]
  -- The handle is new, so no other monitor has it and nothing was recorded for it.
  have hother : ∀ x t' sig', .monitored x t' sig' ∈ s.history → x ≠ m :=
    fun x t' sig' hx heq => fresh (heq ▸ (hf.issued x t' sig' hx).1)
  refine ⟨fun x t' sig' hx => ?_, fun x mon hx => ?_, fun x t' sig' hx => ?_, fun x hx => ?_⟩
  · rw [hh, List.mem_append, List.mem_singleton] at hx
    rcases hx with hx | hx
    · have hsame : s'.monitors x = s.monitors x := by simp [hmon, hother x t' sig' hx]
      cases hf.fate x t' sig' hx with
      | registered h h₁ h₂ => exact .registered (hsame.trans h) ((hd x).trans h₁) ((hfi x).trans h₂)
      | discarded h h₁ h₂ => exact .discarded (hsame.trans h) ((hd x).trans h₁) ((hfi x).trans h₂)
      | fired h h₁ h₂ ht =>
        refine .fired (hsame.trans h) ((hd x).trans h₁) ((hfi x).trans h₂) (ht.imp_left fun ht => ?_)
        exact hh ▸ List.mem_append_left _ ht
    · cases hx
      obtain ⟨h₁, h₂⟩ := hf.unused m fresh
      exact .registered (by simp [hmon]) ((hd m).trans h₁) ((hfi m).trans h₂)
  · rw [hmon, Function.update_apply] at hx
    rw [hh, List.mem_append, List.mem_singleton]
    split at hx
    · next hxm =>
      cases hx
      exact .inr (by rw [hxm])
    · exact .inl (hf.made x mon hx)
  · rw [hissued]
    rw [hh, List.mem_append, List.mem_singleton] at hx
    rcases hx with hx | hx
    · exact (hf.issued x t' sig' hx).imp (List.mem_cons_of_mem _) (List.mem_cons_of_mem _)
    · cases hx
      exact ⟨List.mem_cons_self, List.mem_cons_of_mem _ hsig⟩
  · rw [hd, hfi]
    exact hf.unused x fun hmem => hx (hissued ▸ List.mem_cons_of_mem _ hmem)

/-- Only `bio_monitor`, `bio_unmonitor` and the destruction of a coroutine change the table. -/
theorem Effect.monitors_eq {a : Action} (he : Effect s a s') (hmon : ∀ t sig h, a ≠ .monitor t sig h)
    (hun : ∀ m, a ≠ .unmonitor m) (hdes : a ≠ .destroy) : s'.monitors = s.monitors := by
  cases he with
  | makeSignal _ _ =>
    unfold Sched.makeSignal
    split <;> rfl
  | raise _ => exact (raiseSignal_frame s _).1
  | monitor _ _ => exact absurd rfl (hmon _ _ _)
  | unmonitor _ => exact absurd rfl (hun _)
  | yield _ => exact (suspend_frame s _).2.1
  | wait _ => exact (waitForSignals_frame s _ _ _).1
  | daemonize _ =>
    unfold Sched.daemonize
    split
    · split <;> rfl
    · rfl
  | destroy _ => exact absurd rfl hdes
  | _ => rfl

theorem records_noMonitor {a : Action} (hmon : ∀ t sig h, a ≠ .monitor t sig h)
    (hun : ∀ m, a ≠ .unmonitor m) (hdes : a ≠ .destroy) {e : Event} (h : s.records a e = true) :
    e.noMonitor = true := by
  cases a with
  | monitor t sig m => exact absurd rfl (hmon t sig m)
  | unmonitor m => exact absurd rfl (hun m)
  | destroy => exact absurd rfl hdes
  | raise _ => exact Event.noMonitor_of_ofRaise h
  | yield => exact Event.noMonitor_of_ofRaise (Event.ofRaise_of_ofNotify h)
  | wait _ _ => exact Event.noMonitor_of_ofRaise (Event.ofRaise_of_ofNotify h)
  | _ => cases e <;> simp_all [records, Event.noMonitor]

theorem canMonitor_iff {t sig : Handle} : s.canMonitor t sig = true ↔
    s.coros t ≠ none ∧ s.signals sig ≠ none ∧ s.ownerOf sig ≠ some t := by
  unfold canMonitor
  split
  · next coro signal hc hs => simp [hc, hs, ownerOf]
  · next hnot =>
    constructor
    · simp
    · rintro ⟨hc, hs, _⟩
      obtain ⟨coro, hc⟩ := Option.ne_none_iff_exists'.mp hc
      obtain ⟨signal, hs⟩ := Option.ne_none_iff_exists'.mp hs
      exact absurd hs (hnot coro signal hc)

theorem canMonitor_issued (hi : s.Inv) {t sig : Handle} (h : s.canMonitor t sig = true) :
    sig ∈ s.issued := by
  refine hi.view.signal_issued sig fun hnone => ?_
  exact (canMonitor_iff.mp h).2.1 (ownerOf_eq_none.mp hnone)

theorem Fates.effect (hf : s.Fates none) (hi : s.Inv) {a : Action} (he : Effect s a s') :
    s'.Fates none := by
  have hquiet : (∀ t sig h, a ≠ .monitor t sig h) → (∀ m, a ≠ .unmonitor m) → a ≠ .destroy →
      s'.Fates none :=
    fun h₁ h₂ h₃ => hf.quiet (he.appends.mono fun _ => records_noMonitor h₁ h₂ h₃)
      (he.monitors_eq h₁ h₂ h₃) he.stays_closed.issued
  cases he with
  | monitor _ fresh =>
    unfold Sched.monitor
    split
    · next hcan => exact hf.register fresh.2 (canMonitor_issued hi hcan) rfl rfl rfl
    · exact hf.raiseSignal _
  | unmonitor _ => exact hf.unmonitor hi _
  | destroy hp => exact hf.destroyCoro hi hp
  | _ => exact hquiet nofun nofun nofun

theorem fates_of_reachable (h : machine.Reachable s) : s.Fates none := by
  refine Machine.invariant (P := fun s => s.Fates none) ?_ ?_ h
  · rintro s rfl
    refine ⟨?_, ?_, ?_, ?_⟩ <;> simp [Sched.init, discards, fires]
  · exact fun s a hr hf he => hf.effect (inv_of_reachable hr).1 (Effect.of_enabled he)

/-! ## The termination of a coroutine -/

theorem triggerMonitor_other {m x : Handle} (h : x ≠ m) :
    (s.triggerMonitor m).monitors x = s.monitors x := by
  unfold triggerMonitor
  split
  · next mon _ =>
    refine (Function.update_of_ne h ..).trans ?_
    rw [(raiseSignal_frame s mon.signal).1]
  · rfl

theorem raiseSignal_raised {ref sig : Handle}
    (h : .raisedSignal sig ∈ (s.raiseSignal ref).1.history) :
    .raisedSignal sig ∈ s.history ∨ sig = ref := by
  cases hs : s.signals ref with
  | none =>
    rw [raiseSignal_none hs] at h
    exact .inl h
  | some signal =>
    rw [raiseSignal_some hs] at h
    have h' : .raisedSignal sig ∈ (s.notifyOwner signal).1.history ++ [.raisedSignal ref] := h
    rw [List.mem_append, (appends_notifyOwner s signal).mem_iff rfl] at h'
    simpa using h'

theorem triggerMonitor_raised {m sig : Handle}
    (h : .raisedSignal sig ∈ (s.triggerMonitor m).history) :
    .raisedSignal sig ∈ s.history ∨ ∃ mon, s.monitors m = some mon ∧ mon.signal = sig := by
  unfold triggerMonitor at h
  split at h
  · next mon hm =>
    have h' : .raisedSignal sig ∈ (s.raiseSignal mon.signal).1.history ++ [.firedMonitor m] := h
    rcases raiseSignal_raised (by simpa using h') with h' | rfl
    · exact .inl h'
    · exact .inr ⟨mon, hm, rfl⟩
  · exact .inl h

/-- Triggering the monitors of a list raises the signals that they carry and no others. -/
theorem triggerMonitors_signals (l : List Handle) : ∀ {s : Sched}, l.Nodup →
    (∀ m, m ∉ l → (l.foldl triggerMonitor s).monitors m = s.monitors m) ∧
    (∀ sig, (s.checkSignal sig = true ∨ ∃ m mon, m ∈ l ∧ s.monitors m = some mon ∧
      mon.signal = sig) → (l.foldl triggerMonitor s).checkSignal sig = true) ∧
    (∀ sig, .raisedSignal sig ∈ (l.foldl triggerMonitor s).history →
      .raisedSignal sig ∈ s.history ∨ ∃ m mon, m ∈ l ∧ s.monitors m = some mon ∧
        mon.signal = sig) := by
  induction l with
  | nil => exact fun _ => ⟨fun _ _ => rfl, fun _ h => h.elim id (by simp), fun _ h => .inl h⟩
  | cons m l ih =>
    intro s hl
    obtain ⟨hm, hl⟩ := List.nodup_cons.mp hl
    obtain ⟨hkeep, hraise, honly⟩ := ih (s := s.triggerMonitor m) hl
    -- The rest of the list is as it was, since the first monitor is not in it.
    have hlater : ∀ x, x ∈ l → (s.triggerMonitor m).monitors x = s.monitors x := by
      intro x hx
      refine triggerMonitor_other ?_
      rintro rfl
      exact hm hx
    refine ⟨fun x hx => ?_, fun sig hsig => hraise sig ?_, fun sig hsig => ?_⟩
    · rw [List.mem_cons, not_or] at hx
      exact (hkeep x hx.2).trans (triggerMonitor_other hx.1)
    · rcases hsig with hsig | ⟨x, mon, hx, hmon, rfl⟩
      · exact .inl (checkSignal_shrinks (shrinks_triggerMonitor s m) hsig)
      · rcases List.mem_cons.mp hx with rfl | hx
        · refine .inl ?_
          simp only [triggerMonitor, hmon]
          exact checkSignal_raiseSignal s mon.signal
        · exact .inr ⟨x, mon, hx, (hlater x hx).trans hmon, rfl⟩
    · rcases honly sig hsig with hsig | ⟨x, mon, hx, hmon, rfl⟩
      · rcases triggerMonitor_raised hsig with hsig | ⟨mon, hmon, rfl⟩
        · exact .inl hsig
        · exact .inr ⟨m, mon, List.mem_cons_self, hmon, rfl⟩
      · exact .inr ⟨x, mon, List.mem_cons_of_mem _ hx, (hlater x hx).symm.trans hmon, rfl⟩

theorem removeCoro_frame (s : Sched) (c : Handle) :
    (s.removeCoro c).monitors = s.monitors ∧ (s.removeCoro c).signals = s.signals ∧
      ∀ sig, .raisedSignal sig ∈ (s.removeCoro c).history ↔ .raisedSignal sig ∈ s.history := by
  unfold removeCoro
  split
  · exact ⟨rfl, rfl, by simp⟩
  · exact ⟨rfl, rfl, fun _ => Iff.rfl⟩

/-- What the termination of `c` does to the monitors: its own are closed and their signals are
raised, the others stay, and no other signal is raised. -/
theorem destroyCoro_monitors (hi : s.Inv) {c : Handle} (hp : s.phase = .dying c) :
    (∀ m sig, s.monitors m = some ⟨c, sig⟩ →
      (s.destroyCoro c).monitors m = none ∧ (s.destroyCoro c).checkSignal sig = true) ∧
    (∀ m mon, s.monitors m = some mon → mon.target ≠ c →
      (s.destroyCoro c).monitors m = some mon) ∧
    (∀ sig, .raisedSignal sig ∈ (s.destroyCoro c).history →
      .raisedSignal sig ∈ s.history ∨ ∃ m, s.monitors m = some ⟨c, sig⟩) := by
  obtain ⟨coro, hc⟩ := live_of_active (c := c) hi (by rw [hp]; rfl)
  have hlist : s.view.monitors c = some coro.monitors := by simp [Sched.view, monitorsOf, hc]
  have hnodup := hi.view.filed.nodup c _ hlist
  have hmem : ∀ m mon, s.monitors m = some mon → (m ∈ coro.monitors ↔ mon.target = c) := by
    intro m mon hm
    have htarget : s.view.target m = some mon.target := by simp [Sched.view, targetOf, hm]
    refine ⟨fun hin => ?_, fun heq => ?_⟩
    · rw [hi.view.filed.own c _ hlist m hin] at htarget
      exact (Option.some.inj htarget).symm
    · obtain ⟨l, hl, hin⟩ := hi.view.filed.mem m c (heq ▸ htarget)
      rw [hlist] at hl
      exact Option.some.inj hl ▸ hin
  obtain ⟨hmon, hhist, _⟩ := monitors_destroySignals coro.pendingSignals s
  obtain ⟨hkeep, hraise, honly⟩ := triggerMonitors_signals coro.monitors
    (s := coro.pendingSignals.foldl destroySignal s) hnodup
  obtain ⟨hrm, hrs, hrh⟩ := removeCoro_frame (s.beforeRemove coro) c
  have hi' := hi.destroyCoro (c := c) (by rw [hp]; rfl)
  rw [destroyCoro_eq hc] at hi' ⊢
  refine ⟨fun m sig hm => ⟨?_, ?_⟩, fun m mon hm hne => ?_, fun sig hsig => ?_⟩
  · -- A monitor that is left has a live target.
    by_contra hne
    obtain ⟨mon, hmon'⟩ := Option.ne_none_iff_exists'.mp hne
    have hsame := (shrinks_beforeRemove s coro).monitor m mon (hrm ▸ hmon')
    rw [hm] at hsame
    cases hsame
    obtain ⟨l, hl, _⟩ := hi'.view.filed.mem m c (by simp [Sched.view, targetOf, hmon'])
    simp [Sched.view, monitorsOf, removeCoro_coros] at hl
  · -- The monitor is in the list of the coroutine, so it is triggered.
    simp only [checkSignal, hrs]
    exact hraise sig (.inr ⟨m, _, (hmem m _ hm).mpr rfl, hmon ▸ hm, rfl⟩)
  · rw [hrm]
    refine (hkeep m (mt (hmem m mon hm).mp hne)).trans ?_
    rw [hmon]
    exact hm
  · rcases honly sig ((hrh sig).mp hsig) with hsig | ⟨m, mon, hin, hm, rfl⟩
    · exact .inl (hhist ▸ hsig)
    · rw [hmon] at hm
      obtain rfl := (hmem m mon hm).mp hin
      exact .inr ⟨m, hm⟩

/-- All the ways in which a step can raise a signal. -/
theorem Effect.raised {a : Action} (he : Effect s a s') (hi : s.Inv) {sig : Handle}
    (h : .raisedSignal sig ∈ s'.history) :
    .raisedSignal sig ∈ s.history ∨ a = .raise sig ∨ (∃ t m, a = .monitor t sig m) ∨
      ∃ c m, a = .destroy ∧ s.phase = .dying c ∧ s.monitors m = some ⟨c, sig⟩ := by
  have hquiet : s.records a (.raisedSignal sig) = false → .raisedSignal sig ∈ s.history :=
    fun hrec => (he.appends.mem_iff hrec).mp h
  cases he with
  | @raise ref _ =>
    rcases raiseSignal_raised h with h | rfl
    · exact .inl h
    · exact .inr (.inl rfl)
  | @monitor coro signal m _ _ =>
    by_cases hsig : sig = signal
    · exact .inr (.inr (.inl ⟨coro, m, hsig ▸ rfl⟩))
    · refine .inl ?_
      unfold Sched.monitor at h
      split at h
      · simpa using h
      · exact (raiseSignal_raised h).resolve_right hsig
  | @destroy c hp =>
    rcases (destroyCoro_monitors hi hp).2.2 sig h with h | ⟨m, hm⟩
    · exact .inl h
    · exact .inr (.inr (.inr ⟨c, m, rfl, hp, hm⟩))
  | _ => exact .inl (hquiet (by simp [records, Event.ofNotify]))

/-- A monitor stays registered until it is discarded or its target terminates. -/
theorem Effect.monitor_stays {a : Action} (he : Effect s a s') (hi : s.Inv) {m : Handle}
    {mon : Monitor} (hm : s.monitors m = some mon) (hun : a ≠ .unmonitor m)
    (hdes : a = .destroy → s.phase ≠ .dying mon.target) : s'.monitors m = some mon := by
  have hquiet : (∀ t sig h, a ≠ .monitor t sig h) → (∀ m, a ≠ .unmonitor m) → a ≠ .destroy →
      s'.monitors m = some mon := by
    intro h₁ h₂ h₃
    rw [he.monitors_eq h₁ h₂ h₃]
    exact hm
  cases he with
  | @monitor coro signal h _ fresh =>
    unfold Sched.monitor
    split
    · have hne : m ≠ h := fun heq => fresh.2 (heq ▸ monitor_issued hi hm)
      exact (Function.update_of_ne hne ..).trans hm
    · rw [(raiseSignal_frame s signal).1]
      exact hm
  | @unmonitor ref _ =>
    unfold Sched.unmonitor
    split
    · have hne : m ≠ ref := fun heq => hun (heq ▸ rfl)
      exact (Function.update_of_ne hne ..).trans hm
    · exact hm
  | @destroy c hp =>
    refine (destroyCoro_monitors hi hp).2.1 m mon hm fun heq => ?_
    exact hdes rfl (heq ▸ hp)
  | _ => exact hquiet nofun nofun nofun

/-- Where a monitor in the table comes from. -/
theorem Effect.monitor_new {a : Action} (he : Effect s a s') {m : Handle} {mon : Monitor}
    (hm : s'.monitors m = some mon) :
    s.monitors m = some mon ∨
      (a = .monitor mon.target mon.signal m ∧ s.signals mon.signal ≠ none) := by
  have hquiet : (∀ t sig h, a ≠ .monitor t sig h) → (∀ m, a ≠ .unmonitor m) → a ≠ .destroy →
      s.monitors m = some mon := by
    intro h₁ h₂ h₃
    rw [← he.monitors_eq h₁ h₂ h₃]
    exact hm
  cases he with
  | @monitor coro signal h _ _ =>
    unfold Sched.monitor at hm
    split at hm
    · next hcan =>
      have hm' : Function.update s.monitors h (some ⟨coro, signal⟩) m = some mon := hm
      rw [Function.update_apply] at hm'
      split at hm'
      · next heq =>
        cases hm'
        exact .inr ⟨heq ▸ rfl, (canMonitor_iff.mp hcan).2.1⟩
      · exact .inl hm'
    · rw [(raiseSignal_frame s signal).1] at hm
      exact .inl hm
  | unmonitor _ => exact .inl ((shrinks_unmonitor s _).monitor m mon hm)
  | @destroy c _ =>
    refine .inl ?_
    cases hc : s.coros c with
    | none =>
      simp only [destroyCoro, hc] at hm
      rwa [(removeCoro_frame s c).1] at hm
    | some coro =>
      rw [destroyCoro_eq hc, (removeCoro_frame _ c).1] at hm
      exact (shrinks_beforeRemove s coro).monitor m mon hm
  | _ => exact .inl (hquiet (by simp) (by simp) (by simp))

end Sched

/-- The action raises the signal, now or when a coroutine terminates. -/
def Action.names : Action → Handle → Bool
  | .raise ref, h => ref = h
  | .monitor _ signal _, h => signal = h
  | _, _ => false

/-- The signals that an action names. -/
def Action.signals : Action → List Handle
  | .raise ref => [ref]
  | .monitor _ signal _ => [signal]
  | _ => []

theorem Action.mem_signals {a : Action} {h : Handle} : h ∈ a.signals ↔ a.names h = true := by
  cases a <;> simp [Action.signals, Action.names, eq_comm]

namespace Sched

variable {s : Sched}

/-- The ways in which a signal of a coroutine that goes on living is closed. -/
theorem closed_of_step {a : Action} (hr : machine.Reachable s) (he : machine.enabled s a)
    {c h : Handle} (hown : s.ownerOf h = some c) (hlive : (machine.perform s a).coros c ≠ none)
    (hclosed : (machine.perform s a).ownerOf h ≠ some c) :
    a.names h = true ∨
      ∃ d m, a = .destroy ∧ s.phase = .dying d ∧ s.monitors m = some ⟨d, h⟩ := by
  have heff : Effect s a (machine.perform s a) := Effect.of_step he
  obtain ⟨hmade, hnot⟩ := (accounted_of_reachable hr).own c h hown
  have hraised : .raisedSignal h ∈ (machine.perform s a).history := by
    by_contra hraised
    exact hclosed ((accounted_of_reachable (hr.step he)).pending c h (heff.appends.mem hmade)
      hraised hlive nofun)
  rcases heff.raised (inv_of_reachable hr).1 hraised with hold | rfl | ⟨t, m, rfl⟩ | hdestroy
  · exact absurd hold hnot
  · exact .inl (by simp [Action.names])
  · exact .inl (by simp [Action.names])
  · exact .inr hdestroy

end Sched

end Bio
