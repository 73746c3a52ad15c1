import Bio.SchedulerHistory

/-!
# Who owns which signal

The history of a run is compared with the table of signals: `Accounted` says that a signal resolves
as long as it was made and not raised and its coroutine is there. The destruction of a coroutine
closes its signals one by one before it closes the coroutine, so the invariant carries the coroutine
that is being destroyed as an exception.

Result: `signal_ownership_exact`.
-/

namespace Bio

namespace Sched

variable {s s' : Sched}

/-! ## Signals made and raised -/

/-- The history agrees with the table of signals. While the signals of a dead coroutine are
destroyed, that coroutine is the exception. -/
structure Accounted (s : Sched) (dying : Option Handle) : Prop where
  made_issued : ∀ c h, .madeSignal c h ∈ s.history → c ∈ s.issued ∧ h ∈ s.issued
  made_unique : ∀ c c' h, .madeSignal c h ∈ s.history → .madeSignal c' h ∈ s.history → c = c'
  raised_issued : ∀ h, .raisedSignal h ∈ s.history → h ∈ s.issued
  raised_once : ∀ h, s.history.count (.raisedSignal h) ≤ 1
  own : ∀ c h, s.ownerOf h = some c →
    .madeSignal c h ∈ s.history ∧ .raisedSignal h ∉ s.history
  pending : ∀ c h, .madeSignal c h ∈ s.history → .raisedSignal h ∉ s.history →
    s.coros c ≠ none → dying ≠ some c → s.ownerOf h = some c

end Sched

/-- The event makes or raises no signal. -/
def Event.noSignal : Event → Bool
  | .madeSignal _ _ | .raisedSignal _ => false
  | _ => true

theorem Event.noSignal_of_ofNotify {e : Event} (h : e.ofNotify = true) : e.noSignal = true := by
  cases e <;> first | rfl | cases h

namespace Sched

variable {s s' : Sched} {dying : Option Handle}

/-- No signal is made, raised or destroyed. -/
theorem Accounted.quiet (ha : s.Accounted dying) (happ : Appends Event.noSignal s s')
    (hown : s'.ownerOf = s.ownerOf) (hissued : ∀ h, h ∈ s.issued → h ∈ s'.issued)
    (hlive : ∀ c, s'.coros c ≠ none → s.coros c ≠ none ∨ c ∉ s.issued) : s'.Accounted dying := by
  have hmade : ∀ c h, .madeSignal c h ∈ s'.history ↔ .madeSignal c h ∈ s.history :=
    fun c h => happ.mem_iff rfl
  have hraised : ∀ h, .raisedSignal h ∈ s'.history ↔ .raisedSignal h ∈ s.history :=
    fun h => happ.mem_iff rfl
  refine ⟨fun c h hm => ?_, fun c c' h hm hm' => ?_, fun h hr => ?_, fun h => ?_, fun c h ho => ?_,
    fun c h hm hr hc hd => ?_⟩
  · obtain ⟨hc, hh⟩ := ha.made_issued c h ((hmade c h).mp hm)
    exact ⟨hissued c hc, hissued h hh⟩
  · exact ha.made_unique c c' h ((hmade c h).mp hm) ((hmade c' h).mp hm')
  · exact hissued h (ha.raised_issued h ((hraised h).mp hr))
  · rw [happ.count_eq rfl]
    exact ha.raised_once h
  · rw [hown] at ho
    obtain ⟨hm, hr⟩ := ha.own c h ho
    exact ⟨(hmade c h).mpr hm, mt (hraised h).mp hr⟩
  · have hm' := (hmade c h).mp hm
    rw [hown]
    rcases hlive c hc with hc' | hc'
    · exact ha.pending c h hm' (mt (hraised h).mpr hr) hc' hd
    · exact absurd (ha.made_issued c h hm').1 hc'

/-- A signal is raised: it leaves the table and its raise is in the history. -/
theorem Accounted.raised (ha : s.Accounted dying) {ref : Handle} {t : Sched}
    (happ : Appends Event.noSignal s t) (hh : s'.history = t.history ++ [.raisedSignal ref])
    (href : ref ∈ s.issued) (hnot : .raisedSignal ref ∉ s.history)
    (hown : s'.ownerOf = Function.update s.ownerOf ref none)
    (hissued : s'.issued = s.issued) (hlive : ∀ c, s'.coros c = none ↔ s.coros c = none) :
    s'.Accounted dying := by
  have hmade : ∀ c h, .madeSignal c h ∈ s'.history ↔ .madeSignal c h ∈ s.history := by
    intro c h
    rw [hh, List.mem_append, happ.mem_iff rfl]
    simp
  have hraised : ∀ h, .raisedSignal h ∈ s'.history ↔ .raisedSignal h ∈ s.history ∨ h = ref := by
    intro h
    rw [hh, List.mem_append, happ.mem_iff rfl]
    simp
  refine ⟨fun c h hm => ?_, fun c c' h hm hm' => ?_, fun h hr => ?_, fun h => ?_, fun c h ho => ?_,
    fun c h hm hr hc hd => ?_⟩
  · rw [hissued]
    exact ha.made_issued c h ((hmade c h).mp hm)
  · exact ha.made_unique c c' h ((hmade c h).mp hm) ((hmade c' h).mp hm')
  · rw [hissued]
    rcases (hraised h).mp hr with hr | rfl
    · exact ha.raised_issued h hr
    · exact href
  · rw [hh, List.count_append, happ.count_eq rfl]
    by_cases hr : h = ref
    · subst hr
      simp [List.count_eq_zero.mpr hnot]
    · simpa [Ne.symm hr] using ha.raised_once h
  · rw [hown] at ho
    have hne : h ≠ ref := by
      rintro rfl
      simp at ho
    rw [Function.update_of_ne hne] at ho
    obtain ⟨hm, hr⟩ := ha.own c h ho
    exact ⟨(hmade c h).mpr hm, fun h' => ((hraised h).mp h').elim hr hne⟩
  · rw [hraised, not_or] at hr
    rw [hown, Function.update_of_ne hr.2]
    exact ha.pending c h ((hmade c h).mp hm) hr.1 (mt (hlive c).mpr hc) hd

theorem ownerOf_dropSignal (s : Sched) (ref : Handle) (signal : Signal) :
    (s.dropSignal ref signal).ownerOf = Function.update s.ownerOf ref none :=
  (ownerOf_update (s := s) rfl).trans rfl

theorem Accounted.raiseSignal (ha : s.Accounted dying) (hi : s.Inv) (ref : Handle) :
    (s.raiseSignal ref).1.Accounted dying := by
  cases hs : s.signals ref with
  | none =>
    rw [raiseSignal_none hs]
    exact ha
  | some signal =>
    have hsh := shrinks_raiseSignal s ref
    rw [raiseSignal_some hs] at hsh ⊢
    refine ha.raised (t := (s.notifyOwner signal).1)
      ((appends_notifyOwner s signal).mono fun _ => Event.noSignal_of_ofNotify) rfl ?_ ?_ ?_
      hsh.issued hsh.live
    · exact hi.view.signal_issued ref (by simp [Sched.view, ownerOf, hs])
    · exact (ha.own signal.owner ref (by simp [ownerOf, hs])).2
    · refine (ownerOf_dropSignal (s.notifyOwner signal).1 ref signal).trans ?_
      have hsame : (s.notifyOwner signal).1.ownerOf = s.ownerOf := by
        funext x
        simp only [ownerOf, notifyOwner_signals]
      rw [hsame]

/-- A signal of the dead coroutine is destroyed without being raised. -/
theorem Accounted.destroySignal {c : Handle} (ha : s.Accounted (some c)) {ref : Handle}
    (ho : s.ownerOf ref = some c) : (s.destroySignal ref).Accounted (some c) := by
  obtain ⟨signal, hs, _⟩ := Option.map_eq_some_iff.mp ho
  have hdrop : s.destroySignal ref = s.dropSignal ref signal := by
    simp only [Sched.destroySignal, hs]
  rw [hdrop]
  refine { ha with own := fun c' h ho' => ?_, pending := fun c' h hm hr hc hd => ?_ }
  · exact ha.own c' h ((shrinks_dropSignal s ref signal).owner h c' ho')
  · have hne : h ≠ ref := by
      rintro rfl
      exact hd (congrArg some (ha.made_unique c c' h (ha.own c h ho).1 hm))
    rw [ownerOf_dropSignal, Function.update_of_ne hne]
    exact ha.pending c' h hm hr (mt ((shrinks_dropSignal s ref signal).live c').mpr hc) hd

theorem Accounted.destroySignals (l : List Handle) : ∀ {s : Sched} {c : Handle}, s.Inv →
    s.Accounted (some c) → s.pendingOf c = some l →
    (l.foldl Sched.destroySignal s).Accounted (some c) := by
  induction l with
  | nil => exact fun _ ha _ => ha
  | cons h l ih =>
    intro s c hi ha hl
    have ho : s.ownerOf h = some c := hi.view.signals.own c _ hl h List.mem_cons_self
    refine ih (hi.destroySignal h) (ha.destroySignal ho) ?_
    exact destroySignal_pendingOf ho hl

theorem Accounted.triggerMonitor (ha : s.Accounted dying) (hi : s.Inv) (ref : Handle) :
    (s.triggerMonitor ref).Accounted dying := by
  unfold Sched.triggerMonitor
  split
  · next monitor _ =>
    refine (ha.raiseSignal hi monitor.signal).quiet (Appends.single rfl rfl) rfl (fun _ h => h) ?_
    exact fun c hc => .inl (mt (Table.update_map_eq_none c).mpr hc)
  · exact ha

theorem Accounted.triggerMonitors (l : List Handle) : ∀ {s : Sched}, s.Inv → s.Accounted dying →
    (l.foldl Sched.triggerMonitor s).Accounted dying := by
  induction l with
  | nil => exact fun _ ha => ha
  | cons m l ih => exact fun hi ha => ih (hi.triggerMonitor m) (ha.triggerMonitor hi m)

theorem Accounted.makeSignal (ha : s.Accounted dying) (hi : s.Inv) (c : Handle) {h : Handle}
    (fresh : s.Fresh h) : (s.makeSignal c h).Accounted dying := by
  unfold Sched.makeSignal
  split
  case h_2 => exact ha
  case h_1 coro hc =>
    have hmade : ∀ c' h', .madeSignal c' h' ∈ s.history ++ [.madeSignal c h] ↔
        .madeSignal c' h' ∈ s.history ∨ (c' = c ∧ h' = h) := by simp
    have hraised : ∀ h', .raisedSignal h' ∈ s.history ++ [.madeSignal c h] ↔
        .raisedSignal h' ∈ s.history := by simp
    have hnotmade : ∀ c', .madeSignal c' h ∉ s.history :=
      fun c' hm => fresh.2 (ha.made_issued c' h hm).2
    refine ⟨fun c' h' hm => ?_, fun c' c'' h' hm hm' => ?_, fun h' hr => ?_, fun h' => ?_,
      fun c' h' ho => ?_, fun c' h' hm hr hc' hd => ?_⟩
    · rcases (hmade c' h').mp hm with hm | ⟨rfl, rfl⟩
      · obtain ⟨hc', hh'⟩ := ha.made_issued c' h' hm
        exact ⟨List.mem_cons_of_mem _ hc', List.mem_cons_of_mem _ hh'⟩
      · exact ⟨List.mem_cons_of_mem _ (issued_of_live hi hc), List.mem_cons_self⟩
    · rcases (hmade c' h').mp hm with hold | ⟨rfl, rfl⟩
      · rcases (hmade c'' h').mp hm' with hold' | ⟨_, rfl⟩
        · exact ha.made_unique c' c'' h' hold hold'
        · exact absurd hold (hnotmade c')
      · rcases (hmade c'' h').mp hm' with hold' | ⟨rfl, _⟩
        · exact absurd hold' (hnotmade c'')
        · rfl
    · exact List.mem_cons_of_mem _ (ha.raised_issued h' ((hraised h').mp hr))
    · simpa [List.count_append] using ha.raised_once h'
    · by_cases hhh : h' = h
      · subst hhh
        simp only [ownerOf, Function.update_self, Option.map_some, Option.some.injEq] at ho
        subst ho
        refine ⟨List.mem_append_right _ List.mem_cons_self, fun hr => ?_⟩
        exact fresh.2 (ha.raised_issued h' ((hraised h').mp hr))
      · simp only [ownerOf, Function.update_of_ne hhh] at ho
        obtain ⟨hm, hr⟩ := ha.own c' h' ho
        exact ⟨(hmade c' h').mpr (.inl hm), mt (hraised h').mp hr⟩
    · rcases (hmade c' h').mp hm with hm | ⟨rfl, rfl⟩
      · have hhh : h' ≠ h := fun heq => hnotmade c' (heq ▸ hm)
        simp only [ownerOf, Function.update_of_ne hhh]
        exact ha.pending c' h' hm (mt (hraised h').mpr hr) (mt (setCoro_eq_none hc c').mpr hc') hd
      · simp [ownerOf]

theorem Accounted.destroyCoro (ha : s.Accounted none) (hi : s.Inv) {c : Handle}
    (hp : s.phase = .dying c) : (s.destroyCoro c).Accounted none := by
  obtain ⟨coro, hc⟩ := live_of_active (c := c) hi (by rw [hp]; rfl)
  have hpending : s.pendingOf c = some coro.pendingSignals := by simp [pendingOf, hc]
  have hweak : s.Accounted (some c) :=
    { ha with pending := fun c' h hm hr hc' _ => ha.pending c' h hm hr hc' (by simp) }
  have hbefore : (s.beforeRemove coro).Accounted (some c) :=
    Accounted.triggerMonitors _ (destroySignals_spec _ hi hpending).1
      (Accounted.destroySignals _ hi hweak hpending)
  rw [destroyCoro_eq hc]
  obtain ⟨coro', hc'⟩ : ∃ coro', (s.beforeRemove coro).coros c = some coro' := by
    refine Option.ne_none_iff_exists'.mp (mt ((shrinks_beforeRemove s coro).live c).mp ?_)
    simp [hc]
  simp only [removeCoro, hc']
  have happ : Appends Event.noSignal (s.beforeRemove coro) (removeCoro (s.beforeRemove coro) c) := by
    simp only [removeCoro, hc']
    exact Appends.single rfl rfl
  simp only [removeCoro, hc'] at happ
  have hlive : ∀ c', Function.update (s.beforeRemove coro).coros c none c' ≠ none →
      c' ≠ c ∧ (s.beforeRemove coro).coros c' ≠ none := by
    intro c' hne
    by_cases hcc : c' = c
    · exact absurd (hcc ▸ Function.update_self ..) hne
    · exact ⟨hcc, by rwa [Function.update_of_ne hcc] at hne⟩
  have hquiet := hbefore.quiet happ rfl (fun _ h => h) fun c' hne => .inl (hlive c' hne).2
  exact { hquiet with
    pending := fun c' h hm hr hne _ =>
      hquiet.pending c' h hm hr hne fun heq => (hlive c' hne).1 (Option.some.inj heq).symm }

theorem ownerOf_waitForSignals (s : Sched) (c : Handle) (signals : List Handle) (waitAll : Bool) :
    (s.waitForSignals c signals waitAll).ownerOf = s.ownerOf :=
  (waitForSignals_frame s c signals waitAll).2.1

theorem Accounted.effect (ha : s.Accounted none) (hi : s.Inv) {a : Action} (he : Effect s a s') :
    s'.Accounted none := by
  have hclosed := he.stays_closed
  have hquiet : (∀ e, s.records a e = true → e.noSignal = true) → s'.ownerOf = s.ownerOf →
      s'.Accounted none := by
    intro hrec hown
    refine ha.quiet (he.appends.mono hrec) hown hclosed.issued fun c hc => ?_
    exact or_iff_not_imp_left.mpr fun hdead hissued =>
      hc (hclosed.coro c hissued (not_not.mp hdead))
  cases he with
  | spawn _ _ => exact hquiet (fun e h => by simp [records] at h; simp [h, Event.noSignal]) rfl
  | makeSignal _ fresh => exact ha.makeSignal hi _ fresh
  | raise _ => exact ha.raiseSignal hi _
  | monitor _ _ =>
    unfold Sched.monitor at hclosed ⊢
    split
    · next hcan =>
      rw [if_pos hcan] at hclosed
      refine ha.quiet (Appends.single rfl rfl) rfl hclosed.issued fun c hc => .inl ?_
      exact mt (Table.update_map_eq_none c).mpr hc
    · exact ha.raiseSignal hi _
  | unmonitor _ =>
    refine hquiet (fun e h => by simp [records] at h; simp [h, Event.noSignal]) ?_
    unfold Sched.unmonitor
    split <;> rfl
  | yield _ => exact hquiet (fun _ => Event.noSignal_of_ofNotify) (suspend_frame s _).2.2.1
  | wait _ => exact hquiet (fun _ => Event.noSignal_of_ofNotify) (ownerOf_waitForSignals s _ _ _)
  | daemonize _ =>
    refine hquiet (by simp [records]) ?_
    unfold Sched.daemonize
    split
    · split <;> rfl
    · rfl
  | finish _ => exact hquiet (by simp [records]) rfl
  | issue _ _ => exact hquiet (by simp [records]) rfl
  | terminate _ => exact hquiet (by simp [records]) rfl
  | enterLoop _ => exact hquiet (by simp [records]) rfl
  | resume _ hc => exact hquiet (fun e h => by simp [records, hc] at h; simp [h, Event.noSignal]) rfl
  | destroy hp => exact ha.destroyCoro hi hp
  | endPass _ _ => exact hquiet (by simp [records]) rfl
  | swap _ => exact hquiet (fun e h => by simp [records] at h; simp [h, Event.noSignal]) rfl

theorem accounted_of_reachable (h : machine.Reachable s) : s.Accounted none := by
  refine Machine.invariant (P := fun s => s.Accounted none) ?_ ?_ h
  · rintro s rfl
    refine ⟨?_, ?_, ?_, ?_, ?_, ?_⟩ <;> simp [Sched.init, ownerOf]
  · exact fun s a hr ha he => ha.effect (inv_of_reachable hr).1 (Effect.of_enabled he)

/-- A signal that a live coroutine owns is in the list of that coroutine. -/
theorem live_of_owner (hi : s.Inv) {c h : Handle} (ho : s.ownerOf h = some c) :
    ∃ coro, s.coros c = some coro ∧ h ∈ coro.pendingSignals := by
  obtain ⟨l, hl, hmem⟩ := hi.view.signals.mem h c ho
  obtain ⟨coro, hc, rfl⟩ := Option.map_eq_some_iff.mp hl
  exact ⟨coro, hc, hmem⟩

/-- In every reachable state the list of a live coroutine holds the signals that it made and that
were not raised, each once. A signal resolves when it is in the list of a live coroutine, which is
then its owner. Of the signals of a terminated coroutine none resolves, and to raise one does
nothing. -/
theorem signal_ownership_exact (h : machine.Reachable s) :
    (∀ c coro, s.coros c = some coro → coro.pendingSignals.Nodup ∧
      ∀ ref, ref ∈ coro.pendingSignals ↔
        .madeSignal c ref ∈ s.history ∧ .raisedSignal ref ∉ s.history) ∧
    (∀ ref, s.checkSignal ref = false ↔
      ∃ c coro, s.coros c = some coro ∧ ref ∈ coro.pendingSignals) ∧
    (∀ ref signal, s.signals ref = some signal →
      ∃ coro, s.coros signal.owner = some coro ∧ ref ∈ coro.pendingSignals) ∧
    (∀ c ref, .terminated c ∈ s.history → .madeSignal c ref ∈ s.history →
      s.checkSignal ref = true ∧ s.raiseSignal ref = (s, false)) := by
  obtain ⟨hi, _⟩ := inv_of_reachable h
  have ha := accounted_of_reachable h
  have howner : ∀ c coro ref, s.coros c = some coro → ref ∈ coro.pendingSignals →
      s.ownerOf ref = some c :=
    fun c coro ref hc hmem =>
      hi.view.signals.own c coro.pendingSignals (by simp [Sched.view, pendingOf, hc]) ref hmem
  have hresolves : ∀ ref signal, s.signals ref = some signal →
      ∃ coro, s.coros signal.owner = some coro ∧ ref ∈ coro.pendingSignals :=
    fun ref signal hs => live_of_owner hi (by simp [ownerOf, hs])
  refine ⟨fun c coro hc => ⟨?_, fun ref => ⟨fun hmem => ?_, ?_⟩⟩, fun ref => ⟨fun hs => ?_, ?_⟩,
    hresolves, fun c ref ht hm => ?_⟩
  · exact hi.view.signals.nodup c coro.pendingSignals (by simp [Sched.view, pendingOf, hc])
  · exact ha.own c ref (howner c coro ref hc hmem)
  · rintro ⟨hm, hr⟩
    obtain ⟨coro', hc', hmem⟩ :=
      live_of_owner hi (ha.pending c ref hm hr (by simp [hc]) (by simp))
    rw [hc] at hc'
    exact Option.some.inj hc' ▸ hmem
  · obtain ⟨signal, hs'⟩ := Option.isSome_iff_exists.mp (by simpa [checkSignal] using hs)
    obtain ⟨coro, hc, hmem⟩ := hresolves ref signal hs'
    exact ⟨_, coro, hc, hmem⟩
  · rintro ⟨c, coro, hc, hmem⟩
    obtain ⟨signal, hs, _⟩ := Option.map_eq_some_iff.mp (howner c coro ref hc hmem)
    simp [checkSignal, hs]
  · have hnone : s.signals ref = none := by
      by_contra hne
      obtain ⟨signal, hs⟩ := Option.ne_none_iff_exists'.mp hne
      have ho : s.ownerOf ref = some signal.owner := by simp [ownerOf, hs]
      obtain ⟨coro, hlive, _⟩ := hresolves ref signal hs
      rw [← ha.made_unique c _ ref hm (ha.own _ ref ho).1,
        ((gone_of_reachable h) c ht).2] at hlive
      cases hlive
    exact ⟨by simp [checkSignal, hnone], raiseSignal_none hnone⟩

/-- A coroutine makes two signals, raises one of them and terminates. -/
theorem signal_ownership_exact_after_death :
    let s := machine.run Sched.init [.spawn false ⟨0, 1⟩, .enterLoop, .endPass, .swap, .resume,
      .makeSignal ⟨1, 1⟩, .makeSignal ⟨2, 1⟩, .raise ⟨1, 1⟩, .finish, .destroy]
    .madeSignal ⟨0, 1⟩ ⟨2, 1⟩ ∈ s.history ∧ .raisedSignal ⟨2, 1⟩ ∉ s.history ∧
      s.checkSignal ⟨2, 1⟩ = true ∧ s.raiseSignal ⟨2, 1⟩ = (s, false) := by
  intro s
  have hr : machine.Reachable s := Machine.Reachable.run (.init rfl) (by decide)
  obtain ⟨_, _, _, hdead⟩ := signal_ownership_exact hr
  exact ⟨by decide, by decide, hdead ⟨0, 1⟩ ⟨2, 1⟩ (by decide) (by decide)⟩

end Sched

end Bio
