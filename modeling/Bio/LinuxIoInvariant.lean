import Bio.LinuxIo

/-!
# The blocking wait

* `IoRing.rest_invariant`: what each completion keeps, a drain keeps, also when it is entered again.
* `IoRing.acquire_null`: when only notifications complete, acquiring an entry does nothing to the rest of
  the program.
* `InUpdates`: `bio_platform_update` runs between two passes of `bio_loop`.

Result: `none_ready_in_wait`.
-/

namespace Bio

/-- The completion of a notification: its user data is `NULL`. -/
def Cqe.isNull (cqe : Cqe) : Bool :=
  match cqe.entry with
  | .futexWait | .eventfdRead _ => true
  | .request .. | .signalPoll => false

namespace IoRing

variable {σ : Type*} {h : IoHandlers σ} {s t : IoRing σ}

theorem available_foldl_post (events : List Cqe) (s : IoRing σ) :
    ∀ cqe ∈ (events.foldl post s).available, cqe ∈ s.available ∨ cqe ∈ events := by
  induction events generalizing s with
  | nil => exact fun cqe hmem => .inl hmem
  | cons new events ih =>
    intro cqe hmem
    rcases ih (s.post new) cqe hmem with hold | hev
    · rcases s.post_cases new with heq | hposted
      · rw [heq] at hold
        exact .inl hold
      · rw [hposted.available] at hold
        rcases List.mem_append.mp hold with hold | hnew
        · exact .inl hold
        · exact .inr (List.mem_singleton.mp hnew ▸ List.mem_cons_self)
    · exact .inr (List.mem_cons_of_mem _ hev)

theorem foldl_post_upcoming (events : List Cqe) (s : IoRing σ) :
    (events.foldl post s).upcoming = s.upcoming := by
  induction events generalizing s with
  | nil => rfl
  | cons new events ih =>
    rw [List.foldl_cons, ih]
    rcases s.post_cases new with heq | hposted
    · rw [heq]
    · exact hposted.upcoming

/-- What is available after a call of `io_uring_enter`, or may become so later. -/
theorem mem_submitAndGetEvents {cqe : Cqe} (hmem : cqe ∈ s.submitAndGetEvents.available ++
      s.submitAndGetEvents.upcoming.flatten) : cqe ∈ s.available ++ s.upcoming.flatten := by
  unfold submitAndGetEvents getEvents at hmem
  split at hmem
  · rw [available_submit] at hmem
    exact hmem
  · next events upcoming heq =>
    have heq' : s.upcoming = events :: upcoming := heq
    rw [heq', List.flatten_cons]
    rcases List.mem_append.mp hmem with havail | hlater
    · rcases available_foldl_post events _ cqe havail with hold | hnew
      · have hsame : ({ s.submit with upcoming := upcoming } : IoRing σ).available = s.available :=
          available_congr rfl rfl rfl rfl
        rw [hsame] at hold
        exact List.mem_append_left _ hold
      · exact List.mem_append_right _ (List.mem_append_left _ hnew)
    · rw [foldl_post_upcoming] at hlater
      exact List.mem_append_right _ (List.mem_append_right _ hlater)

theorem submit_rest (s : IoRing σ) : s.submitAndGetEvents.rest = s.rest := by
  refine submit_induction (P := fun t => t.rest = s.rest) (fun t cqe ht => ?_) fun _ => rfl
  rcases t.post_cases cqe with heq | hposted
  · rw [heq, ht]
  · exact hposted.rest.trans ht

/-- A drain of notifications does nothing to the rest of the program. -/
theorem handle_null {cqe : Cqe} (hnull : cqe.isNull = true) : (s.handle h cqe).rest = s.rest := by
  unfold handle
  unfold Cqe.isNull at hnull
  cases hentry : cqe.entry <;> simp_all

theorem foldl_handle_null {cqes : List Cqe} (hnull : ∀ cqe ∈ cqes, cqe.isNull = true) :
    (cqes.foldl (handle h) s).rest = s.rest := by
  induction cqes generalizing s with
  | nil => rfl
  | cons cqe cqes ih =>
    rw [List.foldl_cons, ih fun c hc => hnull c (List.mem_cons_of_mem _ hc)]
    exact handle_null (hnull cqe List.mem_cons_self)

theorem exitSignals_null {cqes : List Cqe} (hnull : ∀ cqe ∈ cqes, cqe.isNull = true) :
    exitSignals cqes = 0 := by
  refine List.countP_eq_zero.mpr fun cqe hmem => ?_
  have := hnull cqe hmem
  unfold Cqe.isNull at this
  cases hentry : cqe.entry <;> simp_all

/-- What every completion keeps of the rest of the program, a drain keeps, also when it is entered
again. -/
theorem rest_invariant {P : σ → Prop}
    (hcomplete : ∀ i coro call cqe, P i → P (h.complete i coro call cqe))
    (hexit : ∀ i, P i → P (h.handleExitSignal i)) (fuel : Nat) :
    (∀ s t : IoRing σ, ∀ head i, drainLoop h fuel s head i = some t → P s.rest → P t.rest) ∧
    ∀ s t : IoRing σ, acquireIoReq h fuel s = some t → P s.rest → P t.rest := by
  refine drain_induction (L := fun s t _ => P s.rest → P t.rest)
    (A := fun s t => P s.rest → P t.rest) (fun _ _ hs => hs)
    (fun s u t head acquireIoReq hacquire hu hrest hs => hrest ?_) (fun _ hs => hs)
    (fun s u t hloop hrest hs => hrest (hloop ((submit_rest s).symm ▸ hs))) fuel
  rcases dispatch_cases hu with ⟨_, v, hv, rfl⟩ | ⟨_, _, _, rfl⟩ | ⟨_, rfl⟩
  · exact hexit _ (hacquire _ v hv hs)
  · exact hcomplete _ _ _ _ hs
  · exact hs

/-- When only notifications are completed, acquiring an entry does nothing to the rest of the
program. -/
theorem acquire_null {fuel : Nat} (hnull : ∀ cqe ∈ s.available ++ s.upcoming.flatten, cqe.isNull = true)
    (ht : s.acquireIoReq h fuel = some t) : t.rest = s.rest := by
  induction fuel generalizing s with
  | zero =>
    rw [acquireIoReq] at ht
    split at ht
    · cases ht
      rfl
    · cases ht
  | succ fuel ih =>
    rw [acquireIoReq] at ht
    split at ht
    · cases ht
      rfl
    · split at ht
      · next u hu =>
        have hnull' : ∀ cqe ∈ s.submitAndGetEvents.available ++ s.submitAndGetEvents.upcoming.flatten,
            cqe.isNull = true := fun cqe hcqe => hnull cqe (mem_submitAndGetEvents hcqe)
        have havail := fun cqe hcqe => hnull' cqe (List.mem_append_left _ hcqe)
        have hsame := sameRing_foldl h s.submitAndGetEvents.available s.submitAndGetEvents
        have hdrain := drain_room (h := h) (s := s.submitAndGetEvents)
          (fun hpos => absurd (exitSignals_null havail) hpos.ne') fuel
        rw [drainIoCompletions, hu] at hdrain
        split at hdrain
        · obtain rfl := Option.some.inj hdrain
          refine (ih (fun cqe hcqe => hnull' cqe ?_) ht).trans ((foldl_handle_null havail).trans ?_)
          · rw [available_advance hsame, List.nil_append] at hcqe
            exact List.mem_append_right _ (hsame.upcoming ▸ hcqe)
          · exact submit_rest s
        · cases hdrain
      · cases ht

end IoRing

namespace LinuxIo

variable {hasOpFutexWait : Bool} {s t : LinuxIo}

/-- The ways through `bio_platform_update`. -/
theorem platformUpdate_cases {timeUntilNextTimer : Int} {notifiable notified submitted : Bool}
    {k : Enter}
    (ht : s.platformUpdate hasOpFutexWait timeUntilNextTimer notifiable notified submitted k =
      some t) :
    (∃ wait, s.updateNoWait wait k = some t) ∨
    (s.sched.nextReadyCoros = [] ∧ timeUntilNextTimer ≠ 0 ∧
      (((hasOpFutexWait && notified) = false ∧ notifiable = true ∧
        ∃ u, s.acquireIoReq k = some u ∧
          t = (u.pushNotification hasOpFutexWait).updateWait (0 < timeUntilNextTimer) submitted) ∨
      t = s.updateWait (0 < timeUntilNextTimer) submitted)) := by
  unfold LinuxIo.platformUpdate at ht
  by_cases hempty : s.sched.nextReadyCoros = []
  · simp only [hempty, List.length_nil, if_true] at ht
    split at ht
    · exact .inl ⟨_, ht⟩
    · next htime =>
      split at ht
      · exact .inl ⟨_, ht⟩
      · next hnotified =>
        refine .inr ⟨hempty, htime, ?_⟩
        split at ht
        · next hnotifiable =>
          obtain ⟨u, hu, heq⟩ := Option.map_eq_some_iff.mp ht
          exact .inl ⟨by simpa using hnotified, hnotifiable, u, hu, heq.symm⟩
        · exact .inr (Option.some.inj ht).symm
  · have hlength : s.sched.nextReadyCoros.length ≠ 0 := mt List.length_eq_zero_iff.mp hempty
    simp only [hlength, if_false, if_true] at ht
    exact .inl ⟨_, ht⟩

/-! ## Phases -/

theorem raiseSignal_phase (s : Sched) (ref : Handle) : (s.raiseSignal ref).1.phase = s.phase :=
  (Sched.raiseSignal_frame s ref).2.1

theorem complete_phase (i : IoState) (coro : Handle) (call : Nat) (cqe : Cqe) :
    (i.complete coro call cqe).sched.phase = i.sched.phase := by
  unfold IoState.complete
  split
  · split
    · exact raiseSignal_phase _ _
    · rfl
  · rfl

theorem dispatchExitSignal_phase (i : IoState) :
    i.dispatchExitSignal.sched.phase = i.sched.phase := by
  unfold IoState.dispatchExitSignal
  generalize i.exitHandlers = signals
  generalize i.sched = sched
  induction signals generalizing sched with
  | nil => rfl
  | cons signal signals ih => exact (ih _).trans (raiseSignal_phase sched signal)

/-- A drain raises signals, and does not move the main thread. -/
theorem ring_phase (fuel : Nat) :
    (∀ r r' : IoRing IoState, ∀ head i, r.drainLoop IoState.handlers fuel head i = some r' →
      r'.rest.sched.phase = r.rest.sched.phase) ∧
    ∀ r r' : IoRing IoState, r.acquireIoReq IoState.handlers fuel = some r' →
      r'.rest.sched.phase = r.rest.sched.phase := by
  have hrule := fun p => IoRing.rest_invariant (h := IoState.handlers)
    (P := fun i => i.sched.phase = p)
    (fun i coro call cqe hi => (complete_phase i coro call cqe).trans hi)
    (fun i hi => (dispatchExitSignal_phase i).trans hi) fuel
  exact ⟨fun r r' head i hr => (hrule _).1 r r' head i hr rfl, fun r r' hr => (hrule _).2 r r' hr rfl⟩

theorem acquireIoReq_phase {k : Enter} (ht : s.acquireIoReq k = some t) :
    t.sched.phase = s.sched.phase := by
  obtain ⟨ring, hring, rfl⟩ := Option.map_eq_some_iff.mp ht
  exact (ring_phase k.fuel).2 (s.enter k) ring hring

theorem drain_phase {k : Enter} (ht : s.drain k = some t) : t.sched.phase = s.sched.phase := by
  obtain ⟨ring, hring, rfl⟩ := Option.map_eq_some_iff.mp ht
  exact (ring_phase k.fuel).1 (s.enter k) ring _ _ hring

theorem updateNoWait_phase {shouldWaitForIo : Bool} {k : Enter}
    (ht : s.updateNoWait shouldWaitForIo k = some t) : t.sched.phase = s.sched.phase := by
  obtain ⟨ring, hring, rfl⟩ := Option.map_eq_some_iff.mp ht
  have hphase := (ring_phase k.fuel).1 _ ring _ _ hring
  rw [IoRing.submit_rest] at hphase
  exact hphase

theorem updateWait_phase (s : LinuxIo) (timed submitted : Bool) :
    (s.updateWait timed submitted).sched.phase = s.sched.phase := by
  unfold LinuxIo.updateWait
  split <;> rfl

theorem platformUpdate_phase {timeUntilNextTimer : Int} {notifiable notified submitted : Bool}
    {k : Enter}
    (ht : s.platformUpdate hasOpFutexWait timeUntilNextTimer notifiable notified submitted k =
      some t) : t.sched.phase = s.sched.phase := by
  rcases platformUpdate_cases ht with ⟨wait, hwait⟩ | ⟨_, _, ⟨_, _, u, hu, rfl⟩ | rfl⟩
  · exact updateNoWait_phase hwait
  · have hphase : u.sched.phase = s.sched.phase := acquireIoReq_phase hu
    exact (updateWait_phase _ _ _).trans hphase
  · exact updateWait_phase _ _ _

/-- What follows a wait: the entries are submitted again, or `bio_platform_update` returns. -/
theorem wake_cases {timed : Bool} {numSubmitted : Nat} {k : Enter}
    (ht : s.wake timed numSubmitted k = some t) :
    ∃ u, (s.drain k = some u ∨ u = s) ∧
      (t = { u with ring := u.ring.submit, stage := .retrying } ∨
        ((timed = false ∨ 0 < numSubmitted) ∧ t = u.returnUpdate true)) := by
  unfold LinuxIo.wake at ht
  split at ht
  · obtain ⟨u, hu, heq⟩ := Option.map_eq_some_iff.mp ht
    refine ⟨u, ?_, ?_⟩
    · split at hu
      · exact .inl hu
      · exact .inr (Option.some.inj hu).symm
    · split at heq
      · exact .inl heq.symm
      · next hpos => exact .inr ⟨.inr (Nat.lt_of_not_le hpos), heq.symm⟩
  · next htimed =>
    obtain ⟨u, hu, heq⟩ := Option.map_eq_some_iff.mp ht
    exact ⟨u, .inl hu, .inr ⟨.inl (by simpa using htimed), heq.symm⟩⟩

/-- The main thread is in the updates while it is in `bio_platform_update` or behind it. -/
def InUpdates (s : LinuxIo) : Prop := s.stage ≠ .idle → s.sched.phase = .polling

/-- In the updates, the rest of the program raises signals and swaps the ready lists. -/
theorem sched_polling {a : Action} (he : s.sched.enabled a) (hp : s.sched.phase = .polling) :
    (∃ ref, a = .raise ref) ∨ a = .swap := by
  cases a <;> simp_all [Sched.enabled, Phase.userCode, Phase.mcoRunning, Phase.mcoDead]

/-- A step of a coroutine, or outside of the loop, is in no update. -/
theorem InUpdates.idle (h : s.InUpdates) (hp : s.sched.phase ≠ .polling) : s.stage = .idle := by
  by_contra hne
  exact hp (h hne)

theorem acquireIoReq_stage {k : Enter} (ht : s.acquireIoReq k = some t) : t.stage = s.stage := by
  obtain ⟨ring, _, rfl⟩ := Option.map_eq_some_iff.mp ht
  rfl

theorem waitForExit_stage {c signal : Handle} {k : Enter} (ht : s.waitForExit c signal k = some t) :
    t.stage = s.stage := by
  obtain ⟨u, hu, rfl⟩ := Option.map_eq_some_iff.mp ht
  unfold blockExitSignal at hu
  split at hu
  · obtain ⟨ring, _, rfl⟩ := Option.map_eq_some_iff.mp hu
    rfl
  · cases hu
    rfl

/-- The actions outside of the updates do not enter them. -/
theorem step_stage {a : IoAction} (ht : s.step hasOpFutexWait a = some t)
    (hguard : s.guard a) (hp : s.sched.phase ≠ .polling) (hidle : s.stage = .idle) :
    t.stage = .idle := by
  cases a with
  | sched a =>
    cases ht
    show (if a = .swap then UpdateStage.idle else s.stage) = .idle
    rw [hidle, ite_self]
  | submit signal k =>
    dsimp only [LinuxIo.step] at ht
    split at ht
    · obtain ⟨u, hu, rfl⟩ := Option.map_eq_some_iff.mp ht
      exact (acquireIoReq_stage hu).trans hidle
    · cases ht
  | returnIoReq =>
    obtain ⟨c, _, rfl⟩ := Option.map_eq_some_iff.mp ht
    exact hidle
  | waitForExit signal k =>
    dsimp only [LinuxIo.step] at ht
    split at ht
    · exact (waitForExit_stage ht).trans hidle
    · cases ht
  | terminate =>
    cases ht
    exact hidle
  | platformUpdate => exact absurd hguard.1 hp
  | post cqe =>
    cases ht
    exact hidle
  | wake k =>
    simp only [LinuxIo.step, hidle] at ht
    cases ht
  | retried k => exact absurd (hidle.symm.trans hguard) nofun

/-- What can happen in the updates. -/
theorem polling_cases {a : IoAction} (ht : s.step hasOpFutexWait a = some t) (hguard : s.guard a)
    (hp : s.sched.phase = .polling) :
    (∃ ref, a = .sched (.raise ref)) ∨ a = .sched .swap ∨
      (∃ timeUntilNextTimer notifiable notified submitted k,
        a = .platformUpdate timeUntilNextTimer notifiable notified submitted k) ∨
      (∃ cqe, a = .post cqe) ∨ (∃ k, a = .wake k) ∨ ∃ k, a = .retried k := by
  have hnone : s.sched.phase.mcoRunning = none := by rw [hp]; rfl
  have hbusy : s.busy = false := by rw [busy, hnone]; rfl
  cases a with
  | sched a =>
    rcases sched_polling hguard.1 hp with ⟨ref, rfl⟩ | rfl
    · exact .inl ⟨ref, rfl⟩
    · exact .inr (.inl rfl)
  | submit signal k =>
    simp only [LinuxIo.step, hnone] at ht
    cases ht
  | returnIoReq => exact absurd (hbusy.symm.trans hguard) nofun
  | waitForExit signal k =>
    simp only [LinuxIo.step, hnone] at ht
    cases ht
  | terminate => exact absurd (hp.symm.trans hguard) nofun
  | platformUpdate => exact .inr (.inr (.inl ⟨_, _, _, _, _, rfl⟩))
  | post cqe => exact .inr (.inr (.inr (.inl ⟨cqe, rfl⟩)))
  | wake k => exact .inr (.inr (.inr (.inr (.inl ⟨k, rfl⟩))))
  | retried k => exact .inr (.inr (.inr (.inr (.inr ⟨k, rfl⟩))))

/-- The step lemma. -/
theorem InUpdates.step (h : s.InUpdates) {a : IoAction} (he : (machine hasOpFutexWait).enabled s a) :
    ((machine hasOpFutexWait).perform s a).InUpdates := by
  have ht := step_of_enabled he
  generalize (machine hasOpFutexWait).perform s a = t at ht
  obtain ⟨hguard, _⟩ := he
  by_cases hp : s.sched.phase = .polling
  · rcases polling_cases ht hguard hp with
      ⟨ref, rfl⟩ | rfl | ⟨_, _, _, _, _, rfl⟩ | ⟨cqe, rfl⟩ | ⟨k, rfl⟩ | ⟨k, rfl⟩
    · cases ht
      exact fun _ => (raiseSignal_phase s.sched ref).trans hp
    · cases ht
      exact fun hne => absurd rfl hne
    · exact fun _ => (platformUpdate_phase ht).trans hp
    · cases ht
      rcases s.ring.post_cases cqe with heq | hposted
      · exact fun _ => by rw [sched, heq]; exact hp
      · exact fun _ => by rw [sched, hposted.rest]; exact hp
    · dsimp only [LinuxIo.step] at ht
      split at ht
      · obtain ⟨u, hu, rfl | ⟨_, rfl⟩⟩ := wake_cases ht
        all_goals
          rcases hu with hu | rfl
          · exact fun _ => (drain_phase hu).trans hp
          · exact fun _ => hp
      · cases ht
    · obtain ⟨u, hu, rfl⟩ := Option.map_eq_some_iff.mp ht
      exact fun _ => (drain_phase hu).trans hp
  · exact fun hne => absurd (step_stage ht hguard hp (h.idle hp)) hne

theorem inUpdates (hr : (machine hasOpFutexWait).Reachable s) : s.InUpdates :=
  Machine.invariant (M := machine hasOpFutexWait) (P := InUpdates)
    (fun _ hinit hne => absurd hinit.stage hne) (fun _ _ _ h he => h.step he) hr

/-! ## The blocking wait -/

section Wait

/-- `bio_platform_update` acquires an entry for a notification and waits. -/
def Notifies (hasOpFutexWait : Bool) (s : LinuxIo) (timeUntilNextTimer : Int)
    (notifiable notified : Bool) : Prop :=
  s.sched.nextReadyCoros = [] ∧ timeUntilNextTimer ≠ 0 ∧ (hasOpFutexWait && notified) = false ∧
    notifiable = true

/-- When `bio_platform_update` acquires an entry for a notification, there is one, or the only
completions that it can see are those of notifications. -/
def AcquiresQuietly (hasOpFutexWait : Bool) (s : LinuxIo) : IoAction → Prop
  | .platformUpdate timeUntilNextTimer notifiable notified _ k =>
    Notifies hasOpFutexWait s timeUntilNextTimer notifiable notified →
      s.ring.hasRoom = true ∨ ∀ cqe ∈ s.ring.available ++ k.upcoming.flatten, cqe.isNull = true
  | _ => True

/-- No coroutine is ready while the main thread is in the wait. -/
def NoneReady (s : LinuxIo) : Prop :=
  ∀ timed numSubmitted, s.stage = .waiting timed numSubmitted → s.sched.nextReadyCoros = []

theorem NoneReady.updateWait (hs : s.sched.nextReadyCoros = []) (timed submitted : Bool) :
    (s.updateWait timed submitted).NoneReady := by
  unfold LinuxIo.updateWait
  split <;> exact fun _ _ _ => hs

theorem acquireIoReq_sched {k : Enter} (ht : s.acquireIoReq k = some t)
    (hquiet : s.ring.hasRoom = true ∨
      ∀ cqe ∈ s.ring.available ++ k.upcoming.flatten, cqe.isNull = true) :
    t.sched = s.sched := by
  obtain ⟨ring, hring, rfl⟩ := Option.map_eq_some_iff.mp ht
  have hrest : ring.rest = s.ring.rest := by
    rcases hquiet with hroom | hnull
    · rw [IoRing.acquire_room (s := s.enter k) _ _ hroom] at hring
      cases hring
      rfl
    · refine IoRing.acquire_null (s := s.enter k) (fun cqe hcqe => hnull cqe ?_) hring
      rwa [IoRing.available_congr (s := s.ring) (t := s.enter k) rfl rfl rfl rfl] at hcqe
  exact congrArg IoState.sched hrest

theorem updateNoWait_stage {shouldWaitForIo : Bool} {k : Enter}
    (ht : s.updateNoWait shouldWaitForIo k = some t) : t.stage = .updated shouldWaitForIo := by
  obtain ⟨ring, _, rfl⟩ := Option.map_eq_some_iff.mp ht
  rfl

theorem NoneReady.platformUpdate {timeUntilNextTimer : Int} {notifiable notified submitted : Bool}
    {k : Enter}
    (hquiet : AcquiresQuietly hasOpFutexWait s
      (.platformUpdate timeUntilNextTimer notifiable notified submitted k))
    (ht : s.platformUpdate hasOpFutexWait timeUntilNextTimer notifiable notified submitted k =
      some t) : t.NoneReady := by
  rcases platformUpdate_cases ht with ⟨wait, hwait⟩ | ⟨hempty, htime, hrest⟩
  · intro timed numSubmitted hstage
    rw [updateNoWait_stage hwait] at hstage
    cases hstage
  · rcases hrest with ⟨hnotified, hnotifiable, u, hu, rfl⟩ | rfl
    · have hsched := acquireIoReq_sched hu (hquiet ⟨hempty, htime, hnotified, hnotifiable⟩)
      exact NoneReady.updateWait (s := u.pushNotification hasOpFutexWait)
        ((congrArg Sched.nextReadyCoros hsched).trans hempty) _ _
    · exact NoneReady.updateWait hempty _ _

/-- The step lemma. -/
theorem NoneReady.step (h : s.NoneReady) (hin : s.InUpdates) {a : IoAction}
    (he : (machine hasOpFutexWait).enabled s a) (hquiet : AcquiresQuietly hasOpFutexWait s a) :
    ((machine hasOpFutexWait).perform s a).NoneReady := by
  have ht := step_of_enabled he
  generalize (machine hasOpFutexWait).perform s a = t at ht
  obtain ⟨hguard, _⟩ := he
  by_cases hp : s.sched.phase = .polling
  · rcases polling_cases ht hguard hp with
      ⟨ref, rfl⟩ | rfl | ⟨_, _, _, _, _, rfl⟩ | ⟨cqe, rfl⟩ | ⟨k, rfl⟩ | ⟨k, rfl⟩
    · cases ht
      intro timed numSubmitted hstage
      -- The updates before and after the wait raise signals, and nothing does during it.
      have hstage' : s.stage = .waiting timed numSubmitted := hstage
      have hturn := hguard.2.2.2
      simp [inTurn, hp, hstage'] at hturn
    · cases ht
      exact fun _ _ hstage => absurd hstage nofun
    · exact NoneReady.platformUpdate hquiet ht
    · cases ht
      intro timed numSubmitted hstage
      have hempty := h timed numSubmitted hstage
      rcases s.ring.post_cases cqe with heq | hposted
      · rw [sched, heq]
        exact hempty
      · rw [sched, hposted.rest]
        exact hempty
    · dsimp only [LinuxIo.step] at ht
      split at ht
      · obtain ⟨u, _, rfl | ⟨_, rfl⟩⟩ := wake_cases ht
        all_goals exact fun _ _ hstage => absurd hstage nofun
      · cases ht
    · obtain ⟨u, _, rfl⟩ := Option.map_eq_some_iff.mp ht
      exact fun _ _ hstage => absurd hstage nofun
  · intro timed numSubmitted hstage
    rw [step_stage ht hguard hp (hin.idle hp)] at hstage
    cases hstage

/-- With and without futexes: when every `bio_platform_update` that acquires an entry for a
notification finds room in the submission ring, or sees nothing but completions of notifications, no
coroutine is ready while the main thread is in its blocking wait. -/
theorem none_ready_in_wait
    (hr : ((machine hasOpFutexWait).restrict (AcquiresQuietly hasOpFutexWait)).Reachable s)
    {timed : Bool} {numSubmitted : Nat} (hwait : s.stage = .waiting timed numSubmitted) :
    s.sched.nextReadyCoros = [] := by
  refine Machine.invariant
    (M := (machine hasOpFutexWait).restrict (AcquiresQuietly hasOpFutexWait)) (P := NoneReady)
    (fun t hinit timed numSubmitted hstage => ?_) (fun _ _ hr h he => ?_) hr timed numSubmitted hwait
  · rw [hinit.stage] at hstage
    cases hstage
  · exact h.step (inUpdates hr.of_restrict) he.1 he.2

/-- A coroutine waits for a request, and the loop for it and for a notification. -/
theorem none_ready_in_wait_request :
    let s := (machine true).run (start 2) [.sched (.spawn false ⟨0, 1⟩), .sched .enterLoop,
      .sched .endPass, .platformUpdate 100 true false true ⟨1, []⟩, .sched .swap, .sched .resume,
      .submit ⟨1, 1⟩ ⟨0, []⟩, .sched .endPass, .platformUpdate 100 true false true ⟨0, []⟩]
    s.stage = .waiting true 2 ∧ s.sched.nextReadyCoros = [] := by
  intro s
  have hlegal : ((machine true).restrict (AcquiresQuietly true)).Legal (start 2)
      [.sched (.spawn false ⟨0, 1⟩), .sched .enterLoop, .sched .endPass,
      .platformUpdate 100 true false true ⟨1, []⟩, .sched .swap, .sched .resume,
      .submit ⟨1, 1⟩ ⟨0, []⟩, .sched .endPass, .platformUpdate 100 true false true ⟨0, []⟩] :=
    ⟨⟨by decide, trivial⟩, ⟨by decide, trivial⟩, ⟨by decide, trivial⟩,
      ⟨by decide, fun _ => .inl (by decide)⟩, ⟨by decide, trivial⟩, ⟨by decide, trivial⟩,
      ⟨by decide, trivial⟩, ⟨by decide, trivial⟩, ⟨by decide, fun _ => .inl (by decide)⟩, trivial⟩
  have hr := Machine.Reachable.run (M := (machine true).restrict (AcquiresQuietly true))
    (.init (init_start (by decide))) hlegal
  have hwait : s.stage = .waiting true 2 := by decide
  exact ⟨hwait, none_ready_in_wait hr hwait⟩

/-- The submission ring has one entry, which the request of the coroutine takes. Acquiring another one
for the notification completes the request. -/
theorem ready_in_wait :
    let s := (machine true).run (start 1) [.sched (.spawn false ⟨0, 1⟩), .sched .enterLoop,
      .sched .endPass, .platformUpdate 100 true false true ⟨1, []⟩, .sched .swap, .sched .resume,
      .submit ⟨1, 1⟩ ⟨0, []⟩, .sched .endPass,
      .platformUpdate 100 true false true ⟨3, [[⟨.request ⟨0, 1⟩ 0, 5, 0⟩]]⟩]
    (machine true).Reachable s ∧ s.stage = .waiting true 1 ∧
      s.sched.nextReadyCoros = [⟨0, 1⟩] := by
  intro s
  exact ⟨Machine.Reachable.run (.init (init_start (by decide))) (by decide), by decide, by decide⟩

end Wait

end LinuxIo

end Bio
