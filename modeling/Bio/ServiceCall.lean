import Bio.Service

/-!
# One service call

What the scheduler knows of a call of `bio__service_call`.

* `Sched.Watched`: the two signals of a call. The answer is raised by the response block only, and
  the death signal only when the service is gone (or calls itself, in which case nothing is sent).
* `Sched.Calling`: the call goes on from its wait only when one of its signals has been raised.
-/

namespace Bio

namespace Sched

variable {s : Sched} {a : Action} {c target : Handle} {f : CallFrame} {E : Prop}

/-- The signals of a call by `c` to the coroutine `target`. `E` says that the response block was
executed. -/
structure Watched (s : Sched) (c target : Handle) (f : CallFrame) (E : Prop) : Prop where
  answer : s.Held c f.ackSignal
  madeMonitor : .madeSignal c f.monitorSignal ∈ s.history
  monitorCarried : ∀ m mon, s.monitors m = some mon → mon.signal = f.monitorSignal →
    mon.target = target
  ack : s.ownerOf f.ackSignal = some c ↔ ¬E
  dead : s.ownerOf f.monitorSignal ≠ some c →
    target = c ∨ (target ∈ s.issued ∧ s.coros target = none)
  self : target = c → s.ownerOf f.monitorSignal ≠ some c

/-- The part of `Watched` about the death of the service. -/
theorem Watched.dead_step (h : s.Watched c target f E) (hr : machine.Reachable s)
    (he : machine.enabled s a) (hlive : (machine.perform s a).coros c ≠ none)
    (hnames : a.names f.monitorSignal = true → s.ownerOf f.monitorSignal ≠ some c)
    (hnot : (machine.perform s a).ownerOf f.monitorSignal ≠ some c) :
    target = c ∨
      (target ∈ (machine.perform s a).issued ∧ (machine.perform s a).coros target = none) := by
  have hclosed := (Effect.of_step he).stays_closed
  by_cases hown : s.ownerOf f.monitorSignal = some c
  · rcases closed_of_step hr he hown hlive hnot with hn | ⟨d, m, rfl, hdying, hm⟩
    · exact absurd hown (hnames hn)
    · obtain rfl : d = target := h.monitorCarried m _ hm rfl
      have hi := (inv_of_reachable hr).1
      obtain ⟨coro, hd⟩ := live_of_active (c := d) hi (by rw [hdying]; rfl)
      refine .inr ⟨hclosed.issued d (issued_of_live hi hd), ?_⟩
      show (s.perform .destroy).coros d = none
      simp [Sched.perform, hdying, Phase.mcoDead, destroyCoro_coros]
  · rcases h.dead hown with heq | ⟨hissued, hnone⟩
    · exact .inl heq
    · exact .inr ⟨hclosed.issued _ hissued, hclosed.coro _ hissued hnone⟩

/-- A new monitor carries a signal that the action names and that is live. -/
theorem Watched.carried_step (h : s.Watched c target f E) (hr : machine.Reachable s)
    (he : machine.enabled s a)
    (hmonitor : a.names f.monitorSignal = true → s.ownerOf f.monitorSignal ≠ some c)
    {m : Handle} {mon : Monitor} (hm : (machine.perform s a).monitors m = some mon)
    (heq : mon.signal = f.monitorSignal) : mon.target = target := by
  rcases (Effect.of_step he).monitor_new hm with hold | ⟨rfl, hlive⟩
  · exact h.monitorCarried m mon hold heq
  · have hown : s.ownerOf mon.signal ≠ none := mt ownerOf_eq_none.mp hlive
    rw [heq] at hown
    exact absurd (ownerOf_of_made (accounted_of_reachable hr) h.madeMonitor hown)
      (hmonitor (by simp [Action.names, heq]))

/-- The step lemma: an action that does not name the signals of the call while they are live. -/
theorem Watched.step (h : s.Watched c target f E) (hr : machine.Reachable s)
    (he : machine.enabled s a) (hlive : (machine.perform s a).coros c ≠ none)
    (hack : a.names f.ackSignal = true → s.ownerOf f.ackSignal ≠ some c)
    (hmonitor : a.names f.monitorSignal = true → s.ownerOf f.monitorSignal ≠ some c) :
    (machine.perform s a).Watched c target f E := by
  have happ := (Effect.of_step he).appends
  refine ⟨h.answer.step hr he hack, happ.mem h.madeMonitor,
    fun m mon hm => h.carried_step hr he hmonitor hm,
    (h.answer.owner_iff hr he hlive hack).trans h.ack, h.dead_step hr he hlive hmonitor,
    fun hself => ?_⟩
  rw [closed_stays (accounted_of_reachable hr) (Effect.of_step he).stays_closed h.madeMonitor
    (h.self hself)]
  nofun

/-- What the scheduler knows of a call that has not returned. -/
structure Calling (s : Sched) (c target : Handle) (f : CallFrame) (E : Prop) : Prop where
  inside : s.Inside c
  watched : s.Watched c target f E
  cancel : f.cancelSignal.isValid = true → f.cancelSignal ∈ s.issued
  awaiting : f.stage = .waiting → s.Awaiting c f.signals

theorem Calling.congr {E' : Prop} (h : s.Calling c target f E) (hE : E ↔ E') :
    s.Calling c target f E' := by
  rwa [← propext hE]

/-- The step lemma for a call whose coroutine is not running. -/
theorem Calling.step (h : s.Calling c target f E) (hr : machine.Reachable s)
    (he : machine.enabled s a) (hidle : s.phase ≠ .running c)
    (hnames : ∀ x, a.names x = true → x = f.ackSignal ∨ x = f.monitorSignal →
      s.ownerOf x ≠ some c) : (machine.perform s a).Calling c target f E := by
  have hinside := h.inside.step hr he hidle
  exact ⟨hinside,
    h.watched.step hr he hinside.live (fun hn => hnames _ hn (.inl rfl))
      (fun hn => hnames _ hn (.inr rfl)),
    fun hvalid => (Effect.of_step he).stays_closed.issued _ (h.cancel hvalid),
    fun hstage => (h.awaiting hstage).step hr he⟩

/-- The step lemma for a call whose coroutine goes on running. -/
theorem Calling.running_step (h : s.Calling c target f E) (hr : machine.Reachable s)
    (he : machine.enabled s a) (hphase : (machine.perform s a).phase = .running c)
    (hstage : f.stage = .sending) (hack : a.names f.ackSignal = false)
    (hmonitor : a.names f.monitorSignal = false) :
    (machine.perform s a).Calling c target f E := by
  have hinside := Inside.of_running (hr.step he) hphase
  refine ⟨hinside, h.watched.step hr he hinside.live (by simp [hack]) (by simp [hmonitor]),
    fun hvalid => (Effect.of_step he).stays_closed.issued _ (h.cancel hvalid), fun hw => ?_⟩
  rw [hstage] at hw
  cases hw

/-- The response block raises the answer of a call. -/
theorem Calling.answer (h : s.Calling c target f E) (hr : machine.Reachable s)
    (he : machine.enabled s (.raise f.ackSignal)) (hidle : s.phase ≠ .running c)
    (hne : f.ackSignal ≠ f.monitorSignal) :
    (machine.perform s (.raise f.ackSignal)).Calling c target f True := by
  have heff := Effect.of_step he
  have hclosed := heff.stays_closed
  have hinside := h.inside.step hr he hidle
  have hmonitors : (machine.perform s (.raise f.ackSignal)).monitors = s.monitors :=
    (raiseSignal_frame s f.ackSignal).1
  have hraised : (machine.perform s (.raise f.ackSignal)).ownerOf f.ackSignal = none :=
    checkSignal_iff_none.mp (checkSignal_raiseSignal s f.ackSignal)
  refine ⟨hinside, ⟨h.watched.answer.raise f.ackSignal, heff.appends.mem h.watched.madeMonitor, ?_, ?_,
    ?_, fun hself => ?_⟩, fun hvalid => hclosed.issued _ (h.cancel hvalid),
    fun hw => (h.awaiting hw).step hr he⟩
  · rw [hmonitors]
    exact h.watched.monitorCarried
  · rw [hraised]
    exact ⟨by simp, fun hnot => absurd trivial hnot⟩
  · exact h.watched.dead_step hr he hinside.live (by simp [Action.names, hne])
  · rw [closed_stays (accounted_of_reachable hr) hclosed h.watched.madeMonitor
      (h.watched.self hself)]
    simp

/-- The call yields in its loop. -/
theorem Calling.yield (h : s.Calling c target f E) (hr : machine.Reachable s)
    (hp : s.phase = .running c) (hstage : f.stage = .sending) :
    (s.suspend c).Calling c target f E := by
  have he := yield_enabled hp
  have hperform := perform_yield hp
  have hinside := Inside.yield hr hp
  have hwatched := h.watched.step hr he (hperform ▸ hinside.live) nofun nofun
  have hclosed := (Effect.of_step he).stays_closed
  rw [hperform] at hwatched hclosed
  refine ⟨hinside, hwatched, fun hvalid => hclosed.issued _ (h.cancel hvalid), fun hw => ?_⟩
  rw [hstage] at hw
  cases hw

/-- The call waits. -/
theorem Calling.wait (h : s.Calling c target f E) (hr : machine.Reachable s)
    (hp : s.phase = .running c) (hcount : s.CanCount c) :
    (s.waitForSignals c f.signals false).Calling c target { f with stage := .waiting } E := by
  have he := wait_enabled hp f.signals false
  have hperform := perform_wait hp f.signals false
  have hinside := Inside.wait hr hp f.signals false
  have ha := accounted_of_reachable hr
  have hwatched := h.watched.step hr he (hperform ▸ hinside.live) nofun nofun
  have hclosed := (Effect.of_step he).stays_closed
  rw [hperform] at hwatched hclosed
  obtain ⟨h₁, h₂, h₃, h₄, h₅, h₆⟩ := hwatched
  refine ⟨hinside, ⟨h₁, h₂, h₃, h₄, h₅, h₆⟩, fun hvalid => hclosed.issued _ (h.cancel hvalid),
    fun _ => ?_⟩
  have hown : f.ackSignal ∈ f.signals := by simp [CallFrame.signals]
  refine awaiting_of_wait hr hp hcount hown h.watched.answer.made fun x hx hvalid => ?_
  simp only [CallFrame.signals, List.mem_cons, List.not_mem_nil, or_false] at hx
  rcases hx with rfl | rfl | rfl
  · exact h.watched.answer.issued ha
  · exact (ha.made_issued c _ h.watched.madeMonitor).2
  · exact h.cancel hvalid

/-! ## The part of a call before its loop -/

/-- The state after the first three calls of `bio__service_call`. -/
def prologue (s : Sched) (c target : Handle) (f : CallFrame) : Sched :=
  (((s.makeSignal c f.ackSignal).makeSignal c f.monitorSignal).monitor target f.monitorSignal
    f.monitor).1

/-- The handles of a call are new. -/
structure FreshCall (s : Sched) (f : CallFrame) : Prop where
  ack : s.Fresh f.ackSignal
  monitorSignal : s.Fresh f.monitorSignal
  monitor : s.Fresh f.monitor
  nodup : [f.ackSignal, f.monitorSignal, f.monitor].Nodup

theorem FreshCall.ne (hf : s.FreshCall f) : f.ackSignal ≠ f.monitorSignal ∧
    f.ackSignal ≠ f.monitor ∧ f.monitorSignal ≠ f.monitor := by
  have hnodup := hf.nodup
  simp only [List.nodup_cons, List.mem_cons, List.not_mem_nil, or_false, not_or] at hnodup
  exact ⟨hnodup.1.1, hnodup.1.2, hnodup.2.1⟩

/-- What `bio__service_call` has after its first three calls. -/
theorem prologue_spec (hr : machine.Reachable s) (hp : s.phase = .running c)
    (htarget : s.coros target ≠ none) (hf : s.FreshCall f) :
    (ownPart c).Joined s (s.prologue c target f) ∧ (s.prologue c target f).phase = .running c ∧
      (s.prologue c target f).Watched c target f False := by
  have hi := (inv_of_reachable hr).1
  have hlive : ∀ {t : Sched}, machine.Reachable t → t.phase = .running c → t.coros c ≠ none :=
    fun ht hpt => (Inside.of_running ht hpt).live
  obtain ⟨hne, hne', hmm⟩ := hf.ne
  -- The first signal.
  have hen₁ : machine.enabled s (.makeSignal f.ackSignal) := ⟨by simp [hp, Phase.mcoRunning], hf.ack⟩
  have hr₁ : machine.Reachable (s.makeSignal c f.ackSignal) :=
    hr.step_eq hen₁ (perform_makeSignal hp _)
  have hp₁ : (s.makeSignal c f.ackSignal).phase = .running c := (makeSignal_phase ..).trans hp
  have hheld₁ := Held.of_makeSignal hr hp hf.ack
  have hown₁ : (s.makeSignal c f.ackSignal).ownerOf f.ackSignal = some c :=
    makeSignal_owner (hlive hr hp)
  have hsig₁ := makeSignal_fresh (hlive hr hp) hf.monitorSignal (Ne.symm hne)
  have hmon₁ := makeSignal_fresh (hlive hr hp) hf.monitor (Ne.symm hne')
  have hjoin₁ := Machine.Joined.single (M := ownPart c) (s := s)
    (a := Action.makeSignal f.ackSignal) ⟨hen₁, hp, by rintro _ ⟨⟩⟩
  rw [show (ownPart c).perform = machine.perform from rfl, perform_makeSignal hp] at hjoin₁
  simp only [prologue]
  set s₁ := s.makeSignal c f.ackSignal with hs₁
  -- The second signal and the monitor, as in `bio_join`.
  obtain ⟨coro, hc₁⟩ := Option.ne_none_iff_exists'.mp (hlive hr₁ hp₁)
  obtain ⟨hen₂, hp₂, hr₂, hen₃⟩ := join_enabled hr₁ hp₁ target hsig₁ hmon₁ hmm
  have hj := joining hr₁ hp₁ hc₁ target hsig₁ hmon₁ hmm
  have hheld₂ := hheld₁.step hr₁ hen₂ (by simp [Action.names])
  have hown₂ := (hheld₁.owner_iff hr₁ hen₂
    (by rw [perform_makeSignal hp₁]; exact hlive hr₂ hp₂) (by simp [Action.names])).mpr hown₁
  rw [perform_makeSignal hp₁] at hheld₂ hown₂
  have hnames : (Action.monitor target f.monitorSignal f.monitor).names f.ackSignal = true →
      (s₁.makeSignal c f.monitorSignal).ownerOf f.ackSignal ≠ some c := by
    simp [Action.names, hne.symm]
  have hheld₃ := hheld₂.step hr₂ hen₃ hnames
  have hown₃ := (hheld₂.owner_iff hr₂ hen₃ (hlive hj.reachable hj.phase) hnames).mpr hown₂
  have hjoin₂ := Machine.Joined.single (M := ownPart c) (s := s₁)
    (a := Action.makeSignal f.monitorSignal) ⟨hen₂, hp₁, by rintro _ ⟨⟩⟩
  rw [show (ownPart c).perform = machine.perform from rfl, perform_makeSignal hp₁] at hjoin₂
  have hmade₂ : .madeSignal c f.monitorSignal ∈ (s₁.makeSignal c f.monitorSignal).history :=
    (Held.of_makeSignal hr₁ hp₁ hsig₁).made
  have hjoin₃ := Machine.Joined.single (M := ownPart c) (s := s₁.makeSignal c f.monitorSignal)
    (a := Action.monitor target f.monitorSignal f.monitor)
    ⟨hen₃, hp₂, fun h hn => by
      obtain rfl : f.monitorSignal = h := by simpa [Action.names] using hn
      exact hmade₂⟩
  refine ⟨(hjoin₁.trans hjoin₂).trans hjoin₃, hj.phase, hheld₃, hj.made, hj.carried,
    ⟨fun _ => not_false, fun _ => hown₃⟩, fun hnot => ?_, fun hself hown => ?_⟩
  · by_cases htc : target = c
    · exact .inl htc
    · obtain ⟨impl, himpl⟩ := Option.ne_none_iff_exists'.mp htarget
      have hissued : target ∈ (s₁.makeSignal c f.monitorSignal).issued :=
        makeSignal_issued (makeSignal_issued (issued_of_live hi himpl))
      exact .inr ⟨(Effect.of_step hen₃).stays_closed.issued _ hissued, (hj.raised hnot).2 htc⟩
  · -- The signal of a coroutine that calls itself is raised at once.
    have howner := makeSignal_owner (h := f.monitorSignal) (hlive hr₁ hp₁)
    have hcan : ¬(s₁.makeSignal c f.monitorSignal).canMonitor target f.monitorSignal = true :=
      fun hcan => (canMonitor_iff.mp hcan).2.2 (howner.trans (congrArg some hself.symm))
    unfold Sched.monitor at hown
    rw [if_neg hcan] at hown
    have hnone := checkSignal_iff_none.mp
      (checkSignal_raiseSignal (s₁.makeSignal c f.monitorSignal) f.monitorSignal)
    exact absurd (hnone.symm.trans hown) (by simp)

/-! ## The part of a call after its wait -/

/-- The state after the last three calls of `bio__service_call`. -/
def epilogue (s : Sched) (f : CallFrame) : Sched :=
  (((s.unmonitor f.monitor).raiseSignal f.monitorSignal).1.raiseSignal f.ackSignal).1

theorem joined_epilogue (hp : s.phase = .running c) (hw : s.Watched c target f E) :
    (ownPart c).Joined s (s.epilogue f) := by
  have hraise : ∀ {t : Sched} {h : Handle}, t.phase = .running c → .madeSignal c h ∈ t.history →
      (ownPart c).Joined t (t.raiseSignal h).1 := by
    intro t h hpt hmade
    refine Machine.Joined.single (M := ownPart c) (a := Action.raise h) ⟨?_, hpt, fun x hx => ?_⟩
    · show t.phase ≠ .pass
      rw [hpt]
      simp
    · obtain rfl : h = x := by simpa [Action.names] using hx
      exact hmade
  have hen : machine.enabled s (.unmonitor f.monitor) := by
    show s.phase.userCode = true
    rw [hp]
    rfl
  have hjoin₁ := Machine.Joined.single (M := ownPart c) (s := s)
    (a := Action.unmonitor f.monitor) ⟨hen, hp, by rintro _ ⟨⟩⟩
  have happ₁ : Appends _ s (s.unmonitor f.monitor) := (Effect.of_step hen).appends
  have hp₁ : (s.unmonitor f.monitor).phase = .running c := by
    rw [← hp]
    unfold Sched.unmonitor
    split <;> rfl
  refine (hjoin₁.trans (hraise hp₁ (happ₁.mem hw.madeMonitor))).trans (hraise ?_ ?_)
  · exact (raiseSignal_frame _ f.monitorSignal).2.1.trans hp₁
  · exact (appends_raiseSignal _ f.monitorSignal).mem (happ₁.mem hw.answer.made)

/-- The status is `BIO_CALL_OK` when the response block was executed. -/
theorem Watched.status_ok (h : s.Watched c target f E) (ha : s.Accounted none) :
    s.callStatus f = .ok ↔ E := by
  have hcheck : s.checkSignal f.ackSignal = true ↔ E := by
    rw [checkSignal_iff_owner ha h.answer.made, ne_eq, h.ack, not_not]
  rw [← hcheck]
  unfold callStatus
  split
  · simp_all
  · split <;> simp_all

end Sched

end Bio
