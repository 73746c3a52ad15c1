import Bio.ServiceInvariant

/-!
# No caller of a service is left waiting

A call of `bio__service_call` waits for the answer, for the death of the service and for its cancel
signal, as far as these signals are its own.

* `Sched.Attentive`: each of these signals wakes it, and its monitor is registered as long as the
  death of the service has not been signalled.
* `ServiceState.Heeded`: a call that waits has sent its message.

Result: `service_call_not_stranded`. Its guard is that the rest of the program does not discard the
monitor of a call (`KeepsMonitors`).
-/

namespace Bio

namespace Sched

variable {s t : Sched} {a : Action} {c d target : Handle} {f : CallFrame} {Q R : Prop}

/-! ## Waits for several signals -/

/-- Only the coroutine that runs makes a signal. -/
theorem Effect.made_old {s' : Sched} (he : Effect s a s') {h : Handle}
    (hnot : a = .makeSignal h → s.phase ≠ .running c) (hmade : .madeSignal c h ∈ s'.history) :
    .madeSignal c h ∈ s.history := by
  refine (he.appends.mem_iff ?_).mp hmade
  cases a with
  | makeSignal x =>
    refine Bool.eq_false_iff.mpr fun hnew => ?_
    obtain ⟨d, hd, heq⟩ := (Option.any_eq_true ..).mp hnew
    cases of_decide_eq_true heq
    exact hnot rfl (Phase.eq_running hd)
  | resume => simp [records]
  | destroy => simp [records, Event.ofTrigger]
  | _ => rfl

theorem Sleeps.of_running (hi : s.Inv) (hp : s.phase = .running c) (sig : Handle) (Q : Prop) :
    s.Sleeps c sig Q := by
  intro v hv hwait
  obtain ⟨coro, hc, rfl⟩ := Option.map_eq_some_iff.mp hv
  have hrun : s.coroState c = .running := (hi.view.active c).mpr (by rw [view, hp]; rfl)
  rw [coroState, hc] at hrun
  exact absurd (hrun.symm.trans hwait) (by decide)

/-- A wait for any of the signals: if it suspends, none of them has been raised, and each one of the
caller wakes it. -/
theorem sleeps_wait_among (hr : machine.Reachable s) (hp : s.phase = .running c)
    {signals : List Handle} {sig : Handle} (hmem : sig ∈ signals)
    (hmade : .madeSignal c sig ∈ s.history)
    (hQ : (∀ x ∈ signals, x.isValid = true → s.checkSignal x = false) → Q) :
    (s.waitForSignals c signals false).Sleeps c sig Q := by
  have hi := (inv_of_reachable hr).1
  have ha := accounted_of_reachable hr
  obtain ⟨coro, hc⟩ := live_of_active (c := c) hi (by rw [hp]; rfl)
  have hr' := hr.step_eq (wait_enabled hp signals false) (perform_wait hp signals false)
  cases hsusp : s.suspends c signals false with
  | false =>
    exact .of_running (inv_of_reachable hr').1
      ((waitForSignals_phase_iff hc hp signals false).mpr hsusp) sig Q
  | true =>
    have hlive : ∀ x ∈ signals, x.isValid = true → s.checkSignal x = false := by
      intro x hx hvalid
      refine Bool.eq_false_iff.mpr fun hraised => ?_
      have hreturns : s.suspends c signals false = false :=
        suspends_iff.mpr (.inr ⟨rfl, x, hx, of_decide_eq_true hvalid, hraised⟩)
      rw [hsusp] at hreturns
      cases hreturns
    have hown : s.ownerOf sig = some c := by
      by_contra hnot
      have hvalid := valid_of_issued hi (ha.made_issued c sig hmade).2
      have hraised := (checkSignal_iff_owner ha hmade).mpr hnot
      rw [hlive sig hmem hvalid] at hraised
      cases hraised
    obtain ⟨stamp, hstamp⟩ :=
      Option.ne_none_iff_exists'.mp fun hnone => stampOf_isNone.mp hnone hown
    have hold : s.waitView c = some coro.waitView := by simp [waitView, hc]
    obtain ⟨hview, hstamps⟩ := waitForSignals_own hold signals false
    intro v hv _
    obtain rfl := Option.some.inj (hview.symm.trans hv)
    refine ⟨by simp [afterWait, hsusp], ?_, hQ hlive⟩
    rw [hstamps, if_pos hmem, hstamp, afterWait_counter]
    rfl

/-- A coroutine that yields does not wait. -/
theorem sleeps_yield (hi : s.Inv) (hp : s.phase = .running c) (sig : Handle) (Q : Prop) :
    (s.suspend c).Sleeps c sig Q := by
  obtain ⟨coro, hc⟩ := live_of_active (c := c) hi (by rw [hp]; rfl)
  have hrun : coro.state = .running := by
    have hrun : s.coroState c = .running := (hi.view.active c).mpr (by rw [view, hp]; rfl)
    simpa [coroState, hc] using hrun
  have hview := (suspend_own (show s.waitView c = some coro.waitView by simp [waitView, hc])).1
  intro v hv hwait
  obtain rfl := Option.some.inj (hview.symm.trans hv)
  have hzero : coro.numBlockingSignals = 0 := (hi.coro c coro hc).2.2 hrun
  simp [Coro.waitView, hzero] at hwait

/-! ## What wakes a call -/

/-- Each signal that the call has made wakes its coroutine if it waits, and then `Q` holds. The
monitor is registered until the death of the service has been signalled. It was not made if the
service calls itself, and then the call does not suspend. -/
structure Attentive (s : Sched) (c target : Handle) (f : CallFrame) (Q : Prop) : Prop where
  within : s.Within c
  made : .madeSignal c f.monitorSignal ∈ s.history
  watching : s.ownerOf f.monitorSignal = some c →
    s.monitors f.monitor = some ⟨target, f.monitorSignal⟩
  monitor : f.monitor ∈ s.issued ∨ (s.phase = .running c ∧ s.ownerOf f.monitorSignal ≠ some c)
  sleeps : ∀ h ∈ f.signals, .madeSignal c h ∈ s.history → s.Sleeps c h Q

theorem Attentive.mono (h : s.Attentive c target f Q) (hQ : Q → R) : s.Attentive c target f R :=
  { h with sleeps := fun x hx hmade => (h.sleeps x hx hmade).mono hQ }

theorem Attentive.setStage (h : s.Attentive c target f Q) (stage : CallStage) :
    s.Attentive c target { f with stage := stage } Q :=
  ⟨h.within, h.made, h.watching, h.monitor, h.sleeps⟩

/-- Only the end of the service drops the monitor, and that raises the signal. -/
theorem watching_step (hr : machine.Reachable s) (he : machine.enabled s a) {m sig : Handle}
    (hmade : .madeSignal c sig ∈ s.history) (hnot : a ≠ .unmonitor m)
    (h : s.ownerOf sig = some c → s.monitors m = some ⟨target, sig⟩)
    (hown : (machine.perform s a).ownerOf sig = some c) :
    (machine.perform s a).monitors m = some ⟨target, sig⟩ := by
  have heff := Effect.of_step he
  have hi := (inv_of_reachable hr).1
  have hown' : s.ownerOf sig = some c := by
    by_contra hclosed
    rw [closed_stays (accounted_of_reachable hr) heff.stays_closed hmade hclosed] at hown
    cases hown
  refine heff.monitor_stays hi (h hown') hnot ?_
  rintro rfl hdying
  have hraised := ((destroyCoro_monitors hi hdying).1 m sig (h hown')).2
  have hperform : machine.perform s .destroy = s.destroyCoro target := by
    show s.perform .destroy = _
    simp [Sched.perform, hdying, Phase.mcoDead]
  rw [hperform, checkSignal_iff_none.mp hraised] at hown
  cases hown

/-- The step lemma for a call whose coroutine is not running. -/
theorem Attentive.step (h : s.Attentive c target f Q) (hr : machine.Reachable s)
    (he : machine.enabled s a) (hidle : s.phase ≠ .running c) (hnot : a ≠ .unmonitor f.monitor) :
    (machine.perform s a).Attentive c target f Q := by
  have heff := Effect.of_step he
  refine ⟨h.within.effect heff hidle, heff.appends.mem h.made,
    watching_step hr he h.made hnot h.watching, ?_, fun x hx hmade => ?_⟩
  · exact .inl (heff.stays_closed.issued _ (h.monitor.resolve_right fun hrun => hidle hrun.1))
  · exact (h.sleeps x hx (heff.made_old (fun _ => hidle) hmade)).effect heff
      (inv_of_reachable hr).1 h.within hidle

/-- The step lemma for a call whose coroutine goes on running. -/
theorem Attentive.running_step (h : s.Attentive c target f Q) (hr : machine.Reachable s)
    (he : machine.enabled s a) (hphase : (machine.perform s a).phase = .running c)
    (hnot : a ≠ .unmonitor f.monitor) : (machine.perform s a).Attentive c target f R := by
  have hclosed := (Effect.of_step he).stays_closed
  refine ⟨(Inside.of_running (hr.step he) hphase).within, (Effect.of_step he).appends.mem h.made,
    watching_step hr he h.made hnot h.watching, ?_, fun x _ _ => ?_⟩
  · refine h.monitor.imp (hclosed.issued _) fun hraised => ⟨hphase, ?_⟩
    simp [closed_stays (accounted_of_reachable hr) hclosed h.made hraised.2]
  · exact .of_running (inv_of_reachable (hr.step he)).1 hphase x R

/-- The call waits. -/
theorem Attentive.wait (h : s.Attentive c target f Q) (hr : machine.Reachable s)
    (hp : s.phase = .running c)
    (hR : (∀ x ∈ f.signals, x.isValid = true → s.checkSignal x = false) → R) :
    (s.waitForSignals c f.signals false).Attentive c target f R := by
  have he := wait_enabled hp f.signals false
  have hperform := perform_wait hp f.signals false
  have ha := accounted_of_reachable hr
  have hi := (inv_of_reachable hr).1
  have heff := Effect.of_step he
  have hwatching := watching_step hr he h.made (by simp) h.watching
  rw [hperform] at heff hwatching
  refine ⟨(Inside.wait hr hp f.signals false).within, heff.appends.mem h.made, hwatching, ?_,
    fun x hx hmade => sleeps_wait_among hr hp hx (heff.made_old (by simp) hmade) hR⟩
  refine h.monitor.imp (heff.stays_closed.issued _) fun ⟨_, hraised⟩ => ⟨?_, ?_⟩
  · -- The signal of the monitor has been raised, so the call returns at once.
    obtain ⟨coro, hc⟩ := live_of_active (c := c) hi (by rw [hp]; rfl)
    have hvalid := valid_of_issued hi (ha.made_issued c _ h.made).2
    exact (waitForSignals_phase_iff hc hp f.signals false).mpr (suspends_iff.mpr
      (.inr ⟨rfl, f.monitorSignal, by simp [CallFrame.signals], of_decide_eq_true hvalid,
        (checkSignal_iff_owner ha h.made).mpr hraised⟩))
  · simp [closed_stays ha heff.stays_closed h.made hraised]

/-- The call yields in its loop. -/
theorem Attentive.yield (h : s.Attentive c target f Q) (hr : machine.Reachable s)
    (hp : s.phase = .running c) (hlive : s.checkSignal f.monitorSignal = false) :
    (s.suspend c).Attentive c target f R := by
  have he := yield_enabled hp
  have hperform := perform_yield hp
  have heff := Effect.of_step he
  have hwatching := watching_step hr he h.made (by simp) h.watching
  rw [hperform] at heff hwatching
  refine ⟨(Inside.yield hr hp).within, heff.appends.mem h.made, hwatching, .inl ?_,
    fun x _ _ => sleeps_yield (inv_of_reachable hr).1 hp x R⟩
  refine heff.stays_closed.issued _ (h.monitor.resolve_right fun hraised => ?_)
  rw [(checkSignal_iff_owner (accounted_of_reachable hr) h.made).mpr hraised.2] at hlive
  cases hlive

/-! ## The calls of the coroutine that runs -/

/-- The scheduler while the coroutine `c` runs and discards no monitor but `m`. -/
def discarding (c m : Handle) : Machine Sched Action :=
  machine.restrict fun s b => s.phase = .running c ∧ ∀ x, b = .unmonitor x → x = m

theorem Attentive.joined {m : Handle} (h : s.Attentive d target f Q) (hr : machine.Reachable s)
    (hdc : d ≠ c) (hne : f.monitor ≠ m) (hj : (discarding c m).Joined s t) :
    t.Attentive d target f Q := by
  refine (hj.invariant (P := fun s => machine.Reachable s ∧ s.Attentive d target f Q) ?_ ⟨hr, h⟩).2
  rintro s b ⟨hrs, hs⟩ ⟨he, hp, hdiscards⟩
  refine ⟨hrs.step he, hs.step hrs he (fun hrun => ?_) fun hb => hne (hdiscards _ hb)⟩
  exact hdc (Phase.running.inj (hrun.symm.trans hp))

theorem discarding_single {m : Handle} (hp : s.phase = .running c) (he : machine.enabled s a)
    (hdiscards : ∀ x, a = .unmonitor x → x = m) :
    (discarding c m).Joined s (machine.perform s a) :=
  Machine.Joined.single (M := discarding c m) (a := a) ⟨he, hp, hdiscards⟩

/-- The part of a call before its loop. -/
theorem attentive_prologue (hr : machine.Reachable s) (hp : s.phase = .running c)
    (hf : s.FreshCall f) (target : Handle) :
    (discarding c f.monitor).Joined s (s.prologue c target f) ∧
      (s.prologue c target f).Attentive c target f Q := by
  obtain ⟨hne, hne', hmm⟩ := hf.ne
  have hlive : ∀ {t : Sched}, machine.Reachable t → t.phase = .running c → t.coros c ≠ none :=
    fun ht hpt => (Inside.of_running ht hpt).live
  have hen₁ : machine.enabled s (.makeSignal f.ackSignal) :=
    ⟨by simp [hp, Phase.mcoRunning], hf.ack⟩
  have hr₁ : machine.Reachable (s.makeSignal c f.ackSignal) :=
    hr.step_eq hen₁ (perform_makeSignal hp _)
  have hp₁ : (s.makeSignal c f.ackSignal).phase = .running c := (makeSignal_phase ..).trans hp
  have hsig₁ := makeSignal_fresh (hlive hr hp) hf.monitorSignal (Ne.symm hne)
  have hmon₁ := makeSignal_fresh (hlive hr hp) hf.monitor (Ne.symm hne')
  have hjoin₁ := discarding_single (m := f.monitor) hp hen₁ (by simp)
  rw [perform_makeSignal hp] at hjoin₁
  simp only [prologue]
  set s₁ := s.makeSignal c f.ackSignal with hs₁
  obtain ⟨coro, hc₁⟩ := Option.ne_none_iff_exists'.mp (hlive hr₁ hp₁)
  obtain ⟨hen₂, hp₂, hr₂, hen₃⟩ := join_enabled hr₁ hp₁ target hsig₁ hmon₁ hmm
  have hj := joining hr₁ hp₁ hc₁ target hsig₁ hmon₁ hmm
  have hjoin₂ := discarding_single (m := f.monitor) hp₁ hen₂ (by simp)
  rw [perform_makeSignal hp₁] at hjoin₂
  have hjoin₃ := discarding_single (m := f.monitor) hp₂ hen₃ (by simp)
  refine ⟨(hjoin₁.trans hjoin₂).trans hjoin₃, (Inside.of_running hj.reachable hj.phase).within,
    hj.made, fun hown => (hj.registered hown).1, ?_,
    fun x _ _ => .of_running (inv_of_reachable hj.reachable).1 hj.phase x Q⟩
  by_cases hown : (((s₁.makeSignal c f.monitorSignal).monitor target f.monitorSignal
      f.monitor).1).ownerOf f.monitorSignal = some c
  · exact .inl (monitor_issued (inv_of_reachable hj.reachable).1 (hj.registered hown).1)
  · exact .inr ⟨hj.phase, hown⟩

/-- The part of a call after its wait. -/
theorem discarding_epilogue (hp : s.phase = .running c) :
    (discarding c f.monitor).Joined s (s.epilogue f) := by
  have hraise : ∀ {t : Sched} (h : Handle), t.phase = .running c →
      (discarding c f.monitor).Joined t (t.raiseSignal h).1 ∧
        (t.raiseSignal h).1.phase = .running c := by
    intro t h hpt
    have he : machine.enabled t (.raise h) := by
      show t.phase ≠ .pass
      simp [hpt]
    exact ⟨discarding_single hpt he (by simp), (raiseSignal_frame t h).2.1.trans hpt⟩
  have hen : machine.enabled s (.unmonitor f.monitor) := by
    show s.phase.userCode = true
    rw [hp]
    rfl
  have hp₁ : (s.unmonitor f.monitor).phase = .running c := by
    rw [← hp]
    unfold Sched.unmonitor
    split <;> rfl
  obtain ⟨hjoin₂, hp₂⟩ := hraise f.monitorSignal hp₁
  exact ((discarding_single hp hen fun x hx => (Action.unmonitor.inj hx).symm).trans hjoin₂).trans
    (hraise f.ackSignal hp₂).1

end Sched

namespace ServiceState

variable {svc : Service} {q q' : ServiceState} {c d : Handle} {f g : CallFrame} {Q : Prop}

/-- The guard: the monitor of a call that has not returned is discarded by that call only. -/
def KeepsMonitors (q : ServiceState) (a : ServiceAction) : Prop :=
  ∀ c f, q.calls c = some f → a ≠ .mail (.sched (.unmonitor f.monitor))

/-- The call has sent its message and waits for the answer. -/
def Asked (svc : Service) (q : ServiceState) (f : CallFrame) : Prop :=
  f.stage = .waiting ∧ f.msg ∈ q.mail.sent svc.mailbox

/-- What wakes the calls. -/
structure Heeded (svc : Service) (q : ServiceState) : Prop where
  calls : ∀ c f, q.calls c = some f → q.sched.Attentive c svc.coro f (q.Asked svc f)
  apart : ∀ c d f g, q.calls c = some f → q.calls d = some g → f.monitor = g.monitor → c = d

/-! ## Actions of the mailboxes -/

theorem unmonitor_of_schedActions {m : MailboxState ServiceMsg} {a : MailboxAction ServiceMsg}
    {b : Action} {x : Handle} (hb : b ∈ m.schedActions a) (hx : b = .unmonitor x) :
    a = .sched b := by
  have hwake : ∀ signal, b ∉ MailboxState.wakeActions signal := by
    intro signal hmem
    unfold MailboxState.wakeActions at hmem
    split at hmem
    · rw [hx] at hmem
      cases List.mem_singleton.mp hmem
    · cases hmem
  cases a with
  | sched a => rw [List.mem_singleton.mp hb]
  | open' capacity handle =>
    rw [hx] at hb
    cases List.mem_singleton.mp hb
  | close handle =>
    simp only [MailboxState.schedActions] at hb
    split at hb
    · exact absurd hb (hwake _)
    · cases hb
  | send handle message =>
    simp only [MailboxState.schedActions] at hb
    split at hb
    · split at hb
      · exact absurd hb (hwake _)
      · cases hb
    · cases hb
  | recv handle signal =>
    simp only [MailboxState.schedActions, hx] at hb
    split at hb
    · split at hb
      · simp at hb
      · cases hb
    · cases hb
  | resumeRecv => cases hb

/-- An action of a coroutine other than that of the call. -/
theorem attentive_doMail (h : q.sched.Attentive c svc.coro f Q)
    (hr : Sched.machine.Reachable q.sched)
    {a : MailboxAction ServiceMsg} (he : (MailboxState.machine ServiceMsg).enabled q.mail a)
    (hidle : q.sched.phase ≠ .running c) (hkeeps : a ≠ .sched (.unmonitor f.monitor)) :
    (q.doMail a).sched.Attentive c svc.coro f Q := by
  refine ((MailboxState.sched_joined (Sched.inv_of_reachable hr).1 he).invariant
    (P := fun s => Sched.machine.Reachable s ∧ s.Attentive c svc.coro f Q) ?_ ⟨hr, h⟩).2
  rintro s b ⟨hrs, hs⟩ ⟨hen, hphase, hb⟩
  refine ⟨hrs.step hen, hs.step hrs hen (hphase ▸ hidle) fun hx => hkeeps ?_⟩
  rw [unmonitor_of_schedActions hb hx, hx]

theorem sent_doMail (a : MailboxAction ServiceMsg) {msg : ServiceMsg}
    (hmsg : msg ∈ q.mail.sent svc.mailbox) : msg ∈ (q.doMail a).mail.sent svc.mailbox := by
  rcases MailboxState.perform_sent q.mail a svc.mailbox with heq | ⟨new, _, heq⟩
  · exact heq ▸ hmsg
  · exact heq ▸ List.mem_append_left _ hmsg

theorem Heeded.mailAction (hh : q.Heeded svc) (hi : q.Inv svc none)
    {a : MailboxAction ServiceMsg} (he : (machine svc).enabled q (.mail a))
    (hkeeps : q.KeepsMonitors (.mail a)) : (q.doMail a).Heeded svc where
  calls := by
    intro c f hf
    refine (attentive_doMail (hh.calls c f hf) hi.sched he.1 (idle_of_inCall he.2.1 hf) ?_).mono ?_
    · exact fun heq => hkeeps c f hf (congrArg ServiceAction.mail heq)
    · exact fun hasked => ⟨hasked.1, sent_doMail a hasked.2⟩
  apart := hh.apart

/-! ## Steps of the calls -/

/-- The coroutine `c` gets a new call, goes on in its call or leaves it. -/
theorem Heeded.update (hh : q.Heeded svc) {v : Option CallFrame}
    (hcalls : q'.calls = Function.update q.calls c v)
    (hsent : ∀ msg ∈ q.mail.sent svc.mailbox, msg ∈ q'.mail.sent svc.mailbox)
    (hother : ∀ d g, d ≠ c → q.calls d = some g → q.sched.Attentive d svc.coro g (q.Asked svc g) →
      q'.sched.Attentive d svc.coro g (q.Asked svc g))
    (hown : ∀ f, v = some f → q'.sched.Attentive c svc.coro f (q'.Asked svc f))
    (hapart : ∀ f d g, v = some f → d ≠ c → q.calls d = some g → g.monitor ≠ f.monitor) :
    q'.Heeded svc := by
  refine ⟨fun d g hg => ?_, fun d e g k hg hk hsame => ?_⟩
  · rcases Function.update_apply q.calls c v d ▸ hcalls ▸ hg with hg
    split at hg
    · next hdc =>
      subst hdc
      exact hown g hg
    · next hdc =>
      exact (hother d g hdc hg (hh.calls d g hg)).mono fun hasked => ⟨hasked.1, hsent _ hasked.2⟩
  · rw [hcalls, Function.update_apply] at hg hk
    split at hg
    · next hdc =>
      split at hk
      · next hec => exact hdc.trans hec.symm
      · next hec => exact absurd hsame.symm (hapart g e k hg hec hk)
    · next hdc =>
      split at hk
      · next hec => exact absurd hsame (hapart k d g hk hdc hg)
      · next hec => exact hh.apart d e g k hg hk hsame

/-- The monitors of two calls are different. -/
theorem Heeded.monitor_ne (hh : q.Heeded svc) (hcall : q.calls c = some f) (hdc : d ≠ c)
    (hg : q.calls d = some g) : g.monitor ≠ f.monitor :=
  fun hsame => hdc (hh.apart d c g f hg hcall hsame)

/-- The call makes its signals and enters the loop. -/
theorem Heeded.enter (hh : q.Heeded svc) (hr : Sched.machine.Reachable q.sched)
    (hp : q.sched.phase = .running c) (hf : q.sched.FreshCall f) :
    ((q.setSched (q.sched.prologue c svc.coro f)).setCall c (some f)).Heeded svc := by
  obtain ⟨hjoined, hattentive⟩ := Sched.attentive_prologue hr hp hf svc.coro
  have hne : ∀ d g, d ≠ c → q.calls d = some g → g.monitor ≠ f.monitor := by
    intro d g hdc hg heq
    rcases (hh.calls d g hg).monitor with hissued | ⟨hrun, _⟩
    · exact hf.monitor.2 (heq ▸ hissued)
    · exact hdc (Phase.running.inj (hrun.symm.trans hp))
  refine hh.update rfl (fun _ => id) (fun d g hdc hg hold => ?_) (fun f' hf' => ?_)
    fun f' d g hf' hdc hg => ?_
  · exact hold.joined hr hdc (hne d g hdc hg) hjoined
  · cases hf'
    exact hattentive
  · cases hf'
    exact hne d g hdc hg

/-- The call leaves the loop and waits. -/
theorem Heeded.await (hh : q.Heeded svc) (hr : Sched.machine.Reachable q.sched)
    (hcall : q.calls c = some f) (hp : q.sched.phase = .running c)
    (hasked : (∀ x ∈ f.signals, x.isValid = true → q.sched.checkSignal x = false) →
      f.msg ∈ q.mail.sent svc.mailbox) : (q.await c f).Heeded svc := by
  have hjoined :=
    Sched.discarding_single (m := f.monitor) hp (Sched.wait_enabled hp f.signals false)
    nofun
  rw [Sched.perform_wait hp] at hjoined
  refine hh.update rfl (fun _ => id) (fun d g hdc hg hold => ?_) (fun f' hf' => ?_)
    fun f' d g hf' hdc hg => ?_
  · exact hold.joined hr hdc (hh.monitor_ne hcall hdc hg) hjoined
  · cases hf'
    exact ((hh.calls c f hcall).wait hr hp fun hlive => ⟨rfl, hasked hlive⟩).setStage .waiting
  · cases hf'
    exact fun hsame => hdc (hh.apart d c g f hg hcall hsame)

/-- The call finds no room and yields. -/
theorem Heeded.yield (hh : q.Heeded svc) (hr : Sched.machine.Reachable q.sched)
    (hcall : q.calls c = some f) (hp : q.sched.phase = .running c)
    (hlive : q.sched.checkSignal f.monitorSignal = false) :
    (q.setSched (q.sched.suspend c)).Heeded svc := by
  have hjoined := Sched.discarding_single (m := f.monitor) hp (Sched.yield_enabled hp) (by simp)
  rw [Sched.perform_yield hp] at hjoined
  refine hh.update (Function.update_eq_self_iff.mpr hcall.symm).symm (fun _ => id)
    (fun d g hdc hg hold => ?_) (fun f' hf' => ?_) fun f' d g hf' hdc hg => ?_
  · exact hold.joined hr hdc (hh.monitor_ne hcall hdc hg) hjoined
  · cases hf'
    exact (hh.calls c f hcall).yield hr hp hlive
  · cases hf'
    exact hh.monitor_ne hcall hdc hg

/-- The call sends its message and goes on running. -/
theorem Heeded.sendCall (hh : q.Heeded svc) (hi : q.Inv svc none) (hcall : q.calls c = some f)
    (hp : q.sched.phase = .running c) : (q.doMail (.send svc.mailbox f.msg)).Heeded svc := by
  have hok := hi.calls c f hcall (by simp)
  have he : (MailboxState.machine ServiceMsg).enabled q.mail (.send svc.mailbox f.msg) := by
    have hp' : q.mail.sched.phase = .running c := hp
    exact ⟨by simp [hp'], by simp [MailboxState.inRecv, hp', Phase.mcoRunning, hok.outside]⟩
  refine hh.update (Function.update_eq_self_iff.mpr hcall.symm).symm (fun _ => sent_doMail _)
    (fun d g hdc hg hold => ?_) (fun f' hf' => ?_) fun f' d g hf' hdc hg => ?_
  · exact attentive_doMail hold hi.sched he
      (fun hrun => hdc (Phase.running.inj (hrun.symm.trans hp))) (by simp)
  · cases hf'
    have hold := (hh.calls c f hcall).mono (R := (q.doMail (.send svc.mailbox f.msg)).Asked svc f)
      fun hasked => ⟨hasked.1, sent_doMail _ hasked.2⟩
    show (q.mail.send svc.mailbox f.msg).1.sched.Attentive c svc.coro f _
    rcases MailboxState.send_cases q.mail svc.mailbox f.msg with ⟨heq, _⟩ | ⟨box, _, _, _, heq⟩ <;>
      rw [heq]
    · exact hold
    · show (MailboxState.wake q.sched box.signal).Attentive c svc.coro f _
      unfold MailboxState.wake
      split
      · have hraise : Sched.machine.enabled q.sched (.raise box.signal) := by
          show q.sched.phase ≠ .pass
          simp [hp]
        exact hold.running_step hi.sched hraise ((Sched.raiseSignal_frame _ _).2.1.trans hp) (by simp)
      · exact hold
  · cases hf'
    exact hh.monitor_ne hcall hdc hg

theorem Heeded.sendRound (hh : q.Heeded svc) (hi : q.Inv svc none) (hcall : q.calls c = some f)
    (hp : q.sched.phase = .running c) (hstage : f.stage = .sending) :
    (q.sendRound svc c f).Heeded svc := by
  unfold ServiceState.sendRound
  split
  · next hover =>
    -- The call was cancelled or the service is dead, so the wait returns at once.
    refine hh.await hi.sched hcall hp fun hlive => ?_
    rcases (Bool.or_eq_true ..).mp hover with hcancelled | hdead
    · obtain ⟨hvalid, hraised⟩ := Bool.and_eq_true_iff.mp hcancelled
      rw [hlive f.cancelSignal (by simp [CallFrame.signals]) hvalid] at hraised
      cases hraised
    · have hmade := (hh.calls c f hcall).made
      have hvalid := Sched.valid_of_issued (Sched.inv_of_reachable hi.sched).1
        ((Sched.accounted_of_reachable hi.sched).made_issued c _ hmade).2
      rw [hlive f.monitorSignal (by simp [CallFrame.signals]) hvalid] at hdead
      cases hdead
  · next hgo =>
    have hlive : q.sched.checkSignal f.monitorSignal = false := by
      simpa using (not_or.mp (mt (Bool.or_eq_true ..).mpr hgo)).2
    have hsend := hh.sendCall hi hcall hp
    obtain ⟨hi', _, hphase⟩ := hi.sendCall hcall hp hstage hlive
    have hq' : q.doMail (.send svc.mailbox f.msg) =
      { q with mail := (q.mail.send svc.mailbox f.msg).1 } := rfl
    rw [hq'] at hsend hi' hphase
    rcases MailboxState.send_cases q.mail svc.mailbox f.msg with
      ⟨hsame, hfull⟩ | ⟨box, _, _, _, heq⟩
    · dsimp only
      rw [hsame, hfull]
      exact hh.yield hi.sched hcall hp hlive
    · have hsent : (q.mail.send svc.mailbox f.msg).2 = true := by rw [heq]
      dsimp only
      rw [hsent]
      refine hsend.await hi'.sched hcall hphase fun _ => ?_
      show f.msg ∈ (q.mail.send svc.mailbox f.msg).1.sent svc.mailbox
      rw [heq]
      show f.msg ∈ Function.update q.mail.sent svc.mailbox _ svc.mailbox
      rw [Function.update_self]
      exact List.mem_append_right _ (List.mem_singleton.mpr rfl)

/-- The call returns. -/
theorem Heeded.finishCall (hh : q.Heeded svc) (hr : Sched.machine.Reachable q.sched)
    (hcall : q.calls c = some f) (hp : q.sched.phase = .running c) :
    (q.finishCall c f).Heeded svc := by
  refine hh.update (c := c) (v := none) rfl (fun _ => id) (fun d g hdc hg hold => ?_) nofun nofun
  exact hold.joined hr hdc (hh.monitor_ne hcall hdc hg) (Sched.discarding_epilogue hp)

/-! ## Every action -/

theorem Heeded.callAction (hh : q.Heeded svc) (hi : q.Inv svc none)
    {cancelSignal ackSignal monitorSignal monitor : Handle}
    (he : (machine svc).enabled q (.call cancelSignal ackSignal monitorSignal monitor)) :
    ((machine svc).perform q (.call cancelSignal ackSignal monitorSignal monitor)).Heeded svc := by
  obtain ⟨hrun, _, _, _, hack, hsignal, hmonitor, hnodup⟩ := he
  obtain ⟨c, hc⟩ := Option.isSome_iff_exists.mp hrun
  show (q.inCoro _).Heeded svc
  simp only [inCoro, hc]
  unfold ServiceState.call
  split
  · exact ⟨hh.calls, hh.apart⟩
  · exact hh.enter (f := ⟨ackSignal, monitorSignal, monitor, cancelSignal, .sending⟩) hi.sched
      (Phase.eq_running hc) ⟨hack, hsignal, hmonitor, hnodup⟩

theorem Heeded.callStepAction (hh : q.Heeded svc) (hi : q.Inv svc none)
    (he : (machine svc).enabled q .callStep) : ((machine svc).perform q .callStep).Heeded svc := by
  obtain ⟨hin, hcount⟩ := he
  obtain ⟨c, hp, _⟩ := Sched.running_of_any hcount
  obtain ⟨f, hcall⟩ : ∃ f, q.calls c = some f := by
    simpa [inCall, hp, Phase.mcoRunning, Option.isSome_iff_exists] using hin
  show (q.inCoro _).Heeded svc
  simp only [inCoro, hp, Phase.mcoRunning, ServiceState.callStep, hcall]
  cases hstage : f.stage with
  | sending => exact hh.sendRound hi hcall hp hstage
  | waiting => exact hh.finishCall hi.sched hcall hp

/-- The service answers. -/
theorem Heeded.respond (hh : q.Heeded svc) (hi : q.Inv svc none) {i : Nat}
    (he : (machine svc).enabled q (.respond i)) : (q.respond svc i).Heeded svc := by
  obtain ⟨hp, hin, _⟩ := he
  unfold ServiceState.respond
  dsimp only
  split
  · next msg _ =>
    split
    · have hraise : Sched.machine.enabled q.sched (.raise msg.ackSignal) := by
        show q.sched.phase ≠ .pass
        simp [hp]
      refine ⟨fun c f hf => ?_, hh.apart⟩
      exact (hh.calls c f hf).step hi.sched hraise (idle_of_inCall hin hf) (by simp)
    · exact ⟨hh.calls, hh.apart⟩
  · exact ⟨hh.calls, hh.apart⟩

theorem heeded_of_restrict (h : ((machine svc).restrict KeepsMonitors).Reachable q) :
    q.Heeded svc := by
  refine Machine.invariant (M := (machine svc).restrict KeepsMonitors)
    (P := fun q => q.Heeded svc) ?_ (fun q a hr hh he => ?_) h
  · rintro q rfl
    exact ⟨fun _ _ hf => absurd hf nofun, fun _ _ _ _ hf => absurd hf nofun⟩
  · have hi := inv_of_reachable hr.of_restrict
    obtain ⟨he, hkeeps⟩ := he
    cases a with
    | mail a => exact hh.mailAction hi he hkeeps
    | call cancelSignal ackSignal monitorSignal monitor => exact hh.callAction hi he
    | callStep => exact hh.callStepAction hi he
    | respond i => exact hh.respond hi he

/-! ## Callers that wait -/

/-- As long as a caller waits inside `bio__service_call`, its message has been sent to a service
that lives and that has not answered, and its cancel signal, if it is one that the caller has made,
has not been raised. -/
theorem service_call_not_stranded (h : ((machine svc).restrict KeepsMonitors).Reachable q)
    (hcall : q.calls c = some f) (hwait : q.sched.coroState c = .waiting) :
    f.msg ∈ q.mail.sent svc.mailbox ∧ f.ackSignal ∉ q.executed ∧
      q.sched.coroState svc.coro ≠ .dead ∧
      (.madeSignal c f.cancelSignal ∈ q.sched.history →
        q.sched.checkSignal f.cancelSignal = false) := by
  have hi := inv_of_reachable h.of_restrict
  have ha := Sched.accounted_of_reachable hi.sched
  have hview := (Sched.inv_of_reachable hi.sched).1.view
  have hattentive := (heeded_of_restrict h).calls c f hcall
  have hwatched := (hi.calls c f hcall (by simp)).calling.watched
  -- A signal of the call that was raised would have woken its coroutine.
  have hlive : ∀ x ∈ f.signals, .madeSignal c x ∈ q.sched.history →
      q.Asked svc f ∧ q.sched.ownerOf x = some c := by
    intro x hx hmade
    have hsleeps := hattentive.sleeps x hx hmade
    refine ⟨by_contra fun hasked => hsleeps.not_waiting hasked hwait, by_contra fun hclosed => ?_⟩
    exact hsleeps.owned.not_waiting hclosed hwait
  have hanswer := hlive f.ackSignal (by simp [CallFrame.signals]) hwatched.answer.made
  have hdeath := hlive f.monitorSignal (by simp [CallFrame.signals]) hattentive.made
  refine ⟨hanswer.1.2, hwatched.ack.mp hanswer.2, fun hdead => ?_, fun hmade => ?_⟩
  · have hmonitor := hattentive.watching hdeath.2
    obtain ⟨l, hl, _⟩ :=
      hview.filed.mem f.monitor svc.coro (by simp [Sched.view, Sched.targetOf, hmonitor])
    have hnone := (hview.live_iff svc.coro).mpr ((hview.dead_iff svc.coro).mp hdead)
    rw [hl] at hnone
    cases hnone
  · have hown := (hlive f.cancelSignal (by simp [CallFrame.signals]) hmade).2
    refine Bool.eq_false_iff.mpr fun hraised => ?_
    exact (Sched.checkSignal_iff_owner ha hmade).mp hraised hown

/-- The service waits for messages, and the coroutine `⟨2, 1⟩` runs. -/
def callerRuns : List ServiceAction :=
  [.mail (.sched (.spawn false ⟨0, 1⟩)), .mail (.open' 4#32 ⟨1, 1⟩),
    .mail (.sched (.spawn false ⟨2, 1⟩)), .mail (.sched .enterLoop), .mail (.sched .endPass),
    .mail (.sched .swap), .mail (.sched .resume), .mail (.recv ⟨1, 1⟩ ⟨3, 1⟩),
    .mail (.sched .resume)]

/-- A call with a cancel signal of the caller. -/
theorem service_call_not_stranded_cancellable :
    let svc : Service := ⟨⟨0, 1⟩, ⟨1, 1⟩⟩
    let q := (machine svc).run ⟨MailboxState.init, fun _ => none, [], [], []⟩ (callerRuns ++
      [.mail (.sched (.makeSignal ⟨7, 1⟩)), .call ⟨7, 1⟩ ⟨4, 1⟩ ⟨5, 1⟩ ⟨6, 1⟩, .callStep])
    q.calls ⟨2, 1⟩ = some ⟨⟨4, 1⟩, ⟨5, 1⟩, ⟨6, 1⟩, ⟨7, 1⟩, .waiting⟩ ∧
      q.sched.coroState ⟨2, 1⟩ = .waiting ∧ ⟨⟨4, 1⟩, ⟨7, 1⟩⟩ ∈ q.mail.sent svc.mailbox ∧
      q.sched.coroState svc.coro ≠ .dead ∧ q.sched.checkSignal ⟨7, 1⟩ = false := by
  intro svc q
  have hr : ((machine svc).restrict KeepsMonitors).Reachable q := by
    refine Machine.Reachable.restrict_run (.init rfl) (fun a ha t c f _ heq => ?_)
      (by decide +kernel)
    simp [callerRuns, heq] at ha
  have hcall : q.calls ⟨2, 1⟩ = some ⟨⟨4, 1⟩, ⟨5, 1⟩, ⟨6, 1⟩, ⟨7, 1⟩, .waiting⟩ := by decide +kernel
  have hwait : q.sched.coroState ⟨2, 1⟩ = .waiting := by decide +kernel
  obtain ⟨hsent, _, hlive, hcancel⟩ := service_call_not_stranded hr hcall hwait
  exact ⟨hcall, hwait, hsent, hlive, hcancel (by decide +kernel)⟩

/-- A cancel signal that another coroutine has made does not wake the caller. -/
theorem service_call_foreign_cancel :
    ∃ svc q, (machine svc).Reachable q ∧ ∃ c f, q.calls c = some f ∧
      q.sched.isCancelled f.cancelSignal = true ∧ q.sched.coroState c = .waiting := by
  refine ⟨⟨⟨0, 1⟩, ⟨1, 1⟩⟩, (machine ⟨⟨0, 1⟩, ⟨1, 1⟩⟩).run
    ⟨MailboxState.init, fun _ => none, [], [], []⟩
    (.mail (.sched (.spawn false ⟨8, 1⟩)) :: callerRuns.take 5 ++
      [.mail (.sched .swap), .mail (.sched .resume), .mail (.sched (.makeSignal ⟨7, 1⟩)),
        .mail (.sched .yield), .mail (.sched .resume), .mail (.recv ⟨1, 1⟩ ⟨3, 1⟩),
        .mail (.sched .resume), .call ⟨7, 1⟩ ⟨4, 1⟩ ⟨5, 1⟩ ⟨6, 1⟩, .callStep,
        .mail (.sched .endPass), .mail (.sched .swap), .mail (.sched .resume),
        .mail (.sched (.raise ⟨7, 1⟩))]),
    Machine.Reachable.run (.init rfl) (by decide +kernel), ⟨2, 1⟩,
    ⟨⟨4, 1⟩, ⟨5, 1⟩, ⟨6, 1⟩, ⟨7, 1⟩, .waiting⟩, ?_⟩
  decide +kernel

end ServiceState

end Bio
