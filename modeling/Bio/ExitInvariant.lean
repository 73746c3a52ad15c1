import Bio.Exit

/-!
# Exit signals under all interleavings

* `Handlers`: what holds of the calls of `bio_wait_for_exit` while `pending` are the handlers that are
  still to be woken. Outside of `bio_dispatch_exit_signal` these are the entries of `exit_handlers`, and
  inside of its loop the entries that are left.
* `Masked`: the calls that block and unblock alternate.

Result: `exit_notification`.
-/

namespace Bio

/-! ## The flag of termination and daemons -/

namespace Sched

variable {s : Sched} {c : Handle}

theorem raiseSignal_isTerminating (s : Sched) (ref : Handle) :
    (s.raiseSignal ref).1.isTerminating = s.isTerminating := by
  unfold raiseSignal
  split
  · show (s.notifyOwner _).1.isTerminating = s.isTerminating
    unfold notifyOwner
    split
    · split
      · dsimp only
        split <;> rfl
      · rfl
    · rfl
  · rfl

theorem daemonize_isTerminating (s : Sched) (c : Handle) :
    (s.daemonize c).isTerminating = s.isTerminating := by
  unfold daemonize
  split
  · split <;> rfl
  · rfl

theorem makeSignal_isTerminating (s : Sched) (c h : Handle) :
    (s.makeSignal c h).isTerminating = s.isTerminating := by
  unfold makeSignal
  split <;> rfl

theorem destroyCoro_isTerminating (s : Sched) (c : Handle) :
    (s.destroyCoro c).isTerminating = s.isTerminating := by
  have hremove : ∀ s : Sched, (s.removeCoro c).isTerminating = s.isTerminating := by
    intro s
    unfold removeCoro
    split <;> rfl
  have hsignal : ∀ (t : Sched) ref, t.isTerminating = s.isTerminating →
      (t.destroySignal ref).isTerminating = s.isTerminating := by
    intro t ref ht
    unfold destroySignal
    split
    · exact ht
    · exact ht
  have hmonitor : ∀ (t : Sched) ref, t.isTerminating = s.isTerminating →
      (t.triggerMonitor ref).isTerminating = s.isTerminating := by
    intro t ref ht
    unfold triggerMonitor
    split
    · exact (raiseSignal_isTerminating t _).trans ht
    · exact ht
  unfold destroyCoro
  split
  · exact (hremove _).trans (foldl_induction hmonitor _ (foldl_induction hsignal _ rfl))
  · exact hremove s

/-- Only `bio_terminate` sets the flag, and nothing takes it back. -/
theorem perform_isTerminating {a : Action} (ha : a ≠ .terminate) :
    (s.perform a).isTerminating = s.isTerminating := by
  have hcoro : ∀ f : Handle → Sched, (∀ c, (f c).isTerminating = s.isTerminating) →
      (s.inCoro f).isTerminating = s.isTerminating := by
    intro f hf
    unfold inCoro
    split
    · exact hf _
    · rfl
  cases a with
  | spawn daemon h => rfl
  | makeSignal h => exact hcoro _ fun c => makeSignal_isTerminating s c h
  | raise ref => exact raiseSignal_isTerminating s ref
  | monitor coro signal h =>
    show (s.monitor coro signal h).1.isTerminating = s.isTerminating
    unfold monitor
    split
    · rfl
    · exact raiseSignal_isTerminating s signal
  | unmonitor ref =>
    show (s.unmonitor ref).isTerminating = s.isTerminating
    unfold unmonitor
    split <;> rfl
  | yield => exact hcoro _ fun c => (suspend_frame s c).2.2.2.2
  | wait signals waitAll => exact hcoro _ fun c => (waitForSignals_frame s c signals waitAll).2.2
  | daemonize => exact hcoro _ fun c => daemonize_isTerminating s c
  | finish => exact hcoro _ fun _ => rfl
  | issue h => rfl
  | terminate => exact absurd rfl ha
  | enterLoop => rfl
  | resume =>
    dsimp only [perform]
    split <;> rfl
  | destroy =>
    dsimp only [perform]
    split
    · exact destroyCoro_isTerminating s _
    · rfl
  | endPass => rfl
  | swap => rfl

theorem daemonize_enabled (hp : s.phase = .running c) : machine.enabled s .daemonize := by
  show Option.isSome _ = true
  rw [hp]
  rfl

theorem perform_daemonize (hp : s.phase = .running c) :
    machine.perform s .daemonize = s.daemonize c := by
  show s.inCoro s.daemonize = s.daemonize c
  unfold inCoro
  rw [hp]
  rfl

theorem daemonize_phase (s : Sched) (c : Handle) : (s.daemonize c).phase = s.phase := by
  unfold daemonize
  split
  · split <;> rfl
  · rfl

theorem ownerOf_daemonize (s : Sched) (c : Handle) {h : Handle} :
    (s.daemonize c).ownerOf h = s.ownerOf h := by
  unfold daemonize
  split
  · split <;> rfl
  · rfl

theorem CanCount.daemonize (h : s.CanCount c) : (s.daemonize c).CanCount c := by
  unfold Sched.daemonize
  split
  · next coro hcoro =>
    split
    · exact h
    · intro coro' hcoro'
      simp only [setCoro, Function.update_self, Option.mem_def, Option.some.injEq] at hcoro'
      rw [← hcoro']
      exact h coro hcoro
  · exact h

end Sched

namespace ExitState

variable {s : ExitState} {pending : List (Handle × Nat)} {c : Handle} {info : ExitInfo}

/-! ## The calls -/

/-- What holds of the call of `bio_wait_for_exit` in the coroutine `c`. -/
structure CallOk (s : ExitState) (pending : List (Handle × Nat)) (c : Handle) (info : ExitInfo) :
    Prop where
  waits : s.sched.Waits c info.signal
  sleeps : s.sched.Sleeps c info.signal ((c, info.call) ∈ pending)
  live : (c, info.call) ∈ pending → s.sched.ownerOf info.signal = some c
  woken : (c, info.call) ∉ pending → (info.call, info.reason) ∈ s.dispatched
  known : info.call < s.calls

structure Handlers (s : ExitState) (pending : List (Handle × Nat)) : Prop where
  sched : Sched.machine.Reachable s.sched
  calls : ∀ c info, s.infos c = some info → s.CallOk pending c info
  apart : ∀ c d info info', s.infos c = some info → s.infos d = some info' →
    info.call = info'.call → c = d
  handlers : ∀ handler ∈ pending, ∃ info, s.infos handler.1 = some info ∧ info.call = handler.2
  nodup : (pending.map Prod.snd).Nodup
  once : (s.dispatched.map Prod.fst).Nodup
  old : ∀ d ∈ s.dispatched, d.1 < s.calls
  left : ∀ handler ∈ pending, handler.2 ∉ s.dispatched.map Prod.fst
  returned : ∀ r ∈ s.returned, r ∈ s.dispatched

/-- The step lemma for an action of the rest of the program. -/
theorem CallOk.effect (h : s.CallOk pending c info) (hr : Sched.machine.Reachable s.sched)
    {a : Action} (he : Sched.machine.enabled s.sched a) (hidle : s.sched.phase ≠ .running c)
    (hnames : a.names info.signal = true → s.sched.ownerOf info.signal ≠ some c) :
    CallOk { s with sched := s.sched.perform a } pending c info := by
  obtain ⟨hwaits, howner⟩ := h.waits.step hr he hidle hnames
  exact ⟨hwaits, h.sleeps.effect (Sched.Effect.of_step he) (Sched.inv_of_reachable hr).1
    h.waits.inside.within hidle, fun hmem => howner.mpr (h.live hmem), h.woken, h.known⟩

theorem Handlers.effect (h : s.Handlers pending) {a : Action} {t : Sched}
    (he : Sched.machine.enabled s.sched a) (ht : Sched.machine.perform s.sched a = t)
    (hidle : ∀ c info, s.infos c = some info → s.sched.phase ≠ .running c)
    (hnames : ∀ c info, s.infos c = some info → a.names info.signal = true →
      s.sched.ownerOf info.signal ≠ some c) :
    Handlers { s with sched := t } pending := by
  subst ht
  exact { h with
    sched := h.sched.step he
    calls := fun c info hc =>
      (h.calls c info hc).effect h.sched he (hidle c info hc) (hnames c info hc) }

/-! ## Dispatching -/

/-- The step lemma for the call that is woken. -/
theorem CallOk.wake (h : s.CallOk pending c info) (hr : Sched.machine.Reachable s.sched)
    (hp : s.sched.phase ≠ .pass) (reason : ExitReason) {rest : List (Handle × Nat)}
    (hnot : (c, info.call) ∉ rest) :
    CallOk { s.setInfo c (some { info with reason := reason }) with
      sched := (s.sched.raiseSignal info.signal).1
      dispatched := s.dispatched ++ [(info.call, reason)] } rest c
        { info with reason := reason } :=
  ⟨h.waits.raise hr hp info.signal, (h.sleeps.raiseSignal info.signal).mono fun h => absurd rfl h.2,
    fun hmem => absurd hmem hnot, fun _ => List.mem_append_right _ (List.mem_singleton_self _), h.known⟩

/-- The step lemma for the other calls. -/
theorem CallOk.wake_other {d : Handle} {k : Nat} {rest : List (Handle × Nat)}
    (h : s.CallOk ((d, k) :: rest) c info) (hr : Sched.machine.Reachable s.sched)
    (hp : s.sched.phase ≠ .pass) (reason : ExitReason) {new : Option ExitInfo} (hne : c ≠ d)
    {signal : Handle} (hown : s.sched.ownerOf signal = some d) :
    CallOk { s.setInfo d new with
      sched := (s.sched.raiseSignal signal).1
      dispatched := s.dispatched ++ [(k, reason)] } rest c info := by
  have hother : (c, info.call) ≠ (d, k) := fun heq => hne (congrArg Prod.fst heq)
  -- Each coroutine has made its own signal.
  have hsignal : signal ≠ info.signal := by
    rintro rfl
    have hmine := Sched.ownerOf_of_made (Sched.accounted_of_reachable hr) h.waits.held.made
      (by simp [hown])
    exact hne (Option.some.inj (hmine.symm.trans hown))
  have hwaits := h.waits.raise hr hp signal
  have howner := h.waits.held.owner_iff hr (a := .raise signal) hp hwaits.inside.live
    (by simp [Action.names, hsignal])
  refine ⟨hwaits, (h.sleeps.raiseSignal signal).mono fun hmem => ?_, fun hmem => ?_,
    fun hnot => List.mem_append_left _ (h.woken ?_), h.known⟩
  · exact (List.mem_cons.mp hmem.1).resolve_left hother
  · exact howner.mpr (h.live (List.mem_cons_of_mem _ hmem))
  · exact fun hmem => hnot ((List.mem_cons.mp hmem).resolve_left hother)

/-- The step lemma for one round of the loop. -/
theorem Handlers.wake {d : Handle} {k : Nat} {rest : List (Handle × Nat)}
    (h : s.Handlers ((d, k) :: rest)) (hp : s.sched.phase ≠ .pass) (reason : ExitReason) :
    (s.wake reason (d, k)).Handlers rest := by
  obtain ⟨info, hd, rfl⟩ := h.handlers (d, k) List.mem_cons_self
  have hwake : s.wake reason (d, info.call) =
      { s.setInfo d (some { info with reason := reason }) with
        sched := (s.sched.raiseSignal info.signal).1
        dispatched := s.dispatched ++ [(info.call, reason)] } := by
    simp [ExitState.wake, hd]
  rw [hwake]
  obtain ⟨hfirst, hnodup⟩ := List.nodup_cons.mp h.nodup
  have hcall := h.calls d info hd
  have hown := hcall.live List.mem_cons_self
  have hleft := h.left (d, info.call) List.mem_cons_self
  -- The calls before the round, by those after it.
  have hold : ∀ {c info'}, Function.update s.infos d (some { info with reason := reason }) c =
      some info' → ∃ old, s.infos c = some old ∧ old.call = info'.call := by
    intro c info' hc
    rcases Table.update_some hc with ⟨rfl, hnew⟩ | ⟨_, hc⟩
    · exact ⟨info, hd, by rw [← Option.some.inj hnew]⟩
    · exact ⟨info', hc, rfl⟩
  have hraise : Sched.machine.enabled s.sched (.raise info.signal) := hp
  refine ⟨h.sched.step hraise, fun c info' hc => ?_,
    fun c₁ c₂ i₁ i₂ h₁ h₂ heq => ?_, fun handler hmem => ?_, hnodup, ?_, fun x hx => ?_,
    fun handler hmem => ?_, fun r hr => List.mem_append_left _ (h.returned r hr)⟩
  · rcases Table.update_some hc with ⟨rfl, hnew⟩ | ⟨hne, hc⟩
    · obtain rfl := Option.some.inj hnew
      exact hcall.wake h.sched hp reason fun hmem => hfirst (List.mem_map_of_mem hmem)
    · exact (h.calls c info' hc).wake_other h.sched hp reason hne hown
  · obtain ⟨old₁, hold₁, hcall₁⟩ := hold h₁
    obtain ⟨old₂, hold₂, hcall₂⟩ := hold h₂
    exact h.apart c₁ c₂ old₁ old₂ hold₁ hold₂ (by rw [hcall₁, hcall₂, heq])
  · obtain ⟨info', hinfo, hsame⟩ := h.handlers handler (List.mem_cons_of_mem _ hmem)
    by_cases heq : handler.1 = d
    · refine ⟨{ info with reason := reason }, by simp [setInfo, heq], ?_⟩
      rw [heq, hd] at hinfo
      rw [← hsame, ← Option.some.inj hinfo]
    · exact ⟨info', by simp [setInfo, heq, hinfo], hsame⟩
  · rw [List.map_append, List.nodup_append]
    refine ⟨h.once, by simp, fun x hx y hy => ?_⟩
    obtain rfl : y = info.call := by simpa using hy
    rintro rfl
    exact hleft hx
  · rcases List.mem_append.mp hx with hx | hx
    · exact h.old x hx
    · obtain rfl := List.mem_singleton.mp hx
      exact hcall.known
  · rw [List.map_append, List.mem_append, not_or]
    refine ⟨h.left handler (List.mem_cons_of_mem _ hmem), ?_⟩
    intro hx
    have hsame : handler.2 = info.call := by simpa using hx
    exact hfirst (hsame ▸ List.mem_map.mpr ⟨handler, hmem, rfl⟩)

theorem wake_phase (s : ExitState) (reason : ExitReason) (handler : Handle × Nat) :
    (s.wake reason handler).sched.phase = s.sched.phase := by
  unfold wake
  split
  · split
    · exact (Sched.raiseSignal_frame s.sched _).2.1
    · rfl
  · rfl

/-- The run lemma: after the loop no handler is left. -/
theorem Handlers.wakeAll (h : s.Handlers pending) (hp : s.sched.phase ≠ .pass)
    (reason : ExitReason) : (pending.foldl (ExitState.wake reason) s).Handlers [] := by
  induction pending generalizing s with
  | nil => exact h
  | cons handler pending ih => exact ih (h.wake hp reason) (by rwa [wake_phase])

/-- `Handlers` is about the scheduler, the calls and what happened to them. -/
theorem Handlers.congr {t : ExitState} (h : s.Handlers pending) (hsched : t.sched = s.sched)
    (hinfos : t.infos = s.infos) (hcalls : t.calls = s.calls) (hdispatched : t.dispatched = s.dispatched)
    (hreturned : t.returned = s.returned) : t.Handlers pending := by
  obtain ⟨h₁, h₂, h₃, h₄, h₅, h₆, h₇, h₈, h₉⟩ := h
  rw [← hsched] at h₁
  rw [← hinfos] at h₂ h₃ h₄
  rw [← hdispatched] at h₆ h₇ h₈ h₉
  rw [← hcalls] at h₇
  rw [← hreturned] at h₉
  refine ⟨h₁, fun c info hc => ?_, h₃, h₄, h₅, h₆, h₇, h₈, h₉⟩
  obtain ⟨hwaits, hsleeps, hlive, hwoken, hknown⟩ := h₂ c info hc
  rw [← hsched] at hwaits hsleeps hlive
  rw [← hdispatched] at hwoken
  rw [← hcalls] at hknown
  exact ⟨hwaits, hsleeps, hlive, hwoken, hknown⟩

/-- `bio_dispatch_exit_signal` wakes every handler. -/
theorem Handlers.dispatch (h : s.Handlers s.exitHandlers) (hp : s.sched.phase ≠ .pass)
    (reason : ExitReason) : (s.dispatchExitSignal reason).Handlers [] := by
  have hall := h.wakeAll hp reason
  unfold dispatchExitSignal
  dsimp only
  split <;> exact hall.congr rfl rfl rfl rfl rfl

theorem dispatchExitSignal_handlers (s : ExitState) (reason : ExitReason) :
    (s.dispatchExitSignal reason).exitHandlers = [] := by
  unfold dispatchExitSignal
  dsimp only
  split <;> rfl

/-! ## Waiting and returning -/

theorem wait_handlers (s : ExitState) (c signal : Handle) :
    (s.wait c signal).exitHandlers = s.exitHandlers ++ [(c, s.calls)] := by
  unfold wait
  dsimp only
  split <;> rfl

theorem returnExit_handlers (s : ExitState) (c : Handle) :
    (s.returnExit c).exitHandlers = s.exitHandlers := by
  unfold returnExit
  split <;> rfl

/-- A new call, in its wait. -/
theorem Handlers.push (h : s.Handlers pending) (hc : s.infos c = none) {signal : Handle}
    (hwaits : s.sched.Waits c signal) (hsleeps : s.sched.Sleeps c signal True)
    (hown : s.sched.ownerOf signal = some c) :
    Handlers { s.setInfo c (some ⟨s.calls, signal, .osRequest⟩) with
      exitHandlers := s.exitHandlers ++ [(c, s.calls)]
      calls := s.calls + 1 } (pending ++ [(c, s.calls)]) := by
  have hlast : (c, s.calls) ∈ pending ++ [(c, s.calls)] :=
    List.mem_append_right _ (List.mem_singleton_self _)
  have hbelow : ∀ handler ∈ pending, handler.2 < s.calls := by
    intro handler hmem
    obtain ⟨info, hinfo, hsame⟩ := h.handlers handler hmem
    exact hsame ▸ (h.calls _ info hinfo).known
  refine ⟨h.sched, fun d info hd => ?_, fun c₁ c₂ i₁ i₂ h₁ h₂ heq => ?_, fun handler hmem => ?_, ?_,
    h.once, fun x hx => (h.old x hx).trans (Nat.lt_succ_self _), fun handler hmem => ?_, h.returned⟩
  · rcases Table.update_some hd with ⟨rfl, hnew⟩ | ⟨hne, hd⟩
    · obtain rfl := Option.some.inj hnew
      exact ⟨hwaits, hsleeps.mono fun _ => hlast, fun _ => hown, fun hnot => absurd hlast hnot,
        Nat.lt_succ_self _⟩
    · obtain ⟨hw, hs, hl, hwoken, hknown⟩ := h.calls d info hd
      refine ⟨hw, hs.mono (List.mem_append_left _), fun hmem => hl ?_,
        fun hnot => hwoken (mt (List.mem_append_left _) hnot), hknown.trans (Nat.lt_succ_self _)⟩
      refine (List.mem_append.mp hmem).resolve_right fun hnew => hne ?_
      exact congrArg Prod.fst (List.mem_singleton.mp hnew)
  · have hnew : ∀ {d info}, s.infos d = some info → info.call ≠ s.calls :=
      fun hd => (h.calls _ _ hd).known.ne
    rcases Table.update_some h₁ with ⟨rfl, hnew₁⟩ | ⟨_, hold₁⟩ <;>
      rcases Table.update_some h₂ with ⟨rfl, hnew₂⟩ | ⟨_, hold₂⟩
    · rfl
    · rw [← Option.some.inj hnew₁] at heq
      exact absurd heq.symm (hnew hold₂)
    · rw [← Option.some.inj hnew₂] at heq
      exact absurd heq (hnew hold₁)
    · exact h.apart c₁ c₂ i₁ i₂ hold₁ hold₂ heq
  · rcases List.mem_append.mp hmem with hmem | hmem
    · obtain ⟨info, hinfo, hsame⟩ := h.handlers handler hmem
      have hne : handler.1 ≠ c := by
        rintro heq
        rw [heq, hc] at hinfo
        cases hinfo
      exact ⟨info, by simp [setInfo, hne, hinfo], hsame⟩
    · obtain rfl := List.mem_singleton.mp hmem
      exact ⟨⟨s.calls, signal, .osRequest⟩, by simp [setInfo], rfl⟩
  · rw [List.map_append, List.nodup_append]
    refine ⟨h.nodup, by simp, fun x hx y hy => ?_⟩
    obtain ⟨handler, hmem, rfl⟩ := List.mem_map.mp hx
    obtain rfl : y = s.calls := by simpa using hy
    exact (hbelow handler hmem).ne
  · rcases List.mem_append.mp hmem with hmem | hmem
    · exact h.left handler hmem
    · obtain rfl := List.mem_singleton.mp hmem
      intro hx
      obtain ⟨x, hx, heq⟩ := List.mem_map.mp hx
      exact (h.old x hx).ne heq

/-- A coroutine that runs, and is not in `bio_wait_for_exit`, is in no call. -/
theorem idle_of_busy (h : s.busy = false) (hc : s.infos c = some info) :
    s.sched.phase ≠ .running c := by
  intro hp
  simp [busy, hp, Phase.mcoRunning, hc] at h

/-- `bio_wait_for_exit` up to its wait. -/
theorem Handlers.wait (h : s.Handlers pending) (hp : s.sched.phase = .running c)
    (hbusy : s.busy = false) {signal : Handle} (hfresh : s.sched.Fresh signal)
    (hcount : s.sched.CanCount c) : (s.wait c signal).Handlers (pending ++ [(c, s.calls)]) := by
  have hnone : s.infos c = none := by simpa [busy, hp, Phase.mcoRunning] using hbusy
  have hother : ∀ d info, s.infos d = some info → ∀ t : Sched, t.phase = .running c →
      t.phase ≠ .running d := by
    intro d info hd t ht hd'
    obtain rfl := Phase.running.inj (ht.symm.trans hd')
    rw [hnone] at hd
    cases hd
  -- The other coroutines do not move in these three actions.
  have hmade := h.effect (a := .makeSignal signal) ⟨by rw [hp]; rfl, hfresh⟩
    (Sched.perform_makeSignal hp signal) (fun d info hd => hother d info hd _ hp) (by simp [Action.names])
  have hp₁ : (s.sched.makeSignal c signal).phase = .running c :=
    (Sched.makeSignal_phase ..).trans hp
  have hdaemon := hmade.effect (Sched.daemonize_enabled hp₁) (Sched.perform_daemonize hp₁)
    (fun d info hd => hother d info hd _ hp₁) (by simp [Action.names])
  have hp₂ : ((s.sched.makeSignal c signal).daemonize c).phase = .running c :=
    (Sched.daemonize_phase _ c).trans hp₁
  have hwait := hdaemon.effect (Sched.wait_enabled hp₂ [signal] true)
    (Sched.perform_wait hp₂ [signal] true) (fun d info hd => hother d info hd _ hp₂) (by simp [Action.names])
  -- Its own wait.
  have hheld := (Sched.Held.of_makeSignal h.sched hp hfresh).step hmade.sched
    (Sched.daemonize_enabled hp₁) (by simp [Action.names])
  rw [Sched.perform_daemonize hp₁] at hheld
  have hown : ((s.sched.makeSignal c signal).daemonize c).ownerOf signal = some c :=
    (Sched.ownerOf_daemonize _ c).trans
      (Sched.makeSignal_owner (Sched.Inside.of_running h.sched hp).live)
  have hview : (((s.sched.makeSignal c signal).daemonize c).waitView c).isSome = true := by
    obtain ⟨coro, hcoro⟩ := Option.ne_none_iff_exists'.mp
      (Sched.Inside.of_running hdaemon.sched hp₂).live
    exact Option.isSome_map.trans (Option.isSome_iff_exists.mpr ⟨coro, hcoro⟩)
  have hpush := hwait.push hnone
    (hheld.wait hdaemon.sched hp₂ (hcount.makeSignal signal).daemonize)
    (Sched.sleeps_wait hview hown trivial) ((Sched.ownerOf_waitForSignals ..).symm ▸ hown)
  unfold ExitState.wait
  dsimp only
  split <;> exact hpush.congr rfl rfl rfl rfl rfl

/-- `bio_wait_for_exit` returns the reason that its call was woken with. -/
theorem Handlers.returnExit (h : s.Handlers pending) (hp : s.sched.phase = .running c)
    (hc : s.infos c = some info) : (s.returnExit c).Handlers pending := by
  have hcall := h.calls c info hc
  have hnot : (c, info.call) ∉ pending :=
    fun hmem => hcall.waits.closed h.sched hp (hcall.live hmem)
  have hreturn : s.returnExit c =
      { s.setInfo c none with returned := s.returned ++ [(info.call, info.reason)] } := by
    simp [ExitState.returnExit, hc]
  rw [hreturn]
  have hold : ∀ {d info'}, Function.update s.infos c none d = some info' →
      s.infos d = some info' := fun hd => (Table.erase_some hd).2
  refine ⟨h.sched, fun d info' hd => ?_, fun c₁ c₂ i₁ i₂ h₁ h₂ => h.apart c₁ c₂ i₁ i₂ (hold h₁) (hold h₂),
    fun handler hmem => ?_, h.nodup, h.once, h.old, h.left, fun r hr => ?_⟩
  · obtain ⟨hw, hs, hl, hwoken, hknown⟩ := h.calls d info' (hold hd)
    exact ⟨hw, hs, hl, hwoken, hknown⟩
  · obtain ⟨info', hinfo, hsame⟩ := h.handlers handler hmem
    have hne : handler.1 ≠ c := by
      intro heq
      rw [heq, hc] at hinfo
      obtain rfl := Option.some.inj hinfo
      exact hnot (by rw [hsame, ← heq]; exact hmem)
    exact ⟨info', by simp [setInfo, hne, hinfo], hsame⟩
  · rcases List.mem_append.mp hr with hr | hr
    · exact h.returned r hr
    · obtain rfl := List.mem_singleton.mp hr
      exact hcall.woken hnot

/-- The step lemma. -/
theorem Handlers.perform {sigmask : Finset Nat} {a : ExitAction} (h : s.Handlers s.exitHandlers)
    (he : (machine sigmask).enabled s a) :
    ((machine sigmask).perform s a).Handlers ((machine sigmask).perform s a).exitHandlers := by
  cases a with
  | sched a =>
    obtain ⟨hen, _, hbusy, hlocal⟩ := he
    refine h.effect hen rfl (fun c info hc => idle_of_busy hbusy hc) fun c info hc hn hown => ?_
    have hnot := hlocal info.signal (Action.mem_signals.mpr hn)
    simp [isLocal, hown, hc] at hnot
  | waitForExit signal =>
    obtain ⟨_, hbusy, hfresh, hcount⟩ := he
    show (s.waitForExit signal).1.Handlers (s.waitForExit signal).1.exitHandlers
    unfold ExitState.waitForExit
    split
    · next c hc =>
      split
      · exact h
      · have hp := Phase.eq_running hc
        have hwait := h.wait hp hbusy hfresh (by simpa [hp, Phase.mcoRunning] using hcount)
        rwa [wait_handlers]
    · exact h
  | returnExit =>
    dsimp only [machine, ExitState.perform]
    split
    · next c hc =>
      obtain ⟨info, hinfo⟩ := Option.isSome_iff_exists.mp (show (s.infos c).isSome = true by
        simpa [machine, ExitState.enabled, busy, hc] using he)
      have hreturn := h.returnExit (Phase.eq_running hc) hinfo
      rwa [returnExit_handlers]
    · exact h
  | handleExitSignal =>
    show (s.dispatchExitSignal .osRequest).Handlers (s.dispatchExitSignal .osRequest).exitHandlers
    rw [dispatchExitSignal_handlers]
    exact h.dispatch he .osRequest
  | terminate =>
    show s.terminate.Handlers s.terminate.exitHandlers
    unfold ExitState.terminate
    rw [dispatchExitSignal_handlers]
    have hp : s.sched.phase = .outside := he.1
    have hterm := h.effect (a := .terminate) hp rfl
      (fun c info _ hrun => by rw [hp] at hrun; cases hrun) (by simp [Action.names])
    exact Handlers.dispatch hterm
      (show s.sched.phase ≠ .pass from fun heq => absurd (hp.symm.trans heq) (by simp)) .terminate

theorem handlers_of_reachable {sigmask : Finset Nat} (hr : (machine sigmask).Reachable s) :
    s.Handlers s.exitHandlers := by
  refine Machine.invariant (P := fun s => s.Handlers s.exitHandlers) (fun t ht => ?_)
    (fun t a _ hinv he => hinv.perform he) hr
  obtain rfl : t = init sigmask := ht
  exact ⟨.init rfl, nofun, nofun, nofun, List.nodup_nil, List.nodup_nil, nofun, nofun, nofun⟩

/-! ## What a dispatch does -/

/-- One round records the reason of the handler, which is woken. -/
theorem Handlers.wake_dispatched {d : Handle} {k : Nat} {rest : List (Handle × Nat)}
    (h : s.Handlers ((d, k) :: rest)) (reason : ExitReason) :
    (s.wake reason (d, k)).dispatched = s.dispatched ++ [(k, reason)] := by
  obtain ⟨info, hd, rfl⟩ := h.handlers (d, k) List.mem_cons_self
  simp [ExitState.wake, hd]

theorem Handlers.wakeAll_dispatched (h : s.Handlers pending) (hp : s.sched.phase ≠ .pass)
    (reason : ExitReason) : (pending.foldl (ExitState.wake reason) s).dispatched =
      s.dispatched ++ pending.map fun handler => (handler.2, reason) := by
  induction pending generalizing s with
  | nil => simp
  | cons handler pending ih =>
    rw [List.foldl_cons, ih (h.wake hp reason) (by rwa [wake_phase]), h.wake_dispatched,
      List.append_assoc]
    rfl

theorem wake_infos (s : ExitState) (reason : ExitReason) (handler : Handle × Nat) (c : Handle) :
    ((s.wake reason handler).infos c).isSome = (s.infos c).isSome := by
  unfold wake
  split
  · next info hinfo =>
    split
    · by_cases hc : c = handler.1
      · simp [setInfo, hc, hinfo]
      · simp [setInfo, hc]
    · rfl
  · rfl

theorem wakeAll_infos (handlers : List (Handle × Nat)) (s : ExitState) (reason : ExitReason)
    (c : Handle) : ((handlers.foldl (wake reason) s).infos c).isSome = (s.infos c).isSome := by
  induction handlers generalizing s with
  | nil => rfl
  | cons handler handlers ih => exact (ih _).trans (wake_infos s reason handler c)

/-- No coroutine waits in a call that has no handler. -/
theorem Handlers.not_waiting (h : s.Handlers pending) (hc : s.infos c = some info)
    (hnot : (c, info.call) ∉ pending) : s.sched.coroState c ≠ .waiting :=
  (h.calls c info hc).sleeps.not_waiting hnot

theorem Handlers.dispatch_spec (h : s.Handlers s.exitHandlers) (hp : s.sched.phase ≠ .pass)
    (reason : ExitReason) :
    (s.dispatchExitSignal reason).dispatched =
        s.dispatched ++ s.exitHandlers.map (fun handler => (handler.2, reason)) ∧
      ∀ handler ∈ s.exitHandlers,
        (s.dispatchExitSignal reason).sched.coroState handler.1 ≠ .waiting := by
  have hloop : (s.dispatchExitSignal reason).dispatched =
        (s.exitHandlers.foldl (ExitState.wake reason) s).dispatched ∧
      (s.dispatchExitSignal reason).infos =
        (s.exitHandlers.foldl (ExitState.wake reason) s).infos := by
    unfold dispatchExitSignal
    dsimp only
    split <;> exact ⟨rfl, rfl⟩
  refine ⟨hloop.1.trans (h.wakeAll_dispatched hp reason), fun handler hmem => ?_⟩
  obtain ⟨info, hinfo, _⟩ := h.handlers handler hmem
  have hsome : ((s.dispatchExitSignal reason).infos handler.1).isSome = true := by
    rw [hloop.2, wakeAll_infos, hinfo]
    rfl
  obtain ⟨info', hinfo'⟩ := Option.isSome_iff_exists.mp hsome
  exact (h.dispatch hp reason).not_waiting hinfo' List.not_mem_nil

/-! ## The signal mask -/

/-- The first `n` calls that block and unblock, when they alternate. -/
def alternation (n : Nat) : List Toggle :=
  (List.range n).map fun i => if i % 2 = 0 then .block else .unblock

theorem alternation_succ (n : Nat) :
    alternation (n + 1) = alternation n ++ [if n % 2 = 0 then .block else .unblock] := by
  simp [alternation, List.range_succ]

/-- The mask of the program is in place while there is no handler, and saved otherwise. -/
structure Masked (sigmask : Finset Nat) (s : ExitState) : Prop where
  alternate : s.toggles = alternation s.toggles.length
  parity : s.toggles.length % 2 = if s.exitHandlers = [] then 0 else 1
  mask : s.sigmask = if s.exitHandlers = [] then sigmask else sigmask ∪ exitSignals
  saved : s.toggles ≠ [] → s.oldSigmask = sigmask

variable {sigmask : Finset Nat}

/-- `Masked` is about the calls that block and unblock. -/
theorem Masked.congr {t : ExitState} (h : s.Masked sigmask) (hhandlers : t.exitHandlers = s.exitHandlers)
    (htoggles : t.toggles = s.toggles) (hmask : t.sigmask = s.sigmask)
    (hold : t.oldSigmask = s.oldSigmask) : t.Masked sigmask := by
  obtain ⟨halternate, hparity, hmask', hsaved⟩ := h
  refine ⟨?_, ?_, ?_, ?_⟩
  · rw [htoggles]
    exact halternate
  · rw [htoggles, hhandlers]
    exact hparity
  · rw [hmask, hhandlers]
    exact hmask'
  · rw [htoggles, hold]
    exact hsaved

theorem Masked.wait (h : s.Masked sigmask) (c signal : Handle) : (s.wait c signal).Masked sigmask := by
  have hne : (s.wait c signal).exitHandlers ≠ [] := by simp [wait_handlers]
  by_cases hempty : s.exitHandlers = []
  · -- The first handler: the mask that is saved is the one of the program.
    have hparity : s.toggles.length % 2 = 0 := by simpa [hempty] using h.parity
    have hmask : s.sigmask = sigmask := by simpa [hempty] using h.mask
    have htoggles : (s.wait c signal).toggles = s.toggles ++ [.block] := by
      simp [ExitState.wait, hempty, blockExitSignal, setInfo]
    refine ⟨?_, ?_, ?_, fun _ => ?_⟩
    · rw [htoggles, List.length_append, List.length_singleton, alternation_succ, if_pos hparity,
        ← h.alternate]
    · rw [if_neg hne, htoggles, List.length_append, List.length_singleton]
      omega
    · rw [if_neg hne, ← hmask]
      simp [ExitState.wait, hempty, blockExitSignal, setInfo]
    · rw [← hmask]
      simp [ExitState.wait, hempty, blockExitSignal, setInfo]
  · have hsame : (s.wait c signal).toggles = s.toggles ∧ (s.wait c signal).sigmask = s.sigmask ∧
        (s.wait c signal).oldSigmask = s.oldSigmask := by
      simp [ExitState.wait, hempty, setInfo]
    obtain ⟨htoggles, hmask, hold⟩ := hsame
    refine ⟨htoggles ▸ h.alternate, ?_, ?_, fun hsome => hold ▸ h.saved (htoggles ▸ hsome)⟩
    · rw [if_neg hne, htoggles, h.parity, if_neg hempty]
    · rw [if_neg hne, hmask, h.mask, if_neg hempty]

theorem wake_mask (s : ExitState) (reason : ExitReason) (handler : Handle × Nat) :
    (s.wake reason handler).toggles = s.toggles ∧
      (s.wake reason handler).sigmask = s.sigmask ∧
      (s.wake reason handler).oldSigmask = s.oldSigmask := by
  unfold wake
  split
  · split <;> exact ⟨rfl, rfl, rfl⟩
  · exact ⟨rfl, rfl, rfl⟩

theorem wakeAll_mask (handlers : List (Handle × Nat)) (s : ExitState) (reason : ExitReason) :
    (handlers.foldl (wake reason) s).toggles = s.toggles ∧
      (handlers.foldl (wake reason) s).sigmask = s.sigmask ∧
      (handlers.foldl (wake reason) s).oldSigmask = s.oldSigmask := by
  induction handlers generalizing s with
  | nil => exact ⟨rfl, rfl, rfl⟩
  | cons handler handlers ih =>
    obtain ⟨h₁, h₂, h₃⟩ := ih (s.wake reason handler)
    obtain ⟨g₁, g₂, g₃⟩ := wake_mask s reason handler
    exact ⟨h₁.trans g₁, h₂.trans g₂, h₃.trans g₃⟩

theorem Masked.dispatch (h : s.Masked sigmask) (reason : ExitReason) :
    (s.dispatchExitSignal reason).Masked sigmask := by
  obtain ⟨htoggles, hmask, hold⟩ := wakeAll_mask s.exitHandlers s reason
  have hempty := dispatchExitSignal_handlers s reason
  by_cases hnone : s.exitHandlers = []
  · refine h.congr (hempty.trans hnone.symm) ?_ ?_ ?_ <;> simp [dispatchExitSignal, hnone]
  · -- There are handlers, so the signals are blocked and the mask of the program is saved.
    have hpos : 0 < s.exitHandlers.length := List.length_pos_iff.mpr hnone
    have hparity : s.toggles.length % 2 = 1 := by simpa [hnone] using h.parity
    have hsaved : s.oldSigmask = sigmask := h.saved fun heq => by simp [heq] at hparity
    have htoggles' : (s.dispatchExitSignal reason).toggles = s.toggles ++ [.unblock] := by
      simp [dispatchExitSignal, hpos, unblockExitSignal, htoggles]
    refine ⟨?_, ?_, ?_, fun _ => ?_⟩
    · rw [htoggles', List.length_append, List.length_singleton, alternation_succ,
        if_neg (by rw [hparity]; nofun), ← h.alternate]
    · rw [if_pos hempty, htoggles', List.length_append, List.length_singleton]
      omega
    · rw [if_pos hempty, ← hsaved, ← hold]
      simp [dispatchExitSignal, hpos, unblockExitSignal]
    · rw [← hsaved, ← hold]
      simp [dispatchExitSignal, hpos, unblockExitSignal]

theorem Masked.perform {a : ExitAction} (h : s.Masked sigmask) :
    ((machine sigmask).perform s a).Masked sigmask := by
  cases a with
  | sched a => exact h.congr rfl rfl rfl rfl
  | waitForExit signal =>
    show (s.waitForExit signal).1.Masked sigmask
    unfold ExitState.waitForExit
    split
    · split
      · exact h
      · exact h.wait _ signal
    · exact h
  | returnExit =>
    dsimp only [machine, ExitState.perform]
    split
    · unfold ExitState.returnExit
      split
      · exact h.congr rfl rfl rfl rfl
      · exact h
    · exact h
  | handleExitSignal => exact h.dispatch .osRequest
  | terminate =>
    have hterm : Masked sigmask { s with sched := s.sched.perform .terminate } :=
      h.congr rfl rfl rfl rfl
    exact hterm.dispatch .terminate

theorem masked_of_reachable (hr : (machine sigmask).Reachable s) : s.Masked sigmask := by
  refine Machine.invariant (fun t ht => ?_) (fun t a _ hinv _ => hinv.perform) hr
  obtain rfl : t = init sigmask := ht
  exact ⟨rfl, rfl, rfl, fun h => absurd rfl h⟩

/-! ## Termination -/

/-- Once termination has begun there are no handlers, and none is added. -/
theorem terminating_of_reachable (hr : (machine sigmask).Reachable s) :
    s.sched.isTerminating = true → s.exitHandlers = [] := by
  refine Machine.invariant (P := fun s : ExitState => s.sched.isTerminating = true →
    s.exitHandlers = []) (fun t ht hterm => ?_) (fun t a _ hinv he hterm => ?_) hr
  · obtain rfl : t = init sigmask := ht
    rfl
  · cases a with
    | sched a => exact hinv ((Sched.perform_isTerminating he.2.1).symm.trans hterm)
    | waitForExit signal =>
      revert hterm
      show (t.waitForExit signal).1.sched.isTerminating = true →
        (t.waitForExit signal).1.exitHandlers = []
      unfold ExitState.waitForExit
      split
      · next c _ =>
        split
        · exact hinv
        · next hnot =>
          intro hterm
          have hsame : (t.wait c signal).sched.isTerminating = t.sched.isTerminating := by
            unfold ExitState.wait
            refine (Sched.waitForSignals_frame ..).2.2.trans ?_
            refine (Sched.daemonize_isTerminating ..).trans ?_
            refine (Sched.makeSignal_isTerminating ..).trans ?_
            split <;> rfl
          exact absurd (hsame.symm.trans hterm) hnot
      · exact hinv
    | returnExit =>
      revert hterm
      dsimp only [machine, ExitState.perform]
      split
      · rw [returnExit_handlers]
        unfold ExitState.returnExit
        split <;> exact hinv
      · exact hinv
    | handleExitSignal => exact dispatchExitSignal_handlers t .osRequest
    | terminate => exact dispatchExitSignal_handlers _ .terminate

/-! ## The result -/

/-- The reasons of the dispatches that woke a call. -/
def dispatchesOf (s : ExitState) (call : Nat) : List ExitReason :=
  (s.dispatched.filter fun d => d.1 = call).map Prod.snd

theorem filter_of_nodup {l : List (Nat × ExitReason)} (h : (l.map Prod.fst).Nodup)
    {d : Nat × ExitReason} (hd : d ∈ l) : l.filter (fun x => x.1 = d.1) = [d] := by
  induction l with
  | nil => cases hd
  | cons x l ih =>
    obtain ⟨hx, hl⟩ := List.nodup_cons.mp h
    rcases List.mem_cons.mp hd with rfl | hd
    · have hrest : l.filter (fun x => x.1 = d.1) = [] := by
        refine List.filter_eq_nil_iff.mpr fun y hy heq => hx ?_
        exact List.mem_map.mpr ⟨y, hy, by simpa using heq⟩
      rw [List.filter_cons_of_pos (by simp), hrest]
    · have hne : x.1 ≠ d.1 := fun heq => hx (heq ▸ List.mem_map_of_mem hd)
      rw [List.filter_cons_of_neg (by simpa using hne), ih hl hd]

theorem Handlers.dispatchesOf_eq (h : s.Handlers pending) {call : Nat} {reason : ExitReason}
    (hd : (call, reason) ∈ s.dispatched) : s.dispatchesOf call = [reason] := by
  simp [dispatchesOf, filter_of_nodup h.once hd]

theorem Handlers.dispatchesOf_nil (h : s.Handlers pending) {handler : Handle × Nat}
    (hmem : handler ∈ pending) : s.dispatchesOf handler.2 = [] := by
  have hnot := h.left handler hmem
  rw [dispatchesOf, List.map_eq_nil_iff, List.filter_eq_nil_iff]
  intro d hd heq
  have hsame : d.1 = handler.2 := by simpa using heq
  exact hnot (hsame ▸ List.mem_map_of_mem hd)

end ExitState

/-- The reason with which an action dispatches. -/
def ExitAction.dispatches : ExitAction → Option ExitReason
  | .handleExitSignal => some .osRequest
  | .terminate => some .terminate
  | _ => none

namespace ExitState

/-- What a program may rely on. -/
structure Notified (sigmask : Finset Nat) (s : ExitState) : Prop where
  /-- An entry of `exit_handlers` is a call that waits, and that no dispatch has woken. -/
  handler : ∀ handler ∈ s.exitHandlers, s.sched.coroState handler.1 = .waiting ∧
    (∃ info, s.infos handler.1 = some info ∧ info.call = handler.2) ∧ s.dispatchesOf handler.2 = []
  /-- Every other call is woken, by one dispatch and with its reason. -/
  call : ∀ c info, s.infos c = some info → (c, info.call) ∉ s.exitHandlers →
    s.sched.coroState c ≠ .waiting ∧ s.dispatchesOf info.call = [info.reason]
  /-- A call that has returned was woken by one dispatch, and returned its reason. -/
  returned : ∀ r ∈ s.returned, s.dispatchesOf r.1 = [r.2]
  /-- A dispatch wakes all handlers. -/
  dispatch : ∀ a reason, a.dispatches = some reason → (machine sigmask).enabled s a →
    ((machine sigmask).perform s a).dispatched =
        s.dispatched ++ s.exitHandlers.map (fun handler => (handler.2, reason)) ∧
      ∀ handler ∈ s.exitHandlers,
        ((machine sigmask).perform s a).sched.coroState handler.1 ≠ .waiting
  /-- The calls that block and unblock alternate, and what was saved is the mask of the program. -/
  alternate : s.toggles = alternation s.toggles.length
  saved : s.toggles ≠ [] → s.oldSigmask = sigmask
  mask : s.sigmask = if s.exitHandlers = [] then sigmask else sigmask ∪ exitSignals
  /-- Once termination has begun, nobody waits and `bio_wait_for_exit` returns at once. -/
  terminating : s.sched.isTerminating = true →
    (∀ c info, s.infos c = some info → s.sched.coroState c ≠ .waiting) ∧
    ∀ signal, s.waitForExit signal = (s, some .terminate)

variable {sigmask : Finset Nat} {s : ExitState}

/-- In every run, whatever the coroutines, the exit signals and `bio_terminate` do. -/
theorem exit_notification (hr : (machine sigmask).Reachable s) : s.Notified sigmask := by
  have h := handlers_of_reachable hr
  have hmasked := masked_of_reachable hr
  have hterm := terminating_of_reachable hr
  refine ⟨fun handler hmem => ?_, fun c info hc hnot => ⟨h.not_waiting hc hnot, ?_⟩,
    fun r hr => h.dispatchesOf_eq (h.returned r hr), fun a reason ha he => ?_, hmasked.alternate,
    hmasked.saved, hmasked.mask, fun ht => ⟨fun c info hc => ?_, fun signal => ?_⟩⟩
  · obtain ⟨info, hinfo, hsame⟩ := h.handlers handler hmem
    have hcall := h.calls handler.1 info hinfo
    have hlive := hcall.live (by rw [hsame]; exact hmem)
    exact ⟨hcall.waits.waiting h.sched hlive, ⟨info, hinfo, hsame⟩, h.dispatchesOf_nil hmem⟩
  · exact h.dispatchesOf_eq ((h.calls c info hc).woken hnot)
  · cases a <;> cases ha
    · exact h.dispatch_spec he .osRequest
    · have hp : s.sched.phase = .outside := he.1
      have hstart := h.effect (a := .terminate) hp rfl
        (fun c info _ hrun => nomatch hp.symm.trans hrun) nofun
      exact hstart.dispatch_spec
        (show s.sched.phase ≠ .pass from fun heq => nomatch hp.symm.trans heq) .terminate
  · exact h.not_waiting hc (by simp [hterm ht])
  · unfold waitForExit
    split
    · rw [if_pos ht]
    · rfl

/-- One coroutine waits two times, next to one that yields: an exit signal ends the first wait, and
`bio_terminate` the second one. -/
theorem exit_notification_twice :
    let as : List ExitAction :=
      [.sched (.spawn false ⟨1, 1⟩), .sched (.spawn false ⟨2, 1⟩), .sched .enterLoop,
        .sched .endPass, .sched .swap, .sched .resume, .waitForExit ⟨3, 1⟩, .sched .resume,
        .sched .yield, .sched .endPass, .handleExitSignal, .sched .swap, .sched .resume,
        .sched .finish, .sched .destroy, .sched .resume, .returnExit, .waitForExit ⟨4, 1⟩,
        .sched .endPass, .terminate, .sched .enterLoop, .sched .endPass, .sched .swap,
        .sched .resume, .returnExit]
    let s := (machine {1}).run (init {1}) as
    s.returned = [(0, .osRequest), (1, .terminate)] ∧
      s.toggles = [.block, .unblock, .block, .unblock] ∧ s.Notified {1} := by
  intro as s
  have hr : (machine {1}).Reachable s := Machine.Reachable.run (.init rfl) (by decide +kernel)
  exact ⟨by decide +kernel, by decide +kernel, exit_notification hr⟩

end ExitState

end Bio
