import Bio.ServiceStart
import Bio.SchedulerPass

/-!
# Starting a service under all interleavings

* `Sched.Ahead`: one coroutine is in front of another one in the ready lists, which is not resumed before
  it.
* `StartState.Inv`: the call of `bio__service_start` waits until its service has entered the entrypoint.
  From then on it is ready, and in front of the service.

Result: `handshake_iff`.
-/

namespace Bio

/-! ## Who is resumed first -/

namespace Sched

variable {s s' : Sched} {a : Action} {p k c : Handle}

/-- `p` is ready, and nothing in front of it in the ready lists is `k`. -/
def Ahead (s : Sched) (p k : Handle) : Prop := ∃ l r, s.readyQueue = l ++ p :: r ∧ k ∉ l

theorem Ahead.mem (h : s.Ahead p k) : p ∈ s.readyQueue := by
  obtain ⟨l, r, hq, _⟩ := h
  simp [hq]

/-- The step lemma: `k` is not resumed before `p`. -/
theorem Ahead.effect (h : s.Ahead p k) (hne : p ≠ k) (he : Effect s a s') (hidle : s.Idle) :
    s'.phase = .running p ∨ (s'.Ahead p k ∧ (a = .resume → s'.phase ≠ .running k)) := by
  obtain ⟨l, r, hq, hk⟩ := h
  rcases he.readyQueue hidle with ⟨l', hq'⟩ | ⟨c, rfl, hq', hp⟩
  · refine .inr ⟨⟨l, r ++ l', by rw [hq', hq]; simp, hk⟩, fun ha => ?_⟩
    subst ha
    cases he with
    | @resume c hpass hc =>
      -- A resumption takes one coroutine, so the list would have to grow and to shrink.
      have hlength := congrArg List.length (readyQueue_resume hc)
      have hlength' := congrArg List.length hq'
      simp [Sched.readyQueue, Sched.resume, modifyCoro] at hlength hlength'
      omega
  · cases l with
    | nil =>
      obtain ⟨rfl, _⟩ := List.cons.inj (hq'.symm.trans hq)
      exact .inl hp
    | cons d l =>
      obtain ⟨rfl, hrest⟩ := List.cons.inj (hq'.symm.trans hq)
      refine .inr ⟨⟨l, r, hrest, fun hmem => hk (List.mem_cons_of_mem _ hmem)⟩, fun _ hrun => ?_⟩
      exact hk (Phase.running.inj (hp.symm.trans hrun) ▸ List.mem_cons_self)

end Sched

namespace StartState

variable {q q' : StartState} {c k : Handle} {data : ServiceData} {e : ServiceCoro}

theorem load_eq_some : q.load e = some data ↔ q.starts e.parent = some data ∧ data.call = e.call := by
  simp [load, Option.filter_eq_some_iff]

/-- A read through the pointer depends on the calls of the coroutine that it points to. -/
theorem load_congr {e' : ServiceCoro} (hstarts : q'.starts e.parent = q.starts e.parent)
    (hparent : e'.parent = e.parent) (hcall : e'.call = e.call) : q'.load e' = q.load e := by
  rw [load, load, hparent, hcall, hstarts]

/-! ## The invariant -/

/-- What holds of a call of `bio__service_start` that has not returned. -/
structure FrameOk (q : StartState) (c : Handle) (data : ServiceData) : Prop where
  waits : q.sched.Waits c data.readySignal
  sleeps : q.sched.Sleeps c data.readySignal True
  known : data.call < q.calls

/-- What holds of a coroutine of `bio_service_wrapper`. -/
structure ServiceOk (q : StartState) (k : Handle) (e : ServiceCoro) : Prop where
  known : e.call < q.calls
  other : e.parent ≠ k
  /-- in front of the entrypoint, the call waits -/
  waiting : e.entered = false → e.suspended = false ∧
    ∃ data, q.load e = some data ∧ q.sched.ownerOf data.readySignal = some e.parent
  /-- up to the first suspension, the call has not returned -/
  runs : e.entered = true → e.suspended = false →
    q.sched.phase = .running k ∧ (q.load e).isSome = true
  /-- the call returns before the service runs again -/
  ahead : e.entered = true → (q.load e).isSome = true →
    q.sched.phase = .running e.parent ∨ q.sched.Ahead e.parent k
  left : e.suspended = true → (q.load e).isSome = true → q.sched.phase ≠ .running k
  passed : ∀ data, q.load e = some data → data.info = e.passed

structure Inv (q : StartState) : Prop where
  sched : Sched.machine.Reachable q.sched
  frames : ∀ c data, q.starts c = some data → q.FrameOk c data
  services : ∀ k e, q.services k = some e → q.ServiceOk k e
  apart : ∀ k k' e e', q.services k = some e → q.services k' = some e' → e.call = e'.call → k = k'

/-- The service is found again after a suspension is noted. -/
theorem note_cases {old new : StartState} {e' : ServiceCoro}
    (h : (noteSuspension old new).services k = some e') :
    ∃ e, new.services k = some e ∧ ((e' = e ∧
        (old.sched.phase = .running k → new.sched.phase = .running k)) ∨
      (e' = { e with suspended := true } ∧ old.sched.phase = .running k ∧
        new.sched.phase ≠ .running k)) := by
  unfold noteSuspension at h
  split at h
  · next c hc =>
    have hp := Phase.eq_running hc
    split at h
    · next hsame =>
      refine ⟨e', h, .inl ⟨rfl, fun hk => ?_⟩⟩
      rw [Phase.running.inj (hk.symm.trans hp)]
      exact hsame
    · next hleft =>
      have h' : Function.update new.services c
          ((new.services c).map fun e => { e with suspended := true }) k = some e' := h
      rw [Function.update_apply] at h'
      split at h'
      · next heq =>
        subst heq
        obtain ⟨e, he, rfl⟩ := Option.map_eq_some_iff.mp h'
        exact ⟨e, he, .inr ⟨rfl, hp, hleft⟩⟩
      · next hne =>
        refine ⟨e', h', .inl ⟨rfl, fun hk => ?_⟩⟩
        exact absurd (Phase.running.inj (hk.symm.trans hp)) hne
  · next hnone =>
    refine ⟨e', h, .inl ⟨rfl, fun hk => ?_⟩⟩
    rw [hk] at hnone
    cases hnone

theorem note_frame (old new : StartState) : (noteSuspension old new).sched = new.sched ∧
    (noteSuspension old new).starts = new.starts ∧ (noteSuspension old new).calls = new.calls ∧
    (noteSuspension old new).infos = new.infos := by
  unfold noteSuspension
  split
  · split <;> exact ⟨rfl, rfl, rfl, rfl⟩
  · exact ⟨rfl, rfl, rfl, rfl⟩

/-- A step of the scheduler, for one service: it is the first part of every action. `hkeep` is about the
signal of a call that waits. -/
theorem ServiceOk.step (h : q.ServiceOk k e) {e' : ServiceCoro} (hcalls : q.calls ≤ q'.calls)
    (hload : ∀ e₁ : ServiceCoro, e₁.parent = e.parent → e₁.call = e.call → q'.load e₁ = q.load e)
    (hkeep : ∀ data, q.load e = some data → q.sched.ownerOf data.readySignal = some e.parent →
      q'.sched.ownerOf data.readySignal = some e.parent)
    (hahead : (q.load e).isSome = true →
      q.sched.phase = .running e.parent ∨ q.sched.Ahead e.parent k →
      q'.sched.phase = .running e.parent ∨ q'.sched.Ahead e.parent k)
    (hrun : e.suspended = true → (q.load e).isSome = true → q'.sched.phase ≠ .running k)
    (hnote : (e' = e ∧ (q.sched.phase = .running k → q'.sched.phase = .running k)) ∨
      (e' = { e with suspended := true } ∧ e.entered = true ∧ q'.sched.phase ≠ .running k)) :
    q'.ServiceOk k e' := by
  rcases hnote with ⟨rfl, hstays⟩ | ⟨rfl, hentered, hleft⟩
  · have hload' := hload e' rfl rfl
    refine ⟨h.known.trans_le hcalls, h.other, fun hnot => ?_, fun hent hsusp => ?_, fun hent => ?_,
      ?_, ?_⟩
    · obtain ⟨hsusp, data, hdata, hown⟩ := h.waiting hnot
      exact ⟨hsusp, data, hload'.trans hdata, hkeep data hdata hown⟩
    · obtain ⟨hp, hsome⟩ := h.runs hent hsusp
      exact ⟨hstays hp, hload' ▸ hsome⟩
    · rw [hload']
      exact fun hsome => hahead hsome (h.ahead hent hsome)
    · rw [hload']
      exact hrun
    · rw [hload']
      exact h.passed
  · have hload' := hload { e with suspended := true } rfl rfl
    refine ⟨h.known.trans_le hcalls, h.other, fun hnot => ?_, nofun, fun hent => ?_,
      fun _ _ => hleft, ?_⟩
    · exact absurd (hentered.symm.trans hnot) nofun
    · rw [hload']
      exact fun hsome => hahead hsome (h.ahead hent hsome)
    · rw [hload']
      exact h.passed

/-! ## The rest of the program -/

/-- A coroutine that runs, and for which the library is not busy, is in no call. -/
theorem idle_of_busy (h : q.busy = false) (hp : q.sched.phase = .running c) :
    q.starts c = none ∧ ∀ e, q.services c = some e → e.entered = true := by
  simp only [busy, hp, Phase.mcoRunning, Option.any_some, Bool.or_eq_false_iff] at h
  refine ⟨by simpa using h.1, fun e he => ?_⟩
  have hentered := h.2
  rw [he] at hentered
  simpa using hentered

theorem FrameOk.effect (h : q.FrameOk c data) (hr : Sched.machine.Reachable q.sched) {a : Action}
    (he : Sched.machine.enabled q.sched a) (hidle : q.sched.phase ≠ .running c)
    (hnames : a.names data.readySignal = true → q.sched.ownerOf data.readySignal ≠ some c)
    (hsched : q'.sched = Sched.machine.perform q.sched a) (hcalls : q.calls ≤ q'.calls) :
    q'.FrameOk c data ∧
      (q'.sched.ownerOf data.readySignal = some c ↔ q.sched.ownerOf data.readySignal = some c) := by
  obtain ⟨hwaits, howner⟩ := h.waits.step hr he hidle hnames
  have hsleeps := h.sleeps.effect (Sched.Effect.of_step he) (Sched.inv_of_reachable hr).1
    h.waits.inside.within hidle
  rw [← hsched] at hwaits howner hsleeps
  exact ⟨⟨hwaits, hsleeps, h.known.trans_le hcalls⟩, howner⟩

/-- After an action of the scheduler that is not inside `bio__service_start`. -/
theorem Inv.schedStep (hi : q.Inv) {a : Action} (he : Sched.machine.enabled q.sched a)
    (hidle : ∀ c data, q.starts c = some data → q.sched.phase ≠ .running c)
    (hnames : ∀ c data, q.starts c = some data → a.names data.readySignal = true →
      q.sched.ownerOf data.readySignal ≠ some c)
    (hsched : q'.sched = Sched.machine.perform q.sched a) (hstarts : q'.starts = q.starts)
    (hcalls : q'.calls = q.calls)
    (hnote : ∀ k e', q'.services k = some e' → ∃ e, q.services k = some e ∧
      ((e' = e ∧ (q.sched.phase = .running k → q'.sched.phase = .running k)) ∨
        (e' = { e with suspended := true } ∧ e.entered = true ∧ q'.sched.phase ≠ .running k))) :
    q'.Inv := by
  have heff : Sched.Effect q.sched a q'.sched := hsched ▸ Sched.Effect.of_step he
  have hloop := (Sched.inv_of_reachable hi.sched).2
  have hframe : ∀ c data, q.starts c = some data → q'.FrameOk c data ∧
      (q'.sched.ownerOf data.readySignal = some c ↔ q.sched.ownerOf data.readySignal = some c) :=
    fun c data hc => (hi.frames c data hc).effect hi.sched he (hidle c data hc) (hnames c data hc)
      hsched hcalls.ge
  refine ⟨hsched ▸ hi.sched.step he, fun c data hc => (hframe c data (hstarts ▸ hc)).1,
    fun k e' hk => ?_, fun k k' e e' hk hk' heq => ?_⟩
  · obtain ⟨e, hold, hnote⟩ := hnote k e' hk
    have hok := hi.services k e hold
    have hparent : (q.load e).isSome = true → q.sched.phase ≠ .running e.parent := by
      intro hsome
      obtain ⟨data, hdata⟩ := Option.isSome_iff_exists.mp hsome
      exact hidle _ data (load_eq_some.mp hdata).1
    refine hok.step hcalls.ge (fun e₁ hp hc => load_congr (by rw [hstarts]) hp hc)
      (fun data hdata hown => ?_) (fun hsome hor => ?_) (fun hsusp hsome hrun => ?_) hnote
    · exact (hframe _ data (load_eq_some.mp hdata).1).2.mpr hown
    · have hahead := hor.resolve_left (hparent hsome)
      exact (hahead.effect hok.other heff hloop).imp_right And.left
    · -- The service that left is behind the call, so the loop does not resume it.
      have hentered : e.entered = true := by
        by_contra hnot
        exact absurd (hsusp.symm.trans (hok.waiting (by simpa using hnot)).1) nofun
      have hahead := (hok.ahead hentered hsome).resolve_left (hparent hsome)
      rcases heff.running hrun with hp | ha
      · exact hok.left hsusp hsome hp
      · rcases hahead.effect hok.other heff hloop with hp | ⟨_, hnot⟩
        · exact hok.other (Phase.running.inj (hp.symm.trans hrun))
        · exact hnot ha hrun
  · obtain ⟨e₁, h₁, hn₁⟩ := hnote k e hk
    obtain ⟨e₂, h₂, hn₂⟩ := hnote k' e' hk'
    have hc₁ : e.call = e₁.call := by rcases hn₁ with ⟨rfl, _⟩ | ⟨rfl, _⟩ <;> rfl
    have hc₂ : e'.call = e₂.call := by rcases hn₂ with ⟨rfl, _⟩ | ⟨rfl, _⟩ <;> rfl
    exact hi.apart k k' e₁ e₂ h₁ h₂ (by rw [← hc₁, ← hc₂, heq])

theorem Inv.schedAction (hi : q.Inv) {a : Action} (he : machine.enabled q (.sched a)) :
    (machine.perform q (.sched a)).Inv := by
  obtain ⟨hen, hbusy, hlocal⟩ := he
  obtain ⟨hsched, hstarts, hcalls, _⟩ := note_frame q { q with sched := q.sched.perform a }
  refine hi.schedStep hen (fun c data hc hp => ?_) (fun c data hc hn hown => ?_) hsched hstarts hcalls
    fun k e' hk => ?_
  · rw [(idle_of_busy hbusy hp).1] at hc
    cases hc
  · have hnot := hlocal data.readySignal (Action.mem_signals.mpr hn)
    simp [isLocal, hown, hc] at hnot
  · obtain ⟨e, hold, hnote⟩ := note_cases hk
    refine ⟨e, hold, ?_⟩
    rcases hnote with ⟨rfl, hstays⟩ | ⟨rfl, hp, hleft⟩
    · exact .inl ⟨rfl, fun hp => (congrArg Sched.phase hsched).trans (hstays hp)⟩
    · exact .inr ⟨rfl, (idle_of_busy hbusy hp).2 e hold,
        fun hp' => hleft ((congrArg Sched.phase hsched).symm.trans hp')⟩

/-! ## Starting -/

/-- A new call, in its wait, and its new service. -/
theorem Inv.push (hi : q.Inv) {coro mailbox signal : Handle} {args : List (BitVec 8)}
    (hc : q.starts c = none) (hne : c ≠ coro) (hwaits : q.sched.Waits c signal)
    (hsleeps : q.sched.Sleeps c signal True) (hown : q.sched.ownerOf signal = some c)
    (hsched : q'.sched = q.sched)
    (hstarts : q'.starts = Function.update q.starts c (some ⟨q.calls, mailbox, signal, args⟩))
    (hcalls : q'.calls = q.calls + 1)
    (hservices : ∀ k e, q'.services k = some e →
      (k = coro ∧ e = ⟨c, q.calls, false, false, ⟨mailbox, args⟩⟩) ∨ q.services k = some e) :
    q'.Inv := by
  -- The pointers of the services before this call are to earlier calls.
  have hload : ∀ {k e}, q.services k = some e → q'.load e = q.load e := by
    intro k e he
    by_cases hp : e.parent = c
    · have hlater : (⟨q.calls, mailbox, signal, args⟩ : ServiceData).call ≠ e.call :=
        (hi.services k e he).known.ne'
      rw [load, load, hp, hc, hstarts, Function.update_self]
      simpa [Option.filter] using hlater
    · rw [load, load, hstarts, Function.update_of_ne hp]
  have hlt : q.calls < q'.calls := hcalls ▸ Nat.lt_succ_self _
  refine ⟨hsched ▸ hi.sched, fun d data hd => ?_, fun k e hk => ?_, fun k k' e e' hk hk' heq => ?_⟩
  · rw [hstarts, Function.update_apply] at hd
    split at hd
    · next hdc =>
      obtain rfl := Option.some.inj hd
      exact ⟨by rw [hdc, hsched]; exact hwaits, by rw [hdc, hsched]; exact hsleeps, hlt⟩
    · obtain ⟨hw, hs, hk⟩ := hi.frames d data hd
      exact ⟨by rw [hsched]; exact hw, by rw [hsched]; exact hs, hk.trans hlt⟩
  · rcases hservices k e hk with ⟨rfl, rfl⟩ | hold
    · have hnew : q'.load ⟨c, q.calls, false, false, ⟨mailbox, args⟩⟩ =
          some ⟨q.calls, mailbox, signal, args⟩ := load_eq_some.mpr ⟨by simp [hstarts], rfl⟩
      refine ⟨hlt, hne, fun _ => ⟨rfl, _, hnew, by rw [hsched]; exact hown⟩, nofun, nofun, nofun,
        fun data hdata => ?_⟩
      obtain rfl := Option.some.inj (hnew.symm.trans hdata)
      rfl
    · obtain ⟨hknown, hother, hwaiting, hruns, hahead, hleft, hpassed⟩ := hi.services k e hold
      have hsame := hload hold
      rw [← hsame, ← hsched] at hwaiting hruns hahead hleft
      rw [← hsame] at hpassed
      exact ⟨hknown.trans hlt, hother, hwaiting, hruns, hahead, hleft, hpassed⟩
  · rcases hservices k e hk with ⟨rfl, rfl⟩ | hold <;>
      rcases hservices k' e' hk' with ⟨rfl, rfl⟩ | hold'
    · rfl
    · exact absurd heq.symm (hi.services k' e' hold').known.ne
    · exact absurd heq (hi.services k e hold).known.ne
    · exact hi.apart k k' e e' hold hold' heq

/-- An action of the scheduler in the coroutine `c`, which goes on running. -/
theorem Inv.ownStep (hi : q.Inv) (hp : q.sched.phase = .running c) (hc : q.starts c = none)
    {a : Action} {t : Sched} (he : Sched.machine.enabled q.sched a)
    (ht : Sched.machine.perform q.sched a = t) (hphase : t.phase = .running c)
    (hnames : ∀ h, a.names h = false) : Inv { q with sched := t } := by
  refine hi.schedStep he (fun d data hd hd' => ?_) (fun d data _ hn => ?_) ht.symm rfl rfl
    fun k e hk => ⟨e, hk, .inl ⟨rfl, fun hk => ?_⟩⟩
  · obtain rfl := Phase.running.inj (hp.symm.trans hd')
    rw [hc] at hd
    cases hd
  · rw [hnames] at hn
    cases hn
  · exact hphase.trans (hp.symm.trans hk)

/-- `bio__service_start` in front of its wait. -/
theorem Inv.prologue (hi : q.Inv) (hp : q.sched.phase = .running c) (hc : q.starts c = none)
    (daemon : Bool) {mailbox signal coro : Handle} (hmailbox : q.sched.Fresh mailbox)
    (hsignal : q.sched.Fresh signal) (hcoro : q.sched.Fresh coro)
    (hnodup : [mailbox, signal, coro].Nodup) (hcount : q.sched.CanCount c) {s : Sched}
    (hs : ((q.sched.perform (.issue mailbox)).makeSignal c signal).spawnEx daemon coro = s) :
    Inv { q with sched := s } ∧ s.phase = .running c ∧ s.Held c signal ∧ s.CanCount c ∧
      s.ownerOf signal = some c ∧ c ≠ coro := by
  simp only [List.nodup_cons, List.mem_cons, List.not_mem_nil, or_false, not_or] at hnodup
  obtain ⟨⟨hms, hmc⟩, hsc, _⟩ := hnodup
  have hissue : Sched.machine.enabled q.sched (.issue mailbox) := ⟨by rw [hp]; rfl, hmailbox⟩
  -- The mailbox.
  obtain ⟨s₁, hs₁⟩ : ∃ s, q.sched.perform (.issue mailbox) = s := ⟨_, rfl⟩
  have hissued₁ : s₁.issued = mailbox :: q.sched.issued := by rw [← hs₁]; rfl
  have hp₁ : s₁.phase = .running c := by rw [← hs₁]; exact hp
  have h₁ := hi.ownStep hp hc hissue hs₁ hp₁ fun _ => rfl
  have hfresh₁ : ∀ h, q.sched.Fresh h → mailbox ≠ h → s₁.Fresh h := fun h hh hne =>
    ⟨hh.1, by rw [hissued₁]; exact fun hmem => (List.mem_cons.mp hmem).elim (hne ·.symm) hh.2⟩
  have hlive₁ := (Sched.Inside.of_running h₁.sched hp₁).live
  -- The signal.
  have hmake : Sched.machine.enabled s₁ (.makeSignal signal) :=
    ⟨by rw [hp₁]; rfl, hfresh₁ signal hsignal hms⟩
  have hp₂ : (s₁.makeSignal c signal).phase = .running c := (Sched.makeSignal_phase ..).trans hp₁
  have h₂ := h₁.ownStep hp₁ hc hmake (Sched.perform_makeSignal hp₁ signal) hp₂ fun _ => rfl
  have hheld := Sched.Held.of_makeSignal h₁.sched hp₁ (hfresh₁ signal hsignal hms)
  have hcount₂ : (s₁.makeSignal c signal).CanCount c :=
    Sched.CanCount.makeSignal (by rw [← hs₁]; exact hcount) signal
  -- The service.
  have hspawn : Sched.machine.enabled (s₁.makeSignal c signal) (.spawn daemon coro) :=
    ⟨by rw [hp₂]; rfl, Sched.makeSignal_fresh hlive₁ (hfresh₁ coro hcoro hmc) (Ne.symm hsc)⟩
  have hne : c ≠ coro := by
    rintro rfl
    exact hcoro.2 (Sched.Inside.of_running hi.sched hp).within.issued
  rw [hs₁] at hs
  subst hs
  refine ⟨h₂.ownStep hp₂ hc hspawn rfl hp₂ fun _ => rfl, hp₂, hheld.step h₂.sched hspawn nofun,
    fun impl himpl => hcount₂ impl ?_, Sched.makeSignal_owner hlive₁, hne⟩
  simpa [Sched.spawnEx, Function.update_of_ne hne] using himpl

/-- What is noted when `c` waits. -/
theorem note_left {old new : StartState} (hp : old.sched.phase = .running c)
    (hleft : new.sched.phase ≠ .running c) : noteSuspension old new =
      new.setService c ((new.services c).map fun e => { e with suspended := true }) := by
  rw [noteSuspension, hp]
  exact if_neg hleft

theorem Inv.serviceStart (hi : q.Inv) (hp : q.sched.phase = .running c) (hbusy : q.busy = false)
    (daemon : Bool) {mailbox signal coro : Handle} (args : List (BitVec 8))
    (hmailbox : q.sched.Fresh mailbox) (hsignal : q.sched.Fresh signal) (hcoro : q.sched.Fresh coro)
    (hnodup : [mailbox, signal, coro].Nodup) (hcount : q.sched.CanCount c) :
    (noteSuspension q (q.serviceStart c daemon mailbox signal coro args)).Inv := by
  obtain ⟨hc, hentered⟩ := idle_of_busy hbusy hp
  obtain ⟨s, hs⟩ : ∃ s, ((q.sched.perform (.issue mailbox)).makeSignal c signal).spawnEx daemon coro =
    s := ⟨_, rfl⟩
  obtain ⟨hpre, hps, hheld, hcounts, hown, hne⟩ :=
    hi.prologue hp hc daemon hmailbox hsignal hcoro hnodup hcount hs
  -- The wait suspends, since nobody else can raise the signal.
  have hwait := Sched.wait_enabled hps [signal] true
  have hperform := Sched.perform_wait hps [signal] true
  have hwaits := hheld.wait hpre.sched hps hcounts
  obtain ⟨impl, himpl⟩ := Option.ne_none_iff_exists'.mp (Sched.Inside.of_running hpre.sched hps).live
  have hsleeps := Sched.sleeps_wait (Q := True)
    (Option.isSome_map.trans (Option.isSome_iff_exists.mpr ⟨impl, himpl⟩)) hown trivial
  rw [← Sched.ownerOf_waitForSignals s c [signal] true] at hown
  have hleft : (s.waitForSignals c [signal] true).phase ≠ .running c :=
    fun hrun => hwaits.closed (hpre.sched.step_eq hwait hperform) hrun hown
  -- The state with the wait, and then with the new call.
  let mid : StartState := { q with sched := s.waitForSignals c [signal] true }
  obtain ⟨hsched, hstarts, hcalls, _⟩ := note_frame q mid
  have hmid : (noteSuspension q mid).Inv := by
    refine hpre.schedStep hwait (fun d data hd hd' => ?_) (fun _ _ _ => nofun)
      (hsched.trans hperform.symm) hstarts hcalls fun k e' hk => ?_
    · obtain rfl := Phase.running.inj (hps.symm.trans hd')
      exact absurd (hc.symm.trans hd) nofun
    · obtain ⟨e, hold, hcases⟩ := note_cases hk
      refine ⟨e, hold, ?_⟩
      rcases hcases with ⟨rfl, hstays⟩ | ⟨rfl, hk', hleft'⟩
      · refine .inl ⟨rfl, fun hk' => ?_⟩
        obtain rfl := Phase.running.inj (hps.symm.trans hk')
        exact absurd (hstays hp) hleft
      · obtain rfl := Phase.running.inj (hp.symm.trans hk')
        exact .inr ⟨rfl, hentered e hold, by rw [hsched]; exact hleft'⟩
  have hstart : q.serviceStart c daemon mailbox signal coro args =
      { (q.setStart c (some ⟨q.calls, mailbox, signal, args⟩)).setService coro
          (some ⟨c, q.calls, false, false, ⟨mailbox, args⟩⟩) with
        sched := s.waitForSignals c [signal] true
        calls := q.calls + 1 } := by
    rw [← hs]
    rfl
  rw [hstart, note_left hp hleft]
  have hleft' : mid.sched.phase ≠ .running c := hleft
  rw [note_left hp hleft'] at hmid
  refine hmid.push hc hne hwaits hsleeps hown rfl rfl rfl fun k e hk => ?_
  by_cases hkc : k = coro
  · subst hkc
    exact .inl ⟨rfl, by simpa [setService, setStart, Function.update_of_ne hne.symm, eq_comm] using hk⟩
  · refine .inr ?_
    by_cases hkc' : k = c
    · subst hkc'
      simpa [mid, setService, setStart, Function.update_of_ne hkc] using hk
    · simpa [mid, setService, setStart, Function.update_of_ne hkc, Function.update_of_ne hkc'] using hk

/-! ## Entering the entrypoint -/

/-- A coroutine that is there, does not run and does not wait is in the ready lists. -/
theorem ready_of_not_waiting {s : Sched} (hr : Sched.machine.Reachable s) (hin : s.Inside c)
    (hp : s.phase.active ≠ some c) (hnot : s.coroState c ≠ .waiting) :
    s.coroState c = .ready ∧ c ∈ s.readyQueue := by
  have hi := (Sched.inv_of_reachable hr).1
  have hready : s.coroState c = .ready := by
    obtain ⟨coro, hcoro⟩ := Option.ne_none_iff_exists'.mp hin.live
    have hok := (hi.coro c coro hcoro).1
    have hrun : s.coroState c ≠ .running := mt (hi.view.active c).mp hp
    rw [Sched.coroState, hcoro] at hnot hrun ⊢
    cases hstate : coro.state <;> simp_all
  have hcount : s.readyQueue.count c = if s.coroState c = .ready then 1 else 0 := hi.view.queue c
  rw [if_pos hready] at hcount
  exact ⟨hready, List.count_pos_iff.mp (by rw [hcount]; exact Nat.one_pos)⟩

theorem Inv.serviceWrapper (hi : q.Inv) (hp : q.sched.phase = .running k)
    (hk : q.services k = some e) (hnot : e.entered = false) : (q.serviceWrapper k e).Inv := by
  have hok := hi.services k e hk
  obtain ⟨hsusp, data, hdata, hown⟩ := hok.waiting hnot
  obtain ⟨hstart, hcall⟩ := load_eq_some.mp hdata
  have hwrapper : q.serviceWrapper k e = { q.setService k (some { e with entered := true }) with
      sched := (q.sched.raiseSignal data.readySignal).1 } := by
    have hload : (q.setService k (some { e with entered := true })).load e = some data :=
      (load_congr rfl rfl rfl).trans hdata
    simp only [StartState.serviceWrapper, hload]
    rfl
  have hpass : q.sched.phase ≠ .pass := by simp [hp]
  have hen : Sched.machine.enabled q.sched (.raise data.readySignal) := hpass
  have heff : Sched.Effect q.sched (.raise data.readySignal)
      (q.sched.raiseSignal data.readySignal).1 := .raise hpass
  have hphase : (q.sched.raiseSignal data.readySignal).1.phase = .running k :=
    (Sched.raiseSignal_frame q.sched data.readySignal).2.1.trans hp
  have hr' : Sched.machine.Reachable (q.sched.raiseSignal data.readySignal).1 := hi.sched.step hen
  have hinv' := (Sched.inv_of_reachable hr').1
  have hframe : ∀ c data', q.starts c = some data' →
      (q.sched.raiseSignal data.readySignal).1.Waits c data'.readySignal ∧
      (q.sched.raiseSignal data.readySignal).1.Sleeps c data'.readySignal
        (True ∧ data.readySignal ≠ data'.readySignal) := fun c data' hc =>
    ⟨(hi.frames c data' hc).waits.raise hi.sched hpass data.readySignal,
      (hi.frames c data' hc).sleeps.raiseSignal data.readySignal⟩
  rw [hwrapper]
  refine ⟨hr', fun c data' hc => ?_, fun k' e' hk' => ?_, fun k₁ k₂ e₁ e₂ h₁ h₂ heq => ?_⟩
  · obtain ⟨hwaits, hsleeps⟩ := hframe c data' hc
    exact ⟨hwaits, hsleeps.mono And.left, (hi.frames c data' hc).known⟩
  · have hk'' : Function.update q.services k (some { e with entered := true }) k' = some e' := hk'
    rw [Function.update_apply] at hk''
    split at hk''
    · -- The service: the call is woken, and the service is not in the ready lists.
      next heq =>
      subst heq
      obtain rfl := Option.some.inj hk''
      have hdata' : q.load { e with entered := true } = some data :=
        (load_congr rfl rfl rfl).trans hdata
      obtain ⟨hwaits, hsleeps⟩ := hframe e.parent data hstart
      have hactive : (q.sched.raiseSignal data.readySignal).1.phase.active ≠ some e.parent := by
        rw [hphase]
        exact fun heq => hok.other (Option.some.inj heq).symm
      obtain ⟨_, hmem⟩ := ready_of_not_waiting hr' hwaits.inside hactive
        (hsleeps.not_waiting fun h => h.2 rfl)
      have hself : k' ∉ (q.sched.raiseSignal data.readySignal).1.readyQueue := by
        refine hinv'.view.not_ready_of_ne fun hready => ?_
        have hrun := (hinv'.view.active k').mpr (by rw [Sched.view, hphase]; rfl)
        exact absurd (hrun.symm.trans hready) (by decide)
      obtain ⟨l, r, hq⟩ := List.append_of_mem hmem
      refine ⟨hok.known, hok.other, by simp, fun _ _ => ⟨hphase, ?_⟩, fun _ _ => .inr ⟨l, r, hq, ?_⟩,
        fun hs => absurd (hs.symm.trans hsusp) (by simp), hok.passed⟩
      · exact Option.isSome_iff_exists.mpr ⟨data, hdata'⟩
      · rw [hq] at hself
        exact fun hl => hself (List.mem_append_left _ hl)
    · next hne =>
      have hok' := hi.services k' e' hk''
      refine hok'.step (Nat.le_refl _) (fun e₁ hp₁ hc₁ => load_congr rfl hp₁ hc₁)
        (fun data' hdata' hown' => ?_) (fun hsome hor => ?_) (fun hs hsome hrun => ?_) (.inl ⟨rfl, ?_⟩)
      · -- Another signal: a call has one service.
        have hsignal : data.readySignal ≠ data'.readySignal := by
          intro hsame
          rw [hsame, hown'] at hown
          obtain ⟨hstart', hcall'⟩ := load_eq_some.mp hdata'
          rw [Option.some.inj hown, hstart] at hstart'
          rw [← Option.some.inj hstart', hcall] at hcall'
          exact hne (hi.apart k' k e' e hk'' hk hcall'.symm)
        have hwaits := (hi.frames _ data' (load_eq_some.mp hdata').1).waits
        exact (hwaits.held.owner_iff hi.sched hen (hframe _ data' (load_eq_some.mp hdata').1).1.inside.live
          (by simp [Action.names, hsignal])).mpr hown'
      · rcases hor with hrun | hahead
        · exact .inl (hphase.trans (hp.symm.trans hrun))
        · exact (hahead.effect hok'.other heff (Sched.inv_of_reachable hi.sched).2).imp_right And.left
      · exact hok'.left hs hsome (hp.trans (hphase.symm.trans hrun))
      · exact fun hrun => hphase.trans (hp.symm.trans hrun)
  · have hold : ∀ {k₀ e₀}, Function.update q.services k (some { e with entered := true }) k₀ = some e₀ →
        ∃ e, q.services k₀ = some e ∧ e.call = e₀.call := by
      intro k₀ e₀ h₀
      rw [Function.update_apply] at h₀
      split at h₀
      · next heq => exact ⟨e, heq ▸ hk, by rw [← Option.some.inj h₀]⟩
      · exact ⟨e₀, h₀, rfl⟩
    obtain ⟨f₁, hf₁, hc₁⟩ := hold h₁
    obtain ⟨f₂, hf₂, hc₂⟩ := hold h₂
    exact hi.apart k₁ k₂ f₁ f₂ hf₁ hf₂ (by rw [hc₁, hc₂, heq])

/-! ## Returning -/

theorem Inv.returnStart (hi : q.Inv) (hp : q.sched.phase = .running c) : (q.setStart c none).Inv := by
  have hsame : ∀ {e : ServiceCoro}, e.parent ≠ c → (q.setStart c none).load e = q.load e :=
    fun hne => load_congr (Function.update_of_ne hne ..) rfl rfl
  have hgone : ∀ {e : ServiceCoro}, e.parent = c → (q.setStart c none).load e = none := by
    intro e heq
    simp [load, setStart, heq]
  refine ⟨hi.sched, fun d data hd => ?_, fun k e hk => ?_, hi.apart⟩
  · have hd' : Function.update q.starts c none d = some data := hd
    obtain ⟨hw, hs, hk⟩ := hi.frames d data (Table.erase_some hd').2
    exact ⟨hw, hs, hk⟩
  · obtain ⟨hknown, hother, hwaiting, hruns, hahead, hleft, hpassed⟩ := hi.services k e hk
    by_cases hparent : e.parent = c
    · have hnone := hgone hparent
      refine ⟨hknown, hother, fun hnot => ?_, fun hent hsusp => ?_, fun _ hsome => ?_,
        fun _ hsome => ?_, fun data hdata => ?_⟩
      · -- The call has not been woken, so it does not return.
        obtain ⟨_, data, hdata, hown⟩ := hwaiting hnot
        have hframe := hi.frames _ data (load_eq_some.mp hdata).1
        exact absurd hown (hframe.waits.closed hi.sched (hparent ▸ hp))
      · exact absurd (Phase.running.inj (hp.symm.trans (hruns hent hsusp).1)) (hparent ▸ hother)
      all_goals simp_all
    · have hload := hsame hparent
      rw [← hload] at hwaiting hruns hahead hleft hpassed
      exact ⟨hknown, hother, hwaiting, hruns, hahead, hleft, hpassed⟩

/-- The step lemma. -/
theorem Inv.perform {a : StartAction} (hi : q.Inv) (he : machine.enabled q a) :
    (machine.perform q a).Inv := by
  cases a with
  | sched a => exact hi.schedAction he
  | serviceStart daemon mailbox signal coro args =>
    obtain ⟨hbusy, hmailbox, hsignal, hcoro, hnodup, hcount⟩ := he
    obtain ⟨c, hp, hcount⟩ := Sched.running_of_any hcount
    have hstart := hi.serviceStart hp hbusy daemon args hmailbox hsignal hcoro hnodup hcount
    simpa only [machine, StartState.perform, inCoro, hp, Phase.mcoRunning] using hstart
  | serviceWrapper =>
    obtain ⟨k, hk, hany⟩ := (Option.any_eq_true _ _).mp he
    obtain ⟨e, hservice, hnot⟩ := (Option.any_eq_true _ _).mp hany
    have hwrapper := hi.serviceWrapper (Phase.eq_running hk) hservice (by simpa using hnot)
    simpa only [machine, StartState.perform, inService, hk, hservice] using hwrapper
  | serviceGetInfo =>
    dsimp only [machine, StartState.perform, inService]
    split
    · split
      · obtain ⟨hr, hframes, hservices, hapart⟩ := hi
        refine ⟨hr, fun c data hc => ?_, fun k e hk => ?_, hapart⟩
        · obtain ⟨hw, hs, hk⟩ := hframes c data hc
          exact ⟨hw, hs, hk⟩
        · obtain ⟨h₁, h₂, h₃, h₄, h₅, h₆, h₇⟩ := hservices k e hk
          exact ⟨h₁, h₂, h₃, h₄, h₅, h₆, h₇⟩
      · exact hi
    · exact hi
  | returnStart =>
    dsimp only [machine, StartState.perform, StartState.inCoro]
    split
    · next c hc => exact hi.returnStart (Phase.eq_running hc)
    · exact hi

theorem inv_of_reachable (hr : machine.Reachable q) : q.Inv := by
  refine Machine.invariant (fun t ht => ?_) (fun t a _ hinv he => hinv.perform he) hr
  obtain rfl : t = init := ht
  exact ⟨.init rfl, nofun, nofun, fun _ _ _ _ h => nomatch h⟩

/-! ## The result -/

/-- Every call of `bio__service_get_info` so far was made while the coroutine that called
`bio__service_start` was suspended in it, and read what that one passed. -/
def Handshaken (q : StartState) : Prop :=
  ∀ call ∈ q.infos, call.starterSuspended = true ∧ call.info = some call.passed

/-- A service that calls `bio__service_get_info` has run since its entrypoint was entered. -/
def Prompt (q : StartState) (a : StartAction) : Prop :=
  a = .serviceGetInfo → ∀ k e, q.sched.phase = .running k → q.services k = some e → e.suspended = false

/-- What a call of `bio__service_get_info` finds. -/
theorem Inv.starter (hi : q.Inv) (hp : q.sched.phase = .running k) (hk : q.services k = some e)
    (hentered : e.entered = true) :
    (e.suspended = false → q.starterSuspended e = true ∧
      (q.load e).map ServiceData.info = some e.passed) ∧
    (e.suspended = true → q.load e = none) := by
  have hok := hi.services k e hk
  refine ⟨fun hnot => ?_, fun hsusp => ?_⟩
  · obtain ⟨data, hdata⟩ := Option.isSome_iff_exists.mp (hok.runs hentered hnot).2
    have hahead := (hok.ahead hentered (hok.runs hentered hnot).2).resolve_left fun hrun =>
      hok.other (Phase.running.inj (hrun.symm.trans hp))
    have hcount : q.sched.readyQueue.count e.parent =
        if q.sched.coroState e.parent = .ready then 1 else 0 :=
      (Sched.inv_of_reachable hi.sched).1.view.queue e.parent
    have hpos := List.count_pos_iff.mpr hahead.mem
    have hready : q.sched.coroState e.parent = .ready := by
      by_contra hnot
      rw [hcount, if_neg hnot] at hpos
      exact absurd hpos (Nat.lt_irrefl 0)
    exact ⟨by simp [starterSuspended, hdata, hready], by rw [hdata, ← hok.passed data hdata]; rfl⟩
  · by_contra hsome
    exact hok.left hsusp (Option.isSome_iff_ne_none.mpr hsome) hp

/-- Only `bio__service_get_info` adds a call. -/
theorem perform_infos {a : StartAction} (ha : a ≠ .serviceGetInfo) :
    (machine.perform q a).infos = q.infos := by
  cases a with
  | sched a => exact (note_frame q _).2.2.2
  | serviceStart daemon mailbox signal coro args =>
    dsimp only [machine, StartState.perform, inCoro]
    split
    · exact (note_frame q _).2.2.2
    · rfl
  | serviceWrapper =>
    dsimp only [machine, StartState.perform, inService]
    split
    · split
      · dsimp only [StartState.serviceWrapper]
        split <;> rfl
      · rfl
    · rfl
  | serviceGetInfo => exact absurd rfl ha
  | returnStart =>
    dsimp only [machine, StartState.perform, inCoro]
    split <;> rfl

/-- A call of `bio__service_get_info`, and what it adds. -/
theorem getInfo_spec (he : machine.enabled q .serviceGetInfo) :
    ∃ k e, q.sched.phase = .running k ∧ q.services k = some e ∧ e.entered = true ∧
      (machine.perform q .serviceGetInfo).infos =
        q.infos ++ [⟨e.passed, (q.load e).map ServiceData.info, q.starterSuspended e⟩] := by
  obtain ⟨k, hk, hsome⟩ := (Option.any_eq_true _ _).mp he.2
  obtain ⟨e, hservice⟩ := Option.isSome_iff_exists.mp hsome
  refine ⟨k, e, Phase.eq_running hk, hservice,
    (idle_of_busy he.1 (Phase.eq_running hk)).2 e hservice, ?_⟩
  simp only [machine, StartState.perform, inService, hk, hservice]
  rfl

theorem handshaken_of_restrict (hr : (machine.restrict Prompt).Reachable q) : q.Handshaken := by
  refine Machine.invariant (fun t ht => ?_) (fun t a hrt ht he => ?_) hr
  · obtain rfl : t = init := ht
    exact nofun
  · by_cases ha : a = .serviceGetInfo
    · subst ha
      obtain ⟨k, e, hp, hk, hentered, hinfos⟩ := getInfo_spec he.1
      obtain ⟨hsusp, hinfo⟩ := ((inv_of_reachable hrt.of_restrict).starter hp hk hentered).1
        (he.2 rfl k e hp hk)
      intro call hcall
      rcases List.mem_append.mp (hinfos ▸ hcall) with hold | hnew
      · exact ht call hold
      · obtain rfl := List.mem_singleton.mp hnew
        exact ⟨hsusp, hinfo⟩
    · have hsame : (machine.perform t a).infos = t.infos := perform_infos ha
      intro call hcall
      exact ht call (hsame ▸ hcall)

theorem prompt_of_handshaken {a : StartAction} (hr : machine.Reachable q)
    (he : machine.enabled q a) (h : (machine.perform q a).Handshaken) : q.Prompt a := by
  rintro rfl k e hp hk
  obtain ⟨k', e', hp', hk', hentered, hinfos⟩ := getInfo_spec he
  obtain rfl := Phase.running.inj (hp.symm.trans hp')
  obtain rfl := Option.some.inj (hk.symm.trans hk')
  by_contra hsusp
  have hgone := ((inv_of_reachable hr).starter hp hk hentered).2 (by simpa using hsusp)
  have hlast := h ⟨e.passed, (q.load e).map ServiceData.info, q.starterSuspended e⟩
    (hinfos ▸ List.mem_append_right _ (List.mem_singleton_self _))
  rw [hgone] at hlast
  exact absurd hlast.2 nofun

/-- In every call of `bio__service_get_info` the handshake holds exactly when no service calls it after a
suspension. -/
theorem handshake_iff {as : List StartAction} (hl : machine.Legal init as) :
    (∀ bs, bs <+: as → (machine.run init bs).Handshaken) ↔ (machine.restrict Prompt).Legal init as :=
  Machine.always_iff (fun _ => handshaken_of_restrict)
    (fun _ _ hr he => prompt_of_handshaken hr he) rfl hl

instance (q : StartState) : Decidable q.Handshaken :=
  inferInstanceAs (Decidable (∀ call ∈ q.infos, _ ∧ _))

instance (q : StartState) (a : StartAction) : Decidable (q.Prompt a) :=
  decidable_of_iff (a = .serviceGetInfo → q.sched.phase.mcoRunning.all (fun k =>
      (q.services k).all fun e => !e.suspended) = true) <| by
    refine imp_congr_right fun _ => ⟨fun h k e hp hk => ?_, fun h => ?_⟩
    · simpa [hp, hk, Phase.mcoRunning] using h
    · refine Option.all_eq_true _ _ |>.mpr fun k hk => Option.all_eq_true _ _ |>.mpr fun e he => ?_
      simpa using h k e (Phase.eq_running hk) he

instance (q : StartState) (a : StartAction) : Decidable ((machine.restrict Prompt).enabled q a) :=
  inferInstanceAs (Decidable (machine.enabled q a ∧ q.Prompt a))

/-- A coroutine that starts a service, with the argument `7`. -/
def startOne : List StartAction :=
  [.sched (.spawn false ⟨1, 1⟩), .sched .enterLoop, .sched .endPass, .sched .swap, .sched .resume,
    .serviceStart false ⟨2, 1⟩ ⟨3, 1⟩ ⟨4, 1⟩ [7#8], .sched .endPass, .sched .swap, .sched .resume,
    .serviceWrapper]

/-- The service gets its arguments, and yields. -/
theorem handshake_iff_prompt :
    let as := startOne ++ [.serviceGetInfo, .sched .yield]
    machine.Legal init as ∧ (machine.run init as).infos = [⟨⟨⟨2, 1⟩, [7#8]⟩, some ⟨⟨2, 1⟩, [7#8]⟩, true⟩] ∧
      ∀ bs, bs <+: as → (machine.run init bs).Handshaken := by
  intro as
  have hl : machine.Legal init as := by decide +kernel
  have hprompt : (machine.restrict Prompt).Legal init as := by decide +kernel
  exact ⟨hl, by decide +kernel, (handshake_iff hl).mpr hprompt⟩

/-- The service yields, and then asks for its arguments: the call of `bio__service_start` has returned. -/
theorem handshake_broken :
    let as := startOne ++ [.sched .yield, .sched .endPass, .sched .swap, .sched .resume, .returnStart,
      .sched .yield, .sched .resume, .serviceGetInfo]
    machine.Legal init as ∧ (machine.run init as).infos = [⟨⟨⟨2, 1⟩, [7#8]⟩, none, false⟩] ∧
      ¬∀ bs, bs <+: as → (machine.run init bs).Handshaken := by
  intro as
  have hnot : ¬(machine.run init as).Handshaken := by decide +kernel
  exact ⟨by decide +kernel, by decide +kernel, fun h => hnot (h as (List.prefix_refl as))⟩

end StartState

end Bio
