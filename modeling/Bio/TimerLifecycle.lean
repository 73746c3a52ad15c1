import Bio.TimerInvariant

/-!
# The life of a timer

What every run does with one timer, read off its events.

* `TimerState.LifeOk`: the state of a timer and its events agree. Nothing happens to a timer after it
  was freed, and no call of its function starts after it was cancelled.
* `TimerState.OnTime`: the due time is not before the deadline of the last reset. This needs that no
  interval timer is reset inside its own function after time has passed there.

Results: `timer_lifecycle`, `invoked_after_deadline`.
-/

namespace Bio

/-- A call of the function of a timer starts. -/
def TimerEvent.isInvocation : TimerEvent → Bool
  | .invoked _ _ => true
  | _ => false

namespace TimerState

variable {s : TimerState} {a : TimerAction} {h : Handle} {t t' : Timer} {clock : Int}
  {events new : List TimerEvent}

/-! ## Cancelling and releasing -/

/-- A later event `b` may follow the event `a` of the timer `h`. -/
def MayFollow (h : Handle) (a b : TimerEvent) : Prop :=
  a ≠ .freed h ∧ (a = .cancelled h → b.isInvocation = false)

/-- The events of the timer `h` agree with its state. -/
structure LifeOk (h : Handle) (events : List TimerEvent) (t : Timer) : Prop where
  order : events.Pairwise (MayFollow h)
  resolves : t.resolves = true ↔ .cancelled h ∉ events ∧ t.pc ≠ .left
  flag : ∀ impl ∈ t.impl, impl.cancelled = true ↔ .cancelled h ∈ events
  freed : t.pc = .left → events.count (.freed h) = 1
  kept : t.pc ≠ .left → .freed h ∉ events
  live : t.impl = none ↔ t.pc = .left
  oneshot : ∀ clock timeoutMs, .created h .oneshot clock timeoutMs ∈ events →
    (∀ impl ∈ t.impl, impl.type = .oneshot) ∧ events.countP TimerEvent.isInvocation ≤ 1 ∧
    (t.pc = .head ∨ t.pc = .waiting → events.countP TimerEvent.isInvocation = 0)

theorem LifeOk.born (clock : Int) (h : Handle) (type : TimerType) (timeoutMs : Int) (coro : Handle) :
    LifeOk h [.created h type clock timeoutMs] (newTimer clock type timeoutMs coro) := by
  refine ⟨List.pairwise_singleton _ _, ?_, ?_, nofun, ?_, ?_, ?_⟩
  · simp [newTimer]
  · simp [newTimer]
  · simp
  · simp [newTimer]
  · simp +contextual [newTimer, TimerEvent.isInvocation]

/-- As long as the coroutine is in its loop, an event may follow, unless it is a call after a
cancel. -/
theorem LifeOk.order_append (hok : LifeOk h events t) (hpc : t.pc ≠ .left) {e : TimerEvent}
    (hcancel : .cancelled h ∈ events → e.isInvocation = false) :
    (events ++ [e]).Pairwise (MayFollow h) := by
  refine List.pairwise_append.mpr ⟨hok.order, List.pairwise_singleton _ e, fun a ha b hb => ?_⟩
  obtain rfl := List.mem_singleton.mp hb
  constructor
  · rintro rfl
    exact hok.kept hpc ha
  · rintro rfl
    exact hcancel ha

/-- Events that say nothing about the life of a timer. -/
def Quiet : TimerEvent → Prop
  | .reset _ _ _ | .slept _ => True
  | _ => False

/-- A step inside the loop that neither calls the function nor cancels. -/
theorem LifeOk.quiet (hok : LifeOk h events t) (hpc : t.pc ≠ .left) (hpc' : t'.pc ≠ .left)
    (hnew : new = [] ∨ ∃ e, new = [e] ∧ Quiet e) (hres : t'.resolves = t.resolves)
    {f : TimerImpl → TimerImpl} (himpl : t'.impl = t.impl.map f)
    (hf : ∀ impl, (f impl).type = impl.type ∧ (f impl).cancelled = impl.cancelled)
    (hshot : (∀ impl ∈ t.impl, impl.type = .oneshot) → t'.pc = .head ∨ t'.pc = .waiting →
      t.pc = .head ∨ t.pc = .waiting) : LifeOk h (events ++ new) t' := by
  have hcancelled : .cancelled h ∈ events ++ new ↔ .cancelled h ∈ events := by
    rcases hnew with rfl | ⟨e, rfl, he⟩
    · simp
    · cases e <;> simp_all [Quiet]
  have hcount : (events ++ new).countP TimerEvent.isInvocation =
      events.countP TimerEvent.isInvocation := by
    rcases hnew with rfl | ⟨e, rfl, he⟩
    · simp
    · cases e <;> simp_all [Quiet, TimerEvent.isInvocation]
  have hmem : ∀ e, ¬Quiet e → e ∈ events ++ new → e ∈ events := by
    intro e he hmem
    rcases hnew with rfl | ⟨e', rfl, he'⟩
    · simpa using hmem
    · rcases List.mem_append.mp hmem with hmem | hmem
      · exact hmem
      · rw [List.mem_singleton.mp hmem] at he
        exact absurd he' he
  refine ⟨?_, ?_, fun impl hi => ?_, fun hleft => absurd hleft hpc', fun _ hfreed => ?_, ?_, ?_⟩
  · rcases hnew with rfl | ⟨e, rfl, he⟩
    · simpa using hok.order
    · exact hok.order_append hpc fun _ => by cases e <;> simp_all [Quiet, TimerEvent.isInvocation]
  · rw [hres, hok.resolves, hcancelled]
    simp [hpc, hpc']
  · rw [himpl] at hi
    obtain ⟨old, hold, rfl⟩ := Option.map_eq_some_iff.mp hi
    rw [(hf old).2, hcancelled]
    exact hok.flag old hold
  · exact hok.kept hpc (hmem _ (by simp [Quiet]) hfreed)
  · rw [himpl, Option.map_eq_none_iff, hok.live]
    simp [hpc, hpc']
  · intro clock timeoutMs hcreated
    obtain ⟨htype, hle, hzero⟩ := hok.oneshot clock timeoutMs (hmem _ (by simp [Quiet]) hcreated)
    rw [hcount]
    refine ⟨fun impl hi => ?_, hle, fun hp => hzero (hshot htype hp)⟩
    rw [himpl] at hi
    obtain ⟨old, hold, rfl⟩ := Option.map_eq_some_iff.mp hi
    rw [(hf old).1]
    exact htype old hold

theorem LifeOk.cancel (hok : LifeOk h events t) (hres : t.resolves = true) :
    LifeOk h (events ++ [.cancelled h])
      { Timer.modify t fun impl => { impl with cancelled := true } with resolves := false } := by
  obtain ⟨_, hpc⟩ := hok.resolves.mp hres
  refine ⟨hok.order_append hpc fun _ => rfl, by simp, ?_, fun hleft => absurd hleft hpc, ?_, ?_, ?_⟩
  · intro impl himpl
    obtain ⟨old, hold, rfl⟩ := Option.map_eq_some_iff.mp himpl
    simp
  · simpa [Timer.modify] using hok.kept
  · simpa [Timer.modify] using hok.live
  · intro clock timeoutMs hmem
    obtain ⟨htype, hcount, hnone⟩ := hok.oneshot clock timeoutMs (by simpa using hmem)
    refine ⟨fun impl himpl => ?_, by simpa [TimerEvent.isInvocation] using hcount,
      by simpa [TimerEvent.isInvocation, Timer.modify] using hnone⟩
    obtain ⟨old, hold, rfl⟩ := Option.map_eq_some_iff.mp himpl
    exact htype old hold

/-- The function is called: the timer was not cancelled, and a oneshot timer was not called before. -/
theorem LifeOk.invoke (hok : LifeOk h events t) (hpc : t.pc = .waiting) {impl : TimerImpl}
    (himpl : t.impl = some impl) (hcancelled : impl.cancelled = false) (clock : Int) :
    LifeOk h (events ++ [.invoked h clock]) { t with pc := .calling clock } := by
  have hleft : t.pc ≠ .left := by rw [hpc]; nofun
  have hnot : .cancelled h ∉ events := by
    rw [← hok.flag impl himpl, hcancelled]
    nofun
  refine ⟨hok.order_append hleft fun hc => absurd hc hnot, ?_, ?_, nofun, ?_, ?_, ?_⟩
  · simp [hok.resolves, hleft]
  · simpa using hok.flag
  · simpa using hok.kept hleft
  · simp [himpl]
  · intro created timeoutMs hmem
    obtain ⟨htype, _, hzero⟩ := hok.oneshot created timeoutMs (by simpa using hmem)
    refine ⟨htype, ?_, by simp⟩
    simp [List.countP_append, hzero (.inr hpc), TimerEvent.isInvocation]

/-- The coroutine leaves its loop. -/
theorem LifeOk.leave (hok : LifeOk h events t) (hpc : t.pc ≠ .left) :
    LifeOk h (events ++ [.freed h]) { t with impl := none, resolves := false, pc := .left } := by
  refine ⟨hok.order_append hpc fun _ => rfl, by simp, nofun, fun _ => ?_, by simp, by simp, ?_⟩
  · simp [List.count_append, List.count_eq_zero.mpr (hok.kept hpc)]
  · intro clock timeoutMs hmem
    obtain ⟨_, hcount, _⟩ := hok.oneshot clock timeoutMs (by simpa using hmem)
    exact ⟨nofun, by simpa [TimerEvent.isInvocation] using hcount, by simp⟩

theorem LifeOk.step (hok : LifeOk h events t) (hs : TimerStep clock h a t new t') :
    LifeOk h (events ++ new) t' := by
  cases hs with
  | reset hres =>
    have hpc := (hok.resolves.mp hres).2
    exact hok.quiet hpc hpc (.inr ⟨_, rfl, trivial⟩) rfl rfl (fun _ => ⟨rfl, rfl⟩) fun _ hp => hp
  | cancel hres => exact hok.cancel hres
  | @arm _ impl signal hpc himpl =>
    refine hok.quiet (by rw [hpc]; nofun) nofun ?_ rfl
      (f := fun impl => { impl with wakeSignal := signal }) (by rw [himpl]; rfl)
      (fun _ => ⟨rfl, rfl⟩) fun _ _ => .inl hpc
    split
    · exact .inr ⟨_, rfl, trivial⟩
    · exact .inl rfl
  | invoke hpc himpl hcancelled _ => exact hok.invoke hpc himpl hcancelled clock
  | retry hpc himpl _ _ =>
    exact hok.quiet (by rw [hpc]; nofun) nofun (.inl rfl) rfl (f := id) (by simp)
      (fun _ => ⟨rfl, rfl⟩) fun _ _ => .inr hpc
  | leave himpl _ => exact hok.leave fun hleft => by simp [hok.live.mpr hleft] at himpl
  | @rearm _ impl now hpc himpl htype =>
    refine hok.quiet (by rw [hpc]; nofun) nofun (.inl rfl) rfl
      (f := fun impl => { impl with dueTimeMs := now + impl.timeoutMs }) (by rw [himpl]; rfl)
      (fun _ => ⟨rfl, rfl⟩) fun hshot _ => ?_
    -- Only an interval timer goes back to the head of the loop after its function.
    have htype' := hshot impl himpl
    rw [htype] at htype'
    cases htype'

theorem life_of_reachable (hr : machine.Reachable s) (ht : s.timers h = some t) :
    LifeOk h (s.eventsOf h) t :=
  timer_invariant (Q := fun _ _ => True) (P := fun _ h events t => LifeOk h events t)
    LifeOk.born (fun _ _ _ _ _ _ hok => hok) (fun _ _ _ _ _ _ _ _ _ hs hok => hok.step hs)
    (hr.restrict fun _ _ => trivial) h t ht

/-- A cancelled timer never fires and the handle of a timer never dangles. Of the events of a timer, in
order: no call of the function comes after a cancel that found the timer pending; a oneshot timer has
at most one call; the handle resolves as long as the timer is not cancelled and its coroutine is in the
loop; the memory is there exactly as long as the coroutine is in the loop, is freed once, and nothing
happens to the timer after that. -/
theorem timer_lifecycle (hr : machine.Reachable s) (ht : s.timers h = some t) :
    (s.eventsOf h).Pairwise (fun a b => a = .cancelled h → b.isInvocation = false) ∧
    (∀ clock timeoutMs, .created h .oneshot clock timeoutMs ∈ s.eventsOf h →
      (s.eventsOf h).countP TimerEvent.isInvocation ≤ 1) ∧
    (s.isTimerPending h = true ↔ .cancelled h ∉ s.eventsOf h ∧ t.pc ≠ .left) ∧
    (t.impl = none ↔ t.pc = .left) ∧ (s.isTimerPending h = true → t.impl ≠ none) ∧
    (s.eventsOf h).count (.freed h) = (if t.pc = .left then 1 else 0) ∧
    (s.eventsOf h).Pairwise fun a _ => a ≠ .freed h := by
  have hok := life_of_reachable hr ht
  have hpending : s.isTimerPending h = true ↔ .cancelled h ∉ s.eventsOf h ∧ t.pc ≠ .left := by
    rw [isTimerPending, ht]
    exact hok.resolves
  refine ⟨hok.order.imp fun hab => hab.2, fun clock timeoutMs hc => (hok.oneshot clock timeoutMs hc).2.1,
    hpending, hok.live, fun hp => mt hok.live.mp (hpending.mp hp).2, ?_, hok.order.imp fun hab => hab.1⟩
  split
  · next hpc => exact hok.freed hpc
  · next hpc => exact List.count_eq_zero.mpr (hok.kept hpc)

/-- A oneshot timer that is cancelled inside its function. -/
theorem timer_lifecycle_cancelled :
    let s := machine.run (init 0 TimerCtx.zeroMemory) [.create .oneshot 10 0 ⟨0, 1⟩ ⟨1, 1⟩,
      .sched .enterLoop, .sched .endPass, .update, .sched .swap, .sched .resume, .arm ⟨2, 1⟩,
      .sched .endPass, .tick 10, .update, .sched .swap, .sched .resume, .wake, .cancel ⟨0, 1⟩,
      .return']
    s.eventsOf ⟨0, 1⟩ = [.created ⟨0, 1⟩ .oneshot 0 10, .slept ⟨0, 1⟩, .invoked ⟨0, 1⟩ 10,
      .cancelled ⟨0, 1⟩, .freed ⟨0, 1⟩] ∧ s.isTimerPending ⟨0, 1⟩ = false := by
  intro s
  have hr : machine.Reachable s :=
    Machine.Reachable.run (.init ⟨0, TimerCtx.zeroMemory, rfl⟩) (by decide +kernel)
  have ht : s.timers ⟨0, 1⟩ = some ⟨none, false, ⟨1, 1⟩, .left⟩ := by decide +kernel
  obtain ⟨_, _, hpending, _⟩ := timer_lifecycle hr ht
  refine ⟨by decide +kernel, ?_⟩
  rw [Bool.eq_false_iff]
  exact fun hp => (hpending.mp hp).2 rfl

/-! ## Deadlines -/

/-- The deadline that the last `bio_create_timer` or `bio_reset_timer` set. -/
def deadline (events : List TimerEvent) : Option Int :=
  events.foldl (fun d e =>
    match e with
    | .created _ _ clock timeoutMs | .reset _ clock timeoutMs => some (clock + timeoutMs)
    | _ => d) none

/-- Every call of the function starts at or after the deadline at that point. -/
def RespectsDeadlines (events : List TimerEvent) : Prop :=
  ∀ pre h clock post, events = pre ++ .invoked h clock :: post →
    ∃ d, deadline pre = some d ∧ d ≤ clock

theorem RespectsDeadlines.append (hr : RespectsDeadlines events) {e : TimerEvent}
    (he : ∀ h clock, e = .invoked h clock → ∃ d, deadline events = some d ∧ d ≤ clock) :
    RespectsDeadlines (events ++ [e]) := by
  intro pre h clock post heq
  rcases List.eq_nil_or_concat post with rfl | ⟨post, e', rfl⟩
  · obtain ⟨rfl, hlast⟩ := List.append_inj' heq rfl
    exact he h clock (List.cons.inj hlast).1
  · rw [List.concat_eq_append, ← List.cons_append, ← List.append_assoc] at heq
    exact hr pre h clock post (List.append_inj' heq rfl).1

/-- When the function of an interval timer was called, if it runs. -/
def Timer.calledAt (t : Timer) : Option Int :=
  match t.pc with
  | .calling now => some now
  | _ => none

/-- An interval timer is reset inside its function only before time has passed there. -/
def ResetsInTime (s : TimerState) : TimerAction → Prop
  | .reset handle _ => ∀ t ∈ s.timers handle, ∀ impl ∈ t.impl, t.resolves = true →
      impl.type = .interval → ∀ now ∈ Timer.calledAt t, s.ctx.clock = now
  | _ => True

/-- The due time is not before the deadline, and will not be after the function returns. -/
structure OnTime (clock : Int) (events : List TimerEvent) (t : Timer) (d : Int) : Prop where
  deadline : deadline events = some d
  set : ∀ impl ∈ t.impl, d ≤ clock + impl.timeoutMs
  due : ∀ impl ∈ t.impl, t.pc = .head ∨ t.pc = .waiting → d ≤ impl.dueTimeMs
  next : ∀ impl ∈ t.impl, ∀ now, t.pc = .calling now → impl.type = .interval →
    d ≤ now + impl.timeoutMs

theorem OnTime.step {d : Int} (hok : OnTime clock events t d) (hs : TimerStep clock h a t new t')
    (hreset : ∀ timeoutMs, a = .reset h timeoutMs → ∀ impl ∈ t.impl, t.resolves = true →
      impl.type = .interval → ∀ now, t.pc = .calling now → clock = now) :
    ∃ d', OnTime clock (events ++ new) t' d' := by
  cases hs with
  | @reset _ timeoutMs hres =>
    refine ⟨clock + timeoutMs, by simp [TimerState.deadline], ?_, ?_, ?_⟩
    · intro impl himpl
      obtain ⟨old, hold, rfl⟩ := Option.map_eq_some_iff.mp himpl
      exact le_rfl
    · intro impl himpl _
      obtain ⟨old, hold, rfl⟩ := Option.map_eq_some_iff.mp himpl
      exact le_rfl
    · intro impl himpl now hpc htype
      obtain ⟨old, hold, rfl⟩ := Option.map_eq_some_iff.mp himpl
      -- The loop counts from the start of the call, and `bio_reset_timer` from now.
      exact (congrArg (· + timeoutMs) (hreset timeoutMs rfl old hold hres htype now hpc)).le
  | cancel hres =>
    refine ⟨d, by simpa [TimerState.deadline] using hok.deadline, ?_, ?_, ?_⟩
    · intro impl himpl
      obtain ⟨old, hold, rfl⟩ := Option.map_eq_some_iff.mp himpl
      exact hok.set old hold
    · intro impl himpl hpc
      obtain ⟨old, hold, rfl⟩ := Option.map_eq_some_iff.mp himpl
      exact hok.due old hold hpc
    · intro impl himpl now hpc htype
      obtain ⟨old, hold, rfl⟩ := Option.map_eq_some_iff.mp himpl
      exact hok.next old hold now hpc htype
  | @arm _ impl signal hpc himpl =>
    refine ⟨d, ?_, ?_, ?_, nofun⟩
    · split <;> simpa [TimerState.deadline] using hok.deadline
    · rintro _ ⟨⟩
      exact hok.set impl himpl
    · rintro _ ⟨⟩ _
      exact hok.due impl himpl (.inl hpc)
  | @invoke _ impl hpc himpl _ _ =>
    -- The next due time counts from this call, and the clock is where the call starts.
    refine ⟨d, by simpa [TimerState.deadline] using hok.deadline, hok.set, by simp, ?_⟩
    rintro impl' himpl' _ ⟨⟩ _
    exact hok.set impl' himpl'
  | @retry _ impl hpc himpl _ _ =>
    rw [List.append_nil]
    exact ⟨d, hok.deadline, hok.set, fun impl' himpl' _ => hok.due impl' himpl' (.inr hpc), nofun⟩
  | leave _ _ => exact ⟨d, by simpa [TimerState.deadline] using hok.deadline, nofun, nofun, nofun⟩
  | @rearm _ impl now hpc himpl htype =>
    rw [List.append_nil]
    refine ⟨d, hok.deadline, ?_, ?_, nofun⟩
    · rintro _ ⟨⟩
      exact hok.set impl himpl
    · rintro _ ⟨⟩ _
      exact hok.next impl himpl now hpc htype

theorem OnTime.mono {d clock' : Int} (hok : OnTime clock events t d) (hle : clock ≤ clock') :
    OnTime clock' events t d :=
  ⟨hok.deadline, fun impl himpl => (hok.set impl himpl).trans (Int.add_le_add_right hle _), hok.due,
    hok.next⟩

/-- A call starts at or after the deadline. -/
theorem OnTime.respects {d : Int} (hok : OnTime clock events t d) (hr : RespectsDeadlines events)
    (hs : TimerStep clock h a t new t') : RespectsDeadlines (events ++ new) := by
  cases hs with
  | reset _ => exact hr.append nofun
  | cancel _ => exact hr.append nofun
  | arm _ _ =>
    split
    · exact hr.append nofun
    · rwa [List.append_nil]
  | @invoke _ impl hpc himpl _ hdue =>
    refine hr.append ?_
    rintro _ _ ⟨⟩
    exact ⟨d, hok.deadline, (hok.due impl himpl (.inr hpc)).trans hdue⟩
  | retry _ _ _ _ => rwa [List.append_nil]
  | leave _ _ => exact hr.append nofun
  | rearm _ _ _ => rwa [List.append_nil]

/-- When no interval timer is reset inside its own function after time has passed there, every call
of the function of a timer starts at or after the deadline that the last reset set. -/
theorem invoked_after_deadline (hr : (machine.restrict ResetsInTime).Reachable s) (h : Handle) :
    RespectsDeadlines (s.eventsOf h) := by
  have hok := timer_invariant (Q := ResetsInTime)
    (P := fun clock _ events t => RespectsDeadlines events ∧ ∃ d, OnTime clock events t d)
    ?_ ?_ ?_ hr
  · cases ht : s.timers h with
    | some t => exact (hok h t ht).1
    | none =>
      rw [(inv_of_reachable hr.of_restrict).unborn h ht]
      simp [RespectsDeadlines]
  · intro clock h type timeoutMs coro
    refine ⟨?_, clock + timeoutMs, rfl, ?_, ?_, nofun⟩
    · have hnil : RespectsDeadlines [] := by simp [RespectsDeadlines]
      exact hnil.append nofun
    · rintro _ ⟨⟩
      exact le_rfl
    · rintro _ ⟨⟩ _
      exact le_rfl
  · rintro clock clock' h events t hle ⟨hres, d, hd⟩
    exact ⟨hres, d, hd.mono hle⟩
  · rintro s a h t new t' _ hQ ht hs ⟨hres, d, hd⟩
    refine ⟨hd.respects hres hs, hd.step hs ?_⟩
    rintro timeoutMs rfl impl himpl hopen htype now hpc
    exact hQ t ht impl himpl hopen htype now (by simp [Timer.calledAt, hpc])

instance (s : TimerState) : ∀ a, Decidable (s.ResetsInTime a)
  | .reset handle _ => inferInstanceAs (Decidable (∀ t ∈ s.timers handle, ∀ impl ∈ t.impl,
      t.resolves = true → impl.type = .interval → ∀ now ∈ Timer.calledAt t, s.ctx.clock = now))
  | .tick _ | .sched _ | .raiseAfter _ _ | .update | .create _ _ _ _ _ | .cancel _ | .arm _ | .wake
  | .return' => isTrue trivial

instance (s : TimerState) (a : TimerAction) :
    Decidable ((machine.restrict ResetsInTime).enabled s a) :=
  inferInstanceAs (Decidable (machine.enabled s a ∧ s.ResetsInTime a))

/-- A timer that is reset while it waits. -/
theorem invoked_after_deadline_postponed :
    let s := (machine.restrict ResetsInTime).run (init 0 TimerCtx.zeroMemory)
      [.create .interval 10 0 ⟨0, 1⟩ ⟨1, 1⟩, .sched (.spawn false ⟨2, 1⟩), .sched .enterLoop,
        .sched .endPass, .update, .sched .swap, .sched .resume, .arm ⟨3, 1⟩, .sched .resume, .tick 5,
        .reset ⟨0, 1⟩ 20, .sched .finish, .sched .destroy, .sched .endPass, .tick 5, .update,
        .sched .swap, .sched .resume, .wake, .arm ⟨4, 1⟩, .sched .endPass, .tick 15, .update,
        .sched .swap, .sched .resume, .wake]
    s.eventsOf ⟨0, 1⟩ = [.created ⟨0, 1⟩ .interval 0 10, .slept ⟨0, 1⟩, .reset ⟨0, 1⟩ 5 20,
      .slept ⟨0, 1⟩, .invoked ⟨0, 1⟩ 25] ∧ RespectsDeadlines (s.eventsOf ⟨0, 1⟩) := by
  intro s
  have hr : (machine.restrict ResetsInTime).Reachable s :=
    Machine.Reachable.run (.init ⟨0, TimerCtx.zeroMemory, rfl⟩) (by decide +kernel)
  exact ⟨by decide +kernel, invoked_after_deadline hr ⟨0, 1⟩⟩

/-- The function of an interval timer runs from 10 to 15 and then resets its timer to 100. The next
call starts at 110, since the loop counts from the clock that it read before the first call. -/
theorem invoked_before_deadline :
    let s := machine.run (init 0 TimerCtx.zeroMemory) [.create .interval 10 0 ⟨0, 1⟩ ⟨1, 1⟩,
      .sched .enterLoop, .sched .endPass, .update, .sched .swap, .sched .resume, .arm ⟨2, 1⟩,
      .sched .endPass, .tick 10, .update, .sched .swap, .sched .resume, .wake, .tick 5,
      .reset ⟨0, 1⟩ 100, .return', .arm ⟨3, 1⟩, .sched .endPass, .tick 95, .update, .sched .swap,
      .sched .resume, .wake]
    machine.Reachable s ∧ s.eventsOf ⟨0, 1⟩ = [.created ⟨0, 1⟩ .interval 0 10, .slept ⟨0, 1⟩,
        .invoked ⟨0, 1⟩ 10, .reset ⟨0, 1⟩ 15 100, .slept ⟨0, 1⟩, .invoked ⟨0, 1⟩ 110] ∧
      ¬RespectsDeadlines (s.eventsOf ⟨0, 1⟩) := by
  intro s
  have hevents : s.eventsOf ⟨0, 1⟩ = [.created ⟨0, 1⟩ .interval 0 10, .slept ⟨0, 1⟩,
      .invoked ⟨0, 1⟩ 10, .reset ⟨0, 1⟩ 15 100, .slept ⟨0, 1⟩, .invoked ⟨0, 1⟩ 110] := by
    decide +kernel
  refine ⟨Machine.Reachable.run (.init ⟨0, TimerCtx.zeroMemory, rfl⟩) (by decide +kernel), hevents,
    fun hr => ?_⟩
  rw [hevents] at hr
  obtain ⟨d, hd, hle⟩ := hr [.created ⟨0, 1⟩ .interval 0 10, .slept ⟨0, 1⟩, .invoked ⟨0, 1⟩ 10,
    .reset ⟨0, 1⟩ 15 100, .slept ⟨0, 1⟩] ⟨0, 1⟩ 110 [] rfl
  obtain rfl : 115 = d := by simpa [deadline] using hd
  omega

end TimerState

end Bio
