import Bio.TimerArmed

/-!
# The sleep of the loop

The updates of `bio_loop` between two passes, with `bio_platform_update` of the three platforms as
far as its timeout goes, on top of the machine of the timers.

* `WaitPolicy`: what a platform makes of the timeout that `bio_loop` computes.
* The main thread is `blocked` in the system call. It may return at any time, with or without an
  event.
* On Linux the request for the notification goes through the submission queue. When that is full,
  `bio_acquire_io_req` handles completions before the wait.

Result: `loop_sleeps_until_due`. Its guard is that resets do not move a sleeping timer to before its
entry (`ResetsBehindEntry`).
-/

namespace Bio

/-! ## The timeouts of the platforms -/

/-- `struct timespec`. -/
structure Timespec where
  tvSec : Int
  tvNsec : Int
deriving DecidableEq, Repr

namespace Timespec

/-- As both platforms that have one initialize it. -/
def ofTimeout (waitTimeoutMs : Int) : Timespec where
  tvSec := waitTimeoutMs.tdiv 1000
  tvNsec := waitTimeoutMs.tmod 1000 * 1000000

def milliseconds (t : Timespec) : Int := t.tvSec * 1000 + t.tvNsec / 1000000

theorem milliseconds_ofTimeout {waitTimeoutMs : Int} (h : 0 ≤ waitTimeoutMs) :
    (ofTimeout waitTimeoutMs).milliseconds = waitTimeoutMs := by
  simp only [milliseconds, ofTimeout, Int.tdiv_eq_ediv_of_nonneg h, Int.tmod_eq_emod_of_nonneg h]
  omega

end Timespec

/-- How `bio_platform_update` waits. -/
structure WaitPolicy where
  /-- the time after which the system call returns, in a wait that has an end -/
  limit : Int → Option Int
  /-- requests go through a submission queue -/
  ring : Bool
  endless : ∀ w, limit w = none → w ≤ 0
  bounded : ∀ w m, limit w = some m → m ≤ w

namespace WaitPolicy

/-- `bio_platform_update_wait` of `src/linux/platform.c`. -/
def linux : WaitPolicy where
  limit waitTimeoutMs :=
    if waitTimeoutMs > 0 then some (Timespec.ofTimeout waitTimeoutMs).milliseconds else none
  ring := true
  endless := fun w h => by simpa using h
  bounded := fun w m h => by
    obtain ⟨hpos, hm⟩ := Option.ite_none_right_eq_some.mp h
    rw [← Option.some.inj hm, Timespec.milliseconds_ofTimeout hpos.le]

/-- `bio_platform_update` of `src/freebsd/platform.c`. -/
def freebsd : WaitPolicy where
  limit waitTimeoutMs :=
    if waitTimeoutMs ≥ 0 then some (Timespec.ofTimeout waitTimeoutMs).milliseconds else none
  ring := false
  endless := fun w h => by
    have hneg : w < 0 := by simpa using h
    exact hneg.le
  bounded := fun w m h => by
    obtain ⟨hpos, hm⟩ := Option.ite_none_right_eq_some.mp h
    rw [← Option.some.inj hm, Timespec.milliseconds_ofTimeout hpos]

/-- `INFINITE`. -/
def infinite : Int := 0xFFFFFFFF

/-- The last argument of `bio_platform_process_events`, a `DWORD`. -/
def windowsTimeout (waitTimeoutMs : Int) : Int :=
  let waitTimeoutMs := if waitTimeoutMs ≥ infinite then infinite - 1 else waitTimeoutMs
  let waitTimeoutMs := if waitTimeoutMs < 0 then infinite else waitTimeoutMs
  waitTimeoutMs % 2 ^ 32

theorem windowsTimeout_eq (waitTimeoutMs : Int) : windowsTimeout waitTimeoutMs =
    if waitTimeoutMs < 0 then infinite else min waitTimeoutMs (infinite - 1) := by
  unfold windowsTimeout infinite
  dsimp only
  split <;> split <;> omega

/-- `bio_platform_update` of `src/windows/platform.c`. -/
def windows : WaitPolicy where
  limit waitTimeoutMs :=
    if windowsTimeout waitTimeoutMs = infinite then none else some (windowsTimeout waitTimeoutMs)
  ring := false
  endless := fun w h => by
    have hinfinite : windowsTimeout w = infinite := by simpa using h
    rw [windowsTimeout_eq, infinite] at hinfinite
    split at hinfinite <;> omega
  bounded := fun w m h => by
    obtain ⟨hfinite, hm⟩ := Option.ite_none_left_eq_some.mp h
    rw [← Option.some.inj hm]
    rw [windowsTimeout_eq] at hfinite ⊢
    split at hfinite
    · exact absurd rfl hfinite
    · next hpos =>
      rw [if_neg hpos]
      exact min_le_left ..

end WaitPolicy

/-! ## The machine -/

/-- Where the main thread is. -/
inductive LoopPlace
  /-- outside of `bio_loop`, in a pass, or before the first `bio_timer_update` of the updates -/
  | start
  /-- behind it -/
  | expired
  /-- in `bio_platform_update` before the wait, `readAt` is what `bio_time_until_next_timer` read of
  the clock -/
  | preparing (limit : Option Int) (readAt : Int)
  /-- in the system call -/
  | blocked (limit : Option Int) (readAt : Int)
  /-- in `bio_platform_update` without a wait, or behind it -/
  | collecting (shouldWaitForIo : Bool)
  /-- before the second `bio_timer_update` -/
  | again
  /-- before the swap of the lists -/
  | swapping
deriving DecidableEq, Repr

structure LoopState where
  timers : TimerState
  place : LoopPlace

inductive LoopAction
  /-- the clock, the coroutines, and what the loop does outside of `bio_platform_update` -/
  | timers (a : TimerAction)
  /-- the call of `bio_platform_update` -/
  | platformUpdate
  /-- the main thread has been notified already, so there is no wait -/
  | skipWait
  | sleep
  /-- the system call returns -/
  | wakeUp
  /-- `bio_platform_update` returns -/
  | updated
deriving DecidableEq, Repr

/-- Signals are raised by coroutines, by `bio_thread_update` and by completions. -/
def LoopPlace.canRaise (policy : WaitPolicy) : LoopPlace → Bool
  | .start | .collecting _ | .again => true
  | .preparing _ _ => policy.ring
  | _ => false

/-- The wait that `bio_platform_update` prepares or is in. -/
def LoopPlace.wait : LoopPlace → Option (Option Int × Int)
  | .preparing limit readAt | .blocked limit readAt => some (limit, readAt)
  | _ => none

theorem LoopPlace.eq_preparing {place : LoopPlace} (h : (place matches .preparing _ _) = true) :
    ∃ limit readAt, place = .preparing limit readAt := by
  cases place <;> simp at h ⊢

theorem LoopPlace.eq_blocked {place : LoopPlace} (h : (place matches .blocked _ _) = true) :
    ∃ limit readAt, place = .blocked limit readAt := by
  cases place <;> simp at h ⊢

theorem LoopPlace.eq_collecting {place : LoopPlace} (h : (place matches .collecting _) = true) :
    ∃ shouldWaitForIo, place = .collecting shouldWaitForIo := by
  cases place <;> simp at h ⊢

namespace LoopState

variable (policy : WaitPolicy)

/-- The call in `bio_loop`. -/
def platformUpdate (q : LoopState) : LoopState :=
  let shouldWaitForIo := q.timers.sched.nextReadyCoros.isEmpty
  let waitTimeoutMs :=
    if shouldWaitForIo then q.timers.ctx.heap.timeUntilNextTimer q.timers.ctx.clock else 0
  { q with
    place := if waitTimeoutMs = 0 then .collecting shouldWaitForIo
      else .preparing (policy.limit waitTimeoutMs) q.timers.ctx.clock }

def placeAfter (place : LoopPlace) : TimerAction → LoopPlace
  | .update => if place = .start then .expired else .swapping
  | .sched .swap => .start
  | _ => place

/-- What an action of the timers needs from the loop. -/
def allows (q : LoopState) : TimerAction → Prop
  | .tick _ => True
  | .update => q.place = .start ∨ q.place = .again
  | .sched .swap => q.place = .swapping
  | .sched (.raise _) => q.place.canRaise policy = true
  | _ => q.place = .start

def enabled (q : LoopState) : LoopAction → Prop
  | .timers a => TimerState.machine.enabled q.timers a ∧ q.allows policy a
  | .platformUpdate => q.place = .expired
  | .skipWait => policy.ring = true ∧ (q.place matches .preparing _ _) = true
  | .sleep => (q.place matches .preparing _ _) = true
  | .wakeUp => (q.place matches .blocked _ _) = true
  | .updated => (q.place matches .collecting _) = true

def perform (q : LoopState) : LoopAction → LoopState
  | .timers a =>
    { timers := TimerState.machine.perform q.timers a, place := placeAfter q.place a }
  | .platformUpdate => q.platformUpdate policy
  | .skipWait => { q with place := .collecting true }
  | .sleep =>
    match q.place with
    | .preparing limit readAt => { q with place := .blocked limit readAt }
    | _ => q
  | .wakeUp => { q with place := .collecting true }
  | .updated =>
    match q.place with
    | .collecting shouldWaitForIo =>
      { q with place := if shouldWaitForIo then .again else .swapping }
    | _ => q

/-- The loop with timers and any other code. -/
def machine : Machine LoopState LoopAction where
  init := fun q => TimerState.machine.init q.timers ∧ q.place = .start
  enabled := enabled policy
  perform := perform policy

instance (q : LoopState) : ∀ a, Decidable (q.allows policy a)
  | .tick _ => isTrue trivial
  | .update => inferInstanceAs (Decidable (q.place = .start ∨ q.place = .again))
  | .sched .swap => inferInstanceAs (Decidable (q.place = .swapping))
  | .sched (.raise _) => inferInstanceAs (Decidable (q.place.canRaise policy = true))
  | .sched (.spawn _ _) | .sched (.makeSignal _) | .sched (.monitor _ _ _) | .sched (.unmonitor _)
  | .sched .yield | .sched (.wait _ _) | .sched .daemonize | .sched .finish | .sched (.issue _)
  | .sched .terminate | .sched .enterLoop | .sched .resume | .sched .destroy | .sched .endPass
  | .raiseAfter _ _ | .create _ _ _ _ _ | .reset _ _ | .cancel _ | .arm _ | .wake | .return' =>
    inferInstanceAs (Decidable (q.place = .start))

instance (q : LoopState) : ∀ a, Decidable ((machine policy).enabled q a)
  | .timers a =>
    inferInstanceAs (Decidable (TimerState.machine.enabled q.timers a ∧ q.allows policy a))
  | .platformUpdate => inferInstanceAs (Decidable (q.place = .expired))
  | .skipWait =>
    inferInstanceAs (Decidable (policy.ring = true ∧ (q.place matches .preparing _ _) = true))
  | .sleep => inferInstanceAs (Decidable ((q.place matches .preparing _ _) = true))
  | .wakeUp => inferInstanceAs (Decidable ((q.place matches .blocked _ _) = true))
  | .updated => inferInstanceAs (Decidable ((q.place matches .collecting _) = true))

/-! ## Invariants -/

variable {policy} {q : LoopState} {a : LoopAction} {limit : Option Int} {readAt : Int}

/-- The wait ends before anything in the heap is due. -/
def EndsInTime (heap : TimerHeap) (limit : Option Int) (readAt : Int) : Prop :=
  ∀ e ∈ heap.contents, ∃ m, limit = some m ∧ readAt + m ≤ e.dueTimeMs

/-- The timeout that the loop computes is positive in a wait with pending timers. -/
theorem endsInTime_timeout {heap : TimerHeap} {clock : Int} (ho : heap.Ordered)
    (hne : heap.timeUntilNextTimer clock ≠ 0) :
    EndsInTime heap (policy.limit (heap.timeUntilNextTimer clock)) clock := by
  intro e he
  have hpos : 0 < heap.numTimers := by
    refine Nat.pos_of_ne_zero fun hzero => ?_
    rw [TimerHeap.contents_eq_zero.mpr hzero] at he
    exact Multiset.notMem_zero e he
  have htime : heap.timeUntilNextTimer clock = max 0 ((heap.timerEntries 0).dueTimeMs - clock) :=
    TimerHeap.timeUntilNextTimer_some ho (TimerHeap.root_mem hpos) fun d hd => ho.le_of_mem hd
  have hroot := ho.le_of_mem he
  cases hlimit : policy.limit (heap.timeUntilNextTimer clock) with
  | none =>
    have hle := policy.endless _ hlimit
    omega
  | some m =>
    have hle := policy.bounded _ m hlimit
    exact ⟨m, rfl, by omega⟩

/-- What an enabled action does. The steps of `bio_platform_update` change nothing but the place. -/
theorem step_cases (he : (machine policy).enabled q a) :
    (∃ b, a = .timers b) ∨
    (q.place = .expired ∧ (machine policy).perform q a = q.platformUpdate policy) ∨
    ∃ place, q.place ≠ .start ∧ (place.wait = none ∨ place.wait = q.place.wait) ∧
      (machine policy).perform q a = { q with place := place } := by
  have hmove : ∀ place place', q.place = place → place ≠ .start →
      (place'.wait = none ∨ place'.wait = place.wait) →
      (machine policy).perform q a = { q with place := place' } →
      ∃ place, q.place ≠ .start ∧ (place.wait = none ∨ place.wait = q.place.wait) ∧
        (machine policy).perform q a = { q with place := place } :=
    fun _ place' hp hne hwait heq => ⟨place', by rwa [hp], by rwa [hp], heq⟩
  cases a with
  | timers b => exact .inl ⟨b, rfl⟩
  | platformUpdate => exact .inr (.inl ⟨he, rfl⟩)
  | skipWait =>
    obtain ⟨limit, readAt, hp⟩ := LoopPlace.eq_preparing he.2
    exact .inr (.inr (hmove _ _ hp nofun (.inl rfl) rfl))
  | sleep =>
    obtain ⟨limit, readAt, hp⟩ := LoopPlace.eq_preparing he
    refine .inr (.inr (hmove _ (.blocked limit readAt) hp nofun (.inr rfl) ?_))
    simp [machine, perform, hp]
  | wakeUp =>
    obtain ⟨limit, readAt, hp⟩ := LoopPlace.eq_blocked he
    exact .inr (.inr (hmove _ _ hp nofun (.inl rfl) rfl))
  | updated =>
    obtain ⟨wait, hp⟩ := LoopPlace.eq_collecting he
    refine .inr (.inr (hmove _ (if wait then .again else .swapping) hp nofun (.inl ?_) ?_))
    · cases wait <;> rfl
    · simp [machine, perform, hp]

/-- What an action of the timers does to the loop: it is in a pass again, it has expired timers, or
it stays where it is, and then only time passes or a signal is raised. -/
theorem timers_cases {b : TimerAction} (he : (machine policy).enabled q (.timers b)) :
    let q' := (machine policy).perform q (.timers b)
    q'.place = .start ∨
    (q'.timers.sched.phase = .polling ∧ (q'.place = .expired ∨ q'.place = .swapping)) ∨
    (q'.place = q.place ∧ q'.timers.ctx.heap = q.timers.ctx.heap ∧
      q'.timers.sched.phase = q.timers.sched.phase ∧ q.timers.ctx.clock ≤ q'.timers.ctx.clock ∧
      (q'.timers.sched = q.timers.sched ∨
        ∃ ref, b = .sched (.raise ref) ∧ q.place.canRaise policy = true)) := by
  obtain ⟨hen, hallows⟩ := he
  cases b with
  | tick ms => exact .inr (.inr ⟨rfl, rfl, rfl, Int.le_add_of_nonneg_right (by simp), .inl rfl⟩)
  | update =>
    refine .inr (.inl ⟨(TimerState.raiseAll_phase _ _).trans hen, ?_⟩)
    rcases hallows with hstart | hagain
    · simp [machine, perform, placeAfter, hstart]
    · simp [machine, perform, placeAfter, hagain]
  | sched c =>
    cases c with
    | swap => exact .inl rfl
    | raise ref =>
      have hphase := (Sched.raiseSignal_frame q.timers.sched ref).2.1
      exact .inr (.inr ⟨rfl, rfl, hphase, le_rfl, .inr ⟨ref, rfl, hallows⟩⟩)
    | _ => exact .inl hallows
  | _ => exact .inl hallows

/-- What holds of a wait. -/
structure WaitOk (q : LoopState) (limit : Option Int) (readAt : Int) : Prop where
  ends : EndsInTime q.timers.ctx.heap limit readAt
  past : readAt ≤ q.timers.ctx.clock

structure Inv (q : LoopState) : Prop where
  timers : TimerState.machine.Reachable q.timers
  phase : q.place ≠ .start → q.timers.sched.phase = .polling
  wait : ∀ limit readAt, q.place.wait = some (limit, readAt) → q.WaitOk limit readAt

theorem Inv.timersStep (hi : q.Inv) {b : TimerAction}
    (he : (machine policy).enabled q (.timers b)) :
    ((machine policy).perform q (.timers b)).Inv := by
  have hr : TimerState.machine.Reachable ((machine policy).perform q (.timers b)).timers :=
    hi.timers.step he.1
  rcases timers_cases he with hstart | ⟨hpolling, hplace⟩ | ⟨hplace, hheap, hphase, hclock, _⟩
  · exact ⟨hr, fun hne => absurd hstart hne, by simp [hstart, LoopPlace.wait]⟩
  · exact ⟨hr, fun _ => hpolling, by rcases hplace with h | h <;> simp [h, LoopPlace.wait]⟩
  · refine ⟨hr, fun hne => hphase.trans (hi.phase (hplace ▸ hne)), fun limit readAt hwait => ?_⟩
    obtain ⟨hends, hpast⟩ := hi.wait limit readAt (hplace ▸ hwait)
    exact ⟨hheap ▸ hends, hpast.trans hclock⟩

/-- The loop waits only without a ready coroutine. -/
theorem platformUpdate_cases (policy : WaitPolicy) (q : LoopState) :
    (∃ wait, q.platformUpdate policy = { q with place := .collecting wait }) ∨
    (q.timers.sched.nextReadyCoros = [] ∧
      q.timers.ctx.heap.timeUntilNextTimer q.timers.ctx.clock ≠ 0 ∧
      q.platformUpdate policy =
        { q with
          place := .preparing
            (policy.limit (q.timers.ctx.heap.timeUntilNextTimer q.timers.ctx.clock))
            q.timers.ctx.clock }) := by
  unfold LoopState.platformUpdate
  cases hready : q.timers.sched.nextReadyCoros with
  | nil =>
    by_cases htime : q.timers.ctx.heap.timeUntilNextTimer q.timers.ctx.clock = 0
    · exact .inl ⟨true, by simp [htime]⟩
    · exact .inr ⟨rfl, htime, by simp [htime]⟩
  | cons c rest => exact .inl ⟨false, by simp⟩

theorem Inv.platformUpdate (hi : q.Inv) (hp : q.place = .expired) :
    (q.platformUpdate policy).Inv := by
  have hphase := hi.phase (by simp [hp])
  have ho := (TimerCtx.inv_of_reachable (TimerState.inv_of_reachable hi.timers).ctx).ordered
  rcases platformUpdate_cases policy q with ⟨wait, heq⟩ | ⟨_, hne, heq⟩ <;> rw [heq]
  · exact ⟨hi.timers, fun _ => hphase, nofun⟩
  · refine ⟨hi.timers, fun _ => hphase, fun limit readAt hwait => ?_⟩
    cases hwait
    exact ⟨endsInTime_timeout ho hne, le_rfl⟩

/-- A step of `bio_platform_update` changes nothing but the place. -/
theorem Inv.move (hi : q.Inv) {place : LoopPlace} (hne : q.place ≠ .start)
    (hwait : place.wait = none ∨ place.wait = q.place.wait) : { q with place := place }.Inv := by
  refine ⟨hi.timers, fun _ => hi.phase hne, fun limit readAt hw => ?_⟩
  rcases hwait with hnone | hsame
  · cases hnone.symm.trans hw
  · exact ⟨(hi.wait limit readAt (hsame ▸ hw)).ends, (hi.wait limit readAt (hsame ▸ hw)).past⟩

theorem Inv.step (hi : q.Inv) (he : (machine policy).enabled q a) :
    ((machine policy).perform q a).Inv := by
  rcases step_cases he with ⟨b, rfl⟩ | ⟨hp, heq⟩ | ⟨place, hne, hwait, heq⟩
  · exact hi.timersStep he
  · exact heq ▸ hi.platformUpdate hp
  · exact heq ▸ hi.move hne hwait

theorem inv_of_reachable (hr : (machine policy).Reachable q) : q.Inv := by
  refine Machine.invariant (fun q h => ?_) (fun _ _ _ hi he => hi.step he) hr
  obtain ⟨hinit, hplace⟩ := h
  exact ⟨.init hinit, fun hne => absurd hplace hne, by simp [hplace, LoopPlace.wait]⟩

/-! ## Results -/

/-- Without a submission queue no coroutine is ready while the loop waits. -/
def Rests (policy : WaitPolicy) (q : LoopState) : Prop :=
  policy.ring = false → q.place.wait ≠ none → q.timers.sched.readyQueue = []

theorem Rests.step (hs : q.Rests policy) (hi : q.Inv) (he : (machine policy).enabled q a) :
    ((machine policy).perform q a).Rests policy := by
  intro hring hwait
  rcases step_cases he with ⟨b, rfl⟩ | ⟨hp, heq⟩ | ⟨place, hne, hsame, heq⟩
  · rcases timers_cases he with hstart | ⟨_, hplace⟩ | ⟨hplace, _, _, _, hsched⟩
    · simp [hstart, LoopPlace.wait] at hwait
    · rcases hplace with h | h <;> simp [h, LoopPlace.wait] at hwait
    · rw [hplace] at hwait
      rcases hsched with hsched | ⟨ref, rfl, hraise⟩
      · rw [hsched]
        exact hs hring hwait
      · cases hp : q.place <;> simp [hp, LoopPlace.wait, LoopPlace.canRaise, hring] at hwait hraise
  · -- The timeout is computed when the list of the next pass is empty.
    have hidle := (Sched.inv_of_reachable (TimerState.inv_of_reachable hi.timers).sched).2
    rw [heq] at hwait ⊢
    rcases platformUpdate_cases policy q with ⟨_, heq'⟩ | ⟨hready, _, heq'⟩
    · simp [heq', LoopPlace.wait] at hwait
    · rw [heq']
      show q.timers.sched.readyQueue = []
      simp [Sched.readyQueue, hready, hidle (.inr (hi.phase (by simp [hp])))]
  · rw [heq] at hwait ⊢
    refine hs hring fun hnone => hwait ?_
    exact hsame.elim id fun hsame => hsame.trans hnone

theorem rests_of_reachable (hr : (machine policy).Reachable q) : q.Rests policy := by
  refine Machine.invariant (M := machine policy) (fun q h => ?_)
    (fun q a hr hs he => hs.step (inv_of_reachable hr) he) hr
  simp [Rests, h.2, LoopPlace.wait]

/-- The guard: resets do not move a sleeping timer to before its entry. -/
def ResetsBehindEntry (q : LoopState) : LoopAction → Prop
  | .timers b => q.timers.ResetsBehindEntry b
  | _ => True

/-- The runs of the timers in the runs of the loop. -/
theorem timers_of_restrict (hr : ((machine policy).restrict ResetsBehindEntry).Reachable q) :
    (TimerState.machine.restrict TimerState.ResetsBehindEntry).Reachable q.timers := by
  refine Machine.refinement (M := TimerState.machine.restrict TimerState.ResetsBehindEntry)
    (N := (machine policy).restrict ResetsBehindEntry) (f := LoopState.timers)
    (fun q h => .init h.1) (fun q a _ he => ?_) hr
  obtain ⟨he, hQ⟩ := he
  rcases step_cases he with ⟨b, rfl⟩ | ⟨_, heq⟩ | ⟨place, _, _, heq⟩
  · exact Machine.Joined.single
      (M := TimerState.machine.restrict TimerState.ResetsBehindEntry) ⟨he.1, hQ⟩
  · have htimers : ((machine policy).perform q a).timers = q.timers := by
      rw [heq]
      rfl
    exact htimers ▸ .refl _
  · have htimers : ((machine policy).perform q a).timers = q.timers := by rw [heq]
    exact htimers ▸ .refl _

/-- While the main thread is blocked, its wait ends before any entry of the heap and any sleeping
timer is due, counted from the reading of the clock. Without a submission queue no coroutine is
ready. -/
theorem loop_sleeps_until_due (hr : ((machine policy).restrict ResetsBehindEntry).Reachable q)
    (hp : q.place = .blocked limit readAt) :
    readAt ≤ q.timers.ctx.clock ∧
      (∀ e ∈ q.timers.ctx.heap.contents, ∃ m, limit = some m ∧ readAt + m ≤ e.dueTimeMs) ∧
      (∀ h t impl, q.timers.timers h = some t → t.impl = some impl → impl.cancelled = false →
        t.pc = .waiting → q.timers.sched.coroState t.coro = .waiting →
        ∃ m, limit = some m ∧ readAt + m ≤ impl.dueTimeMs) ∧
      (policy.ring = false → q.timers.sched.readyQueue = []) := by
  have hwait : q.place.wait = some (limit, readAt) := by rw [hp, LoopPlace.wait]
  obtain ⟨hends, hpast⟩ := (inv_of_reachable hr.of_restrict).wait limit readAt hwait
  refine ⟨hpast, hends, fun h t impl ht himpl hflag hpc hsleep => ?_, fun hring => ?_⟩
  · obtain ⟨e, he, _, hdue⟩ :=
      TimerState.armed_of_restrict (timers_of_restrict hr) h t impl ht himpl hflag hpc hsleep
    obtain ⟨m, hm, hle⟩ := hends e he
    exact ⟨m, hm, hle.trans hdue⟩
  · exact rests_of_reachable hr.of_restrict hring (by simp [hwait])

/-- A timer of 100 ms is armed at 0, and the loop waits at 40. -/
def sleepingLoop : List LoopAction :=
  [.timers (.create .oneshot 100 0 ⟨0, 1⟩ ⟨1, 1⟩), .timers (.sched .enterLoop),
    .timers (.sched .endPass), .timers .update, .platformUpdate, .updated, .timers (.sched .swap),
    .timers (.sched .resume), .timers (.arm ⟨3, 1⟩), .timers (.tick 40), .timers (.sched .endPass),
    .timers .update, .platformUpdate, .sleep]

theorem loop_sleeps_until_due_timer :
    let q := (machine .windows).run ⟨TimerState.init 0 TimerCtx.zeroMemory, .start⟩ sleepingLoop
    q.place = .blocked (some 60) 40 ∧ q.timers.sched.readyQueue = [] ∧
      q.timers.timers ⟨0, 1⟩ =
        some ⟨some ⟨.oneshot, 100, ⟨3, 1⟩, 100, false⟩, true, ⟨1, 1⟩, .waiting⟩ ∧
      ∃ m, some 60 = some m ∧ (40 : Int) + m ≤ 100 := by
  intro q
  have hr : ((machine .windows).restrict ResetsBehindEntry).Reachable q := by
    refine Machine.Reachable.restrict_run (.init ⟨⟨0, TimerCtx.zeroMemory, rfl⟩, rfl⟩)
      (fun a ha t => ?_) (by decide +kernel)
    simp only [sleepingLoop, List.mem_cons, List.not_mem_nil, or_false] at ha
    rcases ha with
      rfl | rfl | rfl | rfl | rfl | rfl | rfl | rfl | rfl | rfl | rfl | rfl | rfl | rfl <;>
      simp [ResetsBehindEntry, TimerState.ResetsBehindEntry]
  have hp : q.place = .blocked (some 60) 40 := by decide +kernel
  have ht : q.timers.timers ⟨0, 1⟩ =
      some ⟨some ⟨.oneshot, 100, ⟨3, 1⟩, 100, false⟩, true, ⟨1, 1⟩, .waiting⟩ := by decide +kernel
  obtain ⟨_, _, hdue, hready⟩ := loop_sleeps_until_due hr hp
  exact ⟨hp, hready rfl, ht, hdue _ _ _ ht rfl rfl rfl (by decide +kernel)⟩

end LoopState

end Bio
