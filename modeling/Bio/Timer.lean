import Bio.TimerHeap
import Bio.Scheduler

/-!
# Timers

The second half of `src/timer.c`: a timer is a coroutine that waits for a delayed signal of its own,
calls the function of the timer and loops. The machine runs any number of timers next to any other
code, the clock and `bio_loop`.

* A pointer to a `bio_timer_impl_t` is the handle that `bio_create_timer` made for it. The memory
  behind it (`impl`) and the handle (`resolves`) go separate ways: `bio_cancel_timer` closes the
  handle, the coroutine frees the memory.
* The steps of the coroutine are the parts between its suspensions: `arm` up to the wait, `wake` from
  there up to the call of the function, `return'` from there on. Inside the function the coroutine
  does what user code does, except that it cannot end.
* `history` is a ghost.
-/

namespace Bio

/-- `bio_timer_type_t`. -/
inductive TimerType
  | oneshot | interval
deriving DecidableEq, Repr

/-- The fields of `bio_timer_impl_t` that are read. -/
structure TimerImpl where
  type : TimerType
  timeoutMs : Int
  wakeSignal : Handle
  dueTimeMs : Int
  cancelled : Bool
deriving DecidableEq, Repr

/-- Where the coroutine is in `bio_timer_entry`. -/
inductive TimerPc
  /-- at the head of the loop -/
  | head
  /-- in `bio_wait_for_one_signal` -/
  | waiting
  /-- in the function, with the local variable that holds the clock -/
  | calling (currentTimeMs : Int)
  /-- behind the loop, with the memory freed -/
  | left
deriving DecidableEq, Repr

/-- One timer: its memory until it is freed, its handle and its coroutine. -/
structure Timer where
  impl : Option TimerImpl
  resolves : Bool
  coro : Handle
  pc : TimerPc
deriving DecidableEq, Repr

/-- What happened to timers. `clock` is what the code read of the platform clock. -/
inductive TimerEvent
  | created (timer : Handle) (type : TimerType) (clock timeoutMs : Int)
  | reset (timer : Handle) (clock timeoutMs : Int)
  | cancelled (timer : Handle)
  /-- the coroutine suspends until a due time in the future -/
  | slept (timer : Handle)
  | invoked (timer : Handle) (clock : Int)
  | freed (timer : Handle)
deriving DecidableEq, Repr

structure TimerState where
  sched : Sched
  ctx : TimerCtx
  timers : Handle → Option Timer
  /-- the argument of `bio_timer_entry`, for the coroutines that run it -/
  userdata : Handle → Option Handle
  history : List TimerEvent

namespace TimerState

def init (clock : Int) (memory : Nat → TimerEntry) : TimerState where
  sched := Sched.init
  ctx := TimerCtx.init clock memory
  timers := fun _ => none
  userdata := fun _ => none
  history := []

/-! ## Elementary updates -/

def setTimer (s : TimerState) (h : Handle) (t : Timer) : TimerState :=
  { s with timers := Function.update s.timers h (some t) }

/-- A write through a pointer to the timer. -/
def Timer.modify (t : Timer) (f : TimerImpl → TimerImpl) : Timer := { t with impl := t.impl.map f }

def log (s : TimerState) (e : TimerEvent) : TimerState := { s with history := s.history ++ [e] }

/-- The signals are raised one after the other. -/
def raiseAll (s : Sched) (signals : List Handle) : Sched :=
  signals.foldl (fun s signal => (s.raiseSignal signal).1) s

/-! ## The functions of `timer.c` -/

/-- `bio_timer_update`. -/
def update (s : TimerState) : TimerState :=
  { s with
    ctx := s.ctx.update
    sched := raiseAll s.sched ((s.ctx.heap.update s.ctx.clock).2.map TimerEntry.signal) }

/-- `bio_raise_signal_after`. -/
def raiseAfter (s : TimerState) (signal : Handle) (timeMs : Int) : TimerState :=
  { s with
    ctx := s.ctx.raiseAfter signal timeMs
    sched := raiseAll s.sched (s.ctx.heap.raiseSignalAfter s.ctx.clock signal timeMs).2 }

/-- `bio_spawn_ex`, with the timer update of the first spawn. -/
def spawn (s : TimerState) (daemon : Bool) (coro : Handle) : TimerState :=
  let s := { s with sched := s.sched.spawnEx daemon coro }
  if s.sched.numCoros = 1 then s.update else s

/-- `bio_create_timer` up to the spawn. -/
def makeTimer (s : TimerState) (type : TimerType) (timeoutMs : Int) (handle coro : Handle) :
    TimerState :=
  let impl : TimerImpl :=
    { type := type, timeoutMs := timeoutMs, wakeSignal := Handle.invalid
      dueTimeMs := s.ctx.clock + timeoutMs, cancelled := false }
  { s with
    sched := s.sched.perform (.issue handle)
    timers := Function.update s.timers handle
      (some { impl := some impl, resolves := true, coro := coro, pc := .head })
    userdata := Function.update s.userdata coro (some handle)
    history := s.history ++ [.created handle type s.ctx.clock timeoutMs] }

def tick (s : TimerState) (ms : Nat) : TimerState :=
  { s with ctx := { s.ctx with clock := s.ctx.clock + ms } }

/-- `bio_create_timer`. Some time may pass between its reading of the clock and that of the timer
update. -/
def create (s : TimerState) (type : TimerType) (timeoutMs : Int) (elapsed : Nat)
    (handle coro : Handle) : TimerState :=
  ((s.makeTimer type timeoutMs handle coro).tick elapsed).spawn false coro

/-- `bio_is_timer_pending`. -/
def isTimerPending (s : TimerState) (handle : Handle) : Bool := (s.timers handle).any Timer.resolves

/-- `bio_reset_timer`. -/
def resetTimer (s : TimerState) (handle : Handle) (timeoutMs : Int) : TimerState :=
  match (s.timers handle).filter Timer.resolves with
  | some t =>
    (s.setTimer handle (Timer.modify t fun impl =>
      { impl with timeoutMs := timeoutMs, dueTimeMs := s.ctx.clock + timeoutMs })).log
        (.reset handle s.ctx.clock timeoutMs)
  | none => s

/-- `bio_cancel_timer`. -/
def cancelTimer (s : TimerState) (handle : Handle) : TimerState :=
  match (s.timers handle).filter Timer.resolves with
  | some t =>
    { (s.setTimer handle
        { Timer.modify t fun impl => { impl with cancelled := true } with resolves := false }).log
          (.cancelled handle) with
      sched := raiseAll s.sched (t.impl.map TimerImpl.wakeSignal).toList }
  | none => s

/-! ## The steps of `bio_timer_entry` -/

/-- From the head of the loop to the wait, with the handle that the new signal gets. -/
def arm (s : TimerState) (h : Handle) (t : Timer) (impl : TimerImpl) (signal : Handle) :
    TimerState :=
  let delay := impl.dueTimeMs - s.ctx.clock
  let s := { s with sched := s.sched.makeSignal t.coro signal }
  let s := s.setTimer h { t with impl := some { impl with wakeSignal := signal }, pc := .waiting }
  let s := s.raiseAfter signal delay
  { s with
    sched := s.sched.waitForSignals t.coro [signal] true
    history := if delay > 0 then s.history ++ [.slept h] else s.history }

/-- Behind the loop: the handle is closed, the memory is freed and the coroutine returns. -/
def leave (s : TimerState) (h : Handle) (t : Timer) : TimerState :=
  { (s.setTimer h { t with impl := none, resolves := false, pc := .left }).log (.freed h) with
    sched := s.sched.perform .finish }

/-- From the wait to the call of the function, or to the next round. -/
def wake (s : TimerState) (h : Handle) (t : Timer) (impl : TimerImpl) : TimerState :=
  if impl.cancelled then s.leave h t
  else if impl.dueTimeMs ≤ s.ctx.clock then
    (s.setTimer h { t with pc := .calling s.ctx.clock }).log (.invoked h s.ctx.clock)
  else s.setTimer h { t with pc := .head }

/-- The function has returned. -/
def return' (s : TimerState) (h : Handle) (t : Timer) (impl : TimerImpl) (currentTimeMs : Int) :
    TimerState :=
  match impl.type with
  | .oneshot => s.leave h t
  | .interval =>
    s.setTimer h
      { t with impl := some { impl with dueTimeMs := currentTimeMs + impl.timeoutMs }, pc := .head }

/-- The timer whose coroutine runs. -/
def current (s : TimerState) : Option (Handle × Timer) :=
  s.sched.phase.mcoRunning.bind fun c => (s.userdata c).bind fun h =>
    (s.timers h).map fun t => (h, t)

/-- Code other than `bio_timer_entry` runs. -/
def userRuns (s : TimerState) : Bool :=
  match s.current with
  | some (_, { pc := .calling _, .. }) => true
  | some _ => false
  | none => true

end TimerState

/-! ## The machine -/

inductive TimerAction
  | tick (ms : Nat)
  /-- anything that does not concern timers -/
  | sched (a : Action)
  | raiseAfter (signal : Handle) (timeMs : Int)
  /-- `bio_loop` calls `bio_timer_update` -/
  | update
  | create (type : TimerType) (timeoutMs : Int) (elapsed : Nat) (handle coro : Handle)
  | reset (handle : Handle) (timeoutMs : Int)
  | cancel (handle : Handle)
  | arm (signal : Handle)
  | wake
  | return'
deriving DecidableEq, Repr

namespace TimerState

/-- When an action can happen. -/
def enabled (s : TimerState) : TimerAction → Prop
  | .tick _ => True
  | .sched a => s.sched.enabled a ∧ s.userRuns = true ∧ (a = .finish → s.current = none)
  | .raiseAfter _ _ | .reset _ _ | .cancel _ =>
    s.sched.phase.userCode = true ∧ s.userRuns = true
  | .update => s.sched.phase = .polling
  | .create _ _ _ handle coro => s.sched.phase.userCode = true ∧ s.userRuns = true ∧
      s.sched.Fresh handle ∧ s.sched.Fresh coro ∧ handle ≠ coro
  | .arm signal => (s.current.any fun (_, t) => t.pc = .head) = true ∧ s.sched.Fresh signal
  | .wake => (s.current.any fun (_, t) => t.pc = .waiting) = true
  | .return' => (s.current.any fun (_, t) => t.pc matches .calling _) = true

def perform (s : TimerState) : TimerAction → TimerState
  | .tick ms => s.tick ms
  | .sched (.spawn daemon coro) => s.spawn daemon coro
  | .sched a => { s with sched := s.sched.perform a }
  | .raiseAfter signal timeMs => s.raiseAfter signal timeMs
  | .update => s.update
  | .create type timeoutMs elapsed handle coro => s.create type timeoutMs elapsed handle coro
  | .reset handle timeoutMs => s.resetTimer handle timeoutMs
  | .cancel handle => s.cancelTimer handle
  | .arm signal =>
    match s.current with
    | some (h, t@{ impl := some impl, .. }) => s.arm h t impl signal
    | _ => s
  | .wake =>
    match s.current with
    | some (h, t@{ impl := some impl, .. }) => s.wake h t impl
    | _ => s
  | .return' =>
    match s.current with
    | some (h, t@{ impl := some impl, pc := .calling currentTimeMs, .. }) =>
      s.return' h t impl currentTimeMs
    | _ => s

/-- All interleavings of timers, other code, the clock and `bio_loop`. -/
def machine : Machine TimerState TimerAction where
  init := fun s => ∃ clock memory, s = init clock memory
  enabled := enabled
  perform := perform

instance decidableEnabled (s : TimerState) : ∀ a, Decidable (machine.enabled s a)
  | .tick _ => isTrue trivial
  | .sched a => inferInstanceAs (Decidable
      (s.sched.enabled a ∧ s.userRuns = true ∧ (a = .finish → s.current = none)))
  | .raiseAfter _ _ | .reset _ _ | .cancel _ =>
    inferInstanceAs (Decidable (s.sched.phase.userCode = true ∧ s.userRuns = true))
  | .update => inferInstanceAs (Decidable (s.sched.phase = .polling))
  | .create _ _ _ handle coro => inferInstanceAs (Decidable
      (s.sched.phase.userCode = true ∧ s.userRuns = true ∧ s.sched.Fresh handle ∧
        s.sched.Fresh coro ∧ handle ≠ coro))
  | .arm signal => inferInstanceAs (Decidable
      ((s.current.any fun (_, t) => t.pc = .head) = true ∧ s.sched.Fresh signal))
  | .wake => inferInstanceAs (Decidable ((s.current.any fun (_, t) => t.pc = .waiting) = true))
  | .return' =>
    inferInstanceAs (Decidable ((s.current.any fun (_, t) => t.pc matches .calling _) = true))

end TimerState

end Bio
