import Bio.Handle

/-!
# The scheduler

`src/scheduler.c`: coroutines, signals, monitors and `bio_loop`, as one machine whose actions are
the calls that user code makes and the steps that the loop takes.

* An object of the scheduler is found by its handle: `coros`, `signals` and `monitors` are the part
  of the handle table with the tag of that type, together with the memory behind it. An object is
  freed in the same step that closes its handle. A new object gets any handle that was not issued
  before and is not zero (`Fresh`); that `bio_make_handle` returns such a handle is
  `handleTable_refines_map`.
* A pointer to a coroutine (`signal->owner`, the entries of the ready lists) is the handle of that
  coroutine. Nothing in the definitions checks that it is still live.
* `wait_counter` is kept as the number of waits. The test of `bio_raise_signal` compares the 32-bit
  representations (`int32`), as the source does.
* `history` is a ghost: it records what happened and no definition reads it.
-/

namespace Bio

/-- `bio_coro_state_t`. -/
inductive CoroState
  | ready | running | waiting | dead
deriving DecidableEq, Repr

/-- The representation of a C `int`. -/
def int32 (x : Int) : BitVec 32 := BitVec.ofInt 32 x

/-- `bio_signal_impl_t`. -/
structure Signal where
  owner : Handle
  waitCounter : Int
deriving DecidableEq, Repr

/-- `bio_monitor_impl_t`. `target` is the coroutine in whose list the link is. -/
structure Monitor where
  target : Handle
  signal : Handle
deriving DecidableEq, Repr

/-- The fields of `bio_coro_impl_t` that the scheduler reads. -/
structure Coro where
  daemon : Bool
  state : CoroState
  pendingSignals : List Handle
  monitors : List Handle
  numBlockingSignals : Int
  waitCounter : Int
deriving DecidableEq, Repr

/-- Where control is. -/
inductive Phase
  /-- outside `bio_loop` -/
  | outside
  /-- in the pass over `current_ready_coros`, between two coroutines -/
  | pass
  /-- inside `mco_resume` of a coroutine -/
  | running (coro : Handle)
  /-- the entrypoint has returned, the cleanup callbacks of its local storage run -/
  | dying (coro : Handle)
  /-- in the updates of the thread pool, the timers and the platform -/
  | polling
deriving DecidableEq, Repr

/-- What happened in a run. -/
inductive Event
  | becameReady (coro : Handle)
  | resumed (coro : Handle)
  | terminated (coro : Handle)
  | madeSignal (coro signal : Handle)
  | raisedSignal (signal : Handle)
  | monitored (monitor target signal : Handle)
  | unmonitored (monitor : Handle)
  | firedMonitor (monitor : Handle)
  | swapped
deriving DecidableEq, Repr

/-- The scheduler's part of `bio_ctx`, the objects it owns and the control state of `bio_loop`. -/
structure Sched where
  coros : Handle → Option Coro
  signals : Handle → Option Signal
  monitors : Handle → Option Monitor
  currentReadyCoros : List Handle
  coroIndex : Nat
  nextReadyCoros : List Handle
  numCoros : Int
  numDaemons : Int
  isTerminating : Bool
  phase : Phase
  /-- the handles issued so far, also those of other resources -/
  issued : List Handle
  history : List Event

/-- The coroutine whose `mco_resume` has not been dealt with yet. -/
def Phase.active : Phase → Option Handle
  | .running c => some c
  | .dying c => some c
  | _ => none

@[simp] theorem Phase.active_outside : Phase.outside.active = none := rfl
@[simp] theorem Phase.active_pass : Phase.pass.active = none := rfl
@[simp] theorem Phase.active_running (c : Handle) : (Phase.running c).active = some c := rfl
@[simp] theorem Phase.active_dying (c : Handle) : (Phase.dying c).active = some c := rfl
@[simp] theorem Phase.active_polling : Phase.polling.active = none := rfl

/-- `mco_running()`. -/
def Phase.mcoRunning : Phase → Option Handle
  | .running c => some c
  | _ => none

theorem Phase.eq_running {p : Phase} {c : Handle} (h : p.mcoRunning = some c) : p = .running c := by
  cases p with
  | running d => exact congrArg Phase.running (Option.some.inj h)
  | _ => cases h

/-- The coroutine that `mco_status` reports dead and that is not destroyed yet. -/
def Phase.mcoDead : Phase → Option Handle
  | .dying c => some c
  | _ => none

/-- User code can run: in a coroutine, in a cleanup callback, or outside the loop. -/
def Phase.userCode : Phase → Bool
  | .outside | .running _ | .dying _ => true
  | .pass | .polling => false

namespace Sched

/-- `bio_init`. -/
def init : Sched where
  coros := fun _ => none
  signals := fun _ => none
  monitors := fun _ => none
  currentReadyCoros := []
  coroIndex := 0
  nextReadyCoros := []
  numCoros := 0
  numDaemons := 0
  isTerminating := false
  phase := .outside
  issued := []
  history := []

/-- The handle table may return `h`. -/
def Fresh (s : Sched) (h : Handle) : Prop := h ≠ Handle.invalid ∧ h ∉ s.issued

instance (s : Sched) (h : Handle) : Decidable (s.Fresh h) :=
  inferInstanceAs (Decidable (_ ∧ _))

/-! ## Elementary updates -/

def setCoro (s : Sched) (c : Handle) (coro : Coro) : Sched :=
  { s with coros := Function.update s.coros c (some coro) }

/-- A write through a pointer to the coroutine `c`. -/
def modifyCoro (s : Sched) (c : Handle) (f : Coro → Coro) : Sched :=
  { s with coros := Function.update s.coros c ((s.coros c).map f) }

def log (s : Sched) (e : Event) : Sched := { s with history := s.history ++ [e] }

/-- `bio_array_push(bio_ctx.next_ready_coros, coro)`. -/
def pushReady (s : Sched) (c : Handle) : Sched :=
  { s with
    nextReadyCoros := s.nextReadyCoros ++ [c]
    history := s.history ++ [.becameReady c] }

/-- The handle of the signal is closed and its link leaves the list of its owner. -/
def dropSignal (s : Sched) (ref : Handle) (signal : Signal) : Sched :=
  { s with
    signals := Function.update s.signals ref none
    coros := Function.update s.coros signal.owner ((s.coros signal.owner).map fun coro =>
      { coro with pendingSignals := coro.pendingSignals.erase ref }) }

/-- The handle of the monitor is closed and its link leaves the list of the target. -/
def dropMonitor (s : Sched) (ref : Handle) (monitor : Monitor) : Sched :=
  { s with
    monitors := Function.update s.monitors ref none
    coros := Function.update s.coros monitor.target ((s.coros monitor.target).map fun coro =>
      { coro with monitors := coro.monitors.erase ref }) }

/-! ## The functions of `scheduler.c` -/

/-- `bio_coro_state`. -/
def coroState (s : Sched) (ref : Handle) : CoroState :=
  match s.coros ref with
  | some coro => coro.state
  | none => .dead

/-- `bio_check_signal`. -/
def checkSignal (s : Sched) (ref : Handle) : Bool := (s.signals ref).isNone

/-- `bio_spawn_ex`. The timer update of the first spawn only raises signals, which is an action of
its own. -/
def spawnEx (s : Sched) (daemon : Bool) (handle : Handle) : Sched :=
  { s.pushReady handle with
    coros := Function.update s.coros handle
      (some { daemon := daemon, state := .ready, pendingSignals := [], monitors := []
              numBlockingSignals := 0, waitCounter := 0 })
    issued := handle :: s.issued
    numCoros := s.numCoros + 1
    numDaemons := if daemon then s.numDaemons + 1 else s.numDaemons }

/-- `bio_make_signal` in the coroutine `c`. -/
def makeSignal (s : Sched) (c : Handle) (handle : Handle) : Sched :=
  match s.coros c with
  | some coro =>
    { s with
      signals := Function.update s.signals handle
        (some { owner := c, waitCounter := coro.waitCounter - 1 })
      coros := Function.update s.coros c
        (some { coro with pendingSignals := coro.pendingSignals ++ [handle] })
      issued := handle :: s.issued
      history := s.history ++ [.madeSignal c handle] }
  | none => s

/-- The test of `bio_raise_signal`: the owner waits, and for this signal. -/
def blocks (signal : Signal) (owner : Coro) : Bool :=
  owner.state = .waiting ∧ int32 signal.waitCounter = int32 owner.waitCounter

/-- The part of `bio_raise_signal` that counts down and schedules the owner. -/
def notifyOwner (s : Sched) (signal : Signal) : Sched × Bool :=
  match s.coros signal.owner with
  | some owner =>
    if blocks signal owner then
      let owner := { owner with numBlockingSignals := owner.numBlockingSignals - 1 }
      if owner.numBlockingSignals = 0 then
        ((s.setCoro signal.owner { owner with state := .ready }).pushReady signal.owner, true)
      else (s.setCoro signal.owner owner, false)
    else (s, false)
  | none => (s, false)

/-- `bio_raise_signal`. -/
def raiseSignal (s : Sched) (ref : Handle) : Sched × Bool :=
  match s.signals ref with
  | some signal =>
    let (s, ownerWakenUp) := s.notifyOwner signal
    ((s.dropSignal ref signal).log (.raisedSignal ref), ownerWakenUp)
  | none => (s, false)

/-- One round of the loop of `bio_wait_for_signals`. The accumulator is `num_blocking_signals` and
`signal_raised`. -/
def waitRound (c : Handle) (waitCounter : Int) (acc : Sched × Int × Bool) (handle : Handle) :
    Sched × Int × Bool :=
  let (s, numBlockingSignals, signalRaised) := acc
  match s.signals handle with
  | some signal =>
    if signal.owner = c then
      ({ s with
          signals := Function.update s.signals handle
            (some { signal with waitCounter := waitCounter }) },
        numBlockingSignals + 1, signalRaised)
    else (s, numBlockingSignals, signalRaised)
  | none => (s, numBlockingSignals, signalRaised || handle.isValid)

/-- What `bio_loop` does after `mco_resume` returned from a coroutine that is not dead. -/
def suspend (s : Sched) (c : Handle) : Sched :=
  match s.coros c with
  | some coro =>
    let s := { s with phase := .pass }
    if coro.numBlockingSignals > 0 then s.setCoro c { coro with state := .waiting }
    else (s.setCoro c { coro with state := .ready }).pushReady c
  | none => { s with phase := .pass }

/-- `bio_wait_for_signals` in the coroutine `c`, up to the point where it returns or suspends. -/
def waitForSignals (s : Sched) (c : Handle) (signals : List Handle) (waitAll : Bool) : Sched :=
  match s.coros c with
  | some coro =>
    let waitCounter := coro.waitCounter + 1
    let s := s.setCoro c { coro with waitCounter := waitCounter }
    let (s, numBlockingSignals, signalRaised) :=
      signals.foldl (waitRound c waitCounter) (s, 0, false)
    if numBlockingSignals > 0 ∧ (waitAll ∨ ¬signalRaised) then
      (s.modifyCoro c fun coro =>
        { coro with
          numBlockingSignals := if waitAll then numBlockingSignals else 1 }).suspend c
    else s
  | none => s

/-- `bio_monitor` registers a monitor: both are live and the signal is not the target's own. -/
def canMonitor (s : Sched) (coro signal : Handle) : Bool :=
  match s.coros coro, s.signals signal with
  | some _, some signalImpl => signalImpl.owner ≠ coro
  | _, _ => false

/-- `bio_monitor`, with the handle that the new monitor gets. The result is the handle returned. -/
def monitor (s : Sched) (coro signal handle : Handle) : Sched × Handle :=
  if s.canMonitor coro signal then
    ({ s with
        monitors := Function.update s.monitors handle (some { target := coro, signal := signal })
        coros := Function.update s.coros coro ((s.coros coro).map fun impl =>
          { impl with monitors := impl.monitors ++ [handle] })
        issued := handle :: s.issued
        history := s.history ++ [.monitored handle coro signal] }, handle)
  else ((s.raiseSignal signal).1, Handle.invalid)

/-- `bio_unmonitor`. -/
def unmonitor (s : Sched) (ref : Handle) : Sched :=
  match s.monitors ref with
  | some monitor => (s.dropMonitor ref monitor).log (.unmonitored ref)
  | none => s

/-! ## The steps of `bio_loop` -/

/-- The loop picks the next coroutine of the pass and enters `mco_resume`. -/
def resume (s : Sched) (c : Handle) : Sched :=
  { s.modifyCoro c fun coro => { coro with state := .running, numBlockingSignals := 0 } with
    coroIndex := s.coroIndex + 1
    phase := .running c
    history := s.history ++ [.resumed c] }

/-- "Destroy all signals": the handle of one pending signal is closed, nobody is woken. -/
def destroySignal (s : Sched) (ref : Handle) : Sched :=
  match s.signals ref with
  | some signal => s.dropSignal ref signal
  | none => s

/-- "Trigger all monitors", for one of them. -/
def triggerMonitor (s : Sched) (ref : Handle) : Sched :=
  match s.monitors ref with
  | some monitor =>
    ((s.raiseSignal monitor.signal).1.dropMonitor ref monitor).log (.firedMonitor ref)
  | none => s

/-- "Destroy the coroutine". -/
def removeCoro (s : Sched) (c : Handle) : Sched :=
  match s.coros c with
  | some coro =>
    { s with
      coros := Function.update s.coros c none
      numCoros := s.numCoros - 1
      numDaemons := if coro.daemon then s.numDaemons - 1 else s.numDaemons
      phase := .pass
      history := s.history ++ [.terminated c] }
  | none => { s with phase := .pass }

/-- What `bio_loop` does with a dead coroutine after the cleanup of its local storage. -/
def destroyCoro (s : Sched) (c : Handle) : Sched :=
  match s.coros c with
  | some coro =>
    let s := coro.pendingSignals.foldl destroySignal s
    let s := coro.monitors.foldl triggerMonitor s
    s.removeCoro c
  | none => s.removeCoro c

/-- `should_terminate`. -/
def shouldTerminate (s : Sched) : Bool :=
  if s.isTerminating then s.numCoros = 0 else s.numCoros = s.numDaemons

/-- The end of the pass: the list is cleared, then the loop is left or goes on to the updates. -/
def endPass (s : Sched) : Sched :=
  { s with
    currentReadyCoros := []
    coroIndex := 0
    phase := if s.shouldTerminate then .outside else .polling }

/-- "Swap the coro lists". -/
def swap (s : Sched) : Sched :=
  { s with
    currentReadyCoros := s.nextReadyCoros
    nextReadyCoros := s.currentReadyCoros
    coroIndex := 0
    phase := .pass
    history := s.history ++ [.swapped] }

/-- The part of `bio_wait_for_exit` that turns its caller into a daemon. -/
def daemonize (s : Sched) (c : Handle) : Sched :=
  match s.coros c with
  | some coro =>
    if coro.daemon then s
    else { s.setCoro c { coro with daemon := true } with numDaemons := s.numDaemons + 1 }
  | none => s

end Sched

/-! ## The machine -/

/-- The calls of user code, the raises of the updates and the steps of the loop. A handle argument
that is issued by the call comes last. -/
inductive Action
  | spawn (daemon : Bool) (handle : Handle)
  | makeSignal (handle : Handle)
  | raise (ref : Handle)
  | monitor (coro signal handle : Handle)
  | unmonitor (ref : Handle)
  | yield
  | wait (signals : List Handle) (waitAll : Bool)
  | daemonize
  | finish
  | issue (handle : Handle)
  | terminate
  | enterLoop
  | resume
  | destroy
  | endPass
  | swap
deriving DecidableEq, Repr

namespace Sched

/-- When an action can happen. Any code may call `bio_raise_signal`, the updates included. -/
def enabled (s : Sched) : Action → Prop
  | .spawn _ handle => s.phase.userCode = true ∧ s.Fresh handle
  | .makeSignal handle => s.phase.mcoRunning.isSome = true ∧ s.Fresh handle
  | .raise _ => s.phase ≠ .pass
  | .monitor _ _ handle => s.phase.userCode = true ∧ s.Fresh handle
  | .unmonitor _ => s.phase.userCode = true
  | .yield => s.phase.mcoRunning.isSome = true
  | .wait _ _ => s.phase.mcoRunning.isSome = true
  | .daemonize => s.phase.mcoRunning.isSome = true
  | .finish => s.phase.mcoRunning.isSome = true
  | .issue handle => s.phase.userCode = true ∧ s.Fresh handle
  | .terminate => s.phase = .outside
  | .enterLoop => s.phase = .outside
  | .resume => s.phase = .pass ∧ s.coroIndex < s.currentReadyCoros.length
  | .destroy => s.phase.mcoDead.isSome = true
  | .endPass => s.phase = .pass ∧ s.currentReadyCoros.length ≤ s.coroIndex
  | .swap => s.phase = .polling

instance decidableEnabled (s : Sched) : ∀ a : Action, Decidable (s.enabled a)
  | .spawn _ handle | .monitor _ _ handle | .issue handle =>
    inferInstanceAs (Decidable (s.phase.userCode = true ∧ s.Fresh handle))
  | .makeSignal handle =>
    inferInstanceAs (Decidable (s.phase.mcoRunning.isSome = true ∧ s.Fresh handle))
  | .raise _ => inferInstanceAs (Decidable (s.phase ≠ .pass))
  | .unmonitor _ => inferInstanceAs (Decidable (s.phase.userCode = true))
  | .yield | .wait _ _ | .daemonize | .finish =>
    inferInstanceAs (Decidable (s.phase.mcoRunning.isSome = true))
  | .terminate | .enterLoop => inferInstanceAs (Decidable (s.phase = .outside))
  | .resume =>
    inferInstanceAs (Decidable (s.phase = .pass ∧ s.coroIndex < s.currentReadyCoros.length))
  | .destroy => inferInstanceAs (Decidable (s.phase.mcoDead.isSome = true))
  | .endPass =>
    inferInstanceAs (Decidable (s.phase = .pass ∧ s.currentReadyCoros.length ≤ s.coroIndex))
  | .swap => inferInstanceAs (Decidable (s.phase = .polling))

/-- The effect of an action in the coroutine that runs. -/
def inCoro (s : Sched) (f : Handle → Sched) : Sched :=
  match s.phase.mcoRunning with
  | some c => f c
  | none => s

/-- The effect of an action. -/
def perform (s : Sched) : Action → Sched
  | .spawn daemon handle => s.spawnEx daemon handle
  | .makeSignal handle => s.inCoro fun c => s.makeSignal c handle
  | .raise ref => (s.raiseSignal ref).1
  | .monitor coro signal handle => (s.monitor coro signal handle).1
  | .unmonitor ref => s.unmonitor ref
  | .yield => s.inCoro s.suspend
  | .wait signals waitAll => s.inCoro fun c => s.waitForSignals c signals waitAll
  | .daemonize => s.inCoro s.daemonize
  | .finish => s.inCoro fun c => { s with phase := .dying c }
  | .issue handle => { s with issued := handle :: s.issued }
  | .terminate => { s with isTerminating := true }
  | .enterLoop => { s with phase := .pass, coroIndex := 0 }
  | .resume =>
    match s.currentReadyCoros[s.coroIndex]? with
    | some c => s.resume c
    | none => s
  | .destroy =>
    match s.phase.mcoDead with
    | some c => s.destroyCoro c
    | none => s
  | .endPass => s.endPass
  | .swap => s.swap

/-- All runs of user code and `bio_loop` from `bio_init`. -/
def machine : Machine Sched Action where
  init := fun s => s = Sched.init
  enabled := enabled
  perform := perform

instance (s : Sched) (a : Action) : Decidable (machine.enabled s a) :=
  decidableEnabled s a

section InCoro

variable {s : Sched} {c : Handle}

theorem inCoro_eq {f : Handle → Sched} (hp : s.phase = .running c) : s.inCoro f = f c := by
  simp [inCoro, hp, Phase.mcoRunning]

theorem perform_makeSignal (hp : s.phase = .running c) (h : Handle) :
    machine.perform s (.makeSignal h) = s.makeSignal c h := inCoro_eq hp

theorem perform_yield (hp : s.phase = .running c) : machine.perform s .yield = s.suspend c :=
  inCoro_eq hp

theorem perform_wait (hp : s.phase = .running c) (signals : List Handle) (waitAll : Bool) :
    machine.perform s (.wait signals waitAll) = s.waitForSignals c signals waitAll := inCoro_eq hp

end InCoro

/-- The coroutines that will be resumed: the rest of the pass and the next one. -/
def readyQueue (s : Sched) : List Handle :=
  s.currentReadyCoros.drop s.coroIndex ++ s.nextReadyCoros

/-- What an enabled action does, with its guard spelled out. -/
inductive Effect (s : Sched) : Action → Sched → Prop
  | spawn {daemon : Bool} {h : Handle} :
      s.phase.userCode = true → s.Fresh h → Effect s (.spawn daemon h) (s.spawnEx daemon h)
  | makeSignal {c h : Handle} :
      s.phase = .running c → s.Fresh h → Effect s (.makeSignal h) (s.makeSignal c h)
  | raise {ref : Handle} : s.phase ≠ .pass → Effect s (.raise ref) (s.raiseSignal ref).1
  | monitor {coro signal h : Handle} :
      s.phase.userCode = true → s.Fresh h →
      Effect s (.monitor coro signal h) (s.monitor coro signal h).1
  | unmonitor {ref : Handle} :
      s.phase.userCode = true → Effect s (.unmonitor ref) (s.unmonitor ref)
  | yield {c : Handle} : s.phase = .running c → Effect s .yield (s.suspend c)
  | wait {c : Handle} {signals : List Handle} {waitAll : Bool} :
      s.phase = .running c →
      Effect s (.wait signals waitAll) (s.waitForSignals c signals waitAll)
  | daemonize {c : Handle} : s.phase = .running c → Effect s .daemonize (s.daemonize c)
  | finish {c : Handle} : s.phase = .running c → Effect s .finish { s with phase := .dying c }
  | issue {h : Handle} :
      s.phase.userCode = true → s.Fresh h → Effect s (.issue h) { s with issued := h :: s.issued }
  | terminate : s.phase = .outside → Effect s .terminate { s with isTerminating := true }
  | enterLoop : s.phase = .outside → Effect s .enterLoop { s with phase := .pass, coroIndex := 0 }
  | resume {c : Handle} :
      s.phase = .pass → s.currentReadyCoros[s.coroIndex]? = some c → Effect s .resume (s.resume c)
  | destroy {c : Handle} : s.phase = .dying c → Effect s .destroy (s.destroyCoro c)
  | endPass :
      s.phase = .pass → s.currentReadyCoros.length ≤ s.coroIndex → Effect s .endPass s.endPass
  | swap : s.phase = .polling → Effect s .swap s.swap

theorem Effect.of_enabled {s : Sched} {a : Action} (he : s.enabled a) : Effect s a (s.perform a) := by
  have hrunning : s.phase.mcoRunning.isSome = true → ∃ c, s.phase = .running c := by
    cases s.phase <;> simp [Phase.mcoRunning]
  cases a with
  | spawn daemon h => exact .spawn he.1 he.2
  | makeSignal h =>
    obtain ⟨c, hc⟩ := hrunning he.1
    rw [perform, inCoro_eq hc]
    exact .makeSignal hc he.2
  | raise ref => exact .raise he
  | monitor coro signal h => exact .monitor he.1 he.2
  | unmonitor ref => exact .unmonitor he
  | yield =>
    obtain ⟨c, hc⟩ := hrunning he
    rw [perform, inCoro_eq hc]
    exact .yield hc
  | wait signals waitAll =>
    obtain ⟨c, hc⟩ := hrunning he
    rw [perform, inCoro_eq hc]
    exact .wait hc
  | daemonize =>
    obtain ⟨c, hc⟩ := hrunning he
    rw [perform, inCoro_eq hc]
    exact .daemonize hc
  | finish =>
    obtain ⟨c, hc⟩ := hrunning he
    rw [perform, inCoro_eq hc]
    exact .finish hc
  | issue h => exact .issue he.1 he.2
  | terminate => exact .terminate he
  | enterLoop => exact .enterLoop he
  | resume =>
    have hc := List.getElem?_eq_getElem he.2
    rw [perform, hc]
    exact .resume he.1 hc
  | destroy =>
    obtain ⟨c, hc⟩ : ∃ c, s.phase = .dying c := by
      have hdead : s.phase.mcoDead.isSome = true := he
      revert hdead
      cases s.phase <;> simp [Phase.mcoDead]
    rw [perform, hc]
    exact .destroy hc
  | endPass => exact .endPass he.1 he.2
  | swap => exact .swap he

theorem Effect.of_step {s : Sched} {a : Action} (he : machine.enabled s a) :
    Effect s a (machine.perform s a) := Effect.of_enabled he

end Sched

end Bio
