import Bio.SchedulerLocal
import Mathlib.Data.Finset.Basic

/-!
# Exit signals

`bio_wait_for_exit`, `bio_handle_exit_signal` and `bio_terminate` of `src/bio.c`, and the two functions
of `src/linux/platform.c` that block and unblock the signals, on top of the scheduler.

* `exit_info` is a local variable of a call of `bio_wait_for_exit`, and `exit_handlers` has pointers to
  such variables: the coroutine and the number of the call. Nothing in the definitions checks that the
  call is still there, but for the number.
* Any coroutine may wait, any number of times. `bio_handle_exit_signal` is called wherever completions
  are drained: in the updates, and where a coroutine asks for an entry of the submission ring.
  `bio_platform_poll_signal` does that too. There is no handler then, so what is dispatched there comes
  before the call.
* `calls`, `toggles`, `dispatched` and `returned` are ghosts: the number of the next call, the calls that
  block and unblock, the reason that each call was woken with, and the reason that it returned.
-/

namespace Bio

/-- `bio_exit_reason_t`. -/
inductive ExitReason
  | osRequest | terminate
deriving DecidableEq, Repr

/-- `bio_exit_info_t`, and the call that it is a variable of. -/
structure ExitInfo where
  call : Nat
  signal : Handle
  reason : ExitReason
deriving DecidableEq, Repr

/-- The calls that change the signal mask. -/
inductive Toggle
  | block | unblock
deriving DecidableEq, Repr

/-- `SIGINT` and `SIGTERM`. -/
def exitSignals : Finset Nat := {2, 15}

structure ExitState where
  sched : Sched
  /-- the calls of `bio_wait_for_exit`, by their coroutine -/
  infos : Handle → Option ExitInfo
  exitHandlers : List (Handle × Nat)
  sigmask : Finset Nat
  oldSigmask : Finset Nat
  calls : Nat
  toggles : List Toggle
  dispatched : List (Nat × ExitReason)
  returned : List (Nat × ExitReason)

namespace ExitState

def setInfo (s : ExitState) (c : Handle) (info : Option ExitInfo) : ExitState :=
  { s with infos := Function.update s.infos c info }

/-- `bio_platform_block_exit_signal`. -/
def blockExitSignal (s : ExitState) : ExitState :=
  { s with
    oldSigmask := s.sigmask
    sigmask := s.sigmask ∪ exitSignals
    toggles := s.toggles ++ [.block] }

/-- `bio_platform_unblock_exit_signal`. -/
def unblockExitSignal (s : ExitState) : ExitState :=
  { s with sigmask := s.oldSigmask, toggles := s.toggles ++ [.unblock] }

/-- One round of the loop of `bio_dispatch_exit_signal`. -/
def wake (reason : ExitReason) (s : ExitState) (handler : Handle × Nat) : ExitState :=
  match s.infos handler.1 with
  | some info =>
    if info.call = handler.2 then
      { s.setInfo handler.1 (some { info with reason := reason }) with
        sched := (s.sched.raiseSignal info.signal).1
        dispatched := s.dispatched ++ [(handler.2, reason)] }
    else s
  | none => s

/-- `bio_dispatch_exit_signal`. -/
def dispatchExitSignal (s : ExitState) (reason : ExitReason) : ExitState :=
  let numHandlers := s.exitHandlers.length
  let s := { s.exitHandlers.foldl (wake reason) s with exitHandlers := [] }
  if numHandlers > 0 then s.unblockExitSignal else s

/-- `bio_wait_for_exit` in the coroutine `c`, up to its wait. -/
def wait (s : ExitState) (c signal : Handle) : ExitState :=
  let s := if s.exitHandlers.length = 0 then s.blockExitSignal else s
  { s.setInfo c (some ⟨s.calls, signal, .osRequest⟩) with
    exitHandlers := s.exitHandlers ++ [(c, s.calls)]
    sched := ((s.sched.makeSignal c signal).daemonize c).waitForSignals c [signal] true
    calls := s.calls + 1 }

/-- `bio_wait_for_exit` up to its wait, or with the reason that it returns at once. -/
def waitForExit (s : ExitState) (signal : Handle) : ExitState × Option ExitReason :=
  match s.sched.phase.mcoRunning with
  | some c => if s.sched.isTerminating then (s, some .terminate) else (s.wait c signal, none)
  | none => (s, some .terminate)

/-- `bio_wait_for_exit` returns from its wait. -/
def returnExit (s : ExitState) (c : Handle) : ExitState :=
  match s.infos c with
  | some info => { s.setInfo c none with returned := s.returned ++ [(info.call, info.reason)] }
  | none => s

/-- `bio_terminate` up to its first cleanup. -/
def terminate (s : ExitState) : ExitState :=
  { s with sched := s.sched.perform .terminate }.dispatchExitSignal .terminate

/-- The coroutine that runs is inside `bio_wait_for_exit`. -/
def busy (s : ExitState) : Bool := s.sched.phase.mcoRunning.any fun c => (s.infos c).isSome

/-- A live signal of a call of `bio_wait_for_exit`. -/
def isLocal (s : ExitState) (h : Handle) : Bool :=
  (s.sched.ownerOf h).any fun c => (s.infos c).any fun info => info.signal = h

end ExitState

inductive ExitAction
  /-- the rest of the program -/
  | sched (a : Action)
  | waitForExit (signal : Handle)
  | returnExit
  /-- `bio_handle_exit_signal` -/
  | handleExitSignal
  | terminate
deriving DecidableEq, Repr

namespace ExitState

def enabled (s : ExitState) : ExitAction → Prop
  | .sched a => s.sched.enabled a ∧ a ≠ .terminate ∧ s.busy = false ∧
      ∀ h ∈ a.signals, s.isLocal h = false
  | .waitForExit signal => s.sched.phase.userCode = true ∧ s.busy = false ∧ s.sched.Fresh signal ∧
      s.sched.phase.mcoRunning.all (fun c => s.sched.CanCount c) = true
  | .returnExit => s.busy = true
  | .handleExitSignal => s.sched.phase ≠ .pass
  | .terminate => s.sched.phase = .outside ∧ s.sched.isTerminating = false

def perform (s : ExitState) : ExitAction → ExitState
  | .sched a => { s with sched := s.sched.perform a }
  | .waitForExit signal => (s.waitForExit signal).1
  | .returnExit =>
    match s.sched.phase.mcoRunning with
    | some c => s.returnExit c
    | none => s
  | .handleExitSignal => s.dispatchExitSignal .osRequest
  | .terminate => s.terminate

/-- `bio_init`, in a program with that signal mask. -/
def init (sigmask : Finset Nat) : ExitState where
  sched := Sched.init
  infos := fun _ => none
  exitHandlers := []
  sigmask := sigmask
  oldSigmask := ∅
  calls := 0
  toggles := []
  dispatched := []
  returned := []

/-- All interleavings of coroutines that wait, exit signals and one `bio_terminate`. The program does not
change its signal mask in between. -/
def machine (sigmask : Finset Nat) : Machine ExitState ExitAction where
  init := fun s => s = init sigmask
  enabled := enabled
  perform := perform

instance (sigmask : Finset Nat) (s : ExitState) : ∀ a, Decidable ((machine sigmask).enabled s a)
  | .sched a => inferInstanceAs (Decidable (s.sched.enabled a ∧ a ≠ .terminate ∧ s.busy = false ∧
      ∀ h ∈ a.signals, s.isLocal h = false))
  | .waitForExit signal => inferInstanceAs (Decidable (s.sched.phase.userCode = true ∧
      s.busy = false ∧ s.sched.Fresh signal ∧
      s.sched.phase.mcoRunning.all (fun c => s.sched.CanCount c) = true))
  | .returnExit => inferInstanceAs (Decidable (s.busy = true))
  | .handleExitSignal => inferInstanceAs (Decidable (s.sched.phase ≠ .pass))
  | .terminate => inferInstanceAs (Decidable (s.sched.phase = .outside ∧
      s.sched.isTerminating = false))

end ExitState

end Bio
