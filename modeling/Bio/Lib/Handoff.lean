import Mathlib.Logic.Function.Basic
import Mathlib.Tactic.Common

/-!
# Two threads that sleep and signal each other

A protocol between two threads, `true` and `false`. Each has a mutex and a condition under which it
is blocked. A thread looks at its condition under its own mutex and sleeps if it is blocked, which
releases the mutex. A thread changes the shared state without any mutex, and signals the other
thread under the mutex of that one, but only if that one was blocked before the change.

`Ok.move`: no signal is lost. A thread that sleeps, or that has decided to, is blocked, or the other
thread is about to signal it.
-/

namespace Handoff

/-- Where a thread is. -/
inductive Stance
  /-- it holds no mutex -/
  | away
  /-- it holds its mutex -/
  | holds
  /-- it holds its mutex and is about to sleep -/
  | decided
  | asleep
  /-- it has changed the shared state and is about to signal -/
  | raises
  /-- it holds the mutex of the other thread and is about to signal -/
  | signals
  /-- it holds the mutex of the other thread and has signalled -/
  | signalled
deriving DecidableEq

namespace Stance

@[simp] def holdsOwn : Stance → Bool
  | .holds | .decided => true
  | _ => false

@[simp] def holdsOther : Stance → Bool
  | .signals | .signalled => true
  | _ => false

@[simp] def drowsy : Stance → Bool
  | .decided | .asleep => true
  | _ => false

@[simp] def raising : Stance → Bool
  | .raises | .signals => true
  | _ => false

/-- A signal wakes a thread that sleeps. -/
@[simp] def wake : Stance → Stance
  | .asleep => .away
  | x => x

end Stance

/-- The mutex of a thread is free or has a holder. -/
structure State where
  stance : Bool → Stance
  mutex : Bool → Option Bool
  blocked : Bool → Bool

variable {s s' : State} {p : Bool}

/-- What the thread `p` can do. -/
inductive Move (p : Bool) (s : State) : State → Prop
  | stay : Move p s s
  | lock : s.stance p = .away → s.mutex p = none → Move p s
      { s with
        stance := Function.update s.stance p .holds
        mutex := Function.update s.mutex p (some p) }
  | decide : s.stance p = .holds → s.blocked p = true →
      Move p s { s with stance := Function.update s.stance p .decided }
  | sleep : s.stance p = .decided → Move p s
      { s with
        stance := Function.update s.stance p .asleep
        mutex := Function.update s.mutex p none }
  | unlock : s.stance p = .holds → Move p s
      { s with
        stance := Function.update s.stance p .away
        mutex := Function.update s.mutex p none }
  | wake : s.stance p = .asleep →
      Move p s { s with stance := Function.update s.stance p .away }
  | change (blocked : Bool → Bool) : s.stance p = .away → Move p s
      { s with
        stance := Function.update s.stance p (if s.blocked (!p) then .raises else .away)
        blocked := blocked }
  | lockOther : s.stance p = .raises → s.mutex (!p) = none → Move p s
      { s with
        stance := Function.update s.stance p .signals
        mutex := Function.update s.mutex (!p) (some p) }
  | signal : s.stance p = .signals → Move p s
      { s with
        stance := Function.update (Function.update s.stance (!p) (s.stance (!p)).wake) p
          .signalled }
  | unlockOther : s.stance p = .signalled → Move p s
      { s with
        stance := Function.update s.stance p .away
        mutex := Function.update s.mutex (!p) none }

/-- A move is known by what it leaves of each thread. -/
theorem Move.of_eq {t : State} (hm : Move p s s') (hs : ∀ q, t.stance q = s'.stance q)
    (hmtx : ∀ q, t.mutex q = s'.mutex q) (hb : ∀ q, t.blocked q = s'.blocked q) : Move p s t := by
  obtain ⟨stance, mutex, blocked⟩ := t
  obtain rfl : stance = s'.stance := funext hs
  obtain rfl : mutex = s'.mutex := funext hmtx
  obtain rfl : blocked = s'.blocked := funext hb
  exact hm

/-- What holds of the thread `p` and its mutex. -/
structure OkFor (s : State) (p : Bool) : Prop where
  own : s.mutex p = some p ↔ (s.stance p).holdsOwn = true
  other : s.mutex p = some (!p) ↔ (s.stance (!p)).holdsOther = true
  wake : (s.stance p).drowsy = true → s.blocked p = false → (s.stance (!p)).raising = true

/-- The mutexes are held by the threads that say so, and no signal is lost. -/
def Ok (s : State) : Prop := ∀ p, OkFor s p

theorem Ok.both (p : Bool) (h : OkFor s p) (h' : OkFor s (!p)) : Ok s := by
  intro q
  by_cases hq : q = p
  · exact hq ▸ h
  · exact Bool.eq_not_of_ne hq ▸ h'

theorem Ok.move (h : Ok s) (hm : Move p s s') : Ok s' := by
  have hne : (!p) ≠ p := by cases p <;> decide
  obtain ⟨hown, hother, hwake⟩ := h p
  obtain ⟨hown', hother', hwake'⟩ := h (!p)
  rw [Bool.not_not] at hother' hwake'
  cases hm with
  | stay => exact h
  | change blocked hs =>
    -- The other thread is drowsy only if it was blocked, and then `p` goes on to signal it.
    cases hb : s.blocked (!p) <;> refine Ok.both p ⟨?_, ?_, ?_⟩ ⟨?_, ?_, ?_⟩ <;> simp_all
  | signal hs =>
    -- The mutex keeps the other thread out of the moment before its sleep.
    cases hq : s.stance (!p) <;> refine Ok.both p ⟨?_, ?_, ?_⟩ ⟨?_, ?_, ?_⟩ <;> simp_all
  | _ => refine Ok.both p ⟨?_, ?_, ?_⟩ ⟨?_, ?_, ?_⟩ <;> simp_all

end Handoff
