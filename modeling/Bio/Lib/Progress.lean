import Mathlib.Logic.Function.Iterate

/-!
# A process that runs alone

A process is a guard `can` and a step. `Leads` says that it gets to a goal on its own, when nobody else
changes its state: it is never blocked on the way.

* `Leads.now`, `Leads.next`: the goal is reached, or it is after one step.
* `Leads.of_rank`: the rule for loops. Outside the goal the process can go on, keeps an invariant and
  comes closer.
-/

variable {S : Type*}

/-- The process is at the goal after some number of steps, and it can take each of them. -/
def Leads (can : S → Prop) (step : S → S) (goal : S → Prop) (s : S) : Prop :=
  ∃ k, (∀ j < k, can (step^[j] s)) ∧ goal (step^[k] s)

namespace Leads

variable {can : S → Prop} {step : S → S} {goal : S → Prop} {s : S}

theorem now (h : goal s) : Leads can step goal s :=
  ⟨0, fun _ hj => absurd hj (Nat.not_lt_zero _), h⟩

theorem next (hcan : can s) (h : Leads can step goal (step s)) : Leads can step goal s := by
  obtain ⟨k, hpath, hgoal⟩ := h
  refine ⟨k + 1, fun j hj => ?_, hgoal⟩
  cases j with
  | zero => exact hcan
  | succ j => exact hpath j (Nat.lt_of_succ_lt_succ hj)

/-- What holds and is kept outside the goal, with a rank that decreases there, leads to the goal. -/
theorem of_rank {P : S → Prop} (rank : S → Nat)
    (h : ∀ s, P s → goal s ∨ can s ∧ P (step s) ∧ rank (step s) < rank s) (hs : P s) :
    Leads can step goal s := by
  induction hr : rank s using Nat.strongRecOn generalizing s with
  | ind r ih =>
    subst hr
    rcases h s hs with hgoal | ⟨hcan, hkept, hlt⟩
    · exact now hgoal
    · exact next hcan (ih _ hlt hkept rfl)

end Leads
