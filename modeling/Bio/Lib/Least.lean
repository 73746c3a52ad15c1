import Mathlib.Order.Basic
import Mathlib.Order.Lattice
import Mathlib.Tactic.Common

/-!
# The first of the least

A scan over the indices below `n` that keeps an index only for a smaller value ends with the first index
of the least value.
-/

section

variable {α : Type*} [LinearOrder α]

/-- `i` is the first index below `n` with the least value. -/
structure FirstLeast (w : Nat → α) (n i : Nat) : Prop where
  lt : i < n
  le : ∀ j < n, w i ≤ w j
  first : ∀ j < i, w i < w j

namespace FirstLeast

variable {w w' : Nat → α} {n i j : Nat}

/-- There is only one. -/
theorem unique (hi : FirstLeast w n i) (hj : FirstLeast w n j) : i = j := by
  rcases Nat.lt_trichotomy i j with h | h | h
  · exact absurd (hj.first i h) (not_lt_of_ge (hi.le j hj.lt))
  · exact h
  · exact absurd (hi.first j h) (not_lt_of_ge (hj.le i hi.lt))

/-- An index with a value that is not greater comes later. -/
theorem lt_of_ne (hi : FirstLeast w n i) (hle : w j ≤ w i) (hne : j ≠ i) : i < j := by
  by_contra hlt
  exact absurd (hi.first j (by omega)) (not_lt_of_ge hle)

theorem zero (w : Nat → α) : FirstLeast w 1 0 where
  lt := Nat.one_pos
  le := fun j hj => by rw [Nat.lt_one_iff.mp hj]
  first := fun j hj => absurd hj (Nat.not_lt_zero j)

/-- The scan takes a smaller value. -/
theorem take (hi : FirstLeast w n i) (hlt : w n < w i) : FirstLeast w (n + 1) n where
  lt := Nat.lt_succ_self n
  le := fun j hj => by
    rcases Nat.lt_succ_iff_lt_or_eq.mp hj with h | rfl
    · exact (lt_of_lt_of_le hlt (hi.le j h)).le
    · exact le_refl _
  first := fun j hj => lt_of_lt_of_le hlt (hi.le j hj)

/-- The scan leaves a value that is not smaller. -/
theorem keep (hi : FirstLeast w n i) (hle : w i ≤ w n) : FirstLeast w (n + 1) i where
  lt := Nat.lt_succ_of_lt hi.lt
  le := fun j hj => by
    rcases Nat.lt_succ_iff_lt_or_eq.mp hj with h | rfl
    · exact hi.le j h
    · exact hle
  first := hi.first

/-- Only the values below `n` matter. -/
theorem congr (hi : FirstLeast w n i) (h : ∀ j < n, w' j = w j) : FirstLeast w' n i where
  lt := hi.lt
  le := fun j hj => by
    rw [h i hi.lt, h j hj]
    exact hi.le j hj
  first := fun j hj => by
    rw [h i hi.lt, h j (Nat.lt_trans hj hi.lt)]
    exact hi.first j hj

end FirstLeast

end
