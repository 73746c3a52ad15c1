import Mathlib.Logic.Function.Basic

/-!
# Tables

A table gives the entry of a key, if there is one. What is found after an update is the new entry under its
key, or an old one under another key.
-/

namespace Table

variable {α β : Type*} [DecidableEq α] {t : α → Option β} {a x : α} {v : Option β} {y z : β}

theorem update_some (h : Function.update t a v x = some y) :
    (x = a ∧ v = some y) ∨ (x ≠ a ∧ t x = some y) := by
  rw [Function.update_apply] at h
  split at h
  · next heq => exact .inl ⟨heq, h⟩
  · next hne => exact .inr ⟨hne, h⟩

theorem insert_some (h : Function.update t a (some z) x = some y) :
    (x = a ∧ y = z) ∨ (x ≠ a ∧ t x = some y) :=
  (update_some h).imp_left fun hnew => ⟨hnew.1, (Option.some.inj hnew.2).symm⟩

theorem erase_some (h : Function.update t a none x = some y) : x ≠ a ∧ t x = some y :=
  (update_some h).resolve_left fun hnew => nomatch hnew.2

/-- A change of an entry that is there leaves the same keys. -/
theorem update_map_eq_none {f : β → β} (x : α) :
    Function.update t a ((t a).map f) x = none ↔ t x = none := by
  rcases eq_or_ne x a with rfl | hx
  · rw [Function.update_self, Option.map_eq_none_iff]
  · rw [Function.update_of_ne hx]

end Table
