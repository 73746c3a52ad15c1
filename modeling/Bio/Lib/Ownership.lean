import Bio.Lib.Table
import Mathlib.Order.BooleanAlgebra.Set

/-!
# Resources with one owner

Each owner holds at most one resource. `Exclusive holds live` says that only live resources are held, each
by one owner, and `Complete holds live` that no live resource is lost.

* `acquire`: a resource that was not live goes to an owner that held none.
* `transfer`: a resource goes from one owner to another.
* `release`: the resource of an owner is not live any more.
* `drop`: an owner forgets its resource, which is then lost.
-/

namespace Ownership

variable {O R : Type*}

/-- Only live resources are held, each by one owner. -/
structure Exclusive (holds : O → Option R) (live : Set R) : Prop where
  live : ∀ o r, holds o = some r → r ∈ live
  unique : ∀ o o' r, holds o = some r → holds o' = some r → o = o'

/-- Every live resource is held. -/
def Complete (holds : O → Option R) (live : Set R) : Prop := ∀ r ∈ live, ∃ o, holds o = some r

theorem exclusive_empty : Exclusive (fun _ : O => none) (∅ : Set R) := ⟨nofun, nofun⟩

theorem complete_empty (holds : O → Option R) : Complete holds ∅ := nofun

variable [DecidableEq O] {holds : O → Option R} {live : Set R} {o o' : O} {r : R}

namespace Exclusive

theorem acquire (h : Exclusive holds live) (hr : r ∉ live) :
    Exclusive (Function.update holds o (some r)) (insert r live) := by
  refine ⟨fun x q hq => ?_, fun x y q hx hy => ?_⟩
  · rcases Table.update_some hq with ⟨_, heq⟩ | ⟨_, hold⟩
    · exact .inl (Option.some.inj heq).symm
    · exact .inr (h.live x q hold)
  · rcases Table.update_some hx with ⟨rfl, heq⟩ | ⟨_, hx⟩
    · rcases Table.update_some hy with ⟨rfl, _⟩ | ⟨_, hy⟩
      · rfl
      · exact absurd (h.live y q hy) (Option.some.inj heq ▸ hr)
    · rcases Table.update_some hy with ⟨_, heq⟩ | ⟨_, hy⟩
      · exact absurd (h.live x q hx) (Option.some.inj heq ▸ hr)
      · exact h.unique x y q hx hy

theorem drop (h : Exclusive holds live) : Exclusive (Function.update holds o none) live := by
  have hold : ∀ {x q}, Function.update holds o none x = some q → holds x = some q := fun hq =>
    (Table.erase_some hq).2
  exact ⟨fun x q hq => h.live x q (hold hq), fun x y q hx hy => h.unique x y q (hold hx) (hold hy)⟩

theorem release (h : Exclusive holds live) (ho : holds o = some r) :
    Exclusive (Function.update holds o none) (live \ {r}) := by
  refine ⟨fun x q hq => ?_, h.drop.unique⟩
  obtain ⟨hne, hold⟩ := Table.erase_some hq
  refine ⟨h.live x q hold, ?_⟩
  rintro rfl
  exact hne (h.unique x o q hold ho)

theorem transfer (h : Exclusive holds live) (ho : holds o = some r) :
    Exclusive (Function.update (Function.update holds o none) o' (some r)) live := by
  have hback := (h.release ho).acquire (o := o') (r := r) (by simp)
  rwa [Set.insert_sdiff_singleton, Set.insert_eq_of_mem (h.live o r ho)] at hback

end Exclusive

namespace Complete

theorem acquire (h : Complete holds live) (ho : holds o = none) :
    Complete (Function.update holds o (some r)) (insert r live) := by
  rintro q (rfl | hq)
  · exact ⟨o, Function.update_self ..⟩
  · obtain ⟨x, hx⟩ := h q hq
    refine ⟨x, ?_⟩
    rw [Function.update_of_ne fun heq => ?_, hx]
    rw [heq, ho] at hx
    cases hx

theorem release (h : Complete holds live) (ho : holds o = some r) :
    Complete (Function.update holds o none) (live \ {r}) := by
  rintro q ⟨hq, hne⟩
  obtain ⟨x, hx⟩ := h q hq
  refine ⟨x, ?_⟩
  rw [Function.update_of_ne fun heq => ?_, hx]
  rw [heq, ho] at hx
  exact hne (Option.some.inj hx).symm

theorem transfer (h : Complete holds live) (ho : holds o = some r) (ho' : o' ≠ o → holds o' = none) :
    Complete (Function.update (Function.update holds o none) o' (some r)) live := by
  have hback := (h.release ho).acquire (o := o') (r := r) (by
    rw [Function.update_apply]
    split
    · rfl
    · next hne => exact ho' hne)
  intro q hq
  exact hback q (by
    rcases eq_or_ne q r with rfl | hne
    · exact Set.mem_insert _ _
    · exact .inr ⟨hq, hne⟩)

end Complete

/-- An owner that forgets its resource loses it. -/
theorem Exclusive.lost (h : Exclusive holds live) (ho : holds o = some r) :
    ¬Complete (Function.update holds o none) live := by
  intro hcomplete
  obtain ⟨x, hx⟩ := hcomplete r (h.live o r ho)
  obtain ⟨hne, hold⟩ := Table.erase_some hx
  exact hne (h.unique x o r hold ho)

end Ownership
