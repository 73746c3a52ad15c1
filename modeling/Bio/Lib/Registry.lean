import Mathlib.Logic.Function.Basic
import Mathlib.Data.List.Nodup

/-!
# Items filed under owners

An item names its owner (`own`), an owner keeps a list of its items (`lists`). `Filed own lists`
says that the two agree: an item is in the list of its owner and in no other one, once.

Items come and go one by one (`Filed.add` and `Filed.remove`, from `Filed.refile`), owners come and go with
an empty list (`Filed.addOwner`, `Filed.removeOwner`).
-/

variable {α β : Type*}

/-- The owners of the items and the lists of the owners agree. -/
structure Filed (own : α → Option β) (lists : β → Option (List α)) : Prop where
  mem : ∀ x b, own x = some b → ∃ l, lists b = some l ∧ x ∈ l
  own : ∀ b l, lists b = some l → ∀ x, x ∈ l → own x = some b
  nodup : ∀ b l, lists b = some l → l.Nodup

namespace Filed

variable {own : α → Option β} {lists : β → Option (List α)}

theorem empty : Filed (fun _ : α => none) (fun _ : β => none) :=
  ⟨nofun, nofun, nofun⟩

variable [DecidableEq α] [DecidableEq β]

/-- One item gets another owner, or none, and one list another content, so that they agree again. -/
theorem refile (hf : Filed own lists) {x : α} {b : β} {l l' : List α} {o : Option β} (hl : lists b = some l)
    (ho : ∀ b', o = some b' → b' = b) (hx : ∀ b', own x = some b' → b' = b)
    (hmem : ∀ y, y ∈ l' ↔ if y = x then o = some b else y ∈ l) (hnodup : l'.Nodup) :
    Filed (Function.update own x o) (Function.update lists b (some l')) := by
  have hkept : ∀ {y}, y ≠ x → (y ∈ l' ↔ y ∈ l) := fun {y} hyx => by rw [hmem, if_neg hyx]
  refine ⟨fun y b' hy => ?_, fun b' l'' hl'' y hin => ?_, fun b' l'' hl'' => ?_⟩
  · rcases eq_or_ne y x with rfl | hyx
    · rw [Function.update_self] at hy
      obtain rfl := ho b' hy
      exact ⟨l', Function.update_self .., (hmem y).mpr ((if_pos rfl).symm ▸ hy)⟩
    · rw [Function.update_of_ne hyx] at hy
      obtain ⟨l'', hl'', hin⟩ := hf.mem y b' hy
      rcases eq_or_ne b' b with rfl | hbb
      · obtain rfl := Option.some.inj (hl.symm.trans hl'')
        exact ⟨l', Function.update_self .., (hkept hyx).mpr hin⟩
      · exact ⟨l'', by rwa [Function.update_of_ne hbb], hin⟩
  · rcases eq_or_ne b' b with rfl | hbb
    · rw [Function.update_self] at hl''
      cases hl''
      rcases eq_or_ne y x with rfl | hyx
      · rw [Function.update_self]
        simpa using (hmem y).mp hin
      · rw [Function.update_of_ne hyx]
        exact hf.own b' l hl y ((hkept hyx).mp hin)
    · rw [Function.update_of_ne hbb] at hl''
      have hy := hf.own b' l'' hl'' y hin
      have hyx : y ≠ x := by
        rintro rfl
        exact hbb (hx b' hy)
      rwa [Function.update_of_ne hyx]
  · rcases eq_or_ne b' b with rfl | hbb
    · rw [Function.update_self] at hl''
      cases hl''
      exact hnodup
    · rw [Function.update_of_ne hbb] at hl''
      exact hf.nodup b' l'' hl''

theorem add (hf : Filed own lists) {x : α} {b : β} {l : List α} (hx : own x = none)
    (hl : lists b = some l) :
    Filed (Function.update own x (some b)) (Function.update lists b (some (l ++ [x]))) := by
  have hnot : x ∉ l := fun hin => by
    rw [hf.own b l hl x hin] at hx
    cases hx
  refine hf.refile hl (fun b' hb' => (Option.some.inj hb').symm) (fun b' hb' => ?_) (fun y => ?_) ?_
  · rw [hx] at hb'
    cases hb'
  · rw [List.mem_append, List.mem_singleton]
    split
    · next heq => simp [heq]
    · next hne => simp [hne]
  · exact (hf.nodup b l hl).append (List.nodup_singleton x) (by simpa using hnot)

theorem remove (hf : Filed own lists) {x : α} {b : β} (hx : own x = some b) :
    Filed (Function.update own x none)
      (Function.update lists b ((lists b).map fun l => l.erase x)) := by
  obtain ⟨l, hl, _⟩ := hf.mem x b hx
  have hnodup := hf.nodup b l hl
  rw [hl, Option.map_some]
  refine hf.refile hl (by simp) (fun b' hb' => Option.some.inj (hb'.symm.trans hx)) (fun y => ?_)
    (hnodup.erase x)
  rw [hnodup.mem_erase_iff]
  split
  · next heq => simp [heq]
  · next hne => simp [hne]

omit [DecidableEq α] in
theorem addOwner (hf : Filed own lists) {b : β} (hb : lists b = none) :
    Filed own (Function.update lists b (some [])) := by
  refine ⟨fun y b' hy => ?_, fun b' l' hl' y hin => ?_, fun b' l' hl' => ?_⟩
  · obtain ⟨l', hl', hin⟩ := hf.mem y b' hy
    have hbb : b' ≠ b := by
      rintro rfl
      rw [hb] at hl'
      cases hl'
    exact ⟨l', by rw [Function.update_of_ne hbb]; exact hl', hin⟩
  · rw [Function.update_apply] at hl'
    split at hl'
    · cases hl'
      exact absurd hin List.not_mem_nil
    · exact hf.own b' l' hl' y hin
  · rw [Function.update_apply] at hl'
    split at hl'
    · cases hl'
      exact List.nodup_nil
    · exact hf.nodup b' l' hl'

omit [DecidableEq α] in
theorem removeOwner (hf : Filed own lists) {b : β} (hb : lists b = some []) :
    Filed own (Function.update lists b none) := by
  refine ⟨fun y b' hy => ?_, fun b' l' hl' y hin => ?_, fun b' l' hl' => ?_⟩
  · obtain ⟨l', hl', hin⟩ := hf.mem y b' hy
    have hbb : b' ≠ b := by
      rintro rfl
      rw [hb] at hl'
      cases hl'
      exact absurd hin List.not_mem_nil
    exact ⟨l', by rw [Function.update_of_ne hbb]; exact hl', hin⟩
  · rw [Function.update_apply] at hl'
    split at hl'
    · cases hl'
    · exact hf.own b' l' hl' y hin
  · rw [Function.update_apply] at hl'
    split at hl'
    · cases hl'
    · exact hf.nodup b' l' hl'

end Filed
