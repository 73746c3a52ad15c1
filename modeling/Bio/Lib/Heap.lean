import Mathlib.Data.Multiset.Range
import Mathlib.Data.Multiset.MapFold
import Mathlib.Logic.Equiv.Basic
import Mathlib.Order.Basic
import Mathlib.Tactic.Common

/-!
# Binary heaps in an array

A heap is the first `n` slots of an array. The slots are compared by a key, and the two repairs move
one value along a path of the tree by swaps: `siftUp` to the root, `siftDown` to the leaves.

* `Ordered`: no key is smaller than that of the parent. `Ordered.root_le` is the least key.
* `contents`: what the first `n` slots hold, as a multiset. The repairs keep it.
* `push`, `popRoot`: a value is added behind the last slot, the root is replaced by the last slot.
-/

namespace Heap

variable {α κ : Type*} [LinearOrder κ] (key : α → κ)

/-- The parent of a slot. -/
def parent (i : Nat) : Nat := (i - 1) / 2

/-- Two slots exchange their values. -/
def swap (slots : Nat → α) (i j : Nat) : Nat → α :=
  Function.update (Function.update slots i (slots j)) j (slots i)

theorem parent_lt {i : Nat} (h : 0 < i) : parent i < i := by
  unfold parent
  omega

/-- The value in slot `i` moves up while its key is smaller than that of the parent. -/
def siftUp (slots : Nat → α) (i : Nat) : Nat → α :=
  if _h : 0 < i ∧ key (slots i) < key (slots (parent i)) then
    siftUp (swap slots (parent i) i) (parent i)
  else slots
termination_by i
decreasing_by exact parent_lt _h.1

/-- The slot with the smallest key among `i` and its children below `n`. Ties go to `i`, then to the
left child. -/
def smallest (slots : Nat → α) (n i : Nat) : Nat :=
  let least := if 2 * i + 1 < n ∧ key (slots (2 * i + 1)) < key (slots i) then 2 * i + 1 else i
  if 2 * i + 2 < n ∧ key (slots (2 * i + 2)) < key (slots least) then 2 * i + 2 else least

theorem smallest_cases (slots : Nat → α) (n i : Nat) :
    smallest key slots n i = i ∨ (i < smallest key slots n i ∧ smallest key slots n i < n) := by
  unfold smallest
  grind

/-- The value in slot `i` moves down while a child has a smaller key. -/
def siftDown (slots : Nat → α) (n i : Nat) : Nat → α :=
  if smallest key slots n i = i then slots
  else siftDown (swap slots i (smallest key slots n i)) n (smallest key slots n i)
termination_by n - i
decreasing_by
  have hcases := smallest_cases key slots n i
  omega

/-- A value is added behind the `n` values. -/
def push (slots : Nat → α) (n : Nat) (x : α) : Nat → α := siftUp key (Function.update slots n x) n

/-- The root of `n + 1` values is dropped. -/
def popRoot (slots : Nat → α) (n : Nat) : Nat → α :=
  siftDown key (Function.update slots 0 (slots n)) n 0

/-! ## Contents -/

/-- The values in the first `n` slots. -/
def contents (slots : Nat → α) (n : Nat) : Multiset α := (Multiset.range n).map slots

variable {slots : Nat → α} {n i j : Nat} {x : α}

@[simp] theorem contents_zero : contents slots 0 = 0 := rfl

theorem contents_succ : contents slots (n + 1) = slots n ::ₘ contents slots n := by
  simp [contents, Multiset.range_succ]

theorem contents_congr {other : Nat → α} (h : ∀ i < n, slots i = other i) :
    contents slots n = contents other n :=
  Multiset.map_congr rfl fun i hi => h i (Multiset.mem_range.mp hi)

theorem mem_contents : x ∈ contents slots n ↔ ∃ i < n, slots i = x := by
  simp [contents, Multiset.mem_map]

theorem swap_eq_comp (slots : Nat → α) (i j : Nat) : swap slots i j = slots ∘ Equiv.swap i j := by
  funext k
  by_cases hj : k = j
  · simp [swap, hj]
  · by_cases hi : k = i
    · subst hi
      simp [swap, Function.update_of_ne hj]
    · simp [swap, hi, hj, Equiv.swap_apply_of_ne_of_ne]

theorem swap_apply_lt {k : Nat} (hi : i < n) (hj : j < n) (hk : k < n) : Equiv.swap i j k < n := by
  rw [Equiv.swap_apply_def]
  split
  · exact hj
  · split
    · exact hi
    · exact hk

theorem contents_swap (hi : i < n) (hj : j < n) : contents (swap slots i j) n = contents slots n := by
  have hrange : (Multiset.range n).map (Equiv.swap i j) = Multiset.range n := by
    refine (Multiset.Nodup.ext ((Multiset.nodup_range n).map (Equiv.injective _))
      (Multiset.nodup_range n)).mpr fun k => ?_
    simp only [Multiset.mem_map, Multiset.mem_range]
    constructor
    · rintro ⟨m, hm, rfl⟩
      exact swap_apply_lt hi hj hm
    · intro hk
      exact ⟨Equiv.swap i j k, swap_apply_lt hi hj hk, by simp⟩
  rw [contents, swap_eq_comp, ← Multiset.map_map, hrange, contents]

theorem contents_siftUp (hi : i < n) : contents (siftUp key slots i) n = contents slots n := by
  induction slots, i using siftUp.induct key with
  | case1 slots i h ih =>
    have hp : parent i < n := (parent_lt h.1).trans hi
    rw [siftUp, dif_pos h, ih hp, contents_swap hp hi]
  | case2 slots i h => rw [siftUp, dif_neg h]

theorem contents_siftDown (hi : i < n) : contents (siftDown key slots n i) n = contents slots n := by
  induction slots, i using siftDown.induct key n with
  | case1 slots i h => rw [siftDown, if_pos h]
  | case2 slots i h ih =>
    have hlt := ((smallest_cases key slots n i).resolve_left h).2
    rw [siftDown, if_neg h, ih hlt, contents_swap hi hlt]

/-- The new value joins the others. -/
theorem contents_push : contents (push key slots n x) (n + 1) = x ::ₘ contents slots n := by
  rw [push, contents_siftUp key (Nat.lt_succ_self n), contents_succ]
  congr 1
  · simp
  · exact contents_congr fun i hi => Function.update_of_ne (Nat.ne_of_lt hi) _ _

/-- The root leaves the others. -/
theorem contents_popRoot : slots 0 ::ₘ contents (popRoot key slots n) n = contents slots (n + 1) := by
  cases n with
  | zero => simp [contents]
  | succ n =>
    rw [popRoot, contents_siftDown key (Nat.succ_pos n)]
    -- Both sides are the values between the root and the last slot, the root and the last slot.
    have hsplit : ∀ f : Nat → α,
        contents f (n + 1) = f 0 ::ₘ contents (fun i => f (i + 1)) n := by
      intro f
      induction n with
      | zero => simp [contents]
      | succ n ih => rw [contents_succ, ih, contents_succ, Multiset.cons_swap]
    have htail : contents (fun i => Function.update slots 0 (slots (n + 1)) (i + 1)) n =
        contents (fun i => slots (i + 1)) n :=
      contents_congr fun i _ => Function.update_of_ne (Nat.succ_ne_zero i) _ _
    rw [hsplit, htail, contents_succ, hsplit, Multiset.cons_swap, Function.update_self]

/-! ## Order -/

/-- No key is smaller than that of the parent. -/
def Ordered (slots : Nat → α) (n : Nat) : Prop :=
  ∀ i, 0 < i → i < n → key (slots (parent i)) ≤ key (slots i)

variable {key}

theorem Ordered.zero : Ordered key slots 0 := fun _ _ hi => absurd hi (Nat.not_lt_zero _)

theorem Ordered.root_le (h : Ordered key slots n) (hi : i < n) : key (slots 0) ≤ key (slots i) := by
  induction i using Nat.strong_induction_on with
  | _ i ih =>
    by_cases hpos : 0 < i
    · have hp := parent_lt hpos
      exact (ih (parent i) hp (hp.trans hi)).trans (h i hpos hi)
    · rw [Nat.eq_zero_of_not_pos hpos]

/-- The root has the least key. -/
theorem Ordered.le_of_mem (h : Ordered key slots n) (hx : x ∈ contents slots n) :
    key (slots 0) ≤ key x := by
  obtain ⟨i, hi, rfl⟩ := mem_contents.mp hx
  exact h.root_le hi

/-- The order holds but for the edge into `i`, and the children of `i` are not below its parent. -/
structure OrderedBut (key : α → κ) (slots : Nat → α) (n i : Nat) : Prop where
  edge : ∀ k, 0 < k → k < n → k ≠ i → key (slots (parent k)) ≤ key (slots k)
  skip : ∀ k, 0 < k → k < n → parent k = i → 0 < i → key (slots (parent i)) ≤ key (slots k)

/-- The order holds but for the edges out of `i`, and the children of `i` are not below its
parent. -/
structure OrderedAbove (key : α → κ) (slots : Nat → α) (n i : Nat) : Prop where
  edge : ∀ k, 0 < k → k < n → parent k ≠ i → key (slots (parent k)) ≤ key (slots k)
  skip : ∀ k, 0 < k → k < n → parent k = i → 0 < i → key (slots (parent i)) ≤ key (slots k)

theorem swap_left : swap slots i j i = slots j := by simp [swap_eq_comp]

theorem swap_right : swap slots i j j = slots i := by simp [swap_eq_comp]

theorem swap_other {k : Nat} (hi : k ≠ i) (hj : k ≠ j) : swap slots i j k = slots k := by
  simp [swap_eq_comp, Equiv.swap_apply_of_ne_of_ne hi hj]

/-- Above a slot that was swapped with its parent, the order is the old one. -/
theorem OrderedBut.move (h : OrderedBut key slots n i) (hpos : 0 < i) (hi : i < n)
    (hlt : key (slots i) < key (slots (parent i))) :
    OrderedBut key (swap slots (parent i) i) n (parent i) := by
  have hp := parent_lt hpos
  have hne : parent i ≠ i := Nat.ne_of_lt hp
  constructor
  · intro k hk hkn hkp
    by_cases hki : k = i
    · rw [hki, swap_left, swap_right]
      exact hlt.le
    · rw [swap_other hkp hki]
      by_cases h₁ : parent k = parent i
      · rw [h₁, swap_left]
        exact hlt.le.trans (h₁ ▸ h.edge k hk hkn hki)
      · by_cases h₂ : parent k = i
        · rw [h₂, swap_right]
          exact h.skip k hk hkn h₂ hpos
        · rw [swap_other h₁ h₂]
          exact h.edge k hk hkn hki
  · intro k hk hkn hkp hpp
    have hup := h.edge (parent i) hpp (hp.trans hi) hne
    have hpp' := parent_lt hpp
    rw [swap_other (Nat.ne_of_lt hpp') (Nat.ne_of_lt (hpp'.trans hp))]
    by_cases hki : k = i
    · rw [hki, swap_right]
      exact hup
    · have hkp' : k ≠ parent i := by
        rintro rfl
        exact Nat.ne_of_lt hpp' hkp
      rw [swap_other hkp' hki]
      exact hup.trans (hkp ▸ h.edge k hk hkn hki)

theorem ordered_siftUp (h : OrderedBut key slots n i) (hi : i < n) :
    Ordered key (siftUp key slots i) n := by
  induction slots, i using siftUp.induct key with
  | case1 slots i hup ih =>
    rw [siftUp, dif_pos hup]
    exact ih (h.move hup.1 hi hup.2) ((parent_lt hup.1).trans hi)
  | case2 slots i hstop =>
    rw [siftUp, dif_neg hstop]
    intro k hk hkn
    by_cases hki : k = i
    · subst hki
      exact not_lt.mp fun hlt => hstop ⟨hk, hlt⟩
    · exact h.edge k hk hkn hki

theorem Ordered.push (h : Ordered key slots n) (x : α) :
    Ordered key (push key slots n x) (n + 1) := by
  have hother : ∀ k, k ≠ n → Function.update slots n x k = slots k :=
    fun k hk => Function.update_of_ne hk _ _
  refine ordered_siftUp ⟨fun k hk hkn hne => ?_, fun k hk hkn hp _ => ?_⟩ (Nat.lt_succ_self n)
  · have hlt : k < n := by omega
    have hp := parent_lt hk
    rw [hother k hne, hother (parent k) (by omega)]
    exact h k hk hlt
  · have := parent_lt hk
    omega

/-! The way down. -/

theorem child_cases {k : Nat} (hk : 0 < k) (h : parent k = i) : k = 2 * i + 1 ∨ k = 2 * i + 2 := by
  unfold parent at h
  omega

theorem smallest_le (key : α → κ) (slots : Nat → α) (n i : Nat) :
    key (slots (smallest key slots n i)) ≤ key (slots i) := by
  unfold smallest
  grind

theorem smallest_le_child {k : Nat} (hk : 0 < k) (hkn : k < n) (h : parent k = i) :
    key (slots (smallest key slots n i)) ≤ key (slots k) := by
  unfold smallest
  rcases child_cases hk h with rfl | rfl <;> grind

theorem parent_smallest (h : smallest key slots n i ≠ i) : parent (smallest key slots n i) = i := by
  have hcases : smallest key slots n i = i ∨ smallest key slots n i = 2 * i + 1 ∨
      smallest key slots n i = 2 * i + 2 := by
    unfold smallest
    grind
  unfold parent
  omega

/-- Below a slot that was swapped with its smallest child, the order is the old one. -/
theorem OrderedAbove.move (h : OrderedAbove key slots n i) (hne : smallest key slots n i ≠ i) :
    OrderedAbove key (swap slots i (smallest key slots n i)) n (smallest key slots n i) := by
  have hgt := ((smallest_cases key slots n i).resolve_left hne).1
  have hn := ((smallest_cases key slots n i).resolve_left hne).2
  have hp := parent_smallest hne
  have hle := smallest_le key slots n i
  have hchild : ∀ k, 0 < k → k < n → parent k = i → key (slots (smallest key slots n i)) ≤
      key (slots k) := fun k hk hkn hki => smallest_le_child hk hkn hki
  generalize smallest key slots n i = m at hne hgt hn hp hle hchild
  have hm : 0 < m := Nat.zero_lt_of_lt hgt
  constructor
  · intro k hk hkn hkp
    by_cases hkm : k = m
    · rw [hkm, hp, swap_left, swap_right]
      exact hle
    · by_cases hki : k = i
      · subst hki
        have hpk := parent_lt hk
        rw [swap_left, swap_other (Nat.ne_of_lt hpk) (Nat.ne_of_lt (hpk.trans hgt))]
        exact h.skip m hm hn hp hk
      · rw [swap_other hki hkm]
        by_cases hpi : parent k = i
        · rw [hpi, swap_left]
          exact hchild k hk hkn hpi
        · rw [swap_other hpi hkp]
          exact h.edge k hk hkn hpi
  · intro k hk hkn hkp _
    have hkm : m < k := hkp ▸ parent_lt hk
    rw [hp, swap_left, swap_other (Nat.ne_of_gt (hgt.trans hkm)) (Nat.ne_of_gt hkm)]
    have hedge := h.edge k hk hkn (hkp ▸ hne)
    rwa [hkp] at hedge

theorem ordered_siftDown (h : OrderedAbove key slots n i) :
    Ordered key (siftDown key slots n i) n := by
  induction slots, i using siftDown.induct key n with
  | case1 slots i hstop =>
    rw [siftDown, if_pos hstop]
    intro k hk hkn
    by_cases hki : parent k = i
    · have hle : key (slots (smallest key slots n i)) ≤ key (slots k) := smallest_le_child hk hkn hki
      rwa [hstop, ← hki] at hle
    · exact h.edge k hk hkn hki
  | case2 slots i hne ih =>
    rw [siftDown, if_neg hne]
    exact ih (h.move hne)

theorem Ordered.popRoot (h : Ordered key slots (n + 1)) : Ordered key (popRoot key slots n) n := by
  have hother : ∀ k, 0 < k → Function.update slots 0 (slots n) k = slots k :=
    fun k hk => Function.update_of_ne (Nat.ne_of_gt hk) _ _
  refine ordered_siftDown ⟨fun k hk hkn hne => ?_, fun k _ _ _ hpos => absurd hpos (lt_irrefl 0)⟩
  rw [hother k hk, hother (parent k) (Nat.pos_of_ne_zero hne)]
  exact h k hk (hkn.trans (Nat.lt_succ_self n))

end Heap
