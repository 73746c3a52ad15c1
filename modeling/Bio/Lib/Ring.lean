import Mathlib.Data.Nat.Find
import Mathlib.Data.Nat.ModEq
import Mathlib.Logic.Function.Basic
import Mathlib.Order.Bounds.Basic
import Mathlib.Tactic.Common

/-!
# Rings with free-running indices

A ring of `2 ^ k` slots that is addressed by `w`-bit counters. The counters are never reset: the
slot of a counter is its value masked by the capacity, and a counter may wrap around. `Window` says
which values the slots from a counter on hold, with the rules for writing behind the last one
(`Window.push`) and dropping the first one (`Window.pop`). `Smeared.isLeast` is the rounding of a
requested capacity to a power of two by shifts and ors.
-/

namespace Ring

variable {w k : Nat} {α : Type*}

/-- The slot of a counter. -/
def index (v cap : BitVec w) : BitVec w := v &&& (cap - 1#w)

section Index

variable {v cap : BitVec w}

theorem two_pow_lt (hcap : cap.toNat = 2 ^ k) : 2 ^ k < 2 ^ w := hcap ▸ cap.isLt

theorem toNat_index (hcap : cap.toNat = 2 ^ k) : (index v cap).toNat = v.toNat % 2 ^ k := by
  have hw : 0 < w := by
    refine Nat.pos_of_ne_zero ?_
    rintro rfl
    have hlt := two_pow_lt hcap
    have hpos := Nat.two_pow_pos k
    omega
  have hone : (1#w).toNat = 1 := by simp [hw]
  have hle : 1#w ≤ cap := by
    rw [BitVec.le_def, hone, hcap]
    exact Nat.one_le_two_pow
  rw [index, BitVec.toNat_and, BitVec.toNat_sub_of_le hle, hcap, hone,
    Nat.and_two_pow_sub_one_eq_mod]

theorem toNat_index_add (hcap : cap.toNat = 2 ^ k) (i : Nat) :
    (index (v + BitVec.ofNat w i) cap).toNat = (v.toNat + i) % 2 ^ k := by
  have hk : k ≤ w := Nat.le_of_lt ((Nat.pow_lt_pow_iff_right (by decide)).mp (two_pow_lt hcap))
  rw [toNat_index hcap, BitVec.toNat_add, BitVec.toNat_ofNat, Nat.add_mod_mod,
    Nat.mod_mod_of_dvd _ (Nat.pow_dvd_pow 2 hk)]

/-- Within one turn of the ring, counters have different slots. -/
theorem index_inj (hcap : cap.toNat = 2 ^ k) {i j : Nat} (hi : i < 2 ^ k) (hj : j < 2 ^ k)
    (h : index (v + BitVec.ofNat w i) cap = index (v + BitVec.ofNat w j) cap) : i = j := by
  have hmod : v.toNat + i ≡ v.toNat + j [MOD 2 ^ k] := by
    rw [Nat.ModEq, ← toNat_index_add hcap, ← toNat_index_add hcap, h]
  have hcancel := Nat.ModEq.add_left_cancel' v.toNat hmod
  rwa [Nat.ModEq, Nat.mod_eq_of_lt hi, Nat.mod_eq_of_lt hj] at hcancel

end Index

/-- The slots from the counter `read` on hold the list, which fits into the ring. -/
structure Window (k : Nat) (cap read : BitVec w) (slots : BitVec w → Option α) (l : List α) :
    Prop where
  size : cap.toNat = 2 ^ k
  fits : l.length ≤ 2 ^ k
  slot : ∀ i, i < l.length → slots (index (read + BitVec.ofNat w i) cap) = l[i]?

namespace Window

variable {cap read : BitVec w} {slots : BitVec w → Option α} {l : List α} {x : α}

theorem empty (hcap : cap.toNat = 2 ^ k) : Window k cap read slots ([] : List α) :=
  ⟨hcap, Nat.zero_le _, nofun⟩

/-- A value is written to the slot behind the last one. -/
theorem push (h : Window k cap read slots l) (hroom : l.length < 2 ^ k) (x : α) :
    Window k cap read
      (Function.update slots (index (read + BitVec.ofNat w l.length) cap) (some x))
      (l ++ [x]) := by
  refine ⟨h.size, by simpa [Nat.succ_le_iff] using hroom, fun i hi => ?_⟩
  rw [List.length_append, List.length_singleton] at hi
  by_cases hlast : i = l.length
  · subst hlast
    simp
  · have hlt : i < l.length := by omega
    have hne : index (read + BitVec.ofNat w i) cap ≠
        index (read + BitVec.ofNat w l.length) cap :=
      fun heq => hlast (index_inj h.size (by omega) hroom heq)
    rw [Function.update_of_ne hne, h.slot i hlt, List.getElem?_append_left hlt]

theorem head (h : Window k cap read slots (x :: l)) : slots (index read cap) = some x := by
  simpa using h.slot 0 (Nat.succ_pos _)

/-- The first value is dropped, its slot may be written again. -/
theorem pop (h : Window k cap read slots (x :: l)) : Window k cap (read + 1#w) slots l := by
  have hfits := h.fits
  rw [List.length_cons] at hfits
  refine ⟨h.size, by omega, fun i hi => ?_⟩
  have hslot := h.slot (i + 1) (by simpa using hi)
  rw [List.getElem?_cons_succ] at hslot
  rw [← hslot]
  congr 2
  rw [BitVec.add_assoc, Nat.add_comm i 1, BitVec.ofNat_add]

/-- The number of values is the distance of the two counters. -/
theorem toNat_size (h : Window k cap read slots l) :
    (read + BitVec.ofNat w l.length - read).toNat = l.length := by
  have hlt : l.length < 2 ^ w := Nat.lt_of_le_of_lt h.fits (two_pow_lt h.size)
  rw [BitVec.add_comm, BitVec.add_sub_cancel, BitVec.toNat_ofNat, Nat.mod_eq_of_lt hlt]

theorem read_eq_write (h : Window k cap read slots l) :
    read = read + BitVec.ofNat w l.length ↔ l = [] := by
  refine ⟨fun heq => ?_, fun heq => by simp [heq]⟩
  have hsize := h.toNat_size
  rw [← heq, BitVec.sub_self] at hsize
  exact List.eq_nil_of_length_eq_zero (by simpa using hsize.symm)

end Window

/-! ## Rounding up to a power of two -/

/-- Each bit of `x` tells whether one of the `d` bits of `n` from there on is set. -/
def Smeared (n x : BitVec w) (d : Nat) : Prop :=
  ∀ i, x.getLsbD i = true ↔ ∃ j, i ≤ j ∧ j < i + d ∧ n.getLsbD j = true

namespace Smeared

variable {n x : BitVec w} {d : Nat}

theorem refl (n : BitVec w) : Smeared n n 1 := by
  intro i
  constructor
  · exact fun h => ⟨i, Nat.le_refl _, Nat.lt_succ_self _, h⟩
  · rintro ⟨j, hle, hlt, h⟩
    obtain rfl : i = j := by omega
    exact h

theorem double (h : Smeared n x d) : Smeared n (x ||| x >>> d) (2 * d) := by
  intro i
  rw [BitVec.getLsbD_or, Bool.or_eq_true, BitVec.getLsbD_ushiftRight, h i, h (d + i)]
  constructor
  · rintro (⟨j, hle, hlt, hj⟩ | ⟨j, hle, hlt, hj⟩)
    · exact ⟨j, hle, by omega, hj⟩
    · exact ⟨j, by omega, by omega, hj⟩
  · rintro ⟨j, hle, hlt, hj⟩
    by_cases hnear : j < i + d
    · exact .inl ⟨j, hle, hnear, hj⟩
    · exact .inr ⟨j, by omega, by omega, hj⟩

/-- Smeared over its whole width, a number with `k` binary digits is `2 ^ k - 1`. -/
theorem toNat_eq (h : Smeared n x w) {k : Nat} (hlt : n.toNat < 2 ^ k)
    (hle : 2 ^ k ≤ 2 * n.toNat + 1) : x.toNat = 2 ^ k - 1 := by
  refine Nat.eq_of_testBit_eq fun i => ?_
  rw [Nat.testBit_two_pow_sub_one, BitVec.testBit_toNat, Bool.eq_iff_iff, h i, decide_eq_true_iff]
  constructor
  · rintro ⟨j, hij, _, hj⟩
    by_contra hk
    have hsmall : n.toNat < 2 ^ j :=
      Nat.lt_of_lt_of_le hlt (Nat.pow_le_pow_right (by decide) (by omega))
    rw [← BitVec.testBit_toNat, Nat.testBit_lt_two_pow hsmall] at hj
    cases hj
  · intro hik
    obtain ⟨k, rfl⟩ : ∃ k', k = k' + 1 := ⟨k - 1, by omega⟩
    have hbit : n.toNat.testBit k = true :=
      Nat.testBit_of_two_pow_le_and_two_pow_add_one_gt (by rw [Nat.pow_succ] at hle; omega) hlt
    have hkw : k < w := by
      by_contra hkw
      rw [BitVec.testBit_toNat, BitVec.getLsbD_of_ge _ _ (by omega)] at hbit
      cases hbit
    rw [BitVec.testBit_toNat] at hbit
    exact ⟨k, by omega, by omega, hbit⟩

/-- Rounding up to a power of two: smear `c - 1`, add one. -/
theorem isLeast {c : BitVec w} (h : Smeared (c - 1#w) x w) (hpos : 1 ≤ c.toNat)
    (hc : c.toNat ≤ 2 ^ (w - 1)) :
    IsLeast {p : Nat | (∃ k, p = 2 ^ k) ∧ c.toNat ≤ p} (x + 1#w).toNat := by
  have hex : ∃ k, c.toNat ≤ 2 ^ k := ⟨_, hc⟩
  obtain ⟨k, hk, hmin⟩ : ∃ k, c.toNat ≤ 2 ^ k ∧ ∀ j, c.toNat ≤ 2 ^ j → k ≤ j :=
    ⟨Nat.find hex, Nat.find_spec hex, fun _ hj => Nat.find_min' hex hj⟩
  have hw : 0 < w := by
    refine Nat.pos_of_ne_zero ?_
    rintro rfl
    have := c.isLt
    omega
  have hone : (1#w).toNat = 1 := by simp [hw]
  have hsub : (c - 1#w).toNat = c.toNat - 1 := by
    rw [BitVec.toNat_sub_of_le (by rw [BitVec.le_def, hone]; exact hpos), hone]
  have hdigits : 2 ^ k ≤ 2 * (c - 1#w).toNat + 1 := by
    cases k with
    | zero => omega
    | succ k =>
      have hlt : ¬c.toNat ≤ 2 ^ k := fun h => absurd (hmin k h) (by omega)
      rw [Nat.pow_succ]
      omega
  have hx : x.toNat = 2 ^ k - 1 := h.toNat_eq (by omega) hdigits
  have hkw : 2 ^ k < 2 ^ w := Nat.pow_lt_pow_right (by decide) (by have := hmin _ hc; omega)
  have hsum : (x + 1#w).toNat = 2 ^ k := by
    rw [BitVec.toNat_add, hx, hone, Nat.sub_add_cancel (Nat.two_pow_pos k), Nat.mod_eq_of_lt hkw]
  rw [hsum]
  refine ⟨⟨⟨k, rfl⟩, hk⟩, ?_⟩
  rintro p ⟨⟨j, rfl⟩, hj⟩
  exact Nat.pow_le_pow_right (by decide) (hmin j hj)

end Smeared

end Ring
