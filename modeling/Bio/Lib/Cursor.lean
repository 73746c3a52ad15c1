import Mathlib

/-!
# Jobs that share a cursor

Several jobs share one cursor. A job reads it when it begins, works on as many places from there on
as its size says, and adds its size to the cursor when it ends. The places of two jobs are disjoint
when one has ended before the other begins. The converse is less obvious: a third job may move the
cursor in between. It holds for all jobs together, `ranges_disjoint_iff`.
-/

namespace Cursor

variable {ι : Type*} (s : Finset ι) (began ended size : ι → ℕ)

/-- How far the cursor has moved when the job `i` begins. -/
def start (i : ι) : ℕ := ∑ j ∈ s with ended j < began i, size j

/-- The places of the job `i`, when the cursor starts at `base`. -/
def range (base : ℤ) (i : ι) : Set ℤ :=
  Set.Ico (base + start s began ended size i) (base + start s began ended size i + size i)

variable {s began ended size} {base : ℤ} {i j : ι}

/-- A job that begins after another one has ended starts behind its places. -/
theorem start_add_le (hi : i ∈ s) (hbe : began i < ended i) (h : ended i < began j) :
    start s began ended size i + size i ≤ start s began ended size j := by
  classical
  have hnot : i ∉ s.filter fun k => ended k < began i := by
    rw [Finset.mem_filter]
    omega
  rw [start, Nat.add_comm, ← Finset.sum_insert hnot]
  refine Finset.sum_le_sum_of_subset fun k hk => ?_
  rcases Finset.mem_insert.mp hk with rfl | hk
  · exact Finset.mem_filter.mpr ⟨hi, h⟩
  · obtain ⟨hks, hlt⟩ := Finset.mem_filter.mp hk
    exact Finset.mem_filter.mpr ⟨hks, by omega⟩

/-- When nothing but empty jobs ends in between, two jobs start at the same place. -/
theorem start_eq (hle : began i ≤ began j)
    (hempty : ∀ k ∈ s, ended k < began j → ¬ended k < began i → size k = 0) :
    start s began ended size i = start s began ended size j := by
  refine Finset.sum_subset (fun k hk => ?_) fun k hk hnot => ?_
  · obtain ⟨hks, hlt⟩ := Finset.mem_filter.mp hk
    exact Finset.mem_filter.mpr ⟨hks, by omega⟩
  · obtain ⟨hks, hlt⟩ := Finset.mem_filter.mp hk
    exact hempty k hks hlt fun h => hnot (Finset.mem_filter.mpr ⟨hks, h⟩)

/-- Two jobs are at work at the same time. -/
def Overlap (began ended : ι → ℕ) (i j : ι) : Prop := began i < ended j ∧ began j < ended i

theorem Overlap.symm (h : Overlap began ended i j) : Overlap began ended j i := ⟨h.2, h.1⟩

theorem ranges_disjoint (hbe : ∀ k ∈ s, began k < ended k)
    (hne : ∀ k ∈ s, ∀ l ∈ s, ended k ≠ began l) (hi : i ∈ s) (hj : j ∈ s)
    (h : ¬Overlap began ended i j) :
    Disjoint (range s began ended size base i) (range s began ended size base j) := by
  rw [range, range, Set.Ico_disjoint_Ico]
  rw [Overlap, not_and_or, not_lt, not_lt] at h
  rcases h with h | h
  · have hlt : ended j < began i := lt_of_le_of_ne h (hne j hj i hi)
    have hle : start s began ended size j + size j ≤ start s began ended size i :=
      start_add_le hj (hbe j hj) hlt
    omega
  · have hlt : ended i < began j := lt_of_le_of_ne h (hne i hi j hj)
    have hle : start s began ended size i + size i ≤ start s began ended size j :=
      start_add_le hi (hbe i hi) hlt
    omega

/-- When two jobs that are not empty overlap in time, some places are worked on twice. -/
theorem not_overlap (hbe : ∀ k ∈ s, began k < ended k)
    (hne : ∀ k ∈ s, ∀ l ∈ s, ended k ≠ began l)
    (hdisj : ∀ k ∈ s, ∀ l ∈ s, k ≠ l →
      Disjoint (range s began ended size base k) (range s began ended size base l)) :
    ∀ n, ∀ i ∈ s, ∀ j ∈ s, i ≠ j → 0 < size i → 0 < size j → began i ≤ began j → began j = n →
      ¬Overlap began ended i j := by
  -- The pair whose later job begins first has no job that ends in between.
  intro n
  induction n using Nat.strong_induction_on with
  | _ n ih =>
    rintro i hi j hj hij hsi hsj hle rfl hover
    have hempty : ∀ k ∈ s, ended k < began j → ¬ended k < began i → size k = 0 := by
      intro k hk hlt hnot
      by_contra hsize
      have hpos : 0 < size k := Nat.pos_of_ne_zero hsize
      have hki : k ≠ i := by
        rintro rfl
        exact absurd hover.2 (by omega)
      have hbk := hbe k hk
      have hgt : began i < ended k := lt_of_le_of_ne (not_lt.mp hnot) (hne k hk i hi).symm
      have hover' : Overlap began ended k i := ⟨lt_trans (lt_trans hbk hlt) hover.2, hgt⟩
      rcases le_total (began k) (began i) with h | h
      · exact ih (began i) (lt_trans hgt hlt) k hk i hi hki hpos hsi h rfl hover'
      · exact ih (began k) (lt_trans hbk hlt) i hi k hk hki.symm hsi hpos h rfl hover'.symm
    have hd := hdisj i hi j hj hij
    rw [range, range, start_eq hle hempty, Set.Ico_disjoint_Ico] at hd
    omega

/-- The places of the jobs are pairwise disjoint exactly when no two jobs that are not empty overlap
in time. -/
theorem ranges_disjoint_iff (hbe : ∀ k ∈ s, began k < ended k)
    (hne : ∀ k ∈ s, ∀ l ∈ s, ended k ≠ began l) :
    (∀ i ∈ s, ∀ j ∈ s, i ≠ j →
      Disjoint (range s began ended size base i) (range s began ended size base j)) ↔
    ∀ i ∈ s, ∀ j ∈ s, i ≠ j → 0 < size i → 0 < size j → ¬Overlap began ended i j := by
  constructor
  · intro hdisj i hi j hj hij hsi hsj hover
    rcases le_total (began i) (began j) with h | h
    · exact not_overlap hbe hne hdisj _ i hi j hj hij hsi hsj h rfl hover
    · exact not_overlap hbe hne hdisj _ j hj i hi hij.symm hsj hsi h rfl hover.symm
  · intro h i hi j hj hij
    by_cases hover : Overlap began ended i j
    · rcases Nat.eq_zero_or_pos (size i) with hsi | hsi
      · simp [range, hsi]
      · rcases Nat.eq_zero_or_pos (size j) with hsj | hsj
        · simp [range, hsj]
        · exact absurd hover (h i hi j hj hij hsi hsj)
    · exact ranges_disjoint hbe hne hi hj hover

end Cursor
