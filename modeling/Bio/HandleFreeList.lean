import Bio.HandleRefinement

/-!
# The free list of the handle table

What `HandleRefinement` needs of the free list in the runs in which no generation comes round, here for all
runs, with nothing assumed of the generations and with the capacity an `int32_t` (`machine32`). A slot is
free when no live handle names it.

1. `threaded_step`: growth, issuing a handle and closing a live one keep the list.
2. A close finds the slot of a handle that is not live only when the generation of that slot, free by now,
   has come round (`CameRound`). The slot is then put into the list once more.
3. The capacity is a power of two, so that it can be doubled until it is `2 ^ 30` (`growIfFull32_eq`).
   Growth beyond that overflows, which takes `2 ^ 30` live handles and one `bio_make_handle` more.
4. `freeList_iff`: the list is as it should be in all states of a run iff the run has no such close and no
   such `bio_make_handle`.
-/

namespace Bio

variable {τ ω : Type*}

namespace HandleMap

/-- The handle was issued and not closed since. -/
def IsLive (m : HandleMap τ ω) (h : Handle) : Prop := ∃ i, m.issue h = some i ∧ i.live = true

/-- No live handle names the slot. -/
def SlotFree (m : HandleMap τ ω) (n : Nat) : Prop := ∀ h, m.IsLive h → h.index ≠ n + 1

theorem isLive_make (m : HandleMap τ ω) (h h' : Handle) (obj : Option ω) (tag : Option τ) :
    (m.make h obj tag).IsLive h' ↔ h' = h ∨ m.IsLive h' := by
  rcases eq_or_ne h' h with rfl | hne
  · refine iff_of_true ⟨⟨obj, tag, true⟩, ?_, rfl⟩ (.inl rfl)
    exact Function.update_self ..
  · simp only [IsLive, make, Function.update_of_ne hne, hne, false_or]

variable [DecidableEq τ]

theorem isLive_close {m : HandleMap τ ω} {h : Handle} {i : Issue τ ω} {tag : Option τ}
    (hl : m.lookup h tag = some i) (h' : Handle) :
    (m.close h tag).IsLive h' ↔ h' ≠ h ∧ m.IsLive h' := by
  rcases eq_or_ne h' h with rfl | hne
  · simp [IsLive, close, hl]
  · simp only [IsLive, close, hl, Function.update_of_ne hne, hne, ne_eq, not_false_eq_true, true_and]

theorem isLive_of_lookup {m : HandleMap τ ω} {h : Handle} {i : Issue τ ω} {tag : Option τ}
    (hl : m.lookup h tag = some i) : m.issue h = some i ∧ i.live = true ∧ i.tag = tag := by
  obtain ⟨hi, hlive⟩ := Option.filter_eq_some_iff.mp hl
  exact ⟨hi, by simpa using hlive⟩

end HandleMap

open HandleMap

/-- The links visit `capacity - num_handles` distinct slots, and these are all the free ones. -/
def VisitsFree (t : HandleTable τ ω) (m : HandleMap τ ω) : Prop :=
  ∃ free, FreeChain t free ∧ free.Nodup ∧ (free.length : Int) = t.handleCapacity - t.numHandles ∧
    ∀ n, n ∈ free ↔ n < t.handleCapacity ∧ m.SlotFree n

def CountsLive (t : HandleTable τ ω) (m : HandleMap τ ω) : Prop :=
  ∃ live : List Handle, live.Nodup ∧ (∀ h, h ∈ live ↔ m.IsLive h) ∧ t.numHandles = live.length

/-- What is to hold of the free list. -/
structure FreeListInvariant (t : HandleTable τ ω) (m : HandleMap τ ω) : Prop where
  visits : VisitsFree t m
  count : CountsLive t m
  /-- The slot that `bio_make_handle` takes, after its growth check. Where that check overflows there is no
  table left: the state after the `bio_make_handle` is `none`. -/
  next_slot : ∀ t', t.growIfFull32 = some t' →
    t'.nextHandleSlot < t'.handleCapacity ∧ m.SlotFree t'.nextHandleSlot
  grows_full : t.numHandles ≥ t.handleCapacity → ∀ n, n < t.handleCapacity → ¬ m.SlotFree n
  growth_keeps : ∀ t', t.growIfFull32 = some t' → ∀ n, n < t.handleCapacity → m.SlotFree n →
    ∃ free, FreeChain t' free ∧ n ∈ free

/-- The invariant of the steps: beside the list and the count, a live handle has the generation and the tag
of its slot, and the capacity is a power of two up to `2 ^ 30`. -/
structure Threaded (t : HandleTable τ ω) (m : HandleMap τ ω) : Prop where
  capacity_dvd : t.handleCapacity ∣ 2 ^ 30
  live_slot : ∀ h i, m.issue h = some i → i.live = true →
    ∃ n, n < t.handleCapacity ∧ h = ⟨n + 1, (t.handleSlots n).gen⟩ ∧ (t.handleSlots n).tag = i.tag
  visits : VisitsFree t m
  count : CountsLive t m

theorem Threaded.capacity_pos {t : HandleTable τ ω} {m : HandleMap τ ω} (ht : Threaded t m) :
    0 < t.handleCapacity :=
  Nat.pos_of_dvd_of_pos ht.capacity_dvd (by decide)

theorem Threaded.numHandles_le {t : HandleTable τ ω} {m : HandleMap τ ω} (ht : Threaded t m) :
    t.numHandles ≤ t.handleCapacity := by
  obtain ⟨free, _, _, hlength, _⟩ := ht.visits
  omega

/-- Two live handles of one slot are the same. -/
theorem Threaded.eq_of_index {t : HandleTable τ ω} {m : HandleMap τ ω} (ht : Threaded t m)
    {h : Handle} (hlive : m.IsLive h) {n : Nat} (hn : h.index = n + 1) :
    h = ⟨n + 1, (t.handleSlots n).gen⟩ := by
  obtain ⟨i, hi, hl⟩ := hlive
  obtain ⟨n', _, rfl, _⟩ := ht.live_slot h i hi hl
  have hn' : (n' : Int) = n := by simpa using hn
  obtain rfl := Int.ofNat_inj.mp hn'
  rfl

/-! ## Initialisation and growth -/

theorem threaded_init : Threaded (HandleTable.handleTableInit : HandleTable τ ω) .empty where
  capacity_dvd := by
    show 2 ^ 2 ∣ 2 ^ 30
    exact pow_dvd_pow 2 (by decide)
  live_slot := fun _ _ hi => nomatch hi
  visits := by
    refine ⟨List.range' 0 initialHandleCapacity, ?_, List.nodup_range', rfl, fun n => ?_⟩
    · show Linked _ 0 _ (0 + initialHandleCapacity)
      refine linked_range' _ fun x hx hlt => ?_
      have hnew : 0 ≤ x ∧ x < initialHandleCapacity := ⟨hx, by omega⟩
      simp only [HandleTable.handleTableInit, HandleTable.growHandleTable, if_pos hnew]
    · rw [List.mem_range'_1, Nat.zero_add]
      exact ⟨fun h => ⟨h.2, fun _ hlive => nomatch hlive.choose_spec.1⟩, fun h => ⟨Nat.zero_le n, h.1⟩⟩
  count := ⟨[], List.nodup_nil, fun h => ⟨nofun, fun hlive => nomatch hlive.choose_spec.1⟩, rfl⟩

/-- A full table has no free slot. -/
theorem Threaded.full {t : HandleTable τ ω} {m : HandleMap τ ω} (ht : Threaded t m)
    (full : t.numHandles ≥ t.handleCapacity) {n : Nat} (hn : n < t.handleCapacity) :
    ¬ m.SlotFree n := by
  obtain ⟨free, _, _, hlength, hmem⟩ := ht.visits
  have hnil : free = [] := List.length_eq_zero_iff.mp (by omega)
  intro hfree
  have hin : n ∈ free := (hmem n).mpr ⟨hn, hfree⟩
  rw [hnil] at hin
  exact absurd hin List.not_mem_nil

theorem handleSlots_grow (t : HandleTable τ ω) {n : Nat} (hn : n < t.handleCapacity) :
    (t.growHandleTable t.handleCapacity (t.handleCapacity * 2)).handleSlots n = t.handleSlots n :=
  if_neg fun h => Nat.not_le.mpr hn h.1

theorem Threaded.grow {t : HandleTable τ ω} {m : HandleMap τ ω} (ht : Threaded t m)
    (full : t.numHandles ≥ t.handleCapacity) (hfew : t.numHandles < 2 ^ 30) :
    Threaded (t.growHandleTable t.handleCapacity (t.handleCapacity * 2)) m := by
  have hpos := ht.capacity_pos
  have hcap : (t.growHandleTable t.handleCapacity (t.handleCapacity * 2)).handleCapacity
      = t.handleCapacity * 2 := rfl
  have hnum : t.numHandles = t.handleCapacity := by
    obtain ⟨free, _, _, hlength, _⟩ := ht.visits
    omega
  refine ⟨double_dvd ht.capacity_dvd (by omega), fun h i hi hlive => ?_, ?_, ht.count⟩
  · obtain ⟨n, hn, hh, htag⟩ := ht.live_slot h i hi hlive
    refine ⟨n, by omega, ?_, ?_⟩
    · rwa [handleSlots_grow t hn]
    · rwa [handleSlots_grow t hn]
  · refine ⟨List.range' t.handleCapacity t.handleCapacity, FreeChain.grow t, List.nodup_range', ?_,
      fun n => ?_⟩
    · show ((List.range' t.handleCapacity t.handleCapacity).length : Int)
        = (t.handleCapacity * 2 : Nat) - t.numHandles
      rw [List.length_range']
      omega
    · rw [List.mem_range'_1, hcap]
      constructor
      · rintro ⟨hge, hlt⟩
        refine ⟨by omega, ?_⟩
        rintro h ⟨i, hi, hlive⟩ hidx
        -- A live handle names a slot below the old capacity.
        obtain ⟨n', hn', rfl, _⟩ := ht.live_slot h i hi hlive
        simp only at hidx
        omega
      · rintro ⟨hlt, hfree⟩
        have hge : ¬ n < t.handleCapacity := fun hn => ht.full full hn hfree
        omega

/-- Below `2 ^ 30` live handles the doubling does not overflow. -/
theorem Threaded.growIfFull32_eq {t : HandleTable τ ω} {m : HandleMap τ ω} (ht : Threaded t m)
    (hfew : t.numHandles < 2 ^ 30) : t.growIfFull32 = some t.growIfFull := by
  refine if_neg ?_
  rintro ⟨full, hover⟩
  have hlt : t.handleCapacity < 2 ^ 30 := by omega
  have hle := Nat.le_of_dvd (by decide) (double_dvd ht.capacity_dvd hlt)
  omega

/-- With `2 ^ 30` live handles it does. -/
theorem Threaded.growIfFull32_eq_none {t : HandleTable τ ω} {m : HandleMap τ ω} (ht : Threaded t m)
    (hmany : ¬ t.numHandles < 2 ^ 30) : t.growIfFull32 = none := by
  have hle := Nat.le_of_dvd (by decide) ht.capacity_dvd
  have hnum := ht.numHandles_le
  exact if_pos ⟨by omega, by omega⟩

theorem Threaded.growIfFull {t : HandleTable τ ω} {m : HandleMap τ ω} (ht : Threaded t m)
    (hfew : t.numHandles < 2 ^ 30) :
    Threaded t.growIfFull m ∧ t.growIfFull.numHandles < t.growIfFull.handleCapacity := by
  have hpos := ht.capacity_pos
  have hnum := ht.numHandles_le
  unfold HandleTable.growIfFull
  split
  · next full =>
    refine ⟨ht.grow full hfew, ?_⟩
    show t.numHandles < ((t.handleCapacity * 2 : Nat) : Int)
    omega
  · next room => exact ⟨ht, by omega⟩

/-- Where there is room the head of the list is a free slot. -/
theorem Threaded.head {t : HandleTable τ ω} {m : HandleMap τ ω} (ht : Threaded t m)
    (room : t.numHandles < t.handleCapacity) :
    ∃ rest, FreeChain t (t.nextHandleSlot :: rest) ∧ (t.nextHandleSlot :: rest).Nodup ∧
      (rest.length + 1 : Int) = t.handleCapacity - t.numHandles ∧
      ∀ n, n ∈ t.nextHandleSlot :: rest ↔ n < t.handleCapacity ∧ m.SlotFree n := by
  obtain ⟨free, hchain, hnodup, hlength, hmem⟩ := ht.visits
  cases free with
  | nil =>
    rw [List.length_nil] at hlength
    omega
  | cons x rest =>
    obtain rfl : t.nextHandleSlot = x := hchain.1
    exact ⟨rest, hchain, hnodup, by simpa using hlength, hmem⟩

/-- A table that was grown, or had room, has fewer than `2 ^ 30` live handles. -/
theorem Threaded.of_growIfFull32 {t t' : HandleTable τ ω} {m : HandleMap τ ω} (ht : Threaded t m)
    (hgrow : t.growIfFull32 = some t') : t.numHandles < 2 ^ 30 ∧ t.growIfFull = t' := by
  have hfew : t.numHandles < 2 ^ 30 := by
    by_contra hmany
    rw [ht.growIfFull32_eq_none hmany] at hgrow
    cases hgrow
  rw [ht.growIfFull32_eq hfew] at hgrow
  exact ⟨hfew, Option.some.inj hgrow⟩

theorem Threaded.invariant {t : HandleTable τ ω} {m : HandleMap τ ω} (ht : Threaded t m) :
    FreeListInvariant t m := by
  refine ⟨ht.visits, ht.count, fun t' hgrow => ?_, fun full n hn => ht.full full hn,
    fun t' hgrow n hn hfree => ?_⟩
  · obtain ⟨hfew, rfl⟩ := ht.of_growIfFull32 hgrow
    obtain ⟨hgrown, room⟩ := ht.growIfFull hfew
    obtain ⟨rest, _, _, _, hmem⟩ := hgrown.head room
    exact (hmem _).mp List.mem_cons_self
  · obtain ⟨hfew, rfl⟩ := ht.of_growIfFull32 hgrow
    obtain ⟨free, hchain, _, _, hmem⟩ := (ht.growIfFull hfew).1.visits
    refine ⟨free, hchain, (hmem n).mpr ⟨?_, hfree⟩⟩
    unfold HandleTable.growIfFull
    split
    · show n < t.handleCapacity * 2
      omega
    · exact hn

/-! ## Issuing and closing -/

theorem slotFree_make (m : HandleMap τ ω) (x : Nat) (gen : BitVec 32) (obj : Option ω)
    (tag : Option τ) (n : Nat) :
    (m.make ⟨x + 1, gen⟩ obj tag).SlotFree n ↔ m.SlotFree n ∧ n ≠ x := by
  constructor
  · intro hfree
    refine ⟨fun h hlive => hfree h ((isLive_make ..).mpr (.inr hlive)), ?_⟩
    rintro rfl
    exact hfree _ ((isLive_make ..).mpr (.inl rfl)) rfl
  · rintro ⟨hfree, hne⟩ h hlive hidx
    rcases (isLive_make ..).mp hlive with rfl | hlive
    · simp only at hidx
      omega
    · exact hfree h hlive hidx

theorem CountsLive.make {t t' : HandleTable τ ω} {m : HandleMap τ ω} (hc : CountsLive t m) {h : Handle}
    (hdead : ¬ m.IsLive h) (hnum : t'.numHandles = t.numHandles + 1) {obj : Option ω} {tag : Option τ} :
    CountsLive t' (m.make h obj tag) := by
  obtain ⟨live, hnodup, hmem, hlength⟩ := hc
  refine ⟨h :: live, List.nodup_cons.mpr ⟨fun hin => ?_, hnodup⟩, fun h' => ?_, ?_⟩
  · exact hdead ((hmem h).mp hin)
  · rw [List.mem_cons, hmem, isLive_make]
  · rw [hnum, hlength, List.length_cons]
    push_cast
    rfl

/-- The handle of the slot that is taken may have been issued before, but it is not live. -/
theorem Threaded.take {t : HandleTable τ ω} {m : HandleMap τ ω} (ht : Threaded t m)
    (room : t.numHandles < t.handleCapacity) (obj : Option ω) (tag : Option τ) :
    Threaded (t.takeSlot obj tag).2 (m.make (t.takeSlot obj tag).1 obj tag) := by
  obtain ⟨rest, hchain, hnodup, hlength, hmem⟩ := ht.head room
  obtain ⟨hcap, hfree⟩ := (hmem t.nextHandleSlot).mp List.mem_cons_self
  have hnotin : t.nextHandleSlot ∉ rest := (List.nodup_cons.mp hnodup).1
  have hdead : ¬ m.IsLive (t.takeSlot obj tag).1 := fun hlive => hfree _ hlive rfl
  refine ⟨ht.capacity_dvd, fun h i hi hlive => ?_, ⟨rest, (hchain.take hnotin obj tag).2,
    (List.nodup_cons.mp hnodup).2, ?_, fun n => ?_⟩, ?_⟩
  · rcases eq_or_ne h (t.takeSlot obj tag).1 with rfl | hne
    · obtain rfl : (⟨obj, tag, true⟩ : Issue τ ω) = i := by simpa [HandleMap.make] using hi
      refine ⟨t.nextHandleSlot, hcap, ?_, ?_⟩
      all_goals simp only [HandleTable.takeSlot, Function.update_self]
    · have hi' : m.issue h = some i := by simpa [HandleMap.make, hne] using hi
      obtain ⟨n, hn, rfl, htag⟩ := ht.live_slot h i hi' hlive
      have hnx : n ≠ t.nextHandleSlot := by
        rintro rfl
        exact hne rfl
      refine ⟨n, hn, ?_, ?_⟩
      · simp only [HandleTable.takeSlot, Function.update_of_ne hnx]
      · simpa only [HandleTable.takeSlot, Function.update_of_ne hnx] using htag
  · show (rest.length : Int) = t.handleCapacity - (t.numHandles + 1)
    omega
  · have hiff := hmem n
    rw [List.mem_cons] at hiff
    rw [HandleTable.takeSlot, slotFree_make, ← and_assoc]
    constructor
    · intro hn
      exact ⟨hiff.mp (.inr hn), fun heq => hnotin (heq ▸ hn)⟩
    · rintro ⟨hn, hne⟩
      exact (hiff.mpr hn).resolve_left hne
  · exact ht.count.make hdead rfl

theorem slotOf_eq_some {t : HandleTable τ ω} {h : Handle} {slot : HandleSlot τ ω}
    (hs : t.slotOf h = some slot) :
    ∃ n, n < t.handleCapacity ∧ h = ⟨n + 1, slot.gen⟩ ∧ slot = t.handleSlots n := by
  simp only [HandleTable.slotOf] at hs
  split at hs
  · next hrange =>
    split at hs
    · next hgen =>
      cases hs
      have hn : ((h.index - 1).toNat : Int) = h.index - 1 := Int.toNat_of_nonneg hrange.1
      refine ⟨(h.index - 1).toNat, by omega, ?_, rfl⟩
      rw [hgen, hn, Int.sub_add_cancel]
    · cases hs
  · cases hs

theorem slotOf_index (t : HandleTable τ ω) {n : Nat} (hn : n < t.handleCapacity) :
    t.slotOf ⟨n + 1, (t.handleSlots n).gen⟩ = some (t.handleSlots n) := by
  have hrange : (0 : Int) ≤ n + 1 - 1 ∧ ((n : Int) + 1 - 1 < t.handleCapacity) := by omega
  have hnat : ((n : Int) + 1 - 1).toNat = n := by omega
  simp only [HandleTable.slotOf, if_pos hrange, hnat, if_true]

variable [DecidableEq τ]

/-- What a close that passes the checks does to the table. -/
theorem closeHandle_of_slotOf {t : HandleTable τ ω} {n : Nat} (hn : n < t.handleCapacity) :
    (t.closeHandle ⟨n + 1, (t.handleSlots n).gen⟩ (t.handleSlots n).tag).2 =
      { t with
        handleSlots := Function.update t.handleSlots n
          { t.handleSlots n with
            gen := (t.handleSlots n).gen + 1, nextHandleSlot := t.nextHandleSlot }
        nextHandleSlot := n
        numHandles := t.numHandles - 1 } := by
  have hnat : ((n : Int) + 1 - 1).toNat = n := by omega
  simp only [HandleTable.closeHandle, slotOf_index t hn, if_true, hnat]

/-- Where the handle is the only live one of its slot, the close frees that slot and no other. -/
theorem slotFree_close {m : HandleMap τ ω} {n : Nat} {gen : BitVec 32} {i : Issue τ ω} {tag : Option τ}
    (hl : m.lookup ⟨n + 1, gen⟩ tag = some i)
    (honly : ∀ h, m.IsLive h → h.index = n + 1 → h = ⟨n + 1, gen⟩) (n' : Nat) :
    (m.close ⟨n + 1, gen⟩ tag).SlotFree n' ↔ n' = n ∨ m.SlotFree n' := by
  constructor
  · intro hfree
    refine or_iff_not_imp_left.mpr fun hne h hlive hidx => ?_
    refine hfree h ((isLive_close hl h).mpr ⟨?_, hlive⟩) hidx
    rintro rfl
    simp only at hidx
    omega
  · rintro (rfl | hfree) h hlive
    · obtain ⟨hne, hwas⟩ := (isLive_close hl h).mp hlive
      exact fun hidx => hne (honly h hwas hidx)
    · exact hfree h ((isLive_close hl h).mp hlive).2

theorem CountsLive.close {t t' : HandleTable τ ω} {m : HandleMap τ ω} (hc : CountsLive t m) {h : Handle}
    {i : Issue τ ω} {tag : Option τ} (hl : m.lookup h tag = some i)
    (hnum : t'.numHandles = t.numHandles - 1) : CountsLive t' (m.close h tag) := by
  obtain ⟨live, hnodup, hmem, hlength⟩ := hc
  have hin : h ∈ live := (hmem h).mpr ⟨i, (isLive_of_lookup hl).1, (isLive_of_lookup hl).2.1⟩
  refine ⟨live.erase h, hnodup.erase _, fun h' => ?_, ?_⟩
  · rw [hnodup.mem_erase_iff, isLive_close hl, hmem]
  · have hpos := List.length_pos_of_mem hin
    rw [hnum, hlength, List.length_erase_of_mem hin]
    omega

/-- A live handle is closed with its tag: its slot, and no other, becomes free. -/
theorem Threaded.close {t : HandleTable τ ω} {m : HandleMap τ ω} (ht : Threaded t m) {h : Handle}
    {tag : Option τ} {i : Issue τ ω} (hl : m.lookup h tag = some i) :
    Threaded (t.closeHandle h tag).2 (m.close h tag) := by
  obtain ⟨hi, hlive, rfl⟩ := isLive_of_lookup hl
  obtain ⟨n, hn, rfl, htag⟩ := ht.live_slot h i hi hlive
  obtain ⟨free, hchain, hnodup, hlength, hmem⟩ := ht.visits
  have hnotin : n ∉ free := fun hin => ((hmem n).mp hin).2 _ ⟨i, hi, hlive⟩ rfl
  rw [← htag, closeHandle_of_slotOf hn, htag]
  refine ⟨ht.capacity_dvd, fun h' i' hi' hlive' => ?_, ⟨n :: free,
    hchain.put hnotin { t.handleSlots n with gen := (t.handleSlots n).gen + 1 } _,
    List.nodup_cons.mpr ⟨hnotin, hnodup⟩, ?_, fun n' => ?_⟩, ?_⟩
  · obtain ⟨hne, hwas⟩ := (isLive_close hl h').mp ⟨i', hi', hlive'⟩
    have hissue : m.issue h' = some i' := by
      simpa only [HandleMap.close, hl, Function.update_of_ne hne] using hi'
    obtain ⟨n', hn', rfl, htag'⟩ := ht.live_slot h' i' hissue hlive'
    have hnn : n' ≠ n := by
      rintro rfl
      exact hne rfl
    refine ⟨n', hn', ?_, ?_⟩
    · simp only [Function.update_of_ne hnn]
    · simpa only [Function.update_of_ne hnn] using htag'
  · rw [List.length_cons]
    push_cast
    omega
  · rw [List.mem_cons, hmem, slotFree_close hl fun h' hlive' => ht.eq_of_index hlive']
    constructor
    · rintro (rfl | ⟨hlt, hfree⟩)
      · exact ⟨hn, .inl rfl⟩
      · exact ⟨hlt, .inr hfree⟩
    · rintro ⟨hlt, rfl | hfree⟩
      · exact .inl rfl
      · exact .inr ⟨hlt, hfree⟩
  · exact ht.count.close hl rfl

/-! ## Whole runs -/

/-- The checks of `bio_close_handle` pass for a handle that is not live: the generation of its slot has come
round to that of the handle. -/
def HandleState.CameRound (s : HandleState τ ω) (h : Handle) (tag : Option τ) : Prop :=
  (∃ slot, s.table.slotOf h = some slot ∧ slot.tag = tag) ∧ ¬ s.map.IsLive h

/-- The operation is not such a close, and no `bio_make_handle` with `2 ^ 30` live handles. -/
def HandleState.InRange (s : HandleState τ ω) : HandleOp τ ω → Prop
  | .make _ _ => s.table.numHandles < 2 ^ 30
  | .close h tag => ¬ s.CameRound h tag
  | _ => True

theorem lookup_of_not_live {m : HandleMap τ ω} {h : Handle} (hdead : ¬ m.IsLive h) (tag : Option τ) :
    m.lookup h tag = none := by
  cases hl : m.lookup h tag with
  | none => rfl
  | some i =>
    obtain ⟨hi, hlive, _⟩ := isLive_of_lookup hl
    exact absurd ⟨i, hi, hlive⟩ hdead

/-- A wrong tag, a handle that was closed or the zero handle. -/
theorem Threaded.close_miss {s : HandleState τ ω} (ht : Threaded s.table s.map) {h : Handle}
    {tag : Option τ} (hround : ¬ s.CameRound h tag) (hl : s.map.lookup h tag = none) :
    s.table.closeHandle h tag = (none, s.table) := by
  unfold HandleTable.closeHandle
  cases hs : s.table.slotOf h with
  | none => rfl
  | some slot =>
    refine if_neg fun htag => ?_
    obtain ⟨i, hi, hlive⟩ : s.map.IsLive h := by_contra fun hdead => hround ⟨⟨slot, hs, htag⟩, hdead⟩
    obtain ⟨n, hn, rfl, hslot⟩ := ht.live_slot h i hi hlive
    rw [slotOf_index s.table hn] at hs
    cases hs
    have hsome : s.map.lookup ⟨n + 1, (s.table.handleSlots n).gen⟩ tag = some i :=
      Option.filter_eq_some_iff.mpr ⟨hi, by simp [hlive, ← hslot, htag]⟩
    rw [hl] at hsome
    cases hsome

theorem perform32_make {s : HandleState τ ω} {t : HandleTable τ ω} (hgrow : s.table.growIfFull32 = some t)
    (obj : Option ω) (tag : Option τ) :
    s.perform32 (.make obj tag) =
      some ⟨(t.takeSlot obj tag).2, s.map.make (t.takeSlot obj tag).1 obj tag⟩ := by
  simp only [HandleState.perform32, HandleTable.makeHandle32, hgrow, Option.map_some]

/-- Every operation keeps the list, unless the doubling overflows or it is a close whose generation has come
round. -/
theorem threaded_step {s : HandleState τ ω} (ht : Threaded s.table s.map) {op : HandleOp τ ω}
    (hop : s.InRange op) : ∃ t, s.perform32 op = some t ∧ Threaded t.table t.map := by
  cases op with
  | make obj tag =>
    obtain ⟨hgrown, room⟩ := ht.growIfFull hop
    exact ⟨_, perform32_make (ht.growIfFull32_eq hop) obj tag, hgrown.take room obj tag⟩
  | resolve h tag => exact ⟨s, rfl, ht⟩
  | info h => exact ⟨s, rfl, ht⟩
  | close h tag =>
    refine ⟨_, rfl, ?_⟩
    cases hl : s.map.lookup h tag with
    | some i => exact ht.close hl
    | none =>
      simp only [HandleState.perform, ht.close_miss hop hl]
      simpa only [HandleMap.close, hl] using ht

/-- The runs in which every operation is in range. -/
def HandleState.inRange (τ ω : Type*) [DecidableEq τ] :
    Machine (Option (HandleState τ ω)) (HandleOp τ ω) :=
  (HandleState.machine32 τ ω).restrict fun s op => ∀ t ∈ s, t.InRange op

theorem threaded_of_inRange {s : Option (HandleState τ ω)}
    (hs : (HandleState.inRange τ ω).Reachable s) : ∃ t, s = some t ∧ Threaded t.table t.map := by
  refine Machine.invariant (P := fun s => ∃ t, s = some t ∧ Threaded t.table t.map) ?_ ?_ hs
  · rintro s rfl
    exact ⟨_, rfl, threaded_init⟩
  · rintro s op - ⟨t, rfl, ht⟩ ⟨_, hop⟩
    exact threaded_step ht (hop t rfl)

/-- With `2 ^ 30` live handles `bio_make_handle` loses the table. A close whose generation has come round
takes one off the count, while no live handle goes. -/
theorem inRange_of_invariant {s t : HandleState τ ω} (ht : Threaded s.table s.map) {op : HandleOp τ ω}
    (hstep : s.perform32 op = some t) (hafter : FreeListInvariant t.table t.map) : s.InRange op := by
  cases op with
  | make obj tag =>
    by_contra hmany
    simp only [HandleState.perform32, HandleTable.makeHandle32, ht.growIfFull32_eq_none hmany] at hstep
    cases hstep
  | resolve h tag => trivial
  | info h => trivial
  | close h tag =>
    rintro ⟨⟨slot, hs, rfl⟩, hdead⟩
    obtain ⟨n, hn, rfl, rfl⟩ := slotOf_eq_some hs
    cases hstep
    have hmap : (s.perform (.close ⟨n + 1, (s.table.handleSlots n).gen⟩
        (s.table.handleSlots n).tag)).map = s.map := by
      simp only [HandleState.perform, HandleMap.close, lookup_of_not_live hdead]
    obtain ⟨live, hnodup, hmem, hnum⟩ := ht.count
    obtain ⟨live', hnodup', hmem', hnum'⟩ := hafter.count
    rw [hmap] at hmem'
    have hperm : live'.Perm live :=
      (List.perm_ext_iff_of_nodup hnodup' hnodup).mpr fun h => (hmem' h).trans (hmem h).symm
    have hless : (s.perform (.close ⟨n + 1, (s.table.handleSlots n).gen⟩
        (s.table.handleSlots n).tag)).table.numHandles = s.table.numHandles - 1 := by
      simp only [HandleState.perform, closeHandle_of_slotOf hn]
    rw [hless, hperm.length_eq, ← hnum] at hnum'
    omega

/-- The free list of the handle table. In every run from `bio_handle_table_init` of makes, resolves and
closes, with handles that were issued or zero, live or closed, and any tags, the following holds in all states
iff no close is made through a handle that is not live and whose slot has come round to its generation, and
no handle is made while `2 ^ 30` are live, when the doubled capacity is no `int32_t` any more:

* the links from `next_handle_slot` visit exactly `capacity - num_handles` distinct slots, which are all the
  free ones, and then reach the capacity;
* `num_handles` is the number of the live handles;
* the slot that `bio_make_handle` takes is in range and free;
* the table grows only when every slot is live, and growth drops no free slot. -/
theorem freeList_iff {as : List (HandleOp τ ω)}
    (hl : (HandleState.machine32 τ ω).Legal (some ⟨HandleTable.handleTableInit, HandleMap.empty⟩) as) :
    (∀ bs, bs <+: as → ∃ s,
      (HandleState.machine32 τ ω).run (some ⟨HandleTable.handleTableInit, HandleMap.empty⟩) bs = some s ∧
        FreeListInvariant s.table s.map) ↔
    (HandleState.inRange τ ω).Legal (some ⟨HandleTable.handleTableInit, HandleMap.empty⟩) as := by
  refine Machine.always_restrict_iff
    (P := fun s => ∃ t, s = some t ∧ FreeListInvariant t.table t.map) ?_ ?_ rfl hl
  · intro s hr
    obtain ⟨t, rfl, ht⟩ := threaded_of_inRange hr
    exact ⟨t, rfl, ht.invariant⟩
  · rintro s op hr - ⟨t', hstep, hafter⟩ t rfl
    obtain ⟨s, hs, ht⟩ := threaded_of_inRange hr
    cases hs
    exact inRange_of_invariant ht hstep hafter

/-- A close with a wrong tag, a close and a second close of the same handle. -/
theorem freeList_iff_reuse : ∃ s,
    (HandleState.machine32 Nat Nat).run (some ⟨HandleTable.handleTableInit, HandleMap.empty⟩)
        [.make (some 7) (some 1), .close (slotHandle 0 0) (some 2), .close (slotHandle 0 0) (some 1),
          .close (slotHandle 0 0) (some 1)] = some s ∧
      FreeListInvariant s.table s.map := by
  have hknown : ∀ m : HandleMap Nat Nat, (∃ i, m.issue (slotHandle 0 0) = some i) →
      m.Known (slotHandle 0 0) := fun _ => .inr
  have hl : (HandleState.machine32 Nat Nat).Legal (some ⟨HandleTable.handleTableInit, HandleMap.empty⟩)
      [.make (some 7) (some 1), .close (slotHandle 0 0) (some 2), .close (slotHandle 0 0) (some 1),
        .close (slotHandle 0 0) (some 1)] :=
    ⟨⟨_, rfl, trivial⟩, ⟨_, rfl, hknown _ ⟨_, rfl⟩⟩, ⟨_, rfl, hknown _ ⟨_, rfl⟩⟩,
      ⟨_, rfl, hknown _ ⟨_, rfl⟩⟩, trivial⟩
  refine (freeList_iff hl).mpr ⟨⟨hl.1, ?_⟩, ⟨hl.2.1, ?_⟩, ⟨hl.2.2.1, ?_⟩, ⟨hl.2.2.2.1, ?_⟩, trivial⟩
    _ (List.prefix_refl _)
  · rintro s ⟨⟩
    exact (by decide : (0 : Int) < 2 ^ 30)
  · rintro s ⟨⟩ ⟨_, hdead⟩
    exact hdead ⟨⟨some 7, some 1, true⟩, rfl, rfl⟩
  · rintro s ⟨⟩ ⟨_, hdead⟩
    exact hdead ⟨⟨some 7, some 1, true⟩, rfl, rfl⟩
  · rintro s ⟨⟩ ⟨⟨slot, hs, _⟩, _⟩
    cases hs

/-- A generation comes round only in a slot that was closed `2 ^ 32 - 1` times. -/
theorem not_cameRound_of_bounded {s : HandleState τ ω}
    (hs : (HandleState.machine32 τ ω).Reachable (some s)) (hb : s.map.Bounded) {h : Handle}
    (hk : s.map.Known h) (tag : Option τ) : ¬ s.CameRound h tag := by
  rintro ⟨⟨slot, hslot, htag⟩, hdead⟩
  have hr : (HandleState.machine τ ω).Reachable s := HandleState.reachable_of_machine32 hs s rfl
  exact slotOf_lookup_none (refines_of_reachable hr hb) hb hk (lookup_of_not_live hdead tag) hslot htag

/-! ## A generation that comes round -/

/-- The first slot is issued and closed `k` times. -/
def churn : Nat → List (HandleOp Unit Unit)
  | 0 => []
  | k + 1 => churn k ++ [.make none (some ()), .close (slotHandle 0 k) (some ())]

/-- The state after `churn k`. -/
structure Churned (k : Nat) (s : HandleState Unit Unit) : Prop where
  capacity : s.table.handleCapacity = 4
  next : s.table.nextHandleSlot = 0
  count : s.table.numHandles = 0
  gen : (s.table.handleSlots 0).gen = BitVec.ofNat 32 k
  tag : 0 < k → (s.table.handleSlots 0).tag = some ()
  known : 0 < k → s.map.Known (slotHandle 0 0)

theorem churned_init : Churned 0 ⟨HandleTable.handleTableInit, HandleMap.empty⟩ :=
  ⟨rfl, rfl, rfl, rfl, nofun, nofun⟩

/-- The state behind the next `bio_make_handle`. -/
def taken (k : Nat) (s : HandleState Unit Unit) : HandleState Unit Unit :=
  ⟨(s.table.takeSlot none (some ())).2, s.map.make (slotHandle 0 k) none (some ())⟩

/-- There is room, so that the table does not grow. -/
theorem Churned.make {k : Nat} {s : HandleState Unit Unit} (hc : Churned k s) :
    s.perform32 (.make none (some ())) = some (taken k s) := by
  have room : ¬ s.table.numHandles ≥ s.table.handleCapacity := by
    rw [hc.count, hc.capacity]
    decide
  have hgrow : s.table.growIfFull32 = some s.table :=
    (if_neg fun h => room h.1).trans (congrArg some (if_neg room))
  have hhandle : (s.table.takeSlot none (some ())).1 = slotHandle 0 k := by
    simp only [HandleTable.takeSlot, hc.next, hc.gen, slotHandle]
  rw [perform32_make hgrow, hhandle, taken]

theorem issue_taken (k : Nat) (s : HandleState Unit Unit) :
    (taken k s).map.issue (slotHandle 0 k) = some ⟨none, some (), true⟩ :=
  Function.update_self ..

/-- The slot is free again, with the next generation. -/
theorem Churned.close_taken {k : Nat} {s : HandleState Unit Unit} (hc : Churned k s) :
    Churned (k + 1) ((taken k s).perform (.close (slotHandle 0 k) (some ()))) := by
  have hcapacity : (taken k s).table.handleCapacity = 4 := hc.capacity
  have hslot : (taken k s).table.handleSlots 0 =
      { s.table.handleSlots 0 with obj := none, tag := some () } := by
    simp only [taken, HandleTable.takeSlot, hc.next, Function.update_self]
  have hclose := closeHandle_of_slotOf (t := (taken k s).table) (n := 0) (by rw [hcapacity]; decide)
  rw [hslot, hc.gen] at hclose
  have hafter : ((taken k s).perform (.close (slotHandle 0 k) (some ()))).table =
      ((taken k s).table.closeHandle ⟨(0 : Nat) + 1, BitVec.ofNat 32 k⟩ (some ())).2 := rfl
  rw [hclose] at hafter
  refine ⟨?_, ?_, ?_, ?_, fun _ => ?_, fun _ => known_close ?_ _ _⟩
  · rw [hafter]
    exact hcapacity
  · rw [hafter]
  · rw [hafter]
    show s.table.numHandles + 1 - 1 = 0
    rw [hc.count]
    rfl
  · rw [hafter]
    simp only [Function.update_self]
    exact (BitVec.ofNat_add k 1).symm
  · rw [hafter]
    simp only [Function.update_self]
  · cases k with
    | zero => exact .inr ⟨_, issue_taken 0 s⟩
    | succ k => exact known_make (hc.known (Nat.succ_pos k)) _ _ _

theorem churned_round {k : Nat} {s : HandleState Unit Unit} (hc : Churned k s) :
    (HandleState.machine32 Unit Unit).Legal (some s)
        [.make none (some ()), .close (slotHandle 0 k) (some ())] ∧
      ∃ t, (HandleState.machine32 Unit Unit).run (some s)
          [.make none (some ()), .close (slotHandle 0 k) (some ())] = some t ∧ Churned (k + 1) t := by
  have hrun : (HandleState.machine32 Unit Unit).run (some s)
      [.make none (some ()), .close (slotHandle 0 k) (some ())] =
        some ((taken k s).perform (.close (slotHandle 0 k) (some ()))) := by
    show (s.perform32 (.make none (some ()))).bind
      (fun t => t.perform32 (.close (slotHandle 0 k) (some ()))) = _
    rw [hc.make]
    rfl
  exact ⟨⟨⟨s, rfl, trivial⟩, ⟨_, hc.make, .inr ⟨_, issue_taken k s⟩⟩, trivial⟩, _, hrun, hc.close_taken⟩

theorem churned_churn (k : Nat) :
    (HandleState.machine32 Unit Unit).Legal (some ⟨HandleTable.handleTableInit, HandleMap.empty⟩)
        (churn k) ∧
      ∃ s, (HandleState.machine32 Unit Unit).run (some ⟨HandleTable.handleTableInit, HandleMap.empty⟩)
        (churn k) = some s ∧ Churned k s := by
  induction k with
  | zero => exact ⟨trivial, _, rfl, churned_init⟩
  | succ k ih =>
    obtain ⟨hfirst, s, hrun, hchurned⟩ := ih
    obtain ⟨hlegal, t, hround, hafter⟩ := churned_round hchurned
    rw [churn, Machine.legal_append, Machine.run_append, hrun]
    exact ⟨⟨hfirst, hlegal⟩, t, hround, hafter⟩

/-- Where the generation of the free first slot is that of its first handle again, that handle closes it. -/
theorem Churned.close {k : Nat} {s : HandleState Unit Unit} (hc : Churned k s) (hk : 0 < k)
    (hgen : BitVec.ofNat 32 k = 0) :
    (s.perform (.close (slotHandle 0 0) (some ()))).table.numHandles = -1 := by
  have hclose := closeHandle_of_slotOf (t := s.table) (n := 0) (by rw [hc.capacity]; decide)
  rw [hc.gen, hgen, hc.tag hk] at hclose
  have hafter : (s.perform (.close (slotHandle 0 0) (some ()))).table =
      (s.table.closeHandle ⟨(0 : Nat) + 1, 0⟩ (some ())).2 := rfl
  rw [hafter, hclose]
  show s.table.numHandles - 1 = -1
  rw [hc.count]
  rfl

theorem not_invariant_of_churned {k : Nat} (hk : 0 < k) (hgen : BitVec.ofNat 32 k = 0) :
    (HandleState.machine32 Unit Unit).Legal (some ⟨HandleTable.handleTableInit, HandleMap.empty⟩)
        (churn k ++ [.close (slotHandle 0 0) (some ())]) ∧
      ¬ ∃ s, (HandleState.machine32 Unit Unit).run (some ⟨HandleTable.handleTableInit, HandleMap.empty⟩)
          (churn k ++ [.close (slotHandle 0 0) (some ())]) = some s ∧
        FreeListInvariant s.table s.map := by
  obtain ⟨hlegal, s, hrun, hchurned⟩ := churned_churn k
  rw [Machine.legal_append, Machine.run_append, hrun]
  refine ⟨⟨hlegal, ⟨s, rfl, hchurned.known hk⟩, trivial⟩, ?_⟩
  rintro ⟨t, ht, hinv⟩
  obtain rfl : s.perform (.close (slotHandle 0 0) (some ())) = t := Option.some.inj ht
  obtain ⟨live, _, _, hnum⟩ := hinv.count
  have hnegative : (-1 : Int) = live.length := (hchurned.close hk hgen).symm.trans hnum
  omega

/-- The first handle is closed again after its slot was issued and closed `2 ^ 32` times. -/
theorem freeList_after_wrap :
    (HandleState.machine32 Unit Unit).Legal (some ⟨HandleTable.handleTableInit, HandleMap.empty⟩)
        (churn (2 ^ 32) ++ [.close (slotHandle 0 0) (some ())]) ∧
      ¬ ∃ s, (HandleState.machine32 Unit Unit).run (some ⟨HandleTable.handleTableInit, HandleMap.empty⟩)
          (churn (2 ^ 32) ++ [.close (slotHandle 0 0) (some ())]) = some s ∧
        FreeListInvariant s.table s.map :=
  not_invariant_of_churned (by decide) (by decide)

end Bio
