import Bio.Handle
import Mathlib.Data.List.Range

/-!
# The handle table refines a finite map

`Refines t m` ties a table to the map of all handles issued so far. It says what the free list is
(a chain of exactly the slots without a live handle, ended by the capacity) and what a generation
is (the number of closes of the slot, which is where the bound on closes is used).

1. `refines_of_reachable`: every operation keeps it, growth included.
2. `handleTable_refines_map`: what a client can observe is what the map says.
-/

namespace Bio

/-- Following `next` from `a` visits the elements of the list and ends at `e`. -/
def Linked (next : Nat → Nat) : Nat → List Nat → Nat → Prop
  | a, [], e => a = e
  | a, x :: l, e => a = x ∧ Linked next (next x) l e

theorem Linked.congr {f g : Nat → Nat} {l : List Nat} (h : ∀ x, x ∈ l → f x = g x) :
    ∀ {a e : Nat}, Linked f a l e → Linked g a l e := by
  induction l with
  | nil => exact fun hl => hl
  | cons x l ih =>
    rintro a e ⟨ha, hl⟩
    refine ⟨ha, ?_⟩
    rw [← h x (List.mem_cons_self)]
    exact ih (fun y hy => h y (List.mem_cons_of_mem _ hy)) hl

/-- The chain that `bio_grow_handle_table` builds. -/
theorem linked_range' {next : Nat → Nat} (len : Nat) :
    ∀ {a : Nat}, (∀ x, a ≤ x → x < a + len → next x = x + 1) →
      Linked next a (List.range' a len) (a + len) := by
  induction len with
  | zero => exact fun _ => rfl
  | succ len ih =>
    intro a h
    have hrest : Linked next (a + 1) (List.range' (a + 1) len) (a + 1 + len) :=
      ih (fun x hx hlt => h x (by omega) (by omega))
    rw [List.range'_succ]
    refine ⟨rfl, ?_⟩
    rw [h a (Nat.le_refl a) (by omega)]
    have hend : a + (len + 1) = a + 1 + len := by omega
    rw [hend]
    exact hrest

variable {τ ω : Type*}

/-- The slots that the links of the table visit from its head until they reach the capacity. -/
def FreeChain (t : HandleTable τ ω) (free : List Nat) : Prop :=
  Linked (fun i => (t.handleSlots i).nextHandleSlot) t.nextHandleSlot free t.handleCapacity

/-- Growth begins a new chain, of the new slots. -/
theorem FreeChain.grow (t : HandleTable τ ω) :
    FreeChain (t.growHandleTable t.handleCapacity (t.handleCapacity * 2))
      (List.range' t.handleCapacity t.handleCapacity) := by
  have hlink : Linked
      (fun i => ((t.growHandleTable t.handleCapacity (t.handleCapacity * 2)).handleSlots
        i).nextHandleSlot)
      t.handleCapacity (List.range' t.handleCapacity t.handleCapacity)
      (t.handleCapacity + t.handleCapacity) := by
    refine linked_range' _ fun x hx hlt => ?_
    have hnew : t.handleCapacity ≤ x ∧ x < t.handleCapacity * 2 := ⟨hx, by omega⟩
    simp only [HandleTable.growHandleTable, if_pos hnew]
  rwa [← Nat.mul_two] at hlink

/-- The head of the chain is the slot that is taken; the rest does not pass through it. -/
theorem FreeChain.take {t : HandleTable τ ω} {x : Nat} {free : List Nat}
    (h : FreeChain t (x :: free)) (hx : x ∉ free) (obj : Option ω) (tag : Option τ) :
    t.nextHandleSlot = x ∧ FreeChain (t.takeSlot obj tag).2 free := by
  obtain ⟨rfl, hlink⟩ := h
  refine ⟨rfl, hlink.congr fun y hy => ?_⟩
  have hne : y ≠ t.nextHandleSlot := fun heq => hx (heq ▸ hy)
  simp only [HandleTable.takeSlot, Function.update_of_ne hne]

/-- A slot that is not in the chain is put at its head, as `bio_close_handle` does. -/
theorem FreeChain.put {t : HandleTable τ ω} {n : Nat} {free : List Nat} (h : FreeChain t free)
    (hn : n ∉ free) (slot : HandleSlot τ ω) (numHandles : Int) :
    FreeChain
      { t with
        handleSlots := Function.update t.handleSlots n { slot with nextHandleSlot := t.nextHandleSlot }
        nextHandleSlot := n
        numHandles := numHandles }
      (n :: free) := by
  refine ⟨rfl, ?_⟩
  simp only [Function.update_self]
  refine Linked.congr (fun y hy => ?_) h
  have hne : y ≠ n := fun heq => hn (heq ▸ hy)
  simp only [Function.update_of_ne hne]

theorem ofNat32_inj {a b : Nat} (ha : a < 2 ^ 32) (hb : b < 2 ^ 32)
    (h : BitVec.ofNat 32 a = BitVec.ofNat 32 b) : a = b := by
  have := congrArg BitVec.toNat h
  rwa [BitVec.toNat_ofNat, BitVec.toNat_ofNat, Nat.mod_eq_of_lt ha, Nat.mod_eq_of_lt hb] at this

/-- The handle of slot `n` in its generation `k`. -/
def slotHandle (n k : Nat) : Handle := ⟨n + 1, BitVec.ofNat 32 k⟩

theorem slotHandle_inj {n k n' k' : Nat} (hk : k < 2 ^ 32) (hk' : k' < 2 ^ 32)
    (h : slotHandle n k = slotHandle n' k') : n = n' ∧ k = k' := by
  have hi := congrArg Handle.index h
  have hg := congrArg Handle.gen h
  simp only [slotHandle] at hi hg
  exact ⟨by omega, ofNat32_inj hk hk' hg⟩

theorem slotHandle_ne_invalid (n k : Nat) : slotHandle n k ≠ Handle.invalid := by
  intro h
  have hi := congrArg Handle.index h
  simp only [slotHandle, Handle.invalid] at hi
  omega

/-- An issued handle names generation `k` of slot `n`. It is live iff this is the slot's current
generation, and then the slot holds its object and tag. -/
def IssuedAt (t : HandleTable τ ω) (m : HandleMap τ ω) (i : Issue τ ω) (n k : Nat) : Prop :=
  n < t.handleCapacity ∧ k ≤ m.closes n ∧ (i.live = true ↔ k = m.closes n) ∧
    (k = m.closes n → (t.handleSlots n).obj = i.obj ∧ (t.handleSlots n).tag = i.tag)

/-- The free list: a chain of exactly the slots whose current generation was not issued. -/
def FreeList (t : HandleTable τ ω) (m : HandleMap τ ω) (free : List Nat) : Prop :=
  Linked (fun i => (t.handleSlots i).nextHandleSlot) t.nextHandleSlot free t.handleCapacity ∧
    free.Nodup ∧
    (∀ n, n ∈ free ↔ n < t.handleCapacity ∧ m.issue (slotHandle n (m.closes n)) = none) ∧
    t.numHandles = t.handleCapacity - free.length

/-- The table `t` represents the map `m`. -/
structure Refines (t : HandleTable τ ω) (m : HandleMap τ ω) : Prop where
  capacity_pos : 0 < t.handleCapacity
  gens : ∀ n, n < t.handleCapacity → (t.handleSlots n).gen = BitVec.ofNat 32 (m.closes n)
  beyond : ∀ n, t.handleCapacity ≤ n → m.closes n = 0
  issued : ∀ h i, m.issue h = some i → ∃ n k, h = slotHandle n k ∧ IssuedAt t m i n k
  free : ∃ l, FreeList t m l

/-- The generations of no slot have come round, nor do they with one more close. -/
def HandleMap.Bounded (m : HandleMap τ ω) : Prop := ∀ n, m.closes n + 1 < 2 ^ 32

theorem HandleMap.Bounded.le_lt {m : HandleMap τ ω} (hb : m.Bounded) {n k : Nat}
    (h : k ≤ m.closes n + 1) : k < 2 ^ 32 := by
  have := hb n
  omega

/-! ## Initialisation and growth -/

theorem refines_init : Refines (HandleTable.handleTableInit : HandleTable τ ω) .empty where
  capacity_pos := Nat.succ_pos 3
  gens := by
    intro n hn
    have hn' : 0 ≤ n ∧ n < initialHandleCapacity := ⟨Nat.zero_le n, hn⟩
    simp [HandleTable.handleTableInit, HandleTable.growHandleTable, HandleMap.empty, hn'.2]
  beyond := fun _ _ => rfl
  issued := by simp [HandleMap.empty]
  free := by
    refine ⟨List.range' 0 initialHandleCapacity, ?_, List.nodup_range', ?_, ?_⟩
    · show Linked _ 0 _ (0 + initialHandleCapacity)
      apply linked_range'
      intro x _ hx
      rw [Nat.zero_add] at hx
      simp [HandleTable.handleTableInit, HandleTable.growHandleTable, hx]
    · intro n
      simp [HandleTable.handleTableInit, HandleTable.growHandleTable, HandleMap.empty,
        List.mem_range'_1]
    · simp [HandleTable.handleTableInit, HandleTable.growHandleTable]

/-- A full table has an empty free list, so that the new chain loses no free slot. -/
theorem growHandleTable_refines {t : HandleTable τ ω} {m : HandleMap τ ω} (hr : Refines t m)
    (full : t.numHandles ≥ t.handleCapacity) :
    Refines (t.growHandleTable t.handleCapacity (t.handleCapacity * 2)) m := by
  have hpos := hr.capacity_pos
  obtain ⟨l, _, _, hmem, hnum⟩ := hr.free
  have hl : l = [] := List.length_eq_zero_iff.mp (by omega)
  have hold : ∀ n, n < t.handleCapacity →
      (t.growHandleTable t.handleCapacity (t.handleCapacity * 2)).handleSlots n
        = t.handleSlots n := by
    intro n hn
    have : ¬ t.handleCapacity ≤ n := by omega
    simp [HandleTable.growHandleTable, this]
  have hnew : ∀ n, t.handleCapacity ≤ n → n < t.handleCapacity + t.handleCapacity →
      (t.growHandleTable t.handleCapacity (t.handleCapacity * 2)).handleSlots n
        = ⟨none, none, 0, n + 1⟩ := by
    intro n hn hlt
    have : t.handleCapacity ≤ n ∧ n < t.handleCapacity * 2 := ⟨hn, by omega⟩
    simp [HandleTable.growHandleTable, this]
  have hcap : (t.growHandleTable t.handleCapacity (t.handleCapacity * 2)).handleCapacity
      = t.handleCapacity * 2 := rfl
  refine ⟨by omega, ?_, ?_, ?_, List.range' t.handleCapacity t.handleCapacity, FreeChain.grow t,
    List.nodup_range', ?_, ?_⟩
  · intro n hn
    rw [hcap] at hn
    by_cases hlt : n < t.handleCapacity
    · rw [hold n hlt]
      exact hr.gens n hlt
    · rw [hnew n (by omega) (by omega), hr.beyond n (by omega)]
      rfl
  · intro n hn
    rw [hcap] at hn
    exact hr.beyond n (by omega)
  · intro h i hi
    obtain ⟨n, k, rfl, hn, hk, hlive, hobj⟩ := hr.issued h i hi
    refine ⟨n, k, rfl, by omega, hk, hlive, ?_⟩
    rw [hold n hn]
    exact hobj
  · intro n
    rw [List.mem_range'_1, hcap]
    constructor
    · rintro ⟨hge, hlt⟩
      refine ⟨by omega, ?_⟩
      rw [Option.eq_none_iff_forall_ne_some]
      intro i hi
      -- A handle of a slot beyond the old capacity was never issued.
      obtain ⟨n', k, he, hn', _⟩ := hr.issued _ i hi
      have hidx := congrArg Handle.index he
      simp only [slotHandle] at hidx
      omega
    · rintro ⟨hlt, hnone⟩
      refine ⟨?_, by omega⟩
      by_contra hlt'
      have hin : n ∈ l := (hmem n).mpr ⟨by omega, hnone⟩
      rw [hl] at hin
      exact absurd hin List.not_mem_nil
  · rw [List.length_range', hcap]
    have hsame : (t.growHandleTable t.handleCapacity (t.handleCapacity * 2)).numHandles
        = t.numHandles := rfl
    rw [hsame, hnum, hl]
    push_cast [List.length_nil]
    omega

theorem growIfFull_refines {t : HandleTable τ ω} {m : HandleMap τ ω} (hr : Refines t m) :
    Refines t.growIfFull m ∧ t.growIfFull.numHandles < t.growIfFull.handleCapacity := by
  unfold HandleTable.growIfFull
  split
  · next full =>
    refine ⟨growHandleTable_refines hr full, ?_⟩
    obtain ⟨l, _, _, _, hnum⟩ := hr.free
    have hpos := hr.capacity_pos
    show t.numHandles < ((t.handleCapacity * 2 : Nat) : Int)
    omega
  · next room => exact ⟨hr, by omega⟩

/-! ## Issuing a handle -/

theorem takeSlot_spec {t : HandleTable τ ω} {m : HandleMap τ ω} (hr : Refines t m)
    (hb : m.Bounded) (room : t.numHandles < t.handleCapacity) (obj : Option ω) (tag : Option τ) :
    m.issue (t.takeSlot obj tag).1 = none ∧ (t.takeSlot obj tag).1 ≠ Handle.invalid ∧
      Refines (t.takeSlot obj tag).2 (m.make (t.takeSlot obj tag).1 obj tag) := by
  obtain ⟨l, hlink, hnodup, hmem, hnum⟩ := hr.free
  cases l with
  | nil =>
    rw [List.length_nil] at hnum
    omega
  | cons x l =>
    obtain ⟨hxl, hnodup⟩ := List.nodup_cons.mp hnodup
    obtain ⟨hx, hrest⟩ := FreeChain.take hlink hxl obj tag
    -- The slot that is taken is the head `x` of the free list, in the generation of its closes.
    obtain ⟨hcap, hfree⟩ := (hmem x).mp (List.mem_cons_self)
    have hhandle : (t.takeSlot obj tag).1 = slotHandle x (m.closes x) := by
      simp [HandleTable.takeSlot, slotHandle, hx, hr.gens x hcap]
    have hslot : ∀ n, n ≠ x → (t.takeSlot obj tag).2.handleSlots n = t.handleSlots n := by
      intro n hn
      simp [HandleTable.takeSlot, hx, hn]
    have hslotx : (t.takeSlot obj tag).2.handleSlots x =
        { t.handleSlots x with obj := obj, tag := tag } := by
      simp [HandleTable.takeSlot, hx]
    have hcapeq : (t.takeSlot obj tag).2.handleCapacity = t.handleCapacity := rfl
    rw [hhandle]
    refine ⟨hfree, slotHandle_ne_invalid _ _, ⟨hr.capacity_pos, ?_, hr.beyond, ?_, l, hrest, hnodup,
      ?_, ?_⟩⟩
    · intro n hn
      by_cases hnx : n = x
      · rw [hnx, hslotx]
        exact hr.gens x hcap
      · rw [hslot n hnx]
        exact hr.gens n hn
    · intro h i hi
      by_cases hh : h = slotHandle x (m.closes x)
      · have hi' : i = ⟨obj, tag, true⟩ := by
          rw [HandleMap.make, hh] at hi
          simpa using hi.symm
        refine ⟨x, m.closes x, hh, hcap, Nat.le_refl _, ?_, fun _ => ?_⟩
        · simp [hi', HandleMap.make]
        · rw [hslotx, hi']
          exact ⟨rfl, rfl⟩
      · have hi' : m.issue h = some i := by simpa [HandleMap.make, hh] using hi
        obtain ⟨n, k, rfl, hn, hk, hlive, hobj⟩ := hr.issued h i hi'
        refine ⟨n, k, rfl, hn, hk, hlive, fun hkc => ?_⟩
        -- An older handle of the slot `x` has another generation.
        have hnx : n ≠ x := by
          rintro rfl
          exact hh (by rw [hkc]; rfl)
        rw [hslot n hnx]
        exact hobj hkc
    · intro n
      have hiff := hmem n
      rw [List.mem_cons] at hiff
      constructor
      · intro hn
        have hnx : n ≠ x := fun h => hxl (h ▸ hn)
        obtain ⟨hlt, hnone⟩ := hiff.mp (.inr hn)
        refine ⟨hlt, ?_⟩
        have hne : slotHandle n (m.closes n) ≠ slotHandle x (m.closes x) := fun h =>
          hnx (slotHandle_inj (hb.le_lt (Nat.le_succ _)) (hb.le_lt (Nat.le_succ _)) h).1
        simpa [HandleMap.make, hne] using hnone
      · rintro ⟨hlt, hnone⟩
        have hnx : n ≠ x := by
          rintro rfl
          simp [HandleMap.make] at hnone
        have hne : slotHandle n (m.closes n) ≠ slotHandle x (m.closes x) := fun h =>
          hnx (slotHandle_inj (hb.le_lt (Nat.le_succ _)) (hb.le_lt (Nat.le_succ _)) h).1
        have hnone' : m.issue (slotHandle n (m.closes n)) = none := by
          simpa [HandleMap.make, hne] using hnone
        exact (hiff.mpr ⟨hlt, hnone'⟩).resolve_left hnx
    · rw [hcapeq]
      have hnum' : (t.takeSlot obj tag).2.numHandles = t.numHandles + 1 := rfl
      rw [hnum', hnum, List.length_cons]
      push_cast
      omega

theorem makeHandle_spec {t : HandleTable τ ω} {m : HandleMap τ ω} (hr : Refines t m)
    (hb : m.Bounded) (obj : Option ω) (tag : Option τ) :
    m.issue (t.makeHandle obj tag).1 = none ∧ (t.makeHandle obj tag).1 ≠ Handle.invalid ∧
      Refines (t.makeHandle obj tag).2 (m.make (t.makeHandle obj tag).1 obj tag) := by
  obtain ⟨hgrow, room⟩ := growIfFull_refines hr
  exact takeSlot_spec hgrow hb room obj tag

/-! ## Resolving and closing -/

theorem slotOf_slotHandle {t : HandleTable τ ω} {m : HandleMap τ ω} (hr : Refines t m) {n k : Nat}
    (hn : n < t.handleCapacity) :
    t.slotOf (slotHandle n k) =
      if BitVec.ofNat 32 (m.closes n) = BitVec.ofNat 32 k then some (t.handleSlots n) else none := by
  have hrange : (0 : Int) ≤ n + 1 - 1 ∧ ((n : Int) + 1 - 1 < t.handleCapacity) := by omega
  have hnat : ((n : Int) + 1 - 1).toNat = n := by omega
  simp only [HandleTable.slotOf, slotHandle, if_pos hrange, hnat, hr.gens n hn]

/-- The bounds check and the generation check pass exactly for the live handles. -/
theorem slotOf_issued {t : HandleTable τ ω} {m : HandleMap τ ω} (hr : Refines t m)
    (hb : m.Bounded) {h : Handle} {i : Issue τ ω} (hi : m.issue h = some i) :
    (i.live = true → ∃ slot, t.slotOf h = some slot ∧ slot.obj = i.obj ∧ slot.tag = i.tag) ∧
      (i.live = false → t.slotOf h = none) := by
  obtain ⟨n, k, rfl, hn, hk, hlive, hobj⟩ := hr.issued h i hi
  rw [slotOf_slotHandle hr hn]
  constructor
  · intro hl
    have hkc := hlive.mp hl
    rw [if_pos (by rw [hkc])]
    exact ⟨_, rfl, hobj hkc⟩
  · intro hl
    refine if_neg fun he => ?_
    have hkc := ofNat32_inj (hb.le_lt (Nat.le_succ _)) (hb.le_lt (Nat.le_succ_of_le hk)) he
    rw [hlive.mpr hkc.symm] at hl
    exact Bool.noConfusion hl

theorem slotOf_invalid (t : HandleTable τ ω) : t.slotOf Handle.invalid = none := by
  simp [HandleTable.slotOf, Handle.invalid]

variable [DecidableEq τ]

/-- Any other handle of a client finds no slot with that tag. -/
theorem slotOf_lookup_none {t : HandleTable τ ω} {m : HandleMap τ ω} (hr : Refines t m)
    (hb : m.Bounded) {h : Handle} {tag : Option τ} (hk : m.Known h)
    (hl : m.lookup h tag = none) {slot : HandleSlot τ ω} (hs : t.slotOf h = some slot) :
    slot.tag ≠ tag := by
  obtain rfl | ⟨i, hi⟩ := hk
  · rw [slotOf_invalid] at hs
    cases hs
  · intro htag
    cases hlive : i.live with
    | false =>
      rw [(slotOf_issued hr hb hi).2 hlive] at hs
      cases hs
    | true =>
      obtain ⟨slot', hs', _, htag'⟩ := (slotOf_issued hr hb hi).1 hlive
      rw [hs] at hs'
      cases hs'
      have hsome : m.lookup h tag = some i :=
        Option.filter_eq_some_iff.mpr ⟨hi, by simp [hlive, ← htag', htag]⟩
      rw [hl] at hsome
      cases hsome

/-- A wrong tag, a closed handle or the zero handle: `NULL`, and nothing changes. -/
theorem closeHandle_miss {t : HandleTable τ ω} {m : HandleMap τ ω} (hr : Refines t m)
    (hb : m.Bounded) {h : Handle} (hk : m.Known h) {tag : Option τ}
    (hl : m.lookup h tag = none) : t.closeHandle h tag = (none, t) := by
  unfold HandleTable.closeHandle
  cases hs : t.slotOf h with
  | none => rfl
  | some slot => simp [slotOf_lookup_none hr hb hk hl hs]

/-- Closing a live handle: the slot leaves generation `closes n` and becomes the head of the free
list. The handle of its next generation was never issued, so the slot is free. -/
theorem closeHandle_hit {t : HandleTable τ ω} {m : HandleMap τ ω} (hr : Refines t m)
    (hb : m.Bounded) {h : Handle} {tag : Option τ} {i : Issue τ ω} (hl : m.lookup h tag = some i) :
    (t.closeHandle h tag).1 = i.obj ∧ Refines (t.closeHandle h tag).2 (m.close h tag) := by
  obtain ⟨hi, hfilter⟩ := Option.filter_eq_some_iff.mp hl
  have hlive' : i.live = true ∧ i.tag = tag := by simpa using hfilter
  obtain ⟨n, k, rfl, hn, hk, hlive, hobj⟩ := hr.issued h i hi
  obtain rfl := hlive.mp hlive'.1
  obtain ⟨hobj, htag⟩ := hobj rfl
  have hidx : ((slotHandle n (m.closes n)).index - 1).toNat = n := by simp [slotHandle]
  have hslot : t.slotOf (slotHandle n (m.closes n)) = some (t.handleSlots n) := by
    rw [slotOf_slotHandle hr hn, if_pos rfl]
  have hclose : t.closeHandle (slotHandle n (m.closes n)) tag =
      ((t.handleSlots n).obj,
        { t with
          handleSlots := Function.update t.handleSlots n
            { t.handleSlots n with
              gen := (t.handleSlots n).gen + 1, nextHandleSlot := t.nextHandleSlot }
          nextHandleSlot := n
          numHandles := t.numHandles - 1 }) := by
    simp only [HandleTable.closeHandle, hslot, htag, hlive'.2, if_true, hidx]
  have hmap : m.close (slotHandle n (m.closes n)) tag =
      { issue := Function.update m.issue (slotHandle n (m.closes n)) (some { i with live := false })
        closes := Function.update m.closes n (m.closes n + 1) } := by
    simp only [HandleMap.close, hl, hidx]
  rw [hclose, hmap]
  refine ⟨hobj, hr.capacity_pos, ?_, ?_, ?_, ?_⟩
  · intro n' hn'
    by_cases hne : n' = n
    · subst hne
      simp only [Function.update_self, hr.gens n' hn]
      exact (BitVec.ofNat_add (m.closes n') 1).symm
    · simp only [Function.update_of_ne hne]
      exact hr.gens n' hn'
  · intro n' hn'
    have hne : n' ≠ n := by
      rintro rfl
      exact absurd hn (Nat.not_lt.mpr hn')
    simp only [Function.update_of_ne hne]
    exact hr.beyond n' hn'
  · intro h' i' hi'
    by_cases hh : h' = slotHandle n (m.closes n)
    · subst hh
      simp only [Function.update_self, Option.some.injEq] at hi'
      subst hi'
      refine ⟨n, m.closes n, rfl, hn, ?_, ?_, ?_⟩
      all_goals simp
    · simp only [Function.update_of_ne hh] at hi'
      obtain ⟨n', k', rfl, hn', hk', hlive'', hobj'⟩ := hr.issued h' i' hi'
      by_cases hne : n' = n
      · subst hne
        -- An older generation of the closed slot stays closed.
        have hlt : k' < m.closes n' := by
          refine Nat.lt_of_le_of_ne hk' fun hkc => hh ?_
          rw [hkc]
        refine ⟨n', k', rfl, hn, ?_, ?_, ?_⟩
        · simp only [Function.update_self]
          omega
        · simp only [Function.update_self]
          rw [hlive'']
          omega
        · simp only [Function.update_self]
          intro hkc
          omega
      · refine ⟨n', k', rfl, hn', ?_, ?_, ?_⟩
        all_goals simp only [Function.update_of_ne hne]
        exacts [hk', hlive'', hobj']
  · obtain ⟨l, hlink, hnodup, hmem, hnum⟩ := hr.free
    have hnl : n ∉ l := by
      intro hin
      rw [((hmem n).mp hin).2] at hi
      cases hi
    refine ⟨n :: l, FreeChain.put hlink hnl { t.handleSlots n with gen := (t.handleSlots n).gen + 1 } _,
      List.nodup_cons.mpr ⟨hnl, hnodup⟩, ?_, ?_⟩
    · intro n'
      rw [List.mem_cons]
      by_cases hne : n' = n
      · subst hne
        simp only [true_or, Function.update_self, true_iff]
        have hnext : slotHandle n' (m.closes n' + 1) ≠ slotHandle n' (m.closes n') := by
          intro h
          have := (slotHandle_inj (hb.le_lt (Nat.le_refl _)) (hb.le_lt (Nat.le_succ _)) h).2
          omega
        refine ⟨hn, ?_⟩
        rw [Function.update_of_ne hnext, Option.eq_none_iff_forall_ne_some]
        intro i' hi'
        obtain ⟨n'', k', he, _, hk', _⟩ := hr.issued _ i' hi'
        have hk'' : k' < 2 ^ 32 := hb.le_lt (Nat.le_succ_of_le hk')
        obtain ⟨rfl, rfl⟩ := slotHandle_inj (hb.le_lt (Nat.le_refl _)) hk'' he
        omega
      · have hother : slotHandle n' (m.closes n') ≠ slotHandle n (m.closes n) := fun h =>
          hne (slotHandle_inj (hb.le_lt (Nat.le_succ _)) (hb.le_lt (Nat.le_succ _)) h).1
        simp only [hne, false_or, Function.update_of_ne hne, Function.update_of_ne hother]
        exact hmem n'
    · simp only [List.length_cons, hnum]
      push_cast
      omega

theorem closeHandle_refines {t : HandleTable τ ω} {m : HandleMap τ ω} (hr : Refines t m)
    (hb : m.Bounded) {h : Handle} (hk : m.Known h) (tag : Option τ) :
    Refines (t.closeHandle h tag).2 (m.close h tag) := by
  cases hl : m.lookup h tag with
  | some i => exact (closeHandle_hit hr hb hl).2
  | none =>
    rw [closeHandle_miss hr hb hk hl]
    simpa only [HandleMap.close, hl] using hr

/-! ## Whole runs -/

theorem closes_close (m : HandleMap τ ω) (h : Handle) (tag : Option τ) (n : Nat) :
    m.closes n ≤ (m.close h tag).closes n ∧ (m.close h tag).closes n ≤ m.closes n + 1 := by
  cases hl : m.lookup h tag with
  | none => simp [HandleMap.close, hl]
  | some i =>
    simp only [HandleMap.close, hl, Function.update_apply]
    split
    · next he => rw [he]; omega
    · omega

theorem closes_le_perform (s : HandleState τ ω) (op : HandleOp τ ω) (n : Nat) :
    s.map.closes n ≤ (s.perform op).map.closes n := by
  cases op with
  | make obj tag => exact Nat.le_refl _
  | resolve h tag => exact Nat.le_refl _
  | info h => exact Nat.le_refl _
  | close h tag => exact (closes_close s.map h tag n).1

/-- In every run in which no generation comes round the table represents the map. -/
theorem refines_of_reachable {s : HandleState τ ω} (h : (HandleState.machine τ ω).Reachable s)
    (hb : s.map.Bounded) : Refines s.table s.map := by
  refine Machine.invariant (P := fun s => s.map.Bounded → Refines s.table s.map) ?_ ?_ h hb
  · rintro s rfl _
    exact refines_init
  · intro s op _ ih hen hb'
    have hb : s.map.Bounded := fun n =>
      Nat.lt_of_le_of_lt (Nat.succ_le_succ (closes_le_perform s op n)) (hb' n)
    have hr := ih hb
    cases op with
    | make obj tag => exact (makeHandle_spec hr hb obj tag).2.2
    | resolve h tag => exact hr
    | info h => exact hr
    | close h tag => exact closeHandle_refines hr hb hen tag

omit [DecidableEq τ] in
theorem known_make {m : HandleMap τ ω} {h : Handle} (hk : m.Known h) (h' : Handle)
    (obj : Option ω) (tag : Option τ) : (m.make h' obj tag).Known h := by
  refine hk.imp id fun ⟨i, hi⟩ => ?_
  by_cases hh : h = h'
  · exact ⟨_, by rw [HandleMap.make, hh]; exact Function.update_self ..⟩
  · exact ⟨i, by rw [HandleMap.make]; exact (Function.update_of_ne hh ..).trans hi⟩

theorem known_close {m : HandleMap τ ω} {h : Handle} (hk : m.Known h) (h' : Handle)
    (tag : Option τ) : (m.close h' tag).Known h := by
  refine hk.imp id fun ⟨i, hi⟩ => ?_
  simp only [HandleMap.close]
  split
  · by_cases hh : h = h'
    · exact ⟨_, by rw [hh]; exact Function.update_self ..⟩
    · exact ⟨i, (Function.update_of_ne hh ..).trans hi⟩
  · exact ⟨i, hi⟩

end Bio
