import Bio.Lib.Machine
import Mathlib.Algebra.Group.Nat.Defs
import Mathlib.Data.List.Basic
import Mathlib.Logic.Function.Basic

/-!
# The growable array

`src/array.h` and `src/array.c`. `BIO_ARRAY(T)` is a pointer to the elements; the capacity and the length
are in a header before them, in the same block. The null pointer is the empty array.

The block comes from `bio_realloc`, which is taken to succeed. It keeps what the old block held, and the rest
of the new one is whatever that memory holds, which is the argument `fresh` of the operations: in a block
that is new, also the two words of the header.

1. `Refines` ties an array to a list. `push_refines`, `pop_refines`, `clear_refines`, `reserve_refines` and
   `resize_refines` are its rules.
2. `array_refines_iff`: it holds along a run iff no step asks for more bytes than a `size_t` holds and no
   `bio_array_reserve` of the null array finds another length than zero in the new block, where it writes the
   capacity only.
-/

namespace Bio

/-- The block of an array: `bio_array_header_t` with the elements, and the size that it was allocated with. -/
structure ArrayBlock (α : Type*) where
  capacity : Nat
  len : Nat
  elems : Nat → α
  size : Nat

/-- `BIO_ARRAY(T)`. -/
abbrev GrowArray (α : Type*) := Option (ArrayBlock α)

namespace GrowArray

variable {α : Type*}

/-- The arithmetic of `size_t`. -/
def sizeT (n : Nat) : Nat := n % 2 ^ 64

/-- `n - 1`. -/
def predT (n : Nat) : Nat := sizeT (n + (2 ^ 64 - 1))

/-- `sizeof(bio_array_header_t) + elem_size * capacity`, before it is brought to a `size_t`. The header has
two words of eight bytes. -/
def blockSize (elemSize capacity : Nat) : Nat := 16 + elemSize * capacity

/-- `bio_realloc`: a block of `size` bytes, with what the old one held in its first `size` bytes. -/
def realloc (elemSize : Nat) (array : GrowArray α) (size : Nat) (fresh : ArrayBlock α) : ArrayBlock α :=
  match array with
  | none => { fresh with size := size }
  | some header =>
    let kept := min header.size size
    { capacity := if blockSize elemSize 0 ≤ kept then header.capacity else fresh.capacity
      len := if blockSize elemSize 0 ≤ kept then header.len else fresh.len
      elems := fun i => if blockSize elemSize (i + 1) ≤ kept then header.elems i else fresh.elems i
      size := size }

/-- `bio_array_len`. -/
def len : GrowArray α → Nat
  | some header => header.len
  | none => 0

/-- `bio_array_capacity`. -/
def capacity : GrowArray α → Nat
  | some header => header.capacity
  | none => 0

/-- `bio_array_clear`. -/
def clear : GrowArray α → GrowArray α
  | some header => some { header with len := 0 }
  | none => none

/-- The capacity of a full array after the next push. -/
def nextCapacity (capacity : Nat) : Nat := if capacity > 0 then capacity * 2 else 2

/-- `bio_array__prepare_push`, with `*new_len`. -/
def preparePush (elemSize : Nat) (array : GrowArray α) (fresh : ArrayBlock α) : GrowArray α × Nat :=
  let newLen := sizeT (array.len + 1)
  if array.len < array.capacity then
    (array.map fun header => { header with len := newLen }, newLen)
  else
    let newCapacity := sizeT (nextCapacity array.capacity)
    let newHeader := realloc elemSize array (sizeT (blockSize elemSize newCapacity)) fresh
    (some { newHeader with capacity := newCapacity, len := newLen }, newLen)

/-- `bio_array_push`: the array and the index that is written. -/
def push (elemSize : Nat) (array : GrowArray α) (element : α) (fresh : ArrayBlock α) :
    GrowArray α × Nat :=
  let (array, newLen) := preparePush elemSize array fresh
  let i := predT newLen
  (array.map fun header => { header with elems := Function.update header.elems i element }, i)

/-- `bio_array__do_reserve`. -/
def reserve (elemSize : Nat) (array : GrowArray α) (newCapacity : Nat) (fresh : ArrayBlock α) :
    GrowArray α :=
  if newCapacity ≤ array.capacity then array
  else
    let newHeader := realloc elemSize array (sizeT (blockSize elemSize newCapacity)) fresh
    some { newHeader with capacity := newCapacity }

/-- `bio_array__do_resize`. -/
def resize (elemSize : Nat) (array : GrowArray α) (newLen : Nat) (fresh : ArrayBlock α) :
    GrowArray α :=
  if newLen ≤ array.capacity then array.map fun header => { header with len := newLen }
  else
    let newHeader := realloc elemSize array (sizeT (blockSize elemSize newLen)) fresh
    some { newHeader with capacity := newLen, len := newLen }

/-- `bio_array_pop`: the length is decremented (`bio_array__do_pop`), and the element at the new length is
the result. Of the null array there is no header to decrement. -/
def pop : GrowArray α → Option (ArrayBlock α × α)
  | some header =>
    let newLen := predT header.len
    some ({ header with len := newLen }, header.elems newLen)
  | none => none

/-- The elements from `start` on. -/
def slice (array : GrowArray α) (start count : Nat) : List α :=
  match array with
  | some header => (List.range count).map fun i => header.elems (start + i)
  | none => []

end GrowArray

/-! ## Runs of an array beside a list -/

/-- The operations, with the memory that an allocation gets. -/
inductive ArrayOp (α : Type*)
  | push (element : α) (fresh : ArrayBlock α)
  | pop
  | clear
  | reserve (newCapacity : Nat) (fresh : ArrayBlock α)
  | resize (newLen : Nat) (fresh : ArrayBlock α)

/-- An array and the list that the same operations lead to. -/
structure ArrayState (α : Type*) where
  array : GrowArray α
  list : List α

namespace ArrayState

variable {α : Type*} (elemSize : Nat)

/-- The elements that `bio_array_resize` adds are those that it finds in the block. -/
def perform (s : ArrayState α) : ArrayOp α → ArrayState α
  | .push element fresh => ⟨(s.array.push elemSize element fresh).1, s.list ++ [element]⟩
  | .pop => ⟨s.array.pop.map Prod.fst, s.list.dropLast⟩
  | .clear => ⟨s.array.clear, []⟩
  | .reserve newCapacity fresh => ⟨s.array.reserve elemSize newCapacity fresh, s.list⟩
  | .resize newLen fresh =>
    let array := s.array.resize elemSize newLen fresh
    ⟨array, s.list.take newLen ++ array.slice s.list.length (newLen - s.list.length)⟩

/-- All sequences of operations from the null array. An argument is a `size_t`, and the array that is popped is
not empty. -/
def machine : Machine (ArrayState α) (ArrayOp α) where
  init := fun s => s = ⟨none, []⟩
  enabled := fun s op =>
    match op with
    | .pop => s.list ≠ []
    | .reserve n _ | .resize n _ => n < 2 ^ 64
    | .push _ _ | .clear => True
  perform := perform elemSize

/-- The array holds the list, and its block has room for `capacity` elements. -/
structure Refines (s : ArrayState α) : Prop where
  len : s.array.len = s.list.length
  len_le : s.array.len ≤ s.array.capacity
  elems : ∀ header, s.array = some header → ∀ i, i < s.list.length →
    s.list[i]? = some (header.elems i)
  size : ∀ header, s.array = some header →
    header.size = GrowArray.blockSize elemSize header.capacity ∧ header.size < 2 ^ 64

/-- The elements that the operation accesses are below the capacity, and `bio_array_pop` returns the last
one. -/
def AccessOk (s : ArrayState α) : ArrayOp α → Prop
  | .push element fresh =>
    (s.array.push elemSize element fresh).2 < (s.array.push elemSize element fresh).1.capacity
  | .pop => ∃ header x, s.array.pop = some (header, x) ∧ header.len < header.capacity ∧
      s.list.getLast? = some x
  | .clear | .reserve _ _ | .resize _ _ => True

/-- The size of a block that is asked for is a `size_t`. -/
def Fits (s : ArrayState α) : ArrayOp α → Prop
  | .push _ _ => s.array.len < s.array.capacity ∨
      GrowArray.blockSize elemSize (GrowArray.nextCapacity s.array.capacity) < 2 ^ 64
  | .reserve n _ | .resize n _ => n ≤ s.array.capacity ∨ GrowArray.blockSize elemSize n < 2 ^ 64
  | .pop | .clear => True

/-- `bio_array_reserve` does not allocate the first block, or finds a zero where its length will be. -/
def ReservesClean (s : ArrayState α) : ArrayOp α → Prop
  | .reserve n fresh => s.array = none → 0 < n → fresh.len = 0
  | _ => True

def Careful (s : ArrayState α) (op : ArrayOp α) : Prop := s.Fits elemSize op ∧ s.ReservesClean op

/-! ## The rules of the operations -/

open GrowArray

variable {elemSize}

theorem sizeT_of_lt {n : Nat} (h : n < 2 ^ 64) : sizeT n = n := Nat.mod_eq_of_lt h

theorem predT_succ {n : Nat} (h : n < 2 ^ 64) : predT (n + 1) = n := by
  have hsum : n + 1 + (2 ^ 64 - 1) = n + 2 ^ 64 := by omega
  rw [predT, sizeT, hsum, Nat.add_mod_right, Nat.mod_eq_of_lt h]

theorem blockSize_mono {m n : Nat} (h : m ≤ n) : blockSize elemSize m ≤ blockSize elemSize n :=
  Nat.add_le_add_left (Nat.mul_le_mul_left elemSize h) 16

theorem lt_blockSize (pos : 0 < elemSize) (n : Nat) : n < blockSize elemSize n := by
  have hle : n ≤ elemSize * n := Nat.le_mul_of_pos_left n pos
  unfold blockSize
  omega

theorem lt_nextCapacity (n : Nat) : n < nextCapacity n := by
  unfold nextCapacity
  split <;> omega

theorem Refines.init : Refines elemSize (⟨none, []⟩ : ArrayState α) :=
  ⟨rfl, Nat.le_refl 0, nofun, nofun⟩

theorem Refines.capacity_lt (pos : 0 < elemSize) {s : ArrayState α} (h : Refines elemSize s) :
    s.array.capacity < 2 ^ 64 := by
  cases harray : s.array with
  | none => exact Nat.two_pow_pos 64
  | some header =>
    obtain ⟨hsize, hlt⟩ := h.size header harray
    exact Nat.lt_trans (lt_blockSize pos header.capacity) (hsize ▸ hlt)

/-- A larger block keeps the elements, and the length if there was a header. -/
theorem Refines.realloc {s : ArrayState α} (h : Refines elemSize s) {n : Nat}
    (hn : s.array.capacity ≤ n) (hfits : blockSize elemSize n < 2 ^ 64) (fresh : ArrayBlock α) :
    ∃ header, GrowArray.realloc elemSize s.array (sizeT (blockSize elemSize n)) fresh = header ∧
      header.size = blockSize elemSize n ∧
      (∀ i, i < s.list.length → s.list[i]? = some (header.elems i)) ∧
      (s.array ≠ none → header.len = s.list.length) ∧ (s.array = none → header.len = fresh.len) := by
  refine ⟨_, rfl, ?_⟩
  rw [sizeT_of_lt hfits]
  obtain ⟨array, list⟩ := s
  cases array with
  | none =>
    have hnil : list.length = 0 := h.len.symm
    refine ⟨rfl, fun i hi => ?_, fun hne => absurd rfl hne, fun _ => rfl⟩
    exact absurd hi (by rw [hnil]; exact Nat.not_lt_zero i)
  | some header =>
    have hsize := (h.size header rfl).1
    have hkept : ∀ m, m ≤ header.capacity →
        blockSize elemSize m ≤ min header.size (blockSize elemSize n) := fun m hm =>
      Nat.le_min.mpr ⟨hsize ▸ blockSize_mono hm, blockSize_mono (Nat.le_trans hm hn)⟩
    refine ⟨rfl, fun i hi => ?_, fun _ => ?_, nofun⟩
    · have hlt : i < header.capacity := Nat.lt_of_lt_of_le (h.len ▸ hi) h.len_le
      rw [h.elems header rfl i hi]
      simp only [GrowArray.realloc, if_pos (hkept (i + 1) hlt)]
    · simp only [GrowArray.realloc, if_pos (hkept 0 (Nat.zero_le _))]
      exact h.len

/-- Room for one more element is made at the end. -/
theorem preparePush_spec (pos : 0 < elemSize) {s : ArrayState α} (h : Refines elemSize s)
    (fresh : ArrayBlock α)
    (hfits : s.array.len < s.array.capacity ∨
      blockSize elemSize (nextCapacity s.array.capacity) < 2 ^ 64) :
    ∃ header, preparePush elemSize s.array fresh = (some header, s.list.length + 1) ∧
      header.len = s.list.length + 1 ∧ header.len ≤ header.capacity ∧
      (∀ i, i < s.list.length → s.list[i]? = some (header.elems i)) ∧
      header.size = blockSize elemSize header.capacity ∧ header.size < 2 ^ 64 := by
  have hcapacity := h.capacity_lt pos
  have hle := h.len_le
  have hlen := h.len
  unfold preparePush
  split
  · next hroom =>
    have hnew : sizeT (s.array.len + 1) = s.list.length + 1 := by
      rw [sizeT_of_lt (by omega), hlen]
    cases harray : s.array with
    | none =>
      rw [harray] at hroom
      exact absurd hroom (Nat.lt_irrefl 0)
    | some header =>
      rw [harray] at hnew hroom hlen
      refine ⟨{ header with len := s.list.length + 1 }, ?_, rfl, ?_, h.elems header harray,
        h.size header harray⟩
      · simp only [hnew, Option.map_some]
      · show s.list.length + 1 ≤ header.capacity
        exact hlen ▸ hroom
  · next hroom =>
    have hbytes := hfits.resolve_left hroom
    have hnext : sizeT (nextCapacity s.array.capacity) = nextCapacity s.array.capacity :=
      sizeT_of_lt (Nat.lt_trans (lt_blockSize pos _) hbytes)
    have hgrows := lt_nextCapacity s.array.capacity
    have hnew : sizeT (s.array.len + 1) = s.list.length + 1 := by
      have hbound : nextCapacity s.array.capacity < 2 ^ 64 := Nat.lt_trans (lt_blockSize pos _) hbytes
      rw [sizeT_of_lt (by omega), hlen]
    obtain ⟨header, hheader, hsize, helems, _⟩ := h.realloc (Nat.le_of_lt hgrows) hbytes fresh
    simp only [hnext, hnew, hheader]
    refine ⟨_, rfl, rfl, ?_, helems, hsize, hsize ▸ hbytes⟩
    show s.list.length + 1 ≤ nextCapacity s.array.capacity
    omega

theorem getElem?_concat {list : List α} {f : Nat → α} (h : ∀ i, i < list.length → list[i]? = some (f i))
    (element : α) {i : Nat} (hi : i < (list ++ [element]).length) :
    (list ++ [element])[i]? = some (Function.update f list.length element i) := by
  rw [List.length_append, List.length_singleton] at hi
  rcases Nat.lt_succ_iff_lt_or_eq.mp hi with hlt | rfl
  · rw [List.getElem?_append_left hlt, Function.update_of_ne (Nat.ne_of_lt hlt), h i hlt]
  · rw [List.getElem?_concat_length, Function.update_self]

/-- A push writes the element at the end of the list, which is below the capacity. -/
theorem push_refines (pos : 0 < elemSize) {s : ArrayState α} (h : Refines elemSize s) {element : α}
    {fresh : ArrayBlock α} (hfits : s.Fits elemSize (.push element fresh)) :
    s.AccessOk elemSize (.push element fresh) ∧
      Refines elemSize (s.perform elemSize (.push element fresh)) := by
  obtain ⟨header, hprepare, hlen, hle, helems, hsize⟩ := preparePush_spec pos h fresh hfits
  have hlt : s.list.length < 2 ^ 64 := by
    have hcapacity := hsize.1 ▸ lt_blockSize pos header.capacity
    have hbound := hsize.2
    omega
  have hpush : s.array.push elemSize element fresh =
      (some { header with elems := Function.update header.elems s.list.length element },
        s.list.length) := by
    simp only [push, hprepare, predT_succ hlt, Option.map_some]
  refine ⟨?_, ?_, ?_, ?_, ?_⟩
  · rw [AccessOk, hpush]
    show s.list.length < header.capacity
    omega
  all_goals simp only [perform, hpush]
  · rw [List.length_append]
    exact hlen
  · exact hle
  · rintro _ ⟨⟩ i hi
    exact getElem?_concat helems element hi
  · rintro _ ⟨⟩
    exact hsize

/-- A pop takes the last element. -/
theorem pop_refines (pos : 0 < elemSize) {s : ArrayState α} (h : Refines elemSize s)
    (hne : s.list ≠ []) :
    s.AccessOk elemSize .pop ∧ Refines elemSize (s.perform elemSize .pop) := by
  have hcapacity := h.capacity_lt pos
  obtain ⟨array, list⟩ := s
  obtain ⟨front, last, rfl⟩ := (List.eq_nil_or_concat' list).resolve_left hne
  cases array with
  | none => exact absurd h.len (by simp [len])
  | some header =>
    have hlen : header.len = front.length + 1 := by simpa [len] using h.len
    have hle : header.len ≤ header.capacity := h.len_le
    have hpred : predT header.len = front.length := by
      rw [hlen, predT_succ]
      have : header.capacity < 2 ^ 64 := hcapacity
      omega
    have helems : ∀ i, i < front.length → front[i]? = some (header.elems i) := by
      intro i hi
      have helem := h.elems header rfl i (by simpa using Nat.lt_succ_of_lt hi)
      rwa [List.getElem?_append_left hi] at helem
    have hlast : some last = some (header.elems front.length) := by
      have helem := h.elems header rfl front.length (by simp)
      rwa [List.getElem?_concat_length] at helem
    have hpop : GrowArray.pop (some header) =
        some ({ header with len := front.length }, header.elems front.length) := by
      simp only [pop, hpred]
    refine ⟨⟨_, _, hpop, ?_, ?_⟩, ?_, ?_, ?_, ?_⟩
    · show front.length < header.capacity
      omega
    · rw [List.getLast?_concat]
      exact hlast
    all_goals simp only [perform, hpop, List.dropLast_concat, Option.map_some]
    · rfl
    · show front.length ≤ header.capacity
      omega
    · rintro _ ⟨⟩ i hi
      exact helems i hi
    · rintro _ ⟨⟩
      exact h.size header rfl

theorem clear_refines {s : ArrayState α} (h : Refines elemSize s) :
    Refines elemSize (s.perform elemSize .clear) := by
  obtain ⟨array, list⟩ := s
  cases array with
  | none => exact Refines.init
  | some header =>
    refine ⟨rfl, Nat.zero_le _, fun _ _ i hi => absurd hi (Nat.not_lt_zero i), ?_⟩
    rintro _ ⟨⟩
    exact h.size header rfl

/-- A larger capacity changes neither the length nor the elements, where there was a header or the new block
begins with a length of zero. -/
theorem reserve_refines {s : ArrayState α} (h : Refines elemSize s) {n : Nat} {fresh : ArrayBlock α}
    (hfits : s.Fits elemSize (.reserve n fresh)) (hclean : s.ReservesClean (.reserve n fresh)) :
    Refines elemSize (s.perform elemSize (.reserve n fresh)) := by
  simp only [perform, reserve]
  split
  · exact h
  · next hmore =>
    have hgrows : s.array.capacity ≤ n := Nat.le_of_not_le hmore
    obtain ⟨header, hheader, hsize, helems, hkept, hnew⟩ :=
      h.realloc hgrows (hfits.resolve_left hmore) fresh
    have hlen : header.len = s.list.length := by
      rcases eq_or_ne s.array none with hnone | hsome
      · rw [hnew hnone, hclean hnone (Nat.pos_of_ne_zero (fun hzero => hmore (by omega))), ← h.len, hnone]
        rfl
      · exact hkept hsome
    rw [hheader]
    refine ⟨hlen, ?_, ?_, ?_⟩
    · show header.len ≤ n
      exact hlen ▸ Nat.le_trans (h.len ▸ h.len_le) hgrows
    · rintro _ ⟨⟩ i hi
      exact helems i hi
    · rintro _ ⟨⟩
      exact ⟨hsize, hsize ▸ hfits.resolve_left hmore⟩

/-- What `bio_array_resize` makes of the list, when the elements below its length are those of the block. -/
theorem resized_list {list : List α} {f : Nat → α} (h : ∀ i, i < list.length → list[i]? = some (f i))
    (n : Nat) :
    let resized := list.take n ++ (List.range (n - list.length)).map fun i => f (list.length + i)
    resized.length = n ∧ ∀ i, i < n → resized[i]? = some (f i) := by
  refine ⟨?_, fun i hi => ?_⟩
  · rw [List.length_append, List.length_take, List.length_map, List.length_range]
    omega
  · rcases Nat.lt_or_ge i list.length with hlt | hge
    · have htake : i < (list.take n).length := by
        rw [List.length_take]
        exact Nat.lt_min.mpr ⟨hi, hlt⟩
      rw [List.getElem?_append_left htake, List.getElem?_take_of_lt hi, h i hlt]
    · have htake : list.take n = list := List.take_of_length_le (Nat.le_of_lt (Nat.lt_of_le_of_lt hge hi))
      have hrest : i - list.length < n - list.length := Nat.sub_lt_sub_right hge hi
      rw [htake, List.getElem?_append_right hge, List.getElem?_map, List.getElem?_range hrest,
        Option.map_some, Nat.add_sub_cancel' hge]

/-- A resized array keeps the first elements and has those of its block as the others. -/
theorem resize_refines {s : ArrayState α} (h : Refines elemSize s) {n : Nat} {fresh : ArrayBlock α}
    (hfits : s.Fits elemSize (.resize n fresh)) :
    Refines elemSize (s.perform elemSize (.resize n fresh)) := by
  simp only [perform, resize]
  split
  · next hroom =>
    obtain ⟨array, list⟩ := s
    cases array with
    | none =>
      have hn : n = 0 := Nat.le_zero.mp hroom
      subst hn
      exact Refines.init
    | some header =>
      obtain ⟨hlen, helems⟩ := resized_list (h.elems header rfl) n
      refine ⟨hlen.symm, hroom, ?_, ?_⟩
      · rintro _ ⟨⟩ i hi
        exact helems i (Nat.lt_of_lt_of_eq hi hlen)
      · rintro _ ⟨⟩
        exact h.size header rfl
  · next hmore =>
    obtain ⟨header, hheader, hsize, hkept, _⟩ :=
      h.realloc (Nat.le_of_not_le hmore) (hfits.resolve_left hmore) fresh
    obtain ⟨hlen, helems⟩ := resized_list hkept n
    rw [hheader]
    refine ⟨hlen.symm, Nat.le_refl n, ?_, ?_⟩
    · rintro _ ⟨⟩ i hi
      exact helems i (Nat.lt_of_lt_of_eq hi hlen)
    · rintro _ ⟨⟩
      exact ⟨hsize, hsize ▸ hfits.resolve_left hmore⟩

/-- One step: a careful operation keeps what the array holds and accesses no element at or beyond the
capacity. -/
theorem perform_refines (pos : 0 < elemSize) {s : ArrayState α} (h : Refines elemSize s)
    {op : ArrayOp α} (hen : (machine elemSize).enabled s op) (hop : s.Careful elemSize op) :
    s.AccessOk elemSize op ∧ Refines elemSize (s.perform elemSize op) := by
  cases op with
  | push element fresh => exact push_refines pos h hop.1
  | pop => exact pop_refines pos h hen
  | clear => exact ⟨trivial, clear_refines h⟩
  | reserve n fresh => exact ⟨trivial, reserve_refines h hop.1 hop.2⟩
  | resize n fresh => exact ⟨trivial, resize_refines h hop.1⟩

/-! ## The other direction -/

/-- A block has the size of its capacity only when that size is a `size_t`. -/
theorem Refines.blockSize_lt {s : ArrayState α} (h : Refines elemSize s) {header : ArrayBlock α}
    (harray : s.array = some header) : blockSize elemSize header.capacity < 2 ^ 64 := by
  obtain ⟨hsize, hlt⟩ := h.size header harray
  exact hsize ▸ hlt

theorem fits_push (pos : 0 < elemSize) {s : ArrayState α} (h : Refines elemSize s) {element : α}
    {fresh : ArrayBlock α} (hafter : Refines elemSize (s.perform elemSize (.push element fresh))) :
    s.Fits elemSize (.push element fresh) := by
  rcases Nat.lt_or_ge s.array.len s.array.capacity with hroom | hfull
  · exact .inl hroom
  · right
    have hcapacity := h.capacity_lt pos
    have hlen := h.len
    have hle := h.len_le
    have hpush : s.perform elemSize (.push element fresh) =
        ⟨(s.array.push elemSize element fresh).1, s.list ++ [element]⟩ := rfl
    rw [push, preparePush, if_neg (Nat.not_lt.mpr hfull)] at hpush
    have hblock := hafter.blockSize_lt (congrArg ArrayState.array hpush)
    have hle' := hafter.len_le
    rw [hafter.len, hpush, List.length_append] at hle'
    rcases Nat.lt_or_ge (nextCapacity s.array.capacity) (2 ^ 64) with hlt | hwrap
    · rwa [sizeT_of_lt hlt] at hblock
    · -- The doubled capacity comes round below the length.
      have hdouble : nextCapacity s.array.capacity = s.array.capacity * 2 := by
        refine if_pos ?_
        unfold nextCapacity at hwrap
        split at hwrap <;> omega
      have hround : sizeT (nextCapacity s.array.capacity) = s.array.capacity * 2 - 2 ^ 64 := by
        rw [hdouble] at hwrap ⊢
        rw [sizeT, Nat.mod_eq_sub_mod hwrap, Nat.mod_eq_of_lt (by omega)]
      have hshort : s.list.length + 1 ≤ sizeT (nextCapacity s.array.capacity) := hle'
      omega

theorem careful_of_refines (pos : 0 < elemSize) {s : ArrayState α} (h : Refines elemSize s)
    {op : ArrayOp α} (hafter : Refines elemSize (s.perform elemSize op)) :
    s.Careful elemSize op := by
  cases op with
  | push element fresh => exact ⟨fits_push pos h hafter, trivial⟩
  | pop => exact ⟨trivial, trivial⟩
  | clear => exact ⟨trivial, trivial⟩
  | reserve n fresh =>
    rcases Nat.lt_or_ge s.array.capacity n with hmore | hroom
    · have hperform : (s.perform elemSize (.reserve n fresh)).array = some
          { GrowArray.realloc elemSize s.array (sizeT (blockSize elemSize n)) fresh with
            capacity := n } := if_neg (Nat.not_le.mpr hmore)
      refine ⟨.inr (hafter.blockSize_lt hperform), fun hnone _ => ?_⟩
      -- The length that the new block holds is that of the empty list.
      have hlen := hafter.len
      rw [hperform, hnone] at hlen
      have hnil : s.list.length = 0 := h.len ▸ hnone ▸ rfl
      exact hlen.trans hnil
    · refine ⟨.inl hroom, fun hnone hpos => ?_⟩
      rw [hnone] at hroom
      exact absurd hpos (Nat.not_lt.mpr hroom)
  | resize n fresh =>
    refine ⟨?_, trivial⟩
    rcases Nat.lt_or_ge s.array.capacity n with hmore | hroom
    · have hperform : (s.perform elemSize (.resize n fresh)).array = some
          { GrowArray.realloc elemSize s.array (sizeT (blockSize elemSize n)) fresh with
            capacity := n, len := n } := if_neg (Nat.not_le.mpr hmore)
      exact .inr (hafter.blockSize_lt hperform)
    · exact .inl hroom

/-- The growable array refines a list. In every run of pushes, pops of an array that is not empty, clears,
reserves and resizes from the null array, with any contents of the memory that is allocated, the following
holds iff every block that is asked for has a size that is a `size_t`, and no `bio_array_reserve` of the null
array gets a block that begins with another length than zero:

* in all states the length is that of the list, is at most the capacity, and the elements below it are those
  of the list;
* no step accesses an element at or beyond the capacity, and a pop returns the last element of the list. -/
theorem array_refines_iff (pos : 0 < elemSize) {as : List (ArrayOp α)}
    (hl : (machine elemSize).Legal ⟨none, []⟩ as) :
    ((∀ bs op, bs ++ [op] <+: as →
        ((machine elemSize).run ⟨none, []⟩ bs).AccessOk elemSize op) ∧
      ∀ bs, bs <+: as → Refines elemSize ((machine elemSize).run ⟨none, []⟩ bs)) ↔
    ((machine elemSize).restrict (Careful elemSize)).Legal ⟨none, []⟩ as :=
  Machine.always_step_iff rfl Refines.init
    (fun _ _ _ h hen hop => perform_refines pos h hen hop)
    (fun _ _ _ h _ _ hafter => careful_of_refines pos h hafter) hl

/-- Two pushes into a block of elements of four bytes, a larger capacity and a pop. -/
theorem array_refines_iff_push :
    let s := (machine 4).run (⟨none, []⟩ : ArrayState Nat)
      [.push 7 ⟨9, 9, fun _ => 9, 9⟩, .push 8 ⟨9, 9, fun _ => 9, 9⟩, .reserve 5 ⟨9, 9, fun _ => 9, 9⟩, .pop]
    s.array.len = 1 ∧ s.list = [7] := by
  have hl : (machine 4).Legal (⟨none, []⟩ : ArrayState Nat)
      [.push 7 ⟨9, 9, fun _ => 9, 9⟩, .push 8 ⟨9, 9, fun _ => 9, 9⟩, .reserve 5 ⟨9, 9, fun _ => 9, 9⟩,
        .pop] :=
    ⟨trivial, trivial, show 5 < 2 ^ 64 by decide, List.cons_ne_nil 7 [8], trivial⟩
  have hcareful := (array_refines_iff (by decide) hl).mpr
    ⟨⟨trivial, .inr (by decide), trivial⟩, ⟨trivial, .inl (by decide), trivial⟩,
      ⟨hl.2.2.1, .inr (by decide), nofun⟩, ⟨hl.2.2.2.1, trivial, trivial⟩, trivial⟩
  exact ⟨(hcareful.2 _ (List.prefix_refl _)).len, rfl⟩

/-- A capacity is reserved for the null array: the length is what the block held there. -/
theorem reserve_leaves_length :
    let as : List (ArrayOp Nat) := [.reserve 4 ⟨0, 7, fun _ => 0, 0⟩]
    let s := (machine 4).run (⟨none, []⟩ : ArrayState Nat) as
    (machine 4).Legal (⟨none, []⟩ : ArrayState Nat) as ∧ s.list = [] ∧ s.array.len = 7 ∧
      s.array.capacity = 4 ∧ ¬ Refines 4 s := by
  refine ⟨⟨show 4 < 2 ^ 64 by decide, trivial⟩, rfl, rfl, rfl, fun h => ?_⟩
  exact absurd h.len (by decide)

end ArrayState

end Bio
