import Bio.Lib.Machine
import Mathlib.Algebra.Group.Int.Defs
import Mathlib.Algebra.Group.Nat.Defs
import Mathlib.Data.List.Nodup
import Mathlib.Data.Nat.Prime.Basic
import Mathlib.Logic.Function.Basic

/-!
# The handle table

`src/handle.c`. All resources of bio are named by handles: an index into one table of slots and
the generation of the slot. Slots are recycled through an intrusive free list, and a closed slot
keeps its old tag and object, so that only the generation tells an old handle from a new one.

The table is generic in its tags and objects: a tag is a `const bio_tag_t*` and an object a
`void*`, both of which may be `NULL` (`none`). The generation is the 32-bit field of the source.

The capacity and the slot numbers of `HandleTable` are natural numbers, and `machine` runs the table
in memory without bound. In the source they are `int32_t`: the doubling of `2 ^ 30` slots is out of
range. `growIfFull32` is the check with that width, and `machine32` the runs with it.
-/

namespace Bio

/-- `bio_handle_t`. -/
structure Handle where
  index : Int
  gen : BitVec 32
deriving DecidableEq, Repr

/-- `BIO_INVALID_HANDLE`: all fields are zero. -/
def Handle.invalid : Handle := ⟨0, 0⟩

/-- `bio_handle_compare(lhs, rhs) != 0`: two handles differ iff one of their fields does. -/
def Handle.isValid (h : Handle) : Bool := h ≠ Handle.invalid

/-- `bio_handle_slot_t`. -/
structure HandleSlot (τ ω : Type*) where
  tag : Option τ
  obj : Option ω
  gen : BitVec 32
  nextHandleSlot : Nat

/-- The fields of `bio_ctx` that make up the handle table. -/
structure HandleTable (τ ω : Type*) where
  handleSlots : Nat → HandleSlot τ ω
  handleCapacity : Nat
  nextHandleSlot : Nat
  numHandles : Int

/-- A capacity that divides a power of two divides it when it is doubled, unless it is that power. -/
theorem double_dvd {capacity k : Nat} (hdvd : capacity ∣ 2 ^ k) (hlt : capacity < 2 ^ k) :
    capacity * 2 ∣ 2 ^ k := by
  obtain ⟨i, _, rfl⟩ := (Nat.dvd_prime_pow Nat.prime_two).mp hdvd
  rw [← Nat.pow_succ]
  exact pow_dvd_pow 2 ((Nat.pow_lt_pow_iff_right Nat.one_lt_two).mp hlt)

/-- `BIO_INITIAL_HANDLE_CAPACITY`. -/
def initialHandleCapacity : Nat := 4

namespace HandleTable

variable {τ ω : Type*}

/-- `bio_grow_handle_table`: the new slots form a chain that starts at the old capacity. -/
def growHandleTable (t : HandleTable τ ω) (oldCapacity newCapacity : Nat) : HandleTable τ ω :=
  { t with
    handleSlots := fun i =>
      if oldCapacity ≤ i ∧ i < newCapacity then
        { gen := 0, obj := none, tag := none, nextHandleSlot := i + 1 }
      else t.handleSlots i
    nextHandleSlot := oldCapacity
    handleCapacity := newCapacity }

/-- `bio_handle_table_init`. -/
def handleTableInit : HandleTable τ ω :=
  growHandleTable
    { handleSlots := fun _ => ⟨none, none, 0, 0⟩
      handleCapacity := 0, nextHandleSlot := 0, numHandles := 0 }
    0 initialHandleCapacity

/-- The part of `bio_make_handle` that takes the slot at the head of the free list. -/
def takeSlot (t : HandleTable τ ω) (obj : Option ω) (tag : Option τ) :
    Handle × HandleTable τ ω :=
  let nextHandleSlot := t.nextHandleSlot
  let slot := t.handleSlots nextHandleSlot
  (⟨nextHandleSlot + 1, slot.gen⟩,
    { t with
      handleSlots := Function.update t.handleSlots nextHandleSlot
        { slot with obj := obj, tag := tag }
      nextHandleSlot := slot.nextHandleSlot
      numHandles := t.numHandles + 1 })

/-- The growth check at the start of `bio_make_handle`. -/
def growIfFull (t : HandleTable τ ω) : HandleTable τ ω :=
  if t.numHandles ≥ t.handleCapacity then
    t.growHandleTable t.handleCapacity (t.handleCapacity * 2)
  else t

/-- `bio_make_handle`. -/
def makeHandle (t : HandleTable τ ω) (obj : Option ω) (tag : Option τ) :
    Handle × HandleTable τ ω :=
  t.growIfFull.takeSlot obj tag

/-- The same check with the capacity an `int32_t`. The double of `2 ^ 30` comes out negative: there is
no table of that size, and the slot that `bio_make_handle` goes on to write is out of range. -/
def growIfFull32 (t : HandleTable τ ω) : Option (HandleTable τ ω) :=
  if t.numHandles ≥ t.handleCapacity ∧ 2 ^ 31 ≤ t.handleCapacity * 2 then none
  else some t.growIfFull

/-- `bio_make_handle` with the capacity an `int32_t`. -/
def makeHandle32 (t : HandleTable τ ω) (obj : Option ω) (tag : Option τ) :
    Option (Handle × HandleTable τ ω) :=
  t.growIfFull32.map fun t => t.takeSlot obj tag

/-- The bounds check that `bio_resolve_handle`, `bio_handle_info` and `bio_close_handle` share:
the slot of a handle whose index is in range and whose generation is the slot's. -/
def slotOf (t : HandleTable τ ω) (handle : Handle) : Option (HandleSlot τ ω) :=
  let index := handle.index - 1
  if 0 ≤ index ∧ index < t.handleCapacity then
    let slot := t.handleSlots index.toNat
    if slot.gen = handle.gen then some slot else none
  else none

variable [DecidableEq τ]

/-- `bio_resolve_handle`. -/
def resolveHandle (t : HandleTable τ ω) (handle : Handle) (tag : Option τ) : Option ω :=
  match t.slotOf handle with
  | some slot => if slot.tag = tag then slot.obj else none
  | none => none

/-- `bio_close_handle`: the slot gets a new generation and goes to the head of the free list. Its
tag and object stay. -/
def closeHandle (t : HandleTable τ ω) (handle : Handle) (tag : Option τ) :
    Option ω × HandleTable τ ω :=
  match t.slotOf handle with
  | some slot =>
    if slot.tag = tag then
      let index := (handle.index - 1).toNat
      (slot.obj,
        { t with
          handleSlots := Function.update t.handleSlots index
            { slot with gen := slot.gen + 1, nextHandleSlot := t.nextHandleSlot }
          nextHandleSlot := index
          numHandles := t.numHandles - 1 })
    else (none, t)
  | none => (none, t)

end HandleTable

/-! ## The finite map of issued handles -/

/-- What is known of a handle once it was issued. -/
structure Issue (τ ω : Type*) where
  obj : Option ω
  tag : Option τ
  live : Bool

/-- The abstract table: every handle issued so far with its object, its tag and whether it was
closed. `closes i` counts the successful closes of slot `i`. -/
structure HandleMap (τ ω : Type*) where
  issue : Handle → Option (Issue τ ω)
  closes : Nat → Nat

namespace HandleMap

variable {τ ω : Type*}

def empty : HandleMap τ ω := ⟨fun _ => none, fun _ => 0⟩

/-- Handles are opaque: a client has only the zero handle and the handles it was given. -/
def Known (m : HandleMap τ ω) (h : Handle) : Prop :=
  h = Handle.invalid ∨ ∃ i, m.issue h = some i

/-- The handle `h` is issued for an object. -/
def make (m : HandleMap τ ω) (h : Handle) (obj : Option ω) (tag : Option τ) : HandleMap τ ω :=
  { m with issue := Function.update m.issue h (some ⟨obj, tag, true⟩) }

variable [DecidableEq τ]

/-- The live issue of `h` with tag `tag`. -/
def lookup (m : HandleMap τ ω) (h : Handle) (tag : Option τ) : Option (Issue τ ω) :=
  (m.issue h).filter fun i => i.live ∧ i.tag = tag

/-- The object of a live handle with the right tag, `NULL` otherwise. -/
def resolve (m : HandleMap τ ω) (h : Handle) (tag : Option τ) : Option ω :=
  (m.lookup h tag).bind Issue.obj

omit [DecidableEq τ] in
/-- The tag of a live handle, `NULL` otherwise. -/
def info (m : HandleMap τ ω) (h : Handle) : Option τ :=
  ((m.issue h).filter fun i => i.live).bind Issue.tag

/-- A live handle with the right tag is marked closed; nothing else changes. -/
def close (m : HandleMap τ ω) (h : Handle) (tag : Option τ) : HandleMap τ ω :=
  match m.lookup h tag with
  | some i =>
    { issue := Function.update m.issue h (some { i with live := false })
      closes := Function.update m.closes (h.index - 1).toNat
        (m.closes (h.index - 1).toNat + 1) }
  | none => m

end HandleMap

/-! ## Runs of the table beside the map -/

/-- The operations of a client. A handle argument is one that was issued before, or zero. -/
inductive HandleOp (τ ω : Type*)
  | make (obj : Option ω) (tag : Option τ)
  | resolve (handle : Handle) (tag : Option τ)
  | info (handle : Handle)
  | close (handle : Handle) (tag : Option τ)

/-- The table and what the map says about it. -/
structure HandleState (τ ω : Type*) where
  table : HandleTable τ ω
  map : HandleMap τ ω

namespace HandleState

variable {τ ω : Type*}

variable [DecidableEq τ]

/-- One operation on the table. The map follows it, with the handle that the table issued. -/
def perform (s : HandleState τ ω) : HandleOp τ ω → HandleState τ ω
  | .make obj tag =>
    let (h, table) := s.table.makeHandle obj tag
    ⟨table, s.map.make h obj tag⟩
  | .resolve _ _ => s
  | .info _ => s
  | .close h tag => ⟨(s.table.closeHandle h tag).2, s.map.close h tag⟩

/-- All sequences of operations from `bio_handle_table_init`. -/
def machine (τ ω : Type*) [DecidableEq τ] : Machine (HandleState τ ω) (HandleOp τ ω) where
  init := fun s => s = ⟨HandleTable.handleTableInit, HandleMap.empty⟩
  enabled := fun s op =>
    match op with
    | .make _ _ => True
    | .resolve h _ | .info h | .close h _ => s.map.Known h
  perform := perform

/-- One operation with the capacity an `int32_t`, which matters to `bio_make_handle` only. -/
def perform32 (s : HandleState τ ω) : HandleOp τ ω → Option (HandleState τ ω)
  | .make obj tag => (s.table.makeHandle32 obj tag).map fun (h, table) => ⟨table, s.map.make h obj tag⟩
  | op => some (s.perform op)

/-- The same runs with the capacity an `int32_t`. The state is `none` once its doubling has
overflowed. -/
def machine32 (τ ω : Type*) [DecidableEq τ] :
    Machine (Option (HandleState τ ω)) (HandleOp τ ω) where
  init := fun s => s = some ⟨HandleTable.handleTableInit, HandleMap.empty⟩
  enabled := fun s op => ∃ t ∈ s, (machine τ ω).enabled t op
  perform := fun s op => s.bind fun t => t.perform32 op

/-- Without the overflow the width makes no difference. -/
theorem perform_of_perform32 {s t : HandleState τ ω} {op : HandleOp τ ω}
    (h : s.perform32 op = some t) : s.perform op = t := by
  cases op with
  | make obj tag =>
    simp only [perform32, HandleTable.makeHandle32, HandleTable.growIfFull32] at h
    split at h
    · cases h
    · exact Option.some.inj h
  | resolve h' tag => exact Option.some.inj h
  | info h' => exact Option.some.inj h
  | close h' tag => exact Option.some.inj h

/-- The states of `machine32` before an overflow are states of `machine`. -/
theorem reachable_of_machine32 {s : Option (HandleState τ ω)} (hs : (machine32 τ ω).Reachable s) :
    ∀ t ∈ s, (machine τ ω).Reachable t := by
  refine Machine.invariant (P := fun s => ∀ t ∈ s, (machine τ ω).Reachable t) ?_ ?_ hs
  · rintro s rfl t ht
    exact .init (Option.some.inj ht).symm
  · rintro s op - ih ⟨t, rfl, hen⟩ t' ht'
    exact (ih t rfl).step_eq hen (perform_of_perform32 ht')

end HandleState

end Bio
