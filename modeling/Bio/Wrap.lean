import Bio.HandleRefinement
import Bio.Lib.Table
import Mathlib.Data.BitVec

/-!
# Wrapping descriptors

`bio_fdopen`, `bio_funwrap`, `bio_net_wrap` and `bio_net_unwrap` of `src/linux/file.c` and
`src/linux/net.c`, on the handle table.

* An object has the number of its allocation: no two calls of `bio_malloc` return the same object.
* A descriptor is a C `int` that is not negative. It is passed and returned as a `uintptr_t`.
* The rest of the program makes handles of any resources, files and sockets among them, and closes any
  handles that it was given.
* `opened` is a ghost: the handles that `bio_fdopen` and `bio_net_wrap` left in their out-parameter, with
  the descriptor, until they are closed.

1. `wrap_unwrap_iff`: `bio_net_wrap` gives the descriptor back only when its out-parameter was a handle of
   that descriptor before.
2. `fresh_of_bounded`: `bio_fdopen` always does, as long as no slot was closed too often.
-/

namespace Bio

/-- `BIO_FILE_HANDLE`, `BIO_SOCKET_HANDLE` and the tags of all other resources. -/
inductive ResourceTag
  | file | socket
  | other (name : Nat)
deriving DecidableEq, Repr

/-- `bio_file_impl_t`, `bio_socket_impl_t`, and the objects of all other resources. -/
inductive ResourceImpl
  | file (fd : BitVec 32) (offset : Int) (seekable : Bool)
  | socket (fd : BitVec 32)
  | other (name : Nat)
deriving DecidableEq, Repr

def ResourceImpl.tag : ResourceImpl → ResourceTag
  | .file .. => .file
  | .socket _ => .socket
  | .other name => .other name

/-- An object and the number of its allocation. -/
structure Resource where
  allocation : Nat
  impl : ResourceImpl
deriving DecidableEq, Repr

/-- The kinds of resources that wrap a descriptor. -/
inductive WrapKind
  | file | socket
deriving DecidableEq, Repr

def WrapKind.tag : WrapKind → ResourceTag
  | .file => .file
  | .socket => .socket

/-- The descriptor of an object. -/
def ResourceImpl.descriptor : ResourceImpl → Option (WrapKind × BitVec 32)
  | .file fd _ _ => some (.file, fd)
  | .socket fd => some (.socket, fd)
  | .other _ => none

structure WrapState where
  handles : HandleState ResourceTag Resource
  allocations : Nat
  opened : Handle → Option (WrapKind × BitVec 32)

namespace WrapState

def resolve (s : WrapState) (handle : Handle) (tag : ResourceTag) : Option Resource :=
  s.handles.table.resolveHandle handle (some tag)

/-- `bio_malloc` and `bio_make_handle`. -/
def makeResource (s : WrapState) (impl : ResourceImpl) : Handle × WrapState :=
  let obj := some ⟨s.allocations, impl⟩
  ((s.handles.table.makeHandle obj (some impl.tag)).1,
    { s with
      handles := s.handles.perform (.make obj (some impl.tag))
      allocations := s.allocations + 1 })

/-- `bio_file_from_fd`. -/
def fileFromFd (s : WrapState) (fd : BitVec 32) (offset : Int) (seekable : Bool) :
    Handle × WrapState :=
  s.makeResource (.file fd (if seekable then offset else -1) seekable)

/-- `bio_socket_from_fd`. -/
def socketFromFd (s : WrapState) (fd : BitVec 32) : Handle × WrapState :=
  s.makeResource (.socket fd)

/-- `bio_fdopen`, with what is in `*file_ptr` when it has returned true. -/
def fdopen (s : WrapState) (fd : BitVec 64) : Handle × WrapState :=
  s.fileFromFd (fd.setWidth 32) (-1) false

/-- `bio_net_wrap`, with what is in `*sock` before and when it has returned true. It drops the socket that
it has made. -/
def netWrap (s : WrapState) (sock : Handle) (handle : BitVec 64) : Handle × WrapState :=
  (sock, (s.socketFromFd (handle.setWidth 32)).2)

/-- `bio_funwrap`. -/
def funwrap (s : WrapState) (file : Handle) : BitVec 64 :=
  match s.resolve file .file with
  | some ⟨_, .file fd _ _⟩ => fd.signExtend 64
  | _ => BitVec.allOnes 64

/-- `bio_net_unwrap`. -/
def netUnwrap (s : WrapState) (socket : Handle) : BitVec 64 :=
  match s.resolve socket .socket with
  | some ⟨_, .socket fd⟩ => fd.signExtend 64
  | _ => BitVec.allOnes 64

def unwrap (s : WrapState) : WrapKind → Handle → BitVec 64
  | .file => s.funwrap
  | .socket => s.netUnwrap

/-- A handle of a descriptor was left in an out-parameter. -/
def assign (s : WrapState) (h : Handle) (kind : WrapKind) (fd : BitVec 32) : WrapState :=
  { s with opened := Function.update s.opened h (some (kind, fd)) }

end WrapState

inductive WrapAction
  /-- the rest of the program makes a resource -/
  | make (impl : ResourceImpl)
  /-- and closes one -/
  | close (handle : Handle) (tag : ResourceTag)
  | fdopen (fd : BitVec 32)
  | netWrap (sock : Handle) (fd : BitVec 32)

namespace WrapState

def enabled (s : WrapState) : WrapAction → Prop
  | .make _ => True
  | .close handle _ => s.handles.map.Known handle
  | .fdopen fd => fd.msb = false
  | .netWrap sock fd => s.handles.map.Known sock ∧ fd.msb = false

def perform (s : WrapState) : WrapAction → WrapState
  | .make impl => (s.makeResource impl).2
  | .close handle tag =>
    { s with
      handles := s.handles.perform (.close handle (some tag))
      opened := Function.update s.opened handle
        ((s.opened handle).filter fun e => e.1.tag ≠ tag) }
  | .fdopen fd =>
    let (file, s) := s.fdopen (fd.signExtend 64)
    s.assign file .file fd
  | .netWrap sock fd =>
    let (sock, s) := s.netWrap sock (fd.signExtend 64)
    s.assign sock .socket fd

def init : WrapState := ⟨⟨HandleTable.handleTableInit, HandleMap.empty⟩, 0, fun _ => none⟩

/-- All sequences of calls from `bio_handle_table_init`. -/
def machine : Machine WrapState WrapAction where
  init := fun s => s = init
  enabled := enabled
  perform := perform

/-- Until it is closed, a handle gives back the descriptor for which it was left in an out-parameter. -/
def Unwraps (s : WrapState) : Prop :=
  ∀ h kind fd, s.opened h = some (kind, fd) → s.unwrap kind h = fd.signExtend 64

/-- A call that wraps a descriptor leaves all handles that had been issued as they were. -/
def KeepsResolving (s : WrapState) : WrapAction → Prop
  | .fdopen fd => ∀ h tag, s.handles.map.issue h ≠ none →
      (s.perform (.fdopen fd)).resolve h tag = s.resolve h tag
  | .netWrap sock fd => ∀ h tag, s.handles.map.issue h ≠ none →
      (s.perform (.netWrap sock fd)).resolve h tag = s.resolve h tag
  | .make _ | .close _ _ => True

/-- The handle that `bio_make_handle` returns next. -/
def nextHandle (s : WrapState) : Handle := (s.handles.table.makeHandle none none).1

end WrapState

/-- The slot that `bio_make_handle` takes is one of the table. -/
def HandleTable.HasSlot {τ ω : Type*} (t : HandleTable τ ω) : Prop :=
  t.growIfFull.nextHandleSlot < t.growIfFull.handleCapacity

instance {τ ω : Type*} (t : HandleTable τ ω) : Decidable t.HasSlot :=
  inferInstanceAs (Decidable (t.growIfFull.nextHandleSlot < t.growIfFull.handleCapacity))

namespace WrapState

/-- The guard: the handle that is issued has not been issued before, and `bio_net_wrap` finds in its
out-parameter a handle of the descriptor. -/
def WrapOk (s : WrapState) : WrapAction → Prop
  | .fdopen _ => s.handles.table.HasSlot ∧ s.handles.map.issue s.nextHandle = none
  | .netWrap sock fd => (s.handles.table.HasSlot → s.handles.map.issue s.nextHandle = none) ∧
      ∃ obj, s.resolve sock .socket = some obj ∧ obj.impl.descriptor = some (.socket, fd)
  | .make impl => ∀ e, s.opened s.nextHandle = some e → impl.descriptor = some e
  | .close _ _ => True

end WrapState

/-! ## One slot -/

namespace HandleTable

variable {τ ω : Type*} {t : HandleTable τ ω} {h h' : Handle} {slot : HandleSlot τ ω}

/-- A handle and the slot it names. -/
theorem slotOf_eq_some : t.slotOf h = some slot ↔
    (0 ≤ h.index - 1 ∧ h.index - 1 < t.handleCapacity) ∧
      t.handleSlots (h.index - 1).toNat = slot ∧ slot.gen = h.gen := by
  unfold slotOf
  dsimp only
  split
  · next hrange =>
    split
    · next hgen =>
      rw [Option.some.injEq]
      exact ⟨fun heq => ⟨hrange, heq, heq ▸ hgen⟩, fun h => h.2.1⟩
    · next hgen =>
      refine iff_of_false nofun fun h => hgen ?_
      rw [h.2.1]
      exact h.2.2
  · next hrange => exact iff_of_false nofun fun h => hrange h.1

/-- Two handles of one slot that both find it are equal. -/
theorem handle_ext (hindex : (h.index - 1).toNat = (h'.index - 1).toNat) (hpos : 0 ≤ h.index - 1)
    (hpos' : 0 ≤ h'.index - 1) (hgen : h.gen = h'.gen) : h = h' := by
  obtain ⟨index, gen⟩ := h
  obtain ⟨index', gen'⟩ := h'
  simp only at hindex hpos hpos' hgen
  rw [Handle.mk.injEq]
  exact ⟨by omega, hgen⟩

/-- Taking a slot changes what its handle finds, and nothing else. -/
theorem slotOf_takeSlot (t : HandleTable τ ω) (obj : Option ω) (tag : Option τ) (h : Handle) :
    (t.takeSlot obj tag).2.slotOf h =
      if h = (t.takeSlot obj tag).1 ∧ t.nextHandleSlot < t.handleCapacity then
        some { t.handleSlots t.nextHandleSlot with obj := obj, tag := tag }
      else t.slotOf h := by
  split
  · next hnew =>
    obtain ⟨rfl, hlt⟩ := hnew
    rw [slotOf_eq_some]
    have hindex : ((t.takeSlot obj tag).1.index - 1).toNat = t.nextHandleSlot := by
      simp [takeSlot]
    rw [hindex]
    refine ⟨?_, Function.update_self .., rfl⟩
    simp only [takeSlot]
    omega
  · next hold =>
    have hslots : ∀ i, i ≠ t.nextHandleSlot →
        (t.takeSlot obj tag).2.handleSlots i = t.handleSlots i :=
      fun i hi => Function.update_of_ne hi ..
    have hgens : ∀ i, ((t.takeSlot obj tag).2.handleSlots i).gen = (t.handleSlots i).gen := by
      intro i
      rcases eq_or_ne i t.nextHandleSlot with rfl | hi
      · simp [takeSlot]
      · rw [hslots i hi]
    unfold slotOf
    dsimp only
    refine if_ctx_congr Iff.rfl (fun hrange => ?_) fun _ => rfl
    by_cases hi : (h.index - 1).toNat = t.nextHandleSlot
    · -- The slot is found by a handle of another generation only.
      have hne : ¬(t.handleSlots (h.index - 1).toNat).gen = h.gen := by
        intro hgen
        refine hold ⟨?_, by omega⟩
        refine handle_ext (hi.trans ?_) hrange.1 ?_ ?_
        · simp [takeSlot]
        · simp [takeSlot]
        · rw [← hgen, hi]
          rfl
      rw [if_neg hne, if_neg (hgens _ ▸ hne)]
    · rw [hslots _ hi]

variable [DecidableEq τ]

/-- The slots that are added resolve to nothing. -/
theorem resolveHandle_growIfFull (t : HandleTable τ ω) (h : Handle) (tag : Option τ) :
    t.growIfFull.resolveHandle h tag = t.resolveHandle h tag := by
  unfold growIfFull
  split
  · have hcases : (t.growHandleTable t.handleCapacity (t.handleCapacity * 2)).slotOf h = t.slotOf h ∨
        (t.slotOf h = none ∧ ∀ slot,
          (t.growHandleTable t.handleCapacity (t.handleCapacity * 2)).slotOf h = some slot →
            slot.obj = none) := by
      rcases Classical.em (0 ≤ h.index - 1 ∧ h.index - 1 < t.handleCapacity) with hrange | hrange
      · refine .inl ?_
        have hold : ¬(t.handleCapacity ≤ (h.index - 1).toNat ∧
            (h.index - 1).toNat < t.handleCapacity * 2) := by omega
        have hwider : 0 ≤ h.index - 1 ∧ h.index - 1 < ((t.handleCapacity * 2 : Nat) : Int) := by omega
        simp only [slotOf, growHandleTable, if_pos hrange, if_pos hwider, if_neg hold]
      · refine .inr ⟨if_neg hrange, fun slot hslot => ?_⟩
        obtain ⟨hwider, heq, _⟩ := slotOf_eq_some.mp hslot
        have hnew : t.handleCapacity ≤ (h.index - 1).toNat ∧
            (h.index - 1).toNat < t.handleCapacity * 2 := by
          simp only [growHandleTable] at hwider
          omega
        rw [← heq, growHandleTable]
        dsimp only
        rw [if_pos hnew]
    unfold resolveHandle
    rcases hcases with heq | ⟨hnone, hobj⟩
    · rw [heq]
    · rw [hnone]
      split
      · next slot hslot =>
        rw [hobj slot hslot]
        split <;> rfl
      · rfl
  · rfl

/-- `bio_make_handle` changes what the new handle resolves to, and nothing else. -/
theorem resolveHandle_makeHandle (t : HandleTable τ ω) (obj : Option ω) (tag : Option τ) (h : Handle)
    (tag' : Option τ) : (t.makeHandle obj tag).2.resolveHandle h tag' =
      if h = (t.makeHandle obj tag).1 ∧ t.HasSlot then if tag = tag' then obj else none
      else t.resolveHandle h tag' := by
  rw [← resolveHandle_growIfFull t, makeHandle, resolveHandle, slotOf_takeSlot]
  unfold HasSlot
  split <;> rename_i hslot
  · split at hslot
    · next hnew =>
      rw [if_pos hnew]
      cases hslot
      rfl
    · next hold =>
      rw [if_neg hold, resolveHandle, hslot]
  · split at hslot
    · cases hslot
    · next hold => rw [if_neg hold, resolveHandle, hslot]

/-- Closing a handle leaves the slots of the others alone. -/
theorem slotOf_closeHandle_of_ne {tag : Option τ} (hne : h' ≠ h) (hslot : t.slotOf h' = some slot) :
    (t.closeHandle h tag).2.slotOf h' = some slot := by
  unfold closeHandle
  split
  · next closed hclosed =>
    split
    · obtain ⟨hrange, heq, hgen⟩ := slotOf_eq_some.mp hslot
      obtain ⟨hrange', heq', hgen'⟩ := slotOf_eq_some.mp hclosed
      have hother : (h'.index - 1).toNat ≠ (h.index - 1).toNat := by
        intro hindex
        refine hne (handle_ext hindex hrange.1 hrange'.1 ?_)
        rw [← hgen, ← hgen', ← heq, ← heq', hindex]
      exact slotOf_eq_some.mpr ⟨hrange, (Function.update_of_ne hother ..).trans heq, hgen⟩
    · exact hslot
  · exact hslot

/-- Closing a handle with another tag than that of its slot does nothing. -/
theorem closeHandle_of_tag_ne {tag : Option τ} (hslot : t.slotOf h = some slot) (htag : slot.tag ≠ tag) :
    (t.closeHandle h tag).2 = t := by
  rw [closeHandle, hslot]
  dsimp only
  rw [if_neg htag]

theorem resolveHandle_eq_some {tag : Option τ} {obj : ω} : t.resolveHandle h tag = some obj ↔
    ∃ slot, t.slotOf h = some slot ∧ slot.tag = tag ∧ slot.obj = some obj := by
  unfold resolveHandle
  cases hslot : t.slotOf h with
  | none => exact iff_of_false nofun fun ⟨_, heq, _⟩ => nomatch heq
  | some slot =>
    dsimp only
    split
    · next htag =>
      exact ⟨fun hobj => ⟨slot, rfl, htag, hobj⟩, fun ⟨_, heq, _, hobj⟩ =>
        (Option.some.inj heq).symm ▸ hobj⟩
    · next htag =>
      exact iff_of_false nofun fun ⟨_, heq, htag', _⟩ => htag ((Option.some.inj heq).symm ▸ htag')

omit [DecidableEq τ] in
/-- Neither new slots nor closed ones have objects that were not there. -/
theorem obj_makeHandle {obj : Option ω} {tag : Option τ} {i : Nat} {o : ω}
    (ho : ((t.makeHandle obj tag).2.handleSlots i).obj = some o) :
    obj = some o ∨ (t.handleSlots i).obj = some o := by
  have hgrow : (t.growIfFull.handleSlots i).obj = some o → (t.handleSlots i).obj = some o := by
    unfold growIfFull
    split
    · simp only [growHandleTable]
      split
      · simp
      · exact id
    · exact id
  simp only [makeHandle, takeSlot, Function.update_apply] at ho
  split at ho
  · exact .inl ho
  · exact .inr (hgrow ho)

theorem obj_closeHandle (t : HandleTable τ ω) (h : Handle) (tag : Option τ) (i : Nat) :
    ((t.closeHandle h tag).2.handleSlots i).obj = (t.handleSlots i).obj := by
  unfold closeHandle
  split
  · next slot hslot =>
    split
    · dsimp only
      rw [Function.update_apply]
      split
      · next hi =>
        subst hi
        rw [(slotOf_eq_some.mp hslot).2.1]
      · rfl
    · rfl
  · rfl

end HandleTable

/-! ## Descriptors -/

theorem setWidth_signExtend (fd : BitVec 32) : (fd.signExtend 64).setWidth 32 = fd := by
  refine BitVec.eq_of_getElem_eq fun i hi => ?_
  rw [BitVec.getElem_setWidth, BitVec.getLsbD_signExtend]
  simp [hi, Nat.lt_trans hi (by decide : 32 < 64)]

theorem signExtend_inj {fd fd' : BitVec 32} (h : fd.signExtend 64 = fd'.signExtend 64) : fd = fd' := by
  rw [← setWidth_signExtend fd, h, setWidth_signExtend]

/-- No descriptor is passed as `(uintptr_t)(-1)`. -/
theorem signExtend_ne_allOnes {fd : BitVec 32} (hfd : fd.msb = false) :
    fd.signExtend 64 ≠ BitVec.allOnes 64 := by
  intro h
  have hmsb := congrArg BitVec.msb h
  have hall : (BitVec.allOnes 64).msb = true := by decide
  rw [BitVec.msb_signExtend, hall] at hmsb
  exact absurd (hfd.symm.trans hmsb) nofun

namespace WrapState

variable {s : WrapState} {h sock : Handle} {kind : WrapKind} {fd : BitVec 32} {impl : ResourceImpl}

/-- A handle gives back a descriptor when it resolves to an object of that descriptor. -/
theorem unwrap_eq_iff (s : WrapState) (kind : WrapKind) (h : Handle) (hfd : fd.msb = false) :
    s.unwrap kind h = fd.signExtend 64 ↔
      ∃ obj, s.resolve h kind.tag = some obj ∧ obj.impl.descriptor = some (kind, fd) := by
  have hnone := (signExtend_ne_allOnes hfd).symm
  have hsame : ∀ fd' : BitVec 32, fd'.signExtend 64 = fd.signExtend 64 ↔ fd' = fd :=
    fun _ => ⟨signExtend_inj, congrArg _⟩
  cases kind with
  | file =>
    simp only [unwrap, funwrap, WrapKind.tag]
    rcases s.resolve h .file with _ | ⟨_, impl⟩
    · exact iff_of_false hnone nofun
    · cases impl with
      | file fd' => simp only [hsame]; simp [ResourceImpl.descriptor]
      | socket fd' => exact iff_of_false hnone (by simp [ResourceImpl.descriptor])
      | other name => exact iff_of_false hnone (by simp [ResourceImpl.descriptor])
  | socket =>
    simp only [unwrap, netUnwrap, WrapKind.tag]
    rcases s.resolve h .socket with _ | ⟨_, impl⟩
    · exact iff_of_false hnone nofun
    · cases impl with
      | socket fd' => simp only [hsame]; simp [ResourceImpl.descriptor]
      | file fd' => exact iff_of_false hnone (by simp [ResourceImpl.descriptor])
      | other name => exact iff_of_false hnone (by simp [ResourceImpl.descriptor])

/-- What a new resource changes. -/
theorem resolve_makeResource (s : WrapState) (impl : ResourceImpl) (h : Handle) (tag : ResourceTag) :
    (s.makeResource impl).2.resolve h tag =
      if h = s.nextHandle ∧ s.handles.table.HasSlot then
        if impl.tag = tag then some ⟨s.allocations, impl⟩ else none
      else s.resolve h tag := by
  have hmake := s.handles.table.resolveHandle_makeHandle (some ⟨s.allocations, impl⟩)
    (some impl.tag) h (some tag)
  simp only [Option.some.injEq] at hmake
  exact hmake

theorem perform_fdopen (s : WrapState) (fd : BitVec 32) :
    s.perform (.fdopen fd) =
      (s.makeResource (.file fd (-1) false)).2.assign s.nextHandle .file fd := by
  simp only [perform, fdopen, fileFromFd, setWidth_signExtend]
  rfl

theorem perform_netWrap (s : WrapState) (sock : Handle) (fd : BitVec 32) :
    s.perform (.netWrap sock fd) = (s.makeResource (.socket fd)).2.assign sock .socket fd := by
  simp only [perform, netWrap, socketFromFd, setWidth_signExtend]

theorem keepsResolving_fdopen (s : WrapState) (fd : BitVec 32) : s.KeepsResolving (.fdopen fd) ↔
    ∀ h tag, s.handles.map.issue h ≠ none →
      (s.makeResource (.file fd (-1) false)).2.resolve h tag = s.resolve h tag := by
  rw [KeepsResolving, perform_fdopen]
  rfl

theorem keepsResolving_netWrap (s : WrapState) (sock : Handle) (fd : BitVec 32) :
    s.KeepsResolving (.netWrap sock fd) ↔ ∀ h tag, s.handles.map.issue h ≠ none →
      (s.makeResource (.socket fd)).2.resolve h tag = s.resolve h tag := by
  rw [KeepsResolving, perform_netWrap]
  rfl

theorem nextHandle_ne_invalid (s : WrapState) : s.nextHandle ≠ Handle.invalid := by
  intro h
  have hindex := congrArg Handle.index h
  simp only [nextHandle, HandleTable.makeHandle, HandleTable.takeSlot, Handle.invalid] at hindex
  omega

theorem nextHandle_not_known (hfresh : s.handles.map.issue s.nextHandle = none) :
    ¬s.handles.map.Known s.nextHandle := by
  rintro (h | ⟨i, hi⟩)
  · exact s.nextHandle_ne_invalid h
  · rw [hfresh] at hi
    cases hi

/-! ## Runs -/

/-- The objects in the table have been allocated, and the wrapped handles are known handles of
descriptors. -/
structure Inv (s : WrapState) : Prop where
  allocated : ∀ i obj, (s.handles.table.handleSlots i).obj = some obj → obj.allocation < s.allocations
  nonneg : ∀ h kind fd, s.opened h = some (kind, fd) → fd.msb = false
  known : ∀ h e, s.opened h = some e → s.handles.map.Known h

theorem Inv.makeResource (hi : s.Inv) (impl : ResourceImpl) : (s.makeResource impl).2.Inv where
  allocated := fun i obj hobj => by
    rcases HandleTable.obj_makeHandle hobj with hnew | hold
    · obtain rfl := Option.some.inj hnew
      exact Nat.lt_succ_self _
    · exact Nat.lt_succ_of_lt (hi.allocated i obj hold)
  nonneg := hi.nonneg
  known := fun h e he => known_make (hi.known h e he) _ _ _

theorem Inv.assign (hi : s.Inv) (hknown : s.handles.map.Known h) (hfd : fd.msb = false)
    (kind : WrapKind) : (s.assign h kind fd).Inv where
  allocated := hi.allocated
  nonneg := fun h' kind' fd' he => by
    rcases Table.insert_some he with ⟨_, heq⟩ | ⟨_, hold⟩
    · obtain ⟨rfl, rfl⟩ := Prod.mk.inj heq
      exact hfd
    · exact hi.nonneg h' kind' fd' hold
  known := fun h' e he => by
    rcases Table.insert_some he with ⟨rfl, _⟩ | ⟨_, hold⟩
    · exact hknown
    · exact hi.known h' e hold

theorem known_nextHandle (s : WrapState) (impl : ResourceImpl) :
    (s.makeResource impl).2.handles.map.Known s.nextHandle :=
  .inr ⟨_, Function.update_self ..⟩

/-- What a handle keeps when another one is closed. -/
theorem opened_close {tag : ResourceTag} {h' : Handle} {e : WrapKind × BitVec 32}
    (he : (s.perform (.close h tag)).opened h' = some e) :
    s.opened h' = some e ∧ (h' = h → e.1.tag ≠ tag) := by
  rcases Table.update_some he with ⟨rfl, hkept⟩ | ⟨hne, hold⟩
  · obtain ⟨hold, htag⟩ := Option.filter_eq_some_iff.mp hkept
    exact ⟨hold, fun _ => of_decide_eq_true htag⟩
  · exact ⟨hold, fun heq => absurd heq hne⟩

theorem inv_of_reachable (hr : machine.Reachable s) : s.Inv := by
  refine Machine.invariant (P := Inv) ?_ ?_ hr
  · rintro _ rfl
    refine ⟨fun i obj hobj => ?_, nofun, nofun⟩
    simp only [init, HandleTable.handleTableInit, HandleTable.growHandleTable] at hobj
    split at hobj <;> cases hobj
  · intro s a _ hi he
    cases a with
    | make impl => exact hi.makeResource impl
    | close h tag =>
      refine ⟨fun i obj hobj => ?_, fun h' kind fd he => hi.nonneg h' kind fd (opened_close he).1,
        fun h' e he => known_close (hi.known h' e (opened_close he).1) _ _⟩
      rw [show (machine.perform s (.close h tag)).handles.table =
        (s.handles.table.closeHandle h (some tag)).2 from rfl, HandleTable.obj_closeHandle] at hobj
      exact hi.allocated i obj hobj
    | fdopen fd =>
      show (s.perform (.fdopen fd)).Inv
      rw [perform_fdopen]
      exact (hi.makeResource _).assign (s.known_nextHandle _) he .file
    | netWrap sock fd =>
      show (s.perform (.netWrap sock fd)).Inv
      rw [perform_netWrap]
      exact (hi.makeResource _).assign (known_make he.1 _ _ _) he.2 .socket

/-- A new resource leaves the handles that were issued as they were, unless its own is one of them. -/
theorem keeps_iff (hi : s.Inv) (impl : ResourceImpl) :
    (∀ h tag, s.handles.map.issue h ≠ none →
      (s.makeResource impl).2.resolve h tag = s.resolve h tag) ↔
      (s.handles.table.HasSlot → s.handles.map.issue s.nextHandle = none) := by
  constructor
  · intro hkeeps hslot
    by_contra hissued
    have hsame := hkeeps s.nextHandle impl.tag hissued
    rw [resolve_makeResource, if_pos ⟨rfl, hslot⟩, if_pos rfl] at hsame
    -- The old object of the handle is not the new one.
    obtain ⟨slot, hfound, _, hobj⟩ := HandleTable.resolveHandle_eq_some.mp hsame.symm
    rw [← (HandleTable.slotOf_eq_some.mp hfound).2.1] at hobj
    exact Nat.lt_irrefl _ (hi.allocated _ _ hobj)
  · intro hfresh h tag hissued
    rw [resolve_makeResource, if_neg]
    rintro ⟨rfl, hslot⟩
    exact hissued (hfresh hslot)

/-- A new resource leaves a wrapped handle as it was, unless it gets that handle. -/
theorem unwrap_makeResource (impl : ResourceImpl) (hfd : fd.msb = false)
    (hne : h = s.nextHandle → ¬s.handles.table.HasSlot) :
    (s.makeResource impl).2.unwrap kind h = fd.signExtend 64 ↔ s.unwrap kind h = fd.signExtend 64 := by
  rw [unwrap_eq_iff _ _ _ hfd, unwrap_eq_iff _ _ _ hfd]
  simp only [resolve_makeResource]
  rw [if_neg fun hnew => hne hnew.1 hnew.2]

/-- The new handle of an object gives back the descriptor of the object. -/
theorem unwrap_nextHandle (s : WrapState) (impl : ResourceImpl) (kind : WrapKind) (hfd : fd.msb = false) :
    s.handles.table.HasSlot →
      ((s.makeResource impl).2.unwrap kind s.nextHandle = fd.signExtend 64 ↔
        impl.descriptor = some (kind, fd)) := by
  intro hslot
  have htag : impl.descriptor = some (kind, fd) → impl.tag = kind.tag := by
    cases impl <;> cases kind <;> simp [ResourceImpl.descriptor, ResourceImpl.tag, WrapKind.tag]
  rw [unwrap_eq_iff _ _ _ hfd, resolve_makeResource, if_pos ⟨rfl, hslot⟩]
  constructor
  · rintro ⟨obj, hobj, hdescriptor⟩
    split at hobj
    · cases hobj
      exact hdescriptor
    · cases hobj
  · intro hdescriptor
    exact ⟨_, if_pos (htag hdescriptor), hdescriptor⟩

/-- A handle that finds no slot gives back no descriptor. -/
theorem hasSlot_of_unwrap (hfd : fd.msb = false)
    (hunwrap : (s.makeResource impl).2.unwrap kind s.nextHandle = fd.signExtend 64) :
    s.handles.table.HasSlot := by
  obtain ⟨obj, hobj, _⟩ := (unwrap_eq_iff _ _ _ hfd).mp hunwrap
  obtain ⟨slot, hfound, _, _⟩ := HandleTable.resolveHandle_eq_some.mp hobj
  have hrange := (HandleTable.slotOf_eq_some.mp hfound).1.2
  simp only [nextHandle, makeResource, HandleState.perform, HandleTable.makeHandle,
    HandleTable.takeSlot] at hrange
  unfold HandleTable.HasSlot
  omega

/-- So does a handle that gave one back before the call. -/
theorem hasSlot_of_unwrap_before (hfd : fd.msb = false)
    (hunwrap : s.unwrap kind s.nextHandle = fd.signExtend 64) : s.handles.table.HasSlot := by
  by_contra hslot
  exact hslot (hasSlot_of_unwrap hfd
    ((unwrap_makeResource (.other 0) hfd fun _ => hslot).mpr hunwrap))

/-- A handle that gives a descriptor back is left alone by the close of another one, and by one with a
wrong tag. -/
theorem unwrap_close {tag : ResourceTag} {h' : Handle} (hfd : fd.msb = false)
    (hunwrap : s.unwrap kind h' = fd.signExtend 64) (hother : h' = h → kind.tag ≠ tag) :
    (s.perform (.close h tag)).unwrap kind h' = fd.signExtend 64 := by
  rw [unwrap_eq_iff _ _ _ hfd] at hunwrap ⊢
  obtain ⟨obj, hobj, hdescriptor⟩ := hunwrap
  obtain ⟨slot, hfound, htag, hslot⟩ := HandleTable.resolveHandle_eq_some.mp hobj
  have hkept : (s.handles.table.closeHandle h (some tag)).2.slotOf h' = some slot := by
    by_cases heq : h' = h
    · have hne : slot.tag ≠ some tag := by
        rw [htag]
        exact fun h => hother heq (Option.some.inj h)
      rw [HandleTable.closeHandle_of_tag_ne (heq ▸ hfound) hne]
      exact hfound
    · exact HandleTable.slotOf_closeHandle_of_ne heq hfound
  exact ⟨obj, HandleTable.resolveHandle_eq_some.mpr ⟨slot, hkept, htag, hslot⟩, hdescriptor⟩

/-- One step under the guard. -/
theorem step_of_wrapOk {a : WrapAction} (hi : s.Inv) (hu : s.Unwraps) (he : s.enabled a)
    (hok : s.WrapOk a) : s.KeepsResolving a ∧ (s.perform a).Unwraps := by
  cases a with
  | make impl =>
    refine ⟨trivial, fun h kind fd hopen => ?_⟩
    have hfd := hi.nonneg h kind fd hopen
    by_cases hnew : h = s.nextHandle ∧ s.handles.table.HasSlot
    · obtain ⟨rfl, hslot⟩ := hnew
      exact (s.unwrap_nextHandle impl kind hfd hslot).mpr (hok _ hopen)
    · exact (unwrap_makeResource impl hfd fun heq hslot => hnew ⟨heq, hslot⟩).mpr (hu h kind fd hopen)
  | close h tag =>
    refine ⟨trivial, fun h' kind fd hopen => ?_⟩
    obtain ⟨hold, htag⟩ := opened_close hopen
    exact unwrap_close (hi.nonneg h' kind fd hold) (hu h' kind fd hold) htag
  | fdopen fd =>
    obtain ⟨hslot, hfresh⟩ := hok
    refine ⟨(keepsResolving_fdopen s fd).mpr ((keeps_iff hi _).mpr fun _ => hfresh), ?_⟩
    rw [perform_fdopen]
    intro h kind fd' hopen
    rcases Table.insert_some hopen with ⟨rfl, heq⟩ | ⟨hne, hold⟩
    · cases heq
      exact (s.unwrap_nextHandle (.file fd (-1) false) .file he hslot).mpr rfl
    · exact (unwrap_makeResource _ (hi.nonneg h kind fd' hold) fun heq => absurd heq hne).mpr
        (hu h kind fd' hold)
  | netWrap sock fd =>
    obtain ⟨hfresh, hunwrap⟩ := hok
    -- No known handle gets the new object.
    have hnew : ∀ h, s.handles.map.Known h → h = s.nextHandle → ¬s.handles.table.HasSlot := by
      rintro h hknown rfl hslot
      exact nextHandle_not_known (hfresh hslot) hknown
    refine ⟨(keepsResolving_netWrap s sock fd).mpr ((keeps_iff hi _).mpr hfresh), ?_⟩
    rw [perform_netWrap]
    intro h kind fd' hopen
    rcases Table.insert_some hopen with ⟨rfl, heq⟩ | ⟨_, hold⟩
    · cases heq
      exact (unwrap_makeResource (.socket fd) he.2 (hnew h he.1)).mpr
        ((s.unwrap_eq_iff .socket h he.2).mpr hunwrap)
    · exact (unwrap_makeResource _ (hi.nonneg h kind fd' hold) (hnew h (hi.known h _ hold))).mpr
        (hu h kind fd' hold)

/-- A step that keeps what is promised has met the guard. -/
theorem wrapOk_of_step {a : WrapAction} (hi : s.Inv) (hu : s.Unwraps) (he : s.enabled a)
    (hkeeps : s.KeepsResolving a) (hu' : (s.perform a).Unwraps) : s.WrapOk a := by
  cases a with
  | make impl =>
    rintro ⟨kind, fd⟩ hopen
    have hfd := hi.nonneg _ kind fd hopen
    have hslot := hasSlot_of_unwrap_before hfd (hu _ kind fd hopen)
    exact (s.unwrap_nextHandle impl kind hfd hslot).mp (hu' _ kind fd hopen)
  | close h tag => trivial
  | fdopen fd =>
    rw [keepsResolving_fdopen] at hkeeps
    rw [perform_fdopen] at hu'
    have hunwrap : (s.makeResource (.file fd (-1) false)).2.unwrap .file s.nextHandle =
        fd.signExtend 64 := hu' s.nextHandle .file fd (Function.update_self ..)
    have hslot := hasSlot_of_unwrap he hunwrap
    exact ⟨hslot, (keeps_iff hi _).mp hkeeps hslot⟩
  | netWrap sock fd =>
    rw [keepsResolving_netWrap] at hkeeps
    rw [perform_netWrap] at hu'
    have hfresh := (keeps_iff hi _).mp hkeeps
    have hunwrap : (s.makeResource (.socket fd)).2.unwrap .socket sock = fd.signExtend 64 :=
      hu' sock .socket fd (Function.update_self ..)
    refine ⟨hfresh, (s.unwrap_eq_iff .socket sock he.2).mp ?_⟩
    exact (unwrap_makeResource (.socket fd) he.2 fun heq hslot =>
      nextHandle_not_known (hfresh hslot) (heq ▸ he.1)).mp hunwrap

/-- In every run, the handles left by `bio_fdopen` and `bio_net_wrap` give their descriptors back until
they are closed, and all handles issued before keep resolving to what they resolved to, exactly when each
handle issued for a descriptor is a new one and `bio_net_wrap` finds in its out-parameter a socket of the
descriptor. -/
theorem wrap_unwrap_iff {as : List WrapAction} (hl : machine.Legal init as) :
    ((∀ bs a, bs ++ [a] <+: as → (machine.run init bs).KeepsResolving a) ∧
      ∀ bs, bs <+: as → (machine.run init bs).Unwraps) ↔
      (machine.restrict WrapOk).Legal init as :=
  Machine.always_step_iff rfl nofun
    (fun _ _ hr hu he hok => step_of_wrapOk (inv_of_reachable hr) hu he hok)
    (fun _ _ hr hu he hkeeps hu' => wrapOk_of_step (inv_of_reachable hr) hu he hkeeps hu') hl

/-- A file is made, closed, and made again in the same slot. -/
def reopenFile : List WrapAction := [.fdopen 3, .close ⟨1, 0⟩ .file, .fdopen 4]

theorem wrap_unwrap_iff_file :
    (((∀ bs a, bs ++ [a] <+: reopenFile → (machine.run init bs).KeepsResolving a) ∧
      ∀ bs, bs <+: reopenFile → (machine.run init bs).Unwraps) ↔
      (machine.restrict WrapOk).Legal init reopenFile) ∧
    (machine.restrict WrapOk).Legal init reopenFile := by
  refine ⟨wrap_unwrap_iff ?_, ?_⟩
  · exact ⟨rfl, .inr ⟨_, rfl⟩, rfl, trivial⟩
  · exact ⟨⟨rfl, by decide, rfl⟩, ⟨.inr ⟨_, rfl⟩, trivial⟩, ⟨rfl, by decide, rfl⟩, trivial⟩

/-- `bio_net_wrap` into a zero handle leaves it zero. -/
theorem net_wrap_leaks : ∃ as, machine.Legal init as ∧ ¬(machine.run init as).Unwraps := by
  refine ⟨[.netWrap Handle.invalid 5], ⟨⟨.inl rfl, rfl⟩, trivial⟩, fun hu => ?_⟩
  exact absurd (hu Handle.invalid .socket 5 rfl) (by decide)

/-! ## Handles that are new -/

/-- The calls on the handle table are calls of a client of the table. -/
theorem handles_reachable (hr : machine.Reachable s) :
    (HandleState.machine ResourceTag Resource).Reachable s.handles := by
  refine Machine.invariant
    (P := fun s => (HandleState.machine ResourceTag Resource).Reachable s.handles) ?_ ?_ hr
  · rintro _ rfl
    exact .init rfl
  · intro s a _ ih he
    have hmake : ∀ impl, (HandleState.machine ResourceTag Resource).Reachable
        (s.makeResource impl).2.handles := fun impl =>
      ih.step_eq (a := .make (some ⟨s.allocations, impl⟩) (some impl.tag)) trivial rfl
    cases a with
    | make impl => exact hmake impl
    | close h tag => exact ih.step_eq (a := .close h (some tag)) he rfl
    | fdopen fd =>
      show (HandleState.machine ResourceTag Resource).Reachable (s.perform (.fdopen fd)).handles
      rw [perform_fdopen]
      exact hmake (.file fd (-1) false)
    | netWrap sock fd =>
      show (HandleState.machine ResourceTag Resource).Reachable
        (s.perform (.netWrap sock fd)).handles
      rw [perform_netWrap]
      exact hmake (.socket fd)

/-- As long as the generations of no slot come round, the next handle is a new one. -/
theorem fresh_of_bounded (hr : machine.Reachable s) (hb : s.handles.map.Bounded) :
    s.handles.table.HasSlot ∧ s.handles.map.issue s.nextHandle = none := by
  have hrefines := refines_of_reachable (handles_reachable hr) hb
  refine ⟨?_, (makeHandle_spec hrefines hb none none).1⟩
  obtain ⟨hgrow, hroom⟩ := growIfFull_refines hrefines
  obtain ⟨free, hlink, _, hmem, hnum⟩ := hgrow.free
  -- The table has room, so the free list has a head.
  cases free with
  | nil =>
    rw [List.length_nil] at hnum
    omega
  | cons slot free =>
    unfold HandleTable.HasSlot
    rw [hlink.1]
    exact ((hmem slot).mp List.mem_cons_self).1

end WrapState

end Bio
