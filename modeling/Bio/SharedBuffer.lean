import Bio.Buffer
import Bio.Lib.Table
import Mathlib.Logic.Function.Basic

/-!
# One buffer and several coroutines

All of `src/buffering.c` on one buffer, with the callbacks as the places at which a call is suspended.
Other calls run in the meantime, in any order, and each of them goes on with the pointer that it got
when it resolved the handle.

* What a callback returns is part of the action with which the call goes on.
* A call has a number of its own: a callback may use the buffer as well, in the same coroutine.
* `impl` is the memory behind the handle, none from `bio_free` on, and `isOpen` whether the handle
  resolves.
* `stale` and `late` are ghosts: the calls that used the object after it was freed, and what was
  returned after that.

Result: `buffer_unused_after_destroy`.
-/

namespace Bio

/-- The callbacks that `bio_buffer_options_t` has, and its size. -/
structure SharedOptions where
  readFn : Bool
  writeFn : Bool
  flushFn : Bool
  size : Nat
deriving DecidableEq, Repr

/-- The caller of `bio_flush_internal_buffer`: `bio_buffered_write` with its data, or
`bio_flush_buffer`. -/
inductive Flusher
  | write (out : List UInt8)
  | flush
deriving DecidableEq, Repr

/-- The callback in which a call is suspended. -/
inductive BufferFrame
  /-- `bio_buffered_read` in `read_fn` -/
  | refill (size : Nat)
  /-- `bio_flush_internal_buffer` in `write_fn` -/
  | flushLoop (totalBytesWritten bytesToWrite : Nat) (next : Flusher)
  /-- `bio_buffered_write` in `write_fn`, with the data of the caller -/
  | directWrite (out : List UInt8)
  /-- `bio_flush_buffer` in `flush_fn` -/
  | flushFn
  /-- `bio_destroy_buffer` in `write_fn` -/
  | destroyWrite (bytesToWrite : Nat)
  /-- `bio_destroy_buffer` in `flush_fn` -/
  | destroyFlush
deriving DecidableEq, Repr

/-- What a call returns. -/
inductive BufferReturn
  | read (bytes : List UInt8) (error : Option CoreError)
  | written (bytes : Nat) (error : Option CoreError)
  | flushed (done : Bool) (error : Option CoreError)
deriving DecidableEq, Repr

/-- Zero bytes, or false. -/
def BufferReturn.failed : BufferReturn → Bool
  | .read bytes _ => bytes.isEmpty
  | .written bytes _ => bytes == 0
  | .flushed done _ => !done

structure SharedBuffer where
  isOpen : Bool
  impl : Option SharedImpl
  frames : Nat → Option BufferFrame
  stale : List Nat
  late : List BufferReturn

namespace SharedBuffer

variable (options : SharedOptions)

/-- `bio_make_buffer`. -/
def make (memory : List UInt8) : SharedBuffer where
  isOpen := true
  impl := some { offset := 0, dataSize := 0, data := memory }
  frames := fun _ => none
  stale := []
  late := []

def setImpl (b : SharedBuffer) (impl : SharedImpl) : SharedBuffer := { b with impl := some impl }

/-- The call enters a callback. -/
def suspend (b : SharedBuffer) (call : Nat) (f : BufferFrame) : SharedBuffer :=
  { b with frames := Function.update b.frames call (some f) }

/-- The call is over. -/
def leave (b : SharedBuffer) (call : Nat) : SharedBuffer :=
  { b with frames := Function.update b.frames call none }

/-- The call returns. -/
def ret (b : SharedBuffer) (call : Nat) (r : BufferReturn) : SharedBuffer :=
  { b.leave call with late := if b.impl = none then b.late ++ [r] else b.late }

/-- The call uses the object. -/
def withImpl (b : SharedBuffer) (call : Nat) (use : SharedImpl → SharedBuffer) : SharedBuffer :=
  match b.impl with
  | some impl => use impl
  | none => { b.leave call with stale := b.stale ++ [call] }

/-- `bio_buffered_read` behind the refill. -/
def copyOut (b : SharedBuffer) (call : Nat) (impl : SharedImpl) (size : Nat) : SharedBuffer :=
  let dataAvailable := impl.dataSize - impl.offset
  let numBytesToRead := if size < dataAvailable then size else dataAvailable
  (b.setImpl { impl with offset := impl.offset + numBytesToRead }).ret call
    (.read ((impl.data.drop impl.offset).take numBytesToRead) none)

/-- `bio_buffered_read` up to its suspension. -/
def bufferedRead (b : SharedBuffer) (call size : Nat) : SharedBuffer :=
  if b.isOpen then
    b.withImpl call fun impl =>
      if options.readFn then
        if impl.offset < impl.dataSize then b.copyOut call impl size
        else b.suspend call (.refill size)
      else b.ret call (.read [] (some .notSupported))
  else b.ret call (.read [] (some .invalidArgument))

/-- What comes behind `bio_flush_internal_buffer` when it has succeeded. -/
def afterFlush (b : SharedBuffer) (call : Nat) (impl : SharedImpl) : Flusher → SharedBuffer
  | .write out =>
    if impl.offset + out.length ≤ options.size then
      (b.setImpl { impl with
        offset := impl.offset + out.length, data := memcpy impl.data impl.offset out }).ret call
        (.written out.length none)
    else (b.setImpl impl).suspend call (.directWrite out)
  | .flush =>
    if options.flushFn then (b.setImpl impl).suspend call .flushFn
    else (b.setImpl impl).ret call (.flushed true none)

/-- What the caller of `bio_flush_internal_buffer` returns when it has failed. -/
def flushFailed : Flusher → BufferReturn
  | .write _ => .written 0 none
  | .flush => .flushed false none

/-- The head of the loop of `bio_flush_internal_buffer`. -/
def flushInternalBuffer (b : SharedBuffer) (call : Nat) (impl : SharedImpl)
    (totalBytesWritten bytesToWrite : Nat) (next : Flusher) : SharedBuffer :=
  if bytesToWrite > 0 then b.suspend call (.flushLoop totalBytesWritten bytesToWrite next)
  else b.afterFlush options call { impl with offset := 0 } next

/-- `bio_buffered_write` up to its suspension. -/
def bufferedWrite (b : SharedBuffer) (call : Nat) (out : List UInt8) : SharedBuffer :=
  if b.isOpen then
    b.withImpl call fun impl =>
      if options.writeFn then
        if impl.offset + out.length > options.size then
          b.flushInternalBuffer options call impl 0 impl.offset (.write out)
        else b.afterFlush options call impl (.write out)
      else b.ret call (.written 0 (some .notSupported))
  else b.ret call (.written 0 (some .invalidArgument))

/-- `bio_flush_buffer` up to its suspension. -/
def flushBuffer (b : SharedBuffer) (call : Nat) : SharedBuffer :=
  if b.isOpen then
    b.withImpl call fun impl =>
      if options.writeFn then
        if impl.offset > 0 then b.flushInternalBuffer options call impl 0 impl.offset .flush
        else b.afterFlush options call impl .flush
      else b.ret call (.flushed false (some .notSupported))
  else b.ret call (.flushed false (some .invalidArgument))

/-- `bio_free`, the last thing that `bio_destroy_buffer` does. -/
def free (b : SharedBuffer) (call : Nat) : SharedBuffer := { b.leave call with impl := none }

/-- `bio_destroy_buffer` behind its call of `write_fn`. -/
def destroyFlush (b : SharedBuffer) (call : Nat) : SharedBuffer :=
  if options.flushFn then b.suspend call .destroyFlush else b.free call

/-- `bio_destroy_buffer` up to its suspension. -/
def destroyBuffer (b : SharedBuffer) (call : Nat) : SharedBuffer :=
  if b.isOpen then
    b.withImpl call fun impl =>
      let b := { b with isOpen := false }
      if impl.offset > 0 then
        if options.writeFn then b.suspend call (.destroyWrite impl.offset)
        else b.destroyFlush options call
      else b.free call
  else b

/-- `read_fn` returns, and has put the bytes into the buffer. -/
def resumeRead (b : SharedBuffer) (call : Nat) (bytes : List UInt8) : SharedBuffer :=
  match b.frames call with
  | some (.refill size) =>
    if bytes.length = 0 then b.ret call (.read [] none)
    else
      b.withImpl call fun impl =>
        b.copyOut call
          { offset := 0, dataSize := bytes.length, data := memcpy impl.data 0 bytes } size
  | _ => b

/-- `write_fn` returns. -/
def resumeWrite (b : SharedBuffer) (call bytesWritten : Nat) : SharedBuffer :=
  match b.frames call with
  | some (.flushLoop total left next) =>
    if bytesWritten = 0 then b.ret call (flushFailed next)
    else
      b.withImpl call fun impl =>
        b.flushInternalBuffer options call impl (total + bytesWritten) (left - bytesWritten) next
  | some (.directWrite _) => b.ret call (.written bytesWritten none)
  | some (.destroyWrite _) => b.withImpl call fun _ => b.destroyFlush options call
  | _ => b

/-- `flush_fn` returns. -/
def resumeFlush (b : SharedBuffer) (call : Nat) (done : Bool) : SharedBuffer :=
  match b.frames call with
  | some .flushFn => b.ret call (.flushed done none)
  | some .destroyFlush => b.withImpl call fun _ => b.free call
  | _ => b

end SharedBuffer

inductive SharedAction
  | bufferedRead (call size : Nat)
  | bufferedWrite (call : Nat) (out : List UInt8)
  | flushBuffer (call : Nat)
  | destroyBuffer (call : Nat)
  | readFn (call : Nat) (bytes : List UInt8)
  | writeFn (call bytesWritten : Nat)
  | flushFn (call : Nat) (done : Bool)
deriving DecidableEq, Repr

namespace SharedBuffer

variable (options : SharedOptions)

/-- The call is in `write_fn` with that many bytes. -/
def offered (b : SharedBuffer) (call : Nat) : Option Nat :=
  match b.frames call with
  | some (.flushLoop _ left _) => some left
  | some (.directWrite out) => some out.length
  | some (.destroyWrite left) => some left
  | _ => none

/-- A callback transfers at most as many bytes as it was asked for. -/
def enabled (b : SharedBuffer) : SharedAction → Prop
  | .bufferedRead call _ | .bufferedWrite call _ | .flushBuffer call | .destroyBuffer call =>
    b.frames call = none
  | .readFn call bytes => (∃ size, b.frames call = some (.refill size)) ∧ bytes.length ≤ options.size
  | .writeFn call bytesWritten => ∃ n ∈ b.offered call, bytesWritten ≤ n
  | .flushFn call _ => b.frames call = some .flushFn ∨ b.frames call = some .destroyFlush

/-- All interleavings of the calls on one buffer. -/
def machine : Machine SharedBuffer SharedAction where
  init := fun b => ∃ memory, memory.length = options.size ∧ b = make memory
  enabled := enabled options
  perform := fun b a =>
    match a with
    | .bufferedRead call size => b.bufferedRead options call size
    | .bufferedWrite call out => b.bufferedWrite options call out
    | .flushBuffer call => b.flushBuffer options call
    | .destroyBuffer call => b.destroyBuffer options call
    | .readFn call bytes => b.resumeRead call bytes
    | .writeFn call bytesWritten => b.resumeWrite options call bytesWritten
    | .flushFn call done => b.resumeFlush call done

instance (b : SharedBuffer) (call : Nat) : Decidable (∃ size, b.frames call = some (.refill size)) :=
  match b.frames call with
  | some (.refill size) => isTrue ⟨size, rfl⟩
  | none | some (.flushLoop ..) | some (.directWrite _) | some .flushFn | some (.destroyWrite _)
  | some .destroyFlush => isFalse nofun

instance (b : SharedBuffer) : ∀ a, Decidable ((machine options).enabled b a)
  | .bufferedRead call _ | .bufferedWrite call _ | .flushBuffer call | .destroyBuffer call =>
    inferInstanceAs (Decidable (b.frames call = none))
  | .readFn call bytes => inferInstanceAs (Decidable
    ((∃ size, b.frames call = some (.refill size)) ∧ bytes.length ≤ options.size))
  | .writeFn call bytesWritten =>
    inferInstanceAs (Decidable (∃ n ∈ b.offered call, bytesWritten ≤ n))
  | .flushFn call _ => inferInstanceAs (Decidable
    (b.frames call = some .flushFn ∨ b.frames call = some .destroyFlush))

end SharedBuffer

/-! ## Destroying a buffer -/

/-- A read or a write that goes back to the object when its callback has returned. -/
def BufferFrame.uses : BufferFrame → Bool
  | .refill _ | .flushLoop .. => true
  | .directWrite _ | .flushFn | .destroyWrite _ | .destroyFlush => false

/-- The call is `bio_destroy_buffer`. -/
def BufferFrame.destroys : BufferFrame → Bool
  | .destroyWrite _ | .destroyFlush => true
  | .refill _ | .flushLoop .. | .directWrite _ | .flushFn => false

namespace SharedBuffer

section Destroy

variable {options : SharedOptions} {b : SharedBuffer} {call : Nat}

/-- The step ends with `bio_free`. -/
def Releases (options : SharedOptions) (b : SharedBuffer) : SharedAction → Prop
  | .destroyBuffer _ => b.isOpen = true ∧ ∃ impl ∈ b.impl,
      impl.offset = 0 ∨ (options.writeFn = false ∧ options.flushFn = false)
  | .writeFn call _ => (∃ n, b.frames call = some (.destroyWrite n)) ∧ options.flushFn = false
  | .flushFn call _ => b.frames call = some .destroyFlush
  | _ => False

/-- The object is freed only while no call is in a callback behind which it goes back to the object. -/
def FreesUnused (options : SharedOptions) (b : SharedBuffer) (a : SharedAction) : Prop :=
  Releases options b a → ∀ call f, b.frames call = some f → f.uses = false

/-- The callbacks that return after the object was freed report a failure. -/
def LateFails (b : SharedBuffer) : SharedAction → Prop
  | .writeFn _ bytesWritten => b.impl = none → bytesWritten = 0
  | .flushFn _ done => b.impl = none → done = false
  | _ => True

/-- No call has used the object after it was freed or is going to, and what was returned after that
are failures. -/
structure Safe (b : SharedBuffer) : Prop where
  stale : b.stale = []
  late : ∀ r ∈ b.late, r.failed = true
  closed : b.impl = none → b.isOpen = false
  uses : ∀ call f, b.frames call = some f → f.uses = true → b.impl ≠ none
  destroys : ∀ call f, b.frames call = some f → f.destroys = true → b.isOpen = false ∧ b.impl ≠ none
  once : ∀ call call' f f', b.frames call = some f → b.frames call' = some f' →
    f.destroys = true → f'.destroys = true → call = call'

theorem leave_cases {call' : Nat} {f : BufferFrame} (h : (b.leave call).frames call' = some f) :
    call' ≠ call ∧ b.frames call' = some f := by
  have h' : Function.update b.frames call none call' = some f := h
  exact Table.erase_some h'

theorem suspend_cases {call' : Nat} {f g : BufferFrame}
    (h : (b.suspend call g).frames call' = some f) :
    (call' = call ∧ f = g) ∨ b.frames call' = some f := by
  have h' : Function.update b.frames call (some g) call' = some f := h
  exact (Table.insert_some h').imp_right And.right

theorem Safe.leave (h : b.Safe) (call : Nat) : (b.leave call).Safe where
  stale := h.stale
  late := h.late
  closed := h.closed
  uses := fun call' f hf => h.uses call' f (leave_cases hf).2
  destroys := fun call' f hf => h.destroys call' f (leave_cases hf).2
  once := fun c c' f f' hf hf' => h.once c c' f f' (leave_cases hf).2 (leave_cases hf').2

theorem Safe.setImpl (h : b.Safe) (impl : SharedImpl) : (b.setImpl impl).Safe where
  stale := h.stale
  late := h.late
  closed := nofun
  uses := fun _ _ _ _ => nofun
  destroys := fun call f hf hd => ⟨(h.destroys call f hf hd).1, nofun⟩
  once := h.once

theorem Safe.ret (h : b.Safe) (call : Nat) {r : BufferReturn}
    (hr : b.impl = none → r.failed = true) : (b.ret call r).Safe := by
  refine { h.leave call with late := fun r' hr' => ?_ }
  have hr'' : r' ∈ if b.impl = none then b.late ++ [r] else b.late := hr'
  split at hr''
  · next hfreed =>
    rcases List.mem_append.mp hr'' with hold | hnew
    · exact h.late r' hold
    · exact List.mem_singleton.mp hnew ▸ hr hfreed
  · exact h.late r' hr''

/-- The call of a read or a write enters a callback. -/
theorem Safe.suspend (h : b.Safe) (call : Nat) {f : BufferFrame} (hf : f.destroys = false)
    (himpl : b.impl ≠ none) : (b.suspend call f).Safe where
  stale := h.stale
  late := h.late
  closed := h.closed
  uses := fun _ _ _ _ => himpl
  destroys := by
    intro call' g hg hd
    rcases suspend_cases hg with ⟨_, rfl⟩ | hold
    · exact absurd hd (by simp [hf])
    · exact h.destroys call' g hold hd
  once := by
    intro c c' g g' hg hg' hd hd'
    rcases suspend_cases hg with ⟨_, rfl⟩ | hold
    · exact absurd hd (by simp [hf])
    · rcases suspend_cases hg' with ⟨_, rfl⟩ | hold'
      · exact absurd hd' (by simp [hf])
      · exact h.once c c' g g' hold hold' hd hd'

/-- `bio_destroy_buffer` enters a callback: the handle is closed, and there is no other such call. -/
theorem Safe.suspendDestroy (h : b.Safe) (call : Nat) {f : BufferFrame} (hclosed : b.isOpen = false)
    (himpl : b.impl ≠ none)
    (honly : ∀ call' g, b.frames call' = some g → g.destroys = true → call' = call) :
    (b.suspend call f).Safe where
  stale := h.stale
  late := h.late
  closed := h.closed
  uses := fun _ _ _ _ => himpl
  destroys := fun _ _ _ _ => ⟨hclosed, himpl⟩
  once := by
    have honly' : ∀ call' g, (b.suspend call f).frames call' = some g → g.destroys = true →
        call' = call := by
      intro call' g hg hd
      rcases suspend_cases hg with ⟨heq, _⟩ | hold
      · exact heq
      · exact honly call' g hold hd
    exact fun c c' g g' hg hg' hd hd' => (honly' c g hg hd).trans (honly' c' g' hg' hd').symm

theorem Safe.free (h : b.Safe) (call : Nat) (hclosed : b.isOpen = false)
    (honly : ∀ call' g, b.frames call' = some g → g.destroys = true → call' = call)
    (hunused : ∀ call f, b.frames call = some f → f.uses = false) : (b.free call).Safe where
  stale := h.stale
  late := h.late
  closed := fun _ => hclosed
  uses := fun call' f hf huses => absurd huses (by simp [hunused call' f (leave_cases hf).2])
  destroys := by
    intro call' f hf hd
    obtain ⟨hne, hold⟩ := leave_cases hf
    exact absurd (honly call' f hold hd) hne
  once := (h.leave call).once

theorem Safe.withImpl (h : b.impl ≠ none) (call : Nat) {use : SharedImpl → SharedBuffer}
    (huse : ∀ impl, b.impl = some impl → (use impl).Safe) : (b.withImpl call use).Safe := by
  unfold SharedBuffer.withImpl
  split
  · next impl himpl => exact huse impl himpl
  · next hnone => exact absurd hnone h

theorem Safe.impl_of_open (h : b.Safe) (hopen : b.isOpen = true) : b.impl ≠ none := fun hnone =>
  absurd (h.closed hnone) (by simp [hopen])

theorem Safe.copyOut (h : b.Safe) (call : Nat) (impl : SharedImpl) (size : Nat) :
    (b.copyOut call impl size).Safe := (h.setImpl _).ret call nofun

theorem Safe.bufferedRead (h : b.Safe) (call size : Nat) :
    (b.bufferedRead options call size).Safe := by
  unfold SharedBuffer.bufferedRead
  split
  · next hopen =>
    have himpl := h.impl_of_open hopen
    refine Safe.withImpl himpl call fun impl _ => ?_
    split
    · split
      · exact h.copyOut call impl size
      · exact h.suspend call rfl himpl
    · exact h.ret call fun _ => rfl
  · exact h.ret call fun _ => rfl

theorem Safe.afterFlush (h : b.Safe) (call : Nat) (impl : SharedImpl) (next : Flusher) :
    (b.afterFlush options call impl next).Safe := by
  cases next with
  | write out =>
    unfold SharedBuffer.afterFlush
    dsimp only
    split
    · exact (h.setImpl _).ret call nofun
    · exact (h.setImpl impl).suspend call rfl nofun
  | flush =>
    unfold SharedBuffer.afterFlush
    dsimp only
    split
    · exact (h.setImpl impl).suspend call rfl nofun
    · exact (h.setImpl impl).ret call nofun

theorem Safe.flushInternalBuffer (h : b.Safe) (call : Nat) {impl : SharedImpl}
    (himpl : b.impl = some impl) (total left : Nat) (next : Flusher) :
    (b.flushInternalBuffer options call impl total left next).Safe := by
  unfold SharedBuffer.flushInternalBuffer
  split
  · exact h.suspend call rfl (by simp [himpl])
  · exact h.afterFlush call _ next

theorem Safe.bufferedWrite (h : b.Safe) (call : Nat) (out : List UInt8) :
    (b.bufferedWrite options call out).Safe := by
  unfold SharedBuffer.bufferedWrite
  split
  · next hopen =>
    refine Safe.withImpl (h.impl_of_open hopen) call fun impl himpl => ?_
    split
    · split
      · exact h.flushInternalBuffer call himpl _ _ _
      · exact h.afterFlush call impl _
    · exact h.ret call fun _ => rfl
  · exact h.ret call fun _ => rfl

theorem Safe.flushBuffer (h : b.Safe) (call : Nat) : (b.flushBuffer options call).Safe := by
  unfold SharedBuffer.flushBuffer
  split
  · next hopen =>
    refine Safe.withImpl (h.impl_of_open hopen) call fun impl himpl => ?_
    split
    · split
      · exact h.flushInternalBuffer call himpl _ _ _
      · exact h.afterFlush call impl _
    · exact h.ret call fun _ => rfl
  · exact h.ret call fun _ => rfl

theorem Safe.destroyFlush (h : b.Safe) (call : Nat) (hclosed : b.isOpen = false)
    (himpl : b.impl ≠ none)
    (honly : ∀ call' g, b.frames call' = some g → g.destroys = true → call' = call)
    (hunused : options.flushFn = false → ∀ call f, b.frames call = some f → f.uses = false) :
    (b.destroyFlush options call).Safe := by
  unfold SharedBuffer.destroyFlush
  split
  · exact h.suspendDestroy call hclosed himpl honly
  · next hflush => exact h.free call hclosed honly (hunused (by simpa using hflush))

theorem Safe.destroyBuffer (h : b.Safe) (call : Nat)
    (hq : FreesUnused options b (.destroyBuffer call)) :
    (b.destroyBuffer options call).Safe := by
  unfold SharedBuffer.destroyBuffer
  split
  · next hopen =>
    have hnone : b.impl ≠ none := h.impl_of_open hopen
    -- The handle was open, so this is the only call that destroys.
    have honly : ∀ call' g, b.frames call' = some g → g.destroys = true → call' = call :=
      fun call' g hg hd => absurd (h.destroys call' g hg hd).1 (by simp [hopen])
    have hclose : Safe { b with isOpen := false } :=
      { h with
        closed := fun _ => rfl
        destroys := fun call f hf hd => ⟨rfl, (h.destroys call f hf hd).2⟩ }
    refine Safe.withImpl hnone call fun impl himpl => ?_
    dsimp only
    split
    · split
      · exact hclose.suspendDestroy call rfl hnone honly
      · next hwrite =>
        exact hclose.destroyFlush call rfl hnone honly fun hflush =>
          hq ⟨hopen, impl, himpl, .inr ⟨by simpa using hwrite, hflush⟩⟩
    · next hoffset =>
      exact hclose.free call rfl honly (hq ⟨hopen, impl, himpl, .inl (by omega)⟩)
  · exact h

theorem Safe.resumeRead (h : b.Safe) (call : Nat) (bytes : List UInt8) :
    (b.resumeRead call bytes).Safe := by
  unfold SharedBuffer.resumeRead
  split
  · next size hf =>
    split
    · exact h.ret call fun _ => rfl
    · exact Safe.withImpl (h.uses call _ hf rfl) call fun impl _ => h.copyOut call _ size
  · exact h

theorem Safe.resumeWrite (h : b.Safe) (call bytesWritten : Nat)
    (hq : FreesUnused options b (.writeFn call bytesWritten))
    (hlate : b.impl = none → bytesWritten = 0) :
    (b.resumeWrite options call bytesWritten).Safe := by
  unfold SharedBuffer.resumeWrite
  split
  · next total left next hf =>
    split
    · refine h.ret call fun _ => ?_
      cases next <;> rfl
    · exact Safe.withImpl (h.uses call _ hf rfl) call fun impl himpl =>
        h.flushInternalBuffer call himpl _ _ next
  · exact h.ret call fun hnone => beq_iff_eq.mpr (hlate hnone)
  · next n hf =>
    obtain ⟨hclosed, himpl⟩ := h.destroys call _ hf rfl
    refine Safe.withImpl himpl call fun impl _ => ?_
    exact h.destroyFlush call hclosed himpl (fun call' g hg hd => h.once call' call g _ hg hf hd rfl)
      fun hflush => hq ⟨⟨n, hf⟩, hflush⟩
  · exact h

theorem Safe.resumeFlush (h : b.Safe) (call : Nat) (done : Bool)
    (hq : FreesUnused options b (.flushFn call done)) (hlate : b.impl = none → done = false) :
    (b.resumeFlush call done).Safe := by
  unfold SharedBuffer.resumeFlush
  split
  · refine h.ret call fun hnone => ?_
    rw [hlate hnone]
    rfl
  · next hf =>
    obtain ⟨hclosed, himpl⟩ := h.destroys call _ hf rfl
    refine Safe.withImpl himpl call fun impl _ => ?_
    exact h.free call hclosed (fun call' g hg hd => h.once call' call g _ hg hf hd rfl) (hq hf)
  · exact h

/-- The step lemma. -/
theorem Safe.step (h : b.Safe) {a : SharedAction} (hq : FreesUnused options b a)
    (hlate : LateFails b a) : ((machine options).perform b a).Safe := by
  cases a with
  | bufferedRead call size => exact h.bufferedRead call size
  | bufferedWrite call out => exact h.bufferedWrite call out
  | flushBuffer call => exact h.flushBuffer call
  | destroyBuffer call => exact h.destroyBuffer call hq
  | readFn call bytes => exact h.resumeRead call bytes
  | writeFn call bytesWritten => exact h.resumeWrite call bytesWritten hq hlate
  | flushFn call done => exact h.resumeFlush call done hq hlate

/-- When a buffer is freed only while no call is in the `read_fn` of a refill or in the `write_fn` of
the flush loop, and the other callbacks fail once the buffer is gone, no call ever uses the object
after it was freed, and every call that returns after that fails. -/
theorem buffer_unused_after_destroy
    (hr : ((machine options).restrict fun b a => FreesUnused options b a ∧ LateFails b a).Reachable b) :
    b.stale = [] ∧ ∀ r ∈ b.late, r.failed = true := by
  have hsafe : b.Safe := by
    refine Machine.invariant
      (M := (machine options).restrict fun b a => FreesUnused options b a ∧ LateFails b a)
      (P := Safe) ?_ (fun _ _ _ h he => h.step he.2.1 he.2.2) hr
    rintro _ ⟨memory, _, rfl⟩
    exact ⟨rfl, nofun, nofun, nofun, nofun, nofun⟩
  exact ⟨hsafe.stale, hsafe.late⟩

/-- A write that does not fit is in `write_fn` when the buffer is destroyed, and fails. -/
theorem buffer_unused_after_destroy_direct :
    let options : SharedOptions := { readFn := false, writeFn := true, flushFn := false, size := 2 }
    let b := (machine options).run (make [0, 0]) [.bufferedWrite 0 [1, 2, 3], .destroyBuffer 1,
      .writeFn 0 0]
    b.impl = none ∧ b.late = [.written 0 none] ∧ b.stale = [] ∧ ∀ r ∈ b.late, r.failed = true := by
  intro options b
  have hunused : FreesUnused options ((make [0, 0]).bufferedWrite options 0 [1, 2, 3])
      (.destroyBuffer 1) := by
    intro _ call f hf
    have hf' : Function.update (fun _ => none) 0 (some (.directWrite [1, 2, 3])) call = some f := hf
    rw [Function.update_apply] at hf'
    split at hf'
    · cases hf'
      rfl
    · cases hf'
  have hdirect : ¬∃ n, some (BufferFrame.directWrite [1, 2, 3]) = some (.destroyWrite n) := nofun
  have hlegal : ((machine options).restrict fun b a => FreesUnused options b a ∧ LateFails b a).Legal
      (make [0, 0]) [.bufferedWrite 0 [1, 2, 3], .destroyBuffer 1, .writeFn 0 0] :=
    ⟨⟨by decide, nofun, trivial⟩, ⟨by decide, hunused, trivial⟩,
      ⟨by decide, fun hreleases => absurd hreleases.1 hdirect, fun _ => rfl⟩, trivial⟩
  have hr := Machine.Reachable.run
    (M := (machine options).restrict fun b a => FreesUnused options b a ∧ LateFails b a)
    (.init ⟨[0, 0], rfl, rfl⟩) hlegal
  exact ⟨rfl, rfl, buffer_unused_after_destroy hr⟩

/-- A read is in `read_fn` when the buffer is destroyed, and `read_fn` returns a byte after that. -/
theorem buffer_used_after_destroy :
    let options : SharedOptions := { readFn := true, writeFn := false, flushFn := false, size := 2 }
    let b := (machine options).run (make [0, 0]) [.bufferedRead 0 1, .destroyBuffer 1, .readFn 0 [7]]
    (machine options).Reachable b ∧ b.impl = none ∧ b.stale = [0] := by
  intro options b
  exact ⟨Machine.Reachable.run (.init ⟨[0, 0], rfl, rfl⟩) (by decide), rfl, rfl⟩

end Destroy

end SharedBuffer

end Bio
