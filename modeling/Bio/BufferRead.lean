import Bio.Buffer
import Mathlib.Data.List.Basic

/-!
# Read buffers

The reading half of `src/buffering.c`, and `bio_buffered_read_exactly` of `include/bio/buffering.h`. The
read callback is a parameter. It delivers the bytes of a stream in order, in chunks that its own state
decides.

* A stream has a byte at every position. At the end of a shorter one the callback returns zero.
* Sizes are natural numbers: no sum of two sizes overflows.
* `Source.calls` and `ReadState.returned` are ghosts: what each call of the read callback returned, and the
  bytes that the calls on the buffer returned.

Result: `buffered_read_stream`.
-/

namespace Bio

/-- `bio_read_fn_t`: how many bytes are delivered, zero at the end or on an error. -/
structure ReadFn (σ : Type*) where
  call : σ → Nat → Nat × σ
  le_size : ∀ state size, (call state size).1 ≤ size

/-- `bio_buffer_options_t` of a read buffer. -/
structure ReadOptions (σ : Type*) where
  readFn : Option (ReadFn σ)
  size : Nat

/-- The stream behind the read callback, with the context of the callback. `taken` bytes have been
delivered. -/
structure Source (σ : Type*) where
  stream : Nat → UInt8
  taken : Nat
  state : σ
  calls : List Nat

/-- A buffer while its handle resolves, and none after that. -/
structure ReadState (σ : Type*) where
  impl : Option SharedImpl
  source : Source σ
  returned : List UInt8

variable {σ : Type*}

namespace Source

/-- The bytes of the stream from a position on. -/
def slice (source : Source σ) (start count : Nat) : List UInt8 :=
  (List.range' start count).map source.stream

/-- The bytes that have been delivered. -/
def delivered (source : Source σ) : List UInt8 := source.slice 0 source.taken

/-- A call of the read callback. -/
def read (source : Source σ) (r : ReadFn σ) (size : Nat) : Source σ × List UInt8 :=
  let (count, state) := r.call source.state size
  ({ source with
      taken := source.taken + count, state := state, calls := source.calls ++ [count] },
    source.slice source.taken count)

end Source

namespace ReadState

/-- `bio_buffered_read` up to the refill, which may fail. -/
def refill (bufferSize : Nat) (r : ReadFn σ) (impl : SharedImpl) (source : Source σ) :
    SharedImpl × Source σ × Bool :=
  if impl.offset < impl.dataSize then (impl, source, true)
  else
    let (source, bytes) := source.read r bufferSize
    if bytes.length = 0 then (impl, source, false)
    else ({ offset := 0, dataSize := bytes.length, data := memcpy impl.data 0 bytes }, source, true)

/-- `bio_buffered_read` behind the refill. -/
def copyOut (impl : SharedImpl) (size : Nat) : SharedImpl × List UInt8 :=
  let dataAvailable := impl.dataSize - impl.offset
  let numBytesToRead := if size < dataAvailable then size else dataAvailable
  ({ impl with offset := impl.offset + numBytesToRead },
    (impl.data.drop impl.offset).take numBytesToRead)

/-- `bio_buffered_read` on an open read buffer. -/
def readImpl (bufferSize : Nat) (r : ReadFn σ) (impl : SharedImpl) (source : Source σ) (size : Nat) :
    SharedImpl × Source σ × List UInt8 :=
  let (impl, source, filled) := refill bufferSize r impl source
  if filled then
    let (impl, bytes) := copyOut impl size
    (impl, source, bytes)
  else (impl, source, [])

/-- `bio_buffered_read`, with the error that it sets itself. -/
def bufferedRead (options : ReadOptions σ) (b : ReadState σ) (size : Nat) :
    ReadState σ × List UInt8 × Option CoreError :=
  match b.impl with
  | some impl =>
    match options.readFn with
    | some r =>
      let (impl, source, bytes) := readImpl options.size r impl b.source size
      ({ impl := some impl, source := source, returned := b.returned ++ bytes }, bytes, none)
    | none => (b, [], some .notSupported)
  | none => (b, [], some .invalidArgument)

/-- The loop of `bio_buffered_read_exactly`, with the bytes that were read so far. -/
def readLoop (options : ReadOptions σ) (size : Nat) (b : ReadState σ) (total : List UInt8) :
    ReadState σ × List UInt8 :=
  if _h : total.length < size then
    let result := b.bufferedRead options (size - total.length)
    if _hr : result.2.1.length = 0 then (result.1, total)
    else readLoop options size result.1 (total ++ result.2.1)
  else (b, total)
termination_by size - total.length
decreasing_by
  rw [List.length_append]
  exact Nat.sub_lt_sub_left _h (Nat.lt_add_of_pos_right (Nat.pos_of_ne_zero _hr))

/-- `bio_buffered_read_exactly`. -/
def bufferedReadExactly (options : ReadOptions σ) (b : ReadState σ) (size : Nat) :
    ReadState σ × List UInt8 :=
  readLoop options size b []

/-- `bio_make_buffer`. The new memory holds anything. -/
def make (memory : List UInt8) (stream : Nat → UInt8) (state : σ) : ReadState σ where
  impl := some { offset := 0, dataSize := 0, data := memory }
  source := { stream := stream, taken := 0, state := state, calls := [] }
  returned := []

end ReadState

/-- The calls on one read buffer. -/
inductive ReadCall
  | read (size : Nat)
  | readExactly (size : Nat)

namespace ReadState

/-- All sequences of calls on a new buffer over any stream. -/
def machine (options : ReadOptions σ) : Machine (ReadState σ) ReadCall where
  init := fun b => ∃ memory stream state, memory.length = options.size ∧ b = make memory stream state
  enabled := fun _ _ => True
  perform := fun b a =>
    match a with
    | .read size => (b.bufferedRead options size).1
    | .readExactly size => (b.bufferedReadExactly options size).1

end ReadState

/-! ## The stream -/

namespace Source

variable {source : Source σ}

@[simp] theorem length_slice (source : Source σ) (start count : Nat) :
    (source.slice start count).length = count := by
  simp [slice]

/-- What a call delivers comes behind what was delivered before. -/
theorem delivered_read (source : Source σ) (r : ReadFn σ) (size : Nat) :
    (source.read r size).1.delivered = source.delivered ++ (source.read r size).2 := by
  simp only [read, delivered, slice]
  rw [← List.map_append, ← List.range'_append_1, Nat.zero_add]

theorem length_read_le (source : Source σ) (r : ReadFn σ) (size : Nat) :
    (source.read r size).2.length ≤ size := by
  simp only [read, length_slice]
  exact r.le_size source.state size

theorem calls_read (source : Source σ) (r : ReadFn σ) (size : Nat) :
    (source.read r size).1.calls = source.calls ++ [(source.read r size).2.length] := by
  simp only [read, length_slice]

end Source

namespace ReadState

variable {r : ReadFn σ} {impl : SharedImpl} {source : Source σ} {size bufferSize : Nat}

/-- The bytes between `offset` and `data_size`. -/
def unread (impl : SharedImpl) : List UInt8 :=
  (impl.data.drop impl.offset).take (impl.dataSize - impl.offset)

/-- The window of bytes that were not read yet lies in the memory behind the buffer. -/
structure Window (bufferSize : Nat) (impl : SharedImpl) : Prop where
  offset : impl.offset ≤ impl.dataSize
  dataSize : impl.dataSize ≤ bufferSize
  length : impl.data.length = bufferSize

theorem Window.length_unread (h : Window bufferSize impl) :
    (unread impl).length = impl.dataSize - impl.offset := by
  have hsize := h.dataSize
  rw [unread, List.length_take, List.length_drop, h.length]
  omega

/-- A refill that was not needed, one that failed and one that filled the buffer. -/
theorem refill_cases (bufferSize : Nat) (r : ReadFn σ) (impl : SharedImpl) (source : Source σ) :
    (impl.offset < impl.dataSize ∧ refill bufferSize r impl source = (impl, source, true)) ∨
    (¬impl.offset < impl.dataSize ∧ (source.read r bufferSize).2 = [] ∧
      refill bufferSize r impl source = (impl, (source.read r bufferSize).1, false)) ∨
    (¬impl.offset < impl.dataSize ∧ (source.read r bufferSize).2 ≠ [] ∧
      refill bufferSize r impl source =
        ({ offset := 0, dataSize := (source.read r bufferSize).2.length,
           data := memcpy impl.data 0 (source.read r bufferSize).2 },
          (source.read r bufferSize).1, true)) := by
  unfold refill
  split
  · next hleft => exact .inl ⟨hleft, rfl⟩
  · next hleft =>
    dsimp only
    split
    · next hzero => exact .inr (.inl ⟨hleft, List.length_eq_zero_iff.mp hzero, rfl⟩)
    · next hne =>
      exact .inr (.inr ⟨hleft, fun heq => hne (List.length_eq_zero_iff.mpr heq), rfl⟩)

/-- The bytes that a refill takes from the source are the ones that the buffer holds in addition. -/
theorem refill_spec (hw : Window bufferSize impl) (r : ReadFn σ) (source : Source σ) :
    Window bufferSize (refill bufferSize r impl source).1 ∧
    ∃ bytes, (refill bufferSize r impl source).2.1.delivered = source.delivered ++ bytes ∧
      unread (refill bufferSize r impl source).1 = unread impl ++ bytes := by
  obtain ⟨_, heq⟩ | ⟨hleft, hnone, heq⟩ | ⟨hleft, hsome, heq⟩ := refill_cases bufferSize r impl source
  · rw [heq]
    exact ⟨hw, [], by simp, by simp⟩
  · have hdelivered := source.delivered_read r bufferSize
    rw [heq]
    exact ⟨hw, [], hnone ▸ hdelivered, by simp⟩
  · have hdelivered := source.delivered_read r bufferSize
    have hle := source.length_read_le r bufferSize
    have hroom : 0 + (source.read r bufferSize).2.length ≤ impl.data.length := by
      rw [hw.length, Nat.zero_add]
      exact hle
    -- The buffer was empty.
    have hempty : unread impl = [] := by
      rw [← List.length_eq_zero_iff, hw.length_unread]
      omega
    rw [heq]
    refine ⟨⟨Nat.zero_le _, hle, (BufferState.length_memcpy hroom).trans hw.length⟩,
      (source.read r bufferSize).2, hdelivered, ?_⟩
    rw [hempty, List.nil_append, unread, List.drop_zero, Nat.sub_zero]
    have htake : (memcpy impl.data 0 (source.read r bufferSize).2).take
        (0 + (source.read r bufferSize).2.length) = _ := BufferState.take_memcpy (Nat.zero_le _)
    rwa [Nat.zero_add, List.take_zero, List.nil_append] at htake

theorem copyOut_spec (hw : Window bufferSize impl) (size : Nat) :
    Window bufferSize (copyOut impl size).1 ∧
    (copyOut impl size).2 ++ unread (copyOut impl size).1 = unread impl ∧
    (copyOut impl size).2.length = min size (impl.dataSize - impl.offset) := by
  have hmin : (if size < impl.dataSize - impl.offset then size else impl.dataSize - impl.offset) =
      min size (impl.dataSize - impl.offset) := by
    split <;> omega
  have hoffset := hw.offset
  have hsize := hw.dataSize
  simp only [copyOut, hmin]
  refine ⟨⟨by dsimp only; omega, hsize, hw.length⟩, ?_, ?_⟩
  · -- The window is cut in two.
    have hsplit : impl.dataSize - impl.offset = min size (impl.dataSize - impl.offset) +
        (impl.dataSize - (impl.offset + min size (impl.dataSize - impl.offset))) := by
      omega
    simp only [unread]
    conv_rhs => rw [hsplit, List.take_add]
    rw [List.drop_drop]
  · rw [List.length_take, List.length_drop, hw.length]
    omega

/-- What a call returns is taken from the front of what the buffer holds, after the refill. -/
theorem readImpl_spec (hw : Window bufferSize impl) (r : ReadFn σ) (source : Source σ) (size : Nat) :
    Window bufferSize (readImpl bufferSize r impl source size).1 ∧
    ∃ bytes, (readImpl bufferSize r impl source size).2.1.delivered = source.delivered ++ bytes ∧
      (readImpl bufferSize r impl source size).2.2 ++
        unread (readImpl bufferSize r impl source size).1 = unread impl ++ bytes := by
  obtain ⟨hw', bytes, hdelivered, hunread⟩ := refill_spec hw r source
  unfold readImpl
  dsimp only
  split
  · obtain ⟨hw'', hsplit, _⟩ := copyOut_spec hw' size
    exact ⟨hw'', bytes, hdelivered, hsplit.trans hunread⟩
  · exact ⟨hw', bytes, hdelivered, hunread⟩

/-- A call that asks for something and gets nothing has had a failed refill. -/
theorem readImpl_nil (hw : Window bufferSize impl) (r : ReadFn σ) (source : Source σ)
    (hsize : 0 < size) (hnil : (readImpl bufferSize r impl source size).2.2 = []) :
    (readImpl bufferSize r impl source size).2.1.calls = source.calls ++ [0] := by
  have hw' := (refill_spec hw r source).1
  obtain ⟨hleft, heq⟩ | ⟨_, hnone, heq⟩ | ⟨_, hsome, heq⟩ := refill_cases bufferSize r impl source
  · -- There was something to read.
    have hlength := (copyOut_spec hw size).2.2
    simp only [readImpl, heq, if_true] at hnil
    rw [hnil, List.length_nil] at hlength
    omega
  · simp only [readImpl, heq]
    rw [if_neg nofun, source.calls_read, hnone]
    rfl
  · have hlength := (copyOut_spec (heq ▸ hw') size).2.2
    have hpos := List.length_pos_iff.mpr hsome
    simp only [readImpl, heq, if_true] at hnil
    rw [hnil, List.length_nil] at hlength
    dsimp only at hlength
    omega

/-- A call whose refill fails leaves the buffer as it is. -/
theorem readImpl_failed (r : ReadFn σ) (source : Source σ)
    (hcalls : (readImpl bufferSize r impl source size).2.1.calls = source.calls ++ [0]) :
    (readImpl bufferSize r impl source size).1 = impl ∧
    (readImpl bufferSize r impl source size).2.2 = [] := by
  have hgrown : source.calls ≠ source.calls ++ [0] := fun h => by simpa using congrArg List.length h
  obtain ⟨_, heq⟩ | ⟨_, _, heq⟩ | ⟨_, hsome, heq⟩ := refill_cases bufferSize r impl source
  · simp only [readImpl, heq, if_true] at hcalls
    exact absurd hcalls hgrown
  · simp only [readImpl, heq]
    exact ⟨rfl, rfl⟩
  · simp only [readImpl, heq, if_true, source.calls_read] at hcalls
    exact absurd (List.length_eq_zero_iff.mp (List.singleton_inj.mp (List.append_cancel_left hcalls)))
      hsome

/-- Every call only adds to the log of the callback. -/
theorem readImpl_calls (bufferSize : Nat) (r : ReadFn σ) (impl : SharedImpl) (source : Source σ)
    (size : Nat) : source.calls <+: (readImpl bufferSize r impl source size).2.1.calls := by
  have hrefill : source.calls <+: (refill bufferSize r impl source).2.1.calls := by
    have hread : source.calls <+: (source.read r bufferSize).1.calls :=
      source.calls_read r bufferSize ▸ List.prefix_append _ _
    obtain ⟨_, heq⟩ | ⟨_, _, heq⟩ | ⟨_, _, heq⟩ := refill_cases bufferSize r impl source
    · exact heq ▸ List.prefix_refl source.calls
    · exact heq ▸ hread
    · exact heq ▸ hread
  unfold readImpl
  dsimp only
  split <;> exact hrefill

/-! ## Runs -/

variable {options : ReadOptions σ} {b : ReadState σ}

theorem bufferedRead_open (himpl : b.impl = some impl) (hread : options.readFn = some r) (size : Nat) :
    b.bufferedRead options size =
      ({ impl := some (readImpl options.size r impl b.source size).1
         source := (readImpl options.size r impl b.source size).2.1
         returned := b.returned ++ (readImpl options.size r impl b.source size).2.2 },
        (readImpl options.size r impl b.source size).2.2, none) := by
  rw [bufferedRead, himpl, hread]

/-- The buffer is open, and what was returned and what it holds is what was taken from the source. -/
structure Inv (options : ReadOptions σ) (b : ReadState σ) (impl : SharedImpl) : Prop where
  opened : b.impl = some impl
  window : Window options.size impl
  stream : b.returned ++ unread impl = b.source.delivered

theorem Inv.read (hi : Inv options b impl) (hread : options.readFn = some r) (size : Nat) :
    ∃ impl', Inv options (b.bufferedRead options size).1 impl' := by
  obtain ⟨himpl, hw, hstream⟩ := hi
  obtain ⟨hw', bytes, hdelivered, hunread⟩ := readImpl_spec hw r b.source size
  rw [bufferedRead_open himpl hread]
  refine ⟨(readImpl options.size r impl b.source size).1, rfl, hw', ?_⟩
  dsimp only
  rw [List.append_assoc, hunread, ← List.append_assoc, hstream, hdelivered]

/-- What the calls of one `bio_buffered_read_exactly` keep, one more of them keeps. -/
theorem readLoop_invariant {P : ReadState σ → List UInt8 → Prop} {size : Nat}
    (step : ∀ b total, P b total → total.length < size →
      P (b.bufferedRead options (size - total.length)).1
        (total ++ (b.bufferedRead options (size - total.length)).2.1))
    {total : List UInt8} (h : P b total) :
    P (readLoop options size b total).1 (readLoop options size b total).2 := by
  induction b, total using readLoop.induct options size with
  | case1 b total hlt result hzero =>
    rw [readLoop, dif_pos hlt, dif_pos hzero]
    have hnext := step b total h hlt
    rwa [List.length_eq_zero_iff.mp hzero, List.append_nil] at hnext
  | case2 b total hlt result hpos ih =>
    rw [readLoop, dif_pos hlt, dif_neg hpos]
    exact ih (step b total h hlt)
  | case3 b total hge =>
    rw [readLoop, dif_neg hge]
    exact h

theorem Inv.readExactly (hi : Inv options b impl) (hread : options.readFn = some r) (size : Nat) :
    ∃ impl', Inv options (b.bufferedReadExactly options size).1 impl' :=
  readLoop_invariant (P := fun b _ => ∃ impl, Inv options b impl)
    (fun _ _ ⟨_, hi⟩ _ => hi.read hread _) ⟨impl, hi⟩

theorem inv_of_reachable (hread : options.readFn = some r) (hr : (machine options).Reachable b) :
    ∃ impl, Inv options b impl := by
  refine Machine.invariant (M := machine options) (P := fun b => ∃ impl, Inv options b impl) ?_ ?_ hr
  · rintro _ ⟨memory, stream, state, hlen, rfl⟩
    exact ⟨{ offset := 0, dataSize := 0, data := memory }, rfl,
      ⟨Nat.le_refl _, Nat.zero_le _, hlen⟩, rfl⟩
  · rintro b a _ ⟨impl, hi⟩ _
    cases a with
    | read size => exact hi.read hread size
    | readExactly size => exact hi.readExactly hread size

/-- The loop returns what its calls return, at most as much as it was asked for. -/
theorem readLoop_returned (hread : options.readFn = some r) (hi : Inv options b impl) (size : Nat) :
    (b.bufferedReadExactly options size).1.returned =
      b.returned ++ (b.bufferedReadExactly options size).2 ∧
    (b.bufferedReadExactly options size).2.length ≤ size := by
  have h : (∃ impl, Inv options (b.bufferedReadExactly options size).1 impl) ∧
      (b.bufferedReadExactly options size).1.returned =
        b.returned ++ (b.bufferedReadExactly options size).2 ∧
      (b.bufferedReadExactly options size).2.length ≤ size :=
    readLoop_invariant (P := fun b' total => (∃ impl, Inv options b' impl) ∧
      b'.returned = b.returned ++ total ∧ total.length ≤ size)
      (fun b' total ⟨⟨impl', hi'⟩, hreturned, _⟩ hlt => ?_)
      ⟨⟨impl, hi⟩, (List.append_nil _).symm, Nat.zero_le _⟩
  · exact h.2
  · refine ⟨hi'.read hread _, ?_, ?_⟩
    · rw [bufferedRead_open hi'.opened hread, hreturned, List.append_assoc]
    · have hw := (refill_spec hi'.window r b'.source).1
      rw [bufferedRead_open hi'.opened hread, List.length_append, readImpl]
      dsimp only
      split
      · rw [(copyOut_spec hw _).2.2]
        omega
      · exact Nat.le_of_lt hlt

/-- The loop ends early only behind a call of the callback that returned zero. -/
theorem readLoop_short (hread : options.readFn = some r) (hi : ∃ impl, Inv options b impl) {size : Nat}
    {total : List UInt8} (hshort : (readLoop options size b total).2.length < size) :
    ∃ calls, (readLoop options size b total).1.source.calls = b.source.calls ++ calls ∧ 0 ∈ calls := by
  induction b, total using readLoop.induct options size with
  | case1 b total hlt result hzero =>
    obtain ⟨impl, hi⟩ := hi
    have hnil := List.length_eq_zero_iff.mp hzero
    rw [readLoop, dif_pos hlt, dif_pos hzero]
    dsimp only [result] at hnil ⊢
    rw [bufferedRead_open hi.opened hread] at hnil ⊢
    exact ⟨[0], readImpl_nil hi.window r b.source (Nat.sub_pos_of_lt hlt) hnil, List.mem_singleton_self 0⟩
  | case2 b total hlt result hpos ih =>
    obtain ⟨impl, hi⟩ := hi
    rw [readLoop, dif_pos hlt, dif_neg hpos] at hshort ⊢
    obtain ⟨calls, hcalls, hmem⟩ := ih (hi.read hread (size - total.length)) hshort
    have hprefix : b.source.calls <+: result.1.source.calls := by
      dsimp only [result]
      rw [bufferedRead_open hi.opened hread]
      exact readImpl_calls options.size r impl b.source _
    obtain ⟨before, hbefore⟩ := hprefix
    exact ⟨before ++ calls, by rw [hcalls, ← hbefore, List.append_assoc],
      List.mem_append_right _ hmem⟩
  | case3 b total hge =>
    rw [readLoop, dif_neg hge] at hshort
    exact absurd hshort hge

/-- Between any two calls, the bytes that were returned, followed by the bytes between `offset` and
`data_size`, are the bytes that were taken from the source, and both fields stay within the buffer. A call
whose refill fails changes nothing but the source. `bio_buffered_read_exactly` returns less than it was
asked for only behind a call of the callback that returned zero, as each call does when the buffer has no
room. -/
theorem buffered_read_stream (hread : options.readFn = some r) (hr : (machine options).Reachable b) :
    ∃ impl, b.impl = some impl ∧
      b.returned ++ (impl.data.drop impl.offset).take (impl.dataSize - impl.offset) =
        b.source.delivered ∧
      impl.offset ≤ impl.dataSize ∧ impl.dataSize ≤ options.size ∧
      impl.data.length = options.size ∧
      (∀ size, (b.bufferedRead options size).1.returned =
          b.returned ++ (b.bufferedRead options size).2.1 ∧
        ((b.bufferedRead options size).1.source.calls = b.source.calls ++ [0] →
          (b.bufferedRead options size).1.impl = b.impl ∧ (b.bufferedRead options size).2.1 = [])) ∧
      ∀ size, (b.bufferedReadExactly options size).1.returned =
          b.returned ++ (b.bufferedReadExactly options size).2 ∧
        (b.bufferedReadExactly options size).2.length ≤ size ∧
        ((b.bufferedReadExactly options size).2.length < size →
          ∃ calls, (b.bufferedReadExactly options size).1.source.calls = b.source.calls ++ calls ∧
            0 ∈ calls) := by
  obtain ⟨impl, hi⟩ := inv_of_reachable hread hr
  refine ⟨impl, hi.opened, hi.stream, hi.window.offset, hi.window.dataSize, hi.window.length,
    fun size => ?_, fun size => ?_⟩
  · rw [bufferedRead_open hi.opened hread]
    refine ⟨rfl, fun hcalls => ?_⟩
    obtain ⟨himpl, hnil⟩ := readImpl_failed r b.source hcalls
    exact ⟨(congrArg some himpl).trans hi.opened.symm, hnil⟩
  · obtain ⟨hreturned, hle⟩ := readLoop_returned hread hi size
    exact ⟨hreturned, hle, readLoop_short hread ⟨impl, hi⟩⟩

/-- A callback that delivers one byte, and none in every third call. -/
def oneOrNone : ReadFn Nat where
  call := fun state size => (if state % 3 = 2 then 0 else min 1 size, state + 1)
  le_size := fun state size => by
    split
    · exact Nat.zero_le _
    · exact Nat.min_le_right _ _

theorem buffered_read_stream_failing :
    let options : ReadOptions Nat := { readFn := some oneOrNone, size := 2 }
    let b := (machine options).run (make [0, 0] (fun i => i.toUInt8) 0) [.readExactly 4, .readExactly 2]
    b.returned = [0, 1, 2, 3] ∧ b.source.calls = [1, 1, 0, 1, 1] ∧
      ∃ impl, b.impl = some impl ∧ b.returned ++
        (impl.data.drop impl.offset).take (impl.dataSize - impl.offset) = b.source.delivered := by
  intro options b
  have hr : (machine options).Reachable b :=
    Machine.Reachable.run (.init ⟨[0, 0], _, 0, rfl, rfl⟩) ⟨trivial, trivial, trivial⟩
  obtain ⟨impl, himpl, hstream, _⟩ := buffered_read_stream (r := oneOrNone) rfl hr
  exact ⟨by decide +kernel, by decide +kernel, impl, himpl, hstream⟩

end ReadState

end Bio
