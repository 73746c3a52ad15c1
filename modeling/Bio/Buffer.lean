import Bio.Lib.Machine

/-!
# Write buffers

The writing half of `src/buffering.c`. The callbacks of a buffer are parameters: a write callback
accepts some of the bytes that it is offered, and may do so as its own state decides.

* Sizes are natural numbers: no sum of an offset and a size overflows.
* `Sink.accepted` and `BufferState.reported` are ghosts: the bytes that the write callback has
  accepted, and the bytes that `bio_buffered_write` has reported as written.

Result: `buffered_stream`.
-/

namespace Bio

/-- The errors of `bio_core_error_t` that a buffer sets. -/
inductive CoreError
  | invalidArgument | notSupported
deriving DecidableEq, Repr

/-- `bio_write_fn_t`: how many of the offered bytes are accepted, zero on failure. -/
structure WriteFn (σ : Type*) where
  call : σ → List UInt8 → Nat × σ
  le_length : ∀ state bytes, (call state bytes).1 ≤ bytes.length

/-- The write callback accepts at least one byte whenever it is offered some. -/
def WriteFn.Accepts {σ : Type*} (w : WriteFn σ) : Prop :=
  ∀ state bytes, bytes ≠ [] → 0 < (w.call state bytes).1

/-- `bio_buffer_options_t` of a write buffer. -/
structure BufferOptions (σ : Type*) where
  writeFn : Option (WriteFn σ)
  flushFn : Option (σ → Bool × σ)
  size : Nat

/-- `bio_io_buffer_impl_t` of a write buffer. `data` are the `size` bytes behind it. -/
structure IoBuffer where
  offset : Nat
  data : List UInt8
deriving DecidableEq, Repr

/-- The same with `data_size`, of a read buffer as well as of a write buffer. -/
structure SharedImpl where
  offset : Nat
  dataSize : Nat
  data : List UInt8
deriving DecidableEq, Repr

/-- The context of the callbacks, and the bytes accepted so far. -/
structure Sink (σ : Type*) where
  state : σ
  accepted : List UInt8

/-- A buffer while its handle resolves, and none after that. -/
structure BufferState (σ : Type*) where
  impl : Option IoBuffer
  sink : Sink σ
  reported : List UInt8

variable {σ : Type*}

/-- A call of the write callback. -/
def Sink.write (sink : Sink σ) (w : WriteFn σ) (bytes : List UInt8) : Sink σ × Nat :=
  let (written, state) := w.call sink.state bytes
  ({ state := state, accepted := sink.accepted ++ bytes.take written }, written)

/-- `memcpy` to a position of an array. -/
def memcpy (data : List UInt8) (offset : Nat) (out : List UInt8) : List UInt8 :=
  data.take offset ++ out ++ data.drop (offset + out.length)

namespace BufferState

/-- The loop of `bio_flush_internal_buffer`. -/
def flushLoop (w : WriteFn σ) (data : List UInt8) (sink : Sink σ)
    (totalBytesWritten bytesToWrite : Nat) : Sink σ × Bool :=
  if _h : bytesToWrite = 0 then (sink, true)
  else
    let result := sink.write w ((data.drop totalBytesWritten).take bytesToWrite)
    if _hw : result.2 = 0 then (result.1, false)
    else flushLoop w data result.1 (totalBytesWritten + result.2) (bytesToWrite - result.2)
termination_by bytesToWrite
decreasing_by exact Nat.sub_lt (Nat.pos_of_ne_zero _h) (Nat.pos_of_ne_zero _hw)

/-- `bio_flush_internal_buffer`. -/
def flushInternalBuffer (w : WriteFn σ) (impl : IoBuffer) (sink : Sink σ) :
    IoBuffer × Sink σ × Bool :=
  let result := flushLoop w impl.data sink 0 impl.offset
  (if result.2 then { impl with offset := 0 } else impl, result)

/-- `bio_buffered_write` from the second comparison on: the data fits, or it is written directly. -/
def storeOrWrite (size : Nat) (w : WriteFn σ) (impl : IoBuffer) (sink : Sink σ)
    (out : List UInt8) : IoBuffer × Sink σ × Nat :=
  if impl.offset + out.length ≤ size then
    ({ offset := impl.offset + out.length, data := memcpy impl.data impl.offset out }, sink,
      out.length)
  else (impl, sink.write w out)

/-- `bio_buffered_write` on an open write buffer. -/
def writeImpl (size : Nat) (w : WriteFn σ) (impl : IoBuffer) (sink : Sink σ) (out : List UInt8) :
    IoBuffer × Sink σ × Nat :=
  if impl.offset + out.length > size then
    let (impl, sink, done) := flushInternalBuffer w impl sink
    if done then storeOrWrite size w impl sink out else (impl, sink, 0)
  else storeOrWrite size w impl sink out

/-- `bio_buffered_write`. -/
def bufferedWrite (options : BufferOptions σ) (b : BufferState σ) (out : List UInt8) :
    BufferState σ × Except CoreError Nat :=
  match b.impl with
  | some impl =>
    match options.writeFn with
    | some w =>
      let (impl, sink, written) := writeImpl options.size w impl b.sink out
      ({ impl := some impl, sink := sink, reported := b.reported ++ out.take written }, .ok written)
    | none => (b, .error .notSupported)
  | none => (b, .error .invalidArgument)

/-- The call of the flush callback. -/
def flushSink (flushFn : Option (σ → Bool × σ)) (sink : Sink σ) : Sink σ × Bool :=
  match flushFn with
  | some flush =>
    let (done, state) := flush sink.state
    ({ sink with state := state }, done)
  | none => (sink, true)

/-- `bio_flush_buffer` on an open write buffer. -/
def flushImpl (options : BufferOptions σ) (w : WriteFn σ) (impl : IoBuffer) (sink : Sink σ) :
    IoBuffer × Sink σ × Bool :=
  if impl.offset > 0 then
    let (impl, sink, done) := flushInternalBuffer w impl sink
    if done then (impl, flushSink options.flushFn sink) else (impl, sink, false)
  else (impl, flushSink options.flushFn sink)

/-- `bio_flush_buffer`. -/
def flushBuffer (options : BufferOptions σ) (b : BufferState σ) :
    BufferState σ × Except CoreError Bool :=
  match b.impl with
  | some impl =>
    match options.writeFn with
    | some w =>
      let (impl, sink, done) := flushImpl options w impl b.sink
      ({ b with impl := some impl, sink := sink }, .ok done)
    | none => (b, .error .notSupported)
  | none => (b, .error .invalidArgument)

/-- `bio_make_buffer`. The new memory holds anything. -/
def make (memory : List UInt8) (state : σ) : BufferState σ where
  impl := some { offset := 0, data := memory }
  sink := { state := state, accepted := [] }
  reported := []

end BufferState

/-- The calls on one buffer. -/
inductive BufferCall
  | write (out : List UInt8)
  | flush

namespace BufferState

/-- All sequences of calls on a new buffer. -/
def machine (options : BufferOptions σ) : Machine (BufferState σ) BufferCall where
  init := fun b => ∃ memory state, memory.length = options.size ∧ b = make memory state
  enabled := fun _ _ => True
  perform := fun b a =>
    match a with
    | .write out => (b.bufferedWrite options out).1
    | .flush => (b.flushBuffer options).1

/-! ## The stream -/

/-- What has reached the sink, followed by what the buffer holds. -/
def stream (impl : IoBuffer) (sink : Sink σ) : List UInt8 :=
  sink.accepted ++ impl.data.take impl.offset

/-- The memory behind the buffer, and the part of it that is in use. -/
structure Fits (size : Nat) (impl : IoBuffer) : Prop where
  length : impl.data.length = size
  offset : impl.offset ≤ size

variable {w : WriteFn σ} {impl : IoBuffer} {sink : Sink σ} {data out : List UInt8}

/-- The loop hands over the bytes from `total` on, in order, when it gets to the end. -/
theorem flushLoop_spec (hw : w.Accepts) (sink : Sink σ) {total count : Nat}
    (hlen : total + count ≤ data.length) :
    (flushLoop w data sink total count).2 = true ∧
    (flushLoop w data sink total count).1.accepted =
      sink.accepted ++ (data.drop total).take count := by
  induction sink, total, count using flushLoop.induct w data with
  | case1 sink total =>
    unfold flushLoop
    simp
  | case2 sink total count h result hzero =>
    have hne : (data.drop total).take count ≠ [] := by
      rw [← List.length_pos_iff, List.length_take, List.length_drop]
      omega
    exact absurd hzero (Nat.ne_of_gt (hw sink.state _ hne))
  | case3 sink total count h result hpos ih =>
    have hle : result.2 ≤ count := by
      have := w.le_length sink.state ((data.drop total).take count)
      rw [List.length_take, List.length_drop] at this
      exact Nat.le_trans this (Nat.min_le_left _ _)
    rw [flushLoop, dif_neg h, dif_neg hpos]
    obtain ⟨hdone, haccepted⟩ := ih (by omega)
    refine ⟨hdone, haccepted.trans ?_⟩
    -- What this call accepted and what the rest hands over are one piece.
    have hsplit : count = result.2 + (count - result.2) := by omega
    show sink.accepted ++ ((data.drop total).take count).take result.2 ++ _ = _
    rw [List.append_assoc, List.take_take, Nat.min_eq_left hle, ← List.drop_drop]
    conv_rhs => rw [hsplit, List.take_add]

theorem flushInternalBuffer_spec (hw : w.Accepts) (sink : Sink σ) {size : Nat}
    (hf : Fits size impl) :
    (flushInternalBuffer w impl sink).2.2 = true ∧
    (flushInternalBuffer w impl sink).1 = { impl with offset := 0 } ∧
    (flushInternalBuffer w impl sink).2.1.accepted = stream impl sink := by
  have hlen : 0 + impl.offset ≤ impl.data.length := by
    rw [hf.length, Nat.zero_add]
    exact hf.offset
  obtain ⟨hdone, haccepted⟩ := flushLoop_spec hw sink hlen
  rw [List.drop_zero] at haccepted
  exact ⟨hdone, if_pos hdone, haccepted⟩

/-- What the write callback was offered and did not accept is not in the stream. -/
theorem write_accepted (sink : Sink σ) (w : WriteFn σ) (out : List UInt8) :
    (sink.write w out).1.accepted = sink.accepted ++ out.take (sink.write w out).2 := rfl

theorem take_memcpy {offset : Nat} (hlen : offset ≤ data.length) :
    (memcpy data offset out).take (offset + out.length) = data.take offset ++ out := by
  have hcopied : (data.take offset ++ out).length = offset + out.length := by
    simp [Nat.min_eq_left hlen]
  rw [memcpy, ← hcopied, List.take_left]

theorem length_memcpy {offset : Nat} (hlen : offset + out.length ≤ data.length) :
    (memcpy data offset out).length = data.length := by
  simp only [memcpy, List.length_append, List.length_take, List.length_drop]
  omega

/-- The data goes to the end of the stream, whichever way it takes. A direct write keeps the order
only when the buffer is empty. -/
theorem storeOrWrite_spec (w : WriteFn σ) (sink : Sink σ) (out : List UInt8) {size : Nat}
    (hf : Fits size impl)
    (hempty : ¬impl.offset + out.length ≤ size → impl.offset = 0) :
    Fits size (storeOrWrite size w impl sink out).1 ∧
    stream (storeOrWrite size w impl sink out).1 (storeOrWrite size w impl sink out).2.1 =
      stream impl sink ++ out.take (storeOrWrite size w impl sink out).2.2 := by
  unfold storeOrWrite
  split
  · next hroom =>
    have hroom' : impl.offset + out.length ≤ impl.data.length := hf.length ▸ hroom
    refine ⟨⟨(length_memcpy hroom').trans hf.length, hroom⟩, ?_⟩
    simp only [stream, take_memcpy (Nat.le_trans (Nat.le_add_right _ _) hroom'), List.take_length,
      List.append_assoc]
  · next hroom =>
    refine ⟨hf, ?_⟩
    simp only [stream, hempty hroom, List.take_zero, List.append_nil]
    exact write_accepted sink w out

theorem writeImpl_spec (hw : w.Accepts) (sink : Sink σ) (out : List UInt8) {size : Nat}
    (hf : Fits size impl) :
    Fits size (writeImpl size w impl sink out).1 ∧
    stream (writeImpl size w impl sink out).1 (writeImpl size w impl sink out).2.1 =
      stream impl sink ++ out.take (writeImpl size w impl sink out).2.2 := by
  unfold writeImpl
  split
  · obtain ⟨hdone, himpl, haccepted⟩ := flushInternalBuffer_spec hw sink hf
    dsimp only
    rw [if_pos hdone, himpl]
    have hflushed : Fits size { impl with offset := 0 } := ⟨hf.length, Nat.zero_le _⟩
    obtain ⟨hfits, hstream⟩ := storeOrWrite_spec w
      (flushInternalBuffer w impl sink).2.1 out hflushed fun _ => rfl
    refine ⟨hfits, hstream.trans ?_⟩
    rw [stream, haccepted, List.take_zero, List.append_nil]
  · next hroom => exact storeOrWrite_spec w sink out hf fun hnot => absurd (Nat.not_lt.mp hroom) hnot

theorem flushSink_accepted (flushFn : Option (σ → Bool × σ)) (sink : Sink σ) :
    (flushSink flushFn sink).1.accepted = sink.accepted := by
  unfold flushSink
  split <;> rfl

theorem flushImpl_spec (hw : w.Accepts) (sink : Sink σ) {options : BufferOptions σ}
    (hf : Fits options.size impl) :
    (flushImpl options w impl sink).1 = { impl with offset := 0 } ∧
    (flushImpl options w impl sink).2.1.accepted = stream impl sink := by
  unfold flushImpl
  split
  · obtain ⟨hdone, himpl, haccepted⟩ := flushInternalBuffer_spec hw sink hf
    dsimp only
    rw [if_pos hdone, himpl]
    exact ⟨rfl, (flushSink_accepted _ _).trans haccepted⟩
  · next hzero =>
    have hoffset : impl.offset = 0 := Nat.eq_zero_of_not_pos hzero
    refine ⟨by rw [← hoffset], (flushSink_accepted _ _).trans ?_⟩
    rw [stream, hoffset, List.take_zero, List.append_nil]

/-- The buffer is open, and the stream is what was reported as written. -/
structure Inv (options : BufferOptions σ) (b : BufferState σ) (impl : IoBuffer) : Prop where
  opened : b.impl = some impl
  fits : Fits options.size impl
  stream : stream impl b.sink = b.reported

variable {options : BufferOptions σ} {b : BufferState σ}

theorem Inv.write (hi : Inv options b impl) (hwrite : options.writeFn = some w) (hw : w.Accepts)
    (out : List UInt8) : ∃ impl', Inv options (b.bufferedWrite options out).1 impl' := by
  obtain ⟨himpl, hfits, hstream⟩ := hi
  obtain ⟨hfits', hstream'⟩ := writeImpl_spec hw b.sink out hfits
  refine ⟨(writeImpl options.size w impl b.sink out).1, ?_, hfits', ?_⟩
  · rw [bufferedWrite, himpl, hwrite]
  · rw [bufferedWrite, himpl, hwrite]
    exact hstream'.trans (by rw [hstream])

theorem Inv.flush (hi : Inv options b impl) (hwrite : options.writeFn = some w) (hw : w.Accepts) :
    Inv options (b.flushBuffer options).1 { impl with offset := 0 } := by
  obtain ⟨himpl, hfits, hstream⟩ := hi
  obtain ⟨himpl', haccepted⟩ := flushImpl_spec hw b.sink hfits
  refine ⟨?_, ⟨hfits.length, Nat.zero_le _⟩, ?_⟩
  · rw [flushBuffer, himpl, hwrite]
    exact congrArg some himpl'
  · rw [flushBuffer, himpl, hwrite]
    rw [BufferState.stream, List.take_zero, List.append_nil]
    exact haccepted.trans hstream

theorem inv_of_reachable (hwrite : options.writeFn = some w) (hw : w.Accepts)
    (hr : (machine options).Reachable b) : ∃ impl, Inv options b impl := by
  refine Machine.invariant (M := machine options) (P := fun b => ∃ impl, Inv options b impl) ?_ ?_ hr
  · rintro _ ⟨memory, state, hlen, rfl⟩
    exact ⟨{ offset := 0, data := memory }, rfl, ⟨hlen, Nat.zero_le _⟩, rfl⟩
  · rintro b a _ ⟨impl, hi⟩ _
    cases a with
    | write out => exact hi.write hwrite hw out
    | flush => exact ⟨_, hi.flush hwrite hw⟩

/-- Between any two calls, the bytes that the write callback has accepted, followed by the bytes that
the buffer holds, are the bytes that were reported as written. The offset stays within the buffer, and
a flush that succeeds leaves nothing in it. -/
theorem buffered_stream (hwrite : options.writeFn = some w) (hw : w.Accepts)
    (hr : (machine options).Reachable b) :
    ∃ impl, b.impl = some impl ∧
      b.sink.accepted ++ impl.data.take impl.offset = b.reported ∧
      impl.offset ≤ options.size ∧ impl.data.length = options.size ∧
      ((b.flushBuffer options).2 = .ok true →
        ∃ impl', (b.flushBuffer options).1.impl = some impl' ∧ impl'.offset = 0) := by
  obtain ⟨impl, hi⟩ := inv_of_reachable hwrite hw hr
  exact ⟨impl, hi.opened, hi.stream, hi.fits.offset, hi.fits.length,
    fun _ => ⟨_, (hi.flush hwrite hw).opened, rfl⟩⟩

/-- A callback that accepts one byte at a time. -/
def oneByte : WriteFn Unit where
  call := fun _ bytes => (min 1 bytes.length, ())
  le_length := fun _ _ => Nat.min_le_right _ _

theorem buffered_stream_oneByte :
    let options : BufferOptions Unit := { writeFn := some oneByte, flushFn := none, size := 3 }
    let b := (machine options).run (make [0, 0, 0] ()) [.write [1, 2], .write [3, 4], .write [5, 6, 7, 8]]
    b.sink.accepted = [1, 2, 3, 4, 5] ∧ b.reported = [1, 2, 3, 4, 5] ∧
      ∃ impl, b.impl = some impl ∧ b.sink.accepted ++ impl.data.take impl.offset = b.reported := by
  intro options b
  have hr : (machine options).Reachable b :=
    Machine.Reachable.run (.init ⟨[0, 0, 0], (), rfl, rfl⟩) ⟨trivial, trivial, trivial, trivial⟩
  have haccepts : oneByte.Accepts := by
    intro _ bytes hne
    have hpos := List.length_pos_iff.mpr hne
    simp only [oneByte]
    omega
  have hwrite : options.writeFn = some oneByte := rfl
  obtain ⟨impl, himpl, hstream, _⟩ := buffered_stream hwrite haccepts hr
  exact ⟨by decide +kernel, by decide +kernel, impl, himpl, hstream⟩

end BufferState

end Bio
