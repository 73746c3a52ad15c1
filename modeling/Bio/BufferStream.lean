import Bio.BufferFlush
import Bio.BufferRead
import Mathlib.Data.List.GetD

/-!
# A stream between two buffers

A write buffer at one end of a connection and a read buffer at the other one, as
`bio_make_socket_write_buffer` and `bio_make_socket_read_buffer` of `src/buffering.c` set them up, with
`bio_buffered_write_exactly` and `bio_buffered_read_exactly` of `include/bio/buffering.h`.

* The connection keeps the order of the bytes. The writer's callback accepts some of the bytes that it is
  offered, and the reader's callback delivers some of those that have been accepted.
* The stream of the reader's source is set to what has been accepted before each call on its buffer. Only
  the positions below `taken + available` are ever read.

Results: `written_exactly` and `end_to_end`.
-/

namespace Bio

variable {σ τ : Type*}

namespace BufferState

/-- What `bio_buffered_write` returns: zero on an error. -/
def written : Except CoreError Nat → Nat
  | .ok count => count
  | .error _ => 0

/-- The loop of `bio_buffered_write_exactly`. -/
def writeLoop (options : BufferOptions σ) (out : List UInt8) (b : BufferState σ) (total : Nat) :
    BufferState σ × Nat :=
  if _h : total < out.length then
    let result := b.bufferedWrite options (out.drop total)
    if _hw : written result.2 = 0 then (result.1, total)
    else writeLoop options out result.1 (total + written result.2)
  else (b, total)
termination_by out.length - total
decreasing_by exact Nat.sub_lt_sub_left _h (Nat.lt_add_of_pos_right (Nat.pos_of_ne_zero _hw))

/-- `bio_buffered_write_exactly`. -/
def bufferedWriteExactly (options : BufferOptions σ) (b : BufferState σ) (out : List UInt8) :
    BufferState σ × Nat :=
  writeLoop options out b 0

end BufferState

/-- The reader's end of the connection: how many bytes have come and were not delivered. -/
structure Wire (τ : Type*) where
  available : Nat
  state : τ

/-- A callback that delivers no more than what has come. -/
def Wire.readFn (r : ReadFn τ) : ReadFn (Wire τ) where
  call := fun wire size =>
    let (count, state) := r.call wire.state size
    (min count wire.available, { available := wire.available - min count wire.available, state := state })
  le_size := fun wire size => Nat.le_trans (Nat.min_le_left _ _) (r.le_size wire.state size)

/-- The two buffers. -/
structure StreamState (σ τ : Type*) where
  writer : BufferState σ
  reader : ReadState (Wire τ)

/-- The calls at both ends. -/
inductive StreamCall
  | write (out : List UInt8)
  | writeExactly (out : List UInt8)
  | flush
  | read (size : Nat)
  | readExactly (size : Nat)

/-- The options of both buffers. -/
structure StreamOptions (σ τ : Type*) where
  writer : BufferOptions σ
  readFn : ReadFn τ
  readSize : Nat

namespace StreamState

variable (options : StreamOptions σ τ)

def readOptions (options : StreamOptions σ τ) : ReadOptions (Wire τ) where
  readFn := some (Wire.readFn options.readFn)
  size := options.readSize

/-- The connection carries what the writer's callback has accepted. -/
def transmit (s : StreamState σ τ) : StreamState σ τ :=
  { s with reader.source := { s.reader.source with
      stream := fun i => s.writer.sink.accepted.getD i 0
      state.available := s.writer.sink.accepted.length - s.reader.source.taken } }

def perform (s : StreamState σ τ) : StreamCall → StreamState σ τ
  | .write out => { s with writer := (s.writer.bufferedWrite options.writer out).1 }.transmit
  | .writeExactly out =>
    { s with writer := (s.writer.bufferedWriteExactly options.writer out).1 }.transmit
  | .flush => { s with writer := (s.writer.flushBuffer options.writer).1 }.transmit
  | .read size => { s with reader := (s.reader.bufferedRead (readOptions options) size).1 }
  | .readExactly size =>
    { s with reader := (s.reader.bufferedReadExactly (readOptions options) size).1 }

/-- All sequences of calls at the two ends of a new connection. -/
def machine : Machine (StreamState σ τ) StreamCall where
  init := fun s => ∃ writeMemory readMemory sinkState sourceState,
    writeMemory.length = options.writer.size ∧ readMemory.length = options.readSize ∧
    s = ⟨.make writeMemory sinkState, .make readMemory (fun _ => 0) ⟨0, sourceState⟩⟩
  enabled := fun _ _ => True
  perform := perform options

/-- The bytes that have been accepted and were not delivered. -/
def inFlight (s : StreamState σ τ) : List UInt8 :=
  s.writer.sink.accepted.drop s.reader.source.taken

end StreamState

/-! ## Writing exactly -/

namespace BufferState

variable {options : BufferOptions σ} {b : BufferState σ} {w : WriteFn σ} {impl : IoBuffer}
  {out : List UInt8}

/-- A write of something writes something. -/
theorem writeImpl_pos (hw : w.Accepts) (sink : Sink σ) {size : Nat} (hf : Fits size impl)
    (hout : out ≠ []) : 0 < (writeImpl size w impl sink out).2.2 := by
  have hstore : ∀ impl' : IoBuffer, ∀ sink' : Sink σ, 0 < (storeOrWrite size w impl' sink' out).2.2 := by
    intro impl' sink'
    unfold storeOrWrite
    split
    · exact List.length_pos_iff.mpr hout
    · exact hw sink'.state out hout
  unfold writeImpl
  split
  · have hdone := (flushInternalBuffer_spec hw sink hf).1
    dsimp only
    rw [if_pos hdone]
    exact hstore _ _
  · exact hstore _ _

/-- A write writes no more than it is given. -/
theorem writeImpl_le (size : Nat) (w : WriteFn σ) (impl : IoBuffer) (sink : Sink σ) (out : List UInt8) :
    (writeImpl size w impl sink out).2.2 ≤ out.length := by
  have hstore : ∀ impl' : IoBuffer, ∀ sink' : Sink σ,
      (storeOrWrite size w impl' sink' out).2.2 ≤ out.length := by
    intro impl' sink'
    unfold storeOrWrite
    split
    · exact Nat.le_refl _
    · exact w.le_length sink'.state out
  unfold writeImpl
  split
  · dsimp only
    split
    · exact hstore _ _
    · exact Nat.zero_le _
  · exact hstore _ _

/-- What a call on an open buffer reports. -/
theorem bufferedWrite_reported (hi : Inv options b impl) (hwrite : options.writeFn = some w)
    (out : List UInt8) :
    (b.bufferedWrite options out).1.reported =
      b.reported ++ out.take (written (b.bufferedWrite options out).2) ∧
    written (b.bufferedWrite options out).2 = (writeImpl options.size w impl b.sink out).2.2 := by
  rw [bufferedWrite, hi.opened, hwrite]
  exact ⟨rfl, rfl⟩

/-- The loop reports all that is left, in order. -/
theorem writeLoop_spec (hi : ∃ impl, Inv options b impl) (hwrite : options.writeFn = some w)
    (hw : w.Accepts) {total : Nat} (hle : total ≤ out.length) :
    (∃ impl, Inv options (writeLoop options out b total).1 impl) ∧
    (writeLoop options out b total).1.reported = b.reported ++ out.drop total ∧
    (writeLoop options out b total).2 = out.length := by
  induction b, total using writeLoop.induct options out with
  | case1 b total hlt result hzero =>
    -- A call on an open buffer does not return zero.
    obtain ⟨impl, hi⟩ := hi
    have hne : out.drop total ≠ [] := by simpa using hlt
    have hpos := writeImpl_pos hw b.sink hi.fits hne
    rw [← (bufferedWrite_reported hi hwrite (out.drop total)).2] at hpos
    exact absurd hzero (Nat.ne_of_gt hpos)
  | case2 b total hlt result hpos ih =>
    obtain ⟨impl, hi⟩ := hi
    obtain ⟨hreported, hcount⟩ := bufferedWrite_reported hi hwrite (out.drop total)
    have hlength : written result.2 ≤ (out.drop total).length := by
      rw [show written result.2 = _ from hcount]
      exact writeImpl_le _ _ _ _ _
    rw [List.length_drop] at hlength
    obtain ⟨hopen, hrest, hall⟩ := ih (hi.write hwrite hw _) (by omega)
    rw [writeLoop, dif_pos hlt, dif_neg hpos]
    refine ⟨hopen, hrest.trans ?_, hall⟩
    rw [show result.1.reported = _ from hreported, List.append_assoc, ← List.drop_drop]
    exact congrArg _ (List.take_append_drop _ _)
  | case3 b total hge =>
    rw [writeLoop, dif_neg hge]
    have heq : total = out.length := Nat.le_antisymm hle (Nat.not_lt.mp hge)
    exact ⟨hi, by simp [heq], heq⟩

/-- What every call of `bio_buffered_write` keeps, the loop keeps. -/
theorem writeLoop_invariant {P : BufferState σ → Prop}
    (step : ∀ b out, P b → P (b.bufferedWrite options out).1) {total : Nat} (h : P b) :
    P (writeLoop options out b total).1 := by
  induction b, total using writeLoop.induct options out with
  | case1 b total hlt result hzero =>
    rw [writeLoop, dif_pos hlt, dif_pos hzero]
    exact step b _ h
  | case2 b total hlt result hpos ih =>
    rw [writeLoop, dif_pos hlt, dif_neg hpos]
    exact ih (step b _ h)
  | case3 b total hge =>
    rw [writeLoop, dif_neg hge]
    exact h

/-- A call only adds to what was accepted. -/
theorem accepted_prefix (hi : Inv options b impl) (hwrite : options.writeFn = some w) (a : BufferCall) :
    b.sink.accepted <+: ((machine options).perform b a).sink.accepted := by
  obtain ⟨_, _, _, _, _, hstep⟩ := perform_step hwrite hi.opened hi.fits a
  obtain ⟨more, hmore⟩ := hstep.grows
  exact ⟨more, hmore.symm⟩

/-- `bio_buffered_write_exactly` writes all that it is given, whatever the size of the buffer, when the
write callback always accepts something. -/
theorem written_exactly (hwrite : options.writeFn = some w) (hw : w.Accepts)
    (hr : (machine options).Reachable b) (out : List UInt8) :
    (b.bufferedWriteExactly options out).2 = out.length ∧
    (b.bufferedWriteExactly options out).1.reported = b.reported ++ out := by
  obtain ⟨_, hreported, hall⟩ :=
    writeLoop_spec (inv_of_reachable hwrite hw hr) hwrite hw (Nat.zero_le out.length)
  exact ⟨hall, by rwa [List.drop_zero] at hreported⟩

theorem oneByte_accepts : oneByte.Accepts := by
  intro _ bytes hne
  have hpos := List.length_pos_iff.mpr hne
  simp only [oneByte]
  omega

theorem written_exactly_oneByte :
    let options : BufferOptions Unit := { writeFn := some oneByte, flushFn := none, size := 3 }
    let b := (machine options).run (make [0, 0, 0] ()) [.write [1, 2]]
    (b.bufferedWriteExactly options [3, 4, 5, 6, 7]).2 = 5 := by
  intro options b
  have hr : (machine options).Reachable b :=
    Machine.Reachable.run (.init ⟨[0, 0, 0], (), rfl, rfl⟩) ⟨trivial, trivial⟩
  exact (written_exactly rfl oneByte_accepts hr [3, 4, 5, 6, 7]).1

end BufferState

/-! ## Both ends -/

namespace Wire

variable {r : ReadFn τ} {source : Source (Wire τ)}

/-- What is read of the wire was available on it. -/
theorem read_frame (source : Source (Wire τ)) (r : ReadFn τ) (size : Nat) :
    (source.read (readFn r) size).1.stream = source.stream ∧
    (source.read (readFn r) size).1.taken + (source.read (readFn r) size).1.state.available =
      source.taken + source.state.available := by
  refine ⟨rfl, ?_⟩
  simp only [Source.read, readFn]
  omega

end Wire

namespace StreamState

variable {options : StreamOptions σ τ} {s : StreamState σ τ} {w : WriteFn σ}

/-- A call at the reader's end leaves the stream and what has come of it. -/
structure SameStream (source source' : Source (Wire τ)) : Prop where
  stream : source'.stream = source.stream
  come : source'.taken + source'.state.available = source.taken + source.state.available

theorem SameStream.refl (source : Source (Wire τ)) : SameStream source source := ⟨rfl, rfl⟩

theorem SameStream.trans {source source' source'' : Source (Wire τ)} (h : SameStream source source')
    (h' : SameStream source' source'') : SameStream source source'' :=
  ⟨h'.stream.trans h.stream, h'.come.trans h.come⟩

theorem sameStream_readImpl (size : Nat) (r : ReadFn τ) (impl : SharedImpl) (source : Source (Wire τ))
    (count : Nat) :
    SameStream source (ReadState.readImpl size (Wire.readFn r) impl source count).2.1 := by
  have hrefill : SameStream source (ReadState.refill size (Wire.readFn r) impl source).2.1 := by
    have hread : SameStream source (source.read (Wire.readFn r) size).1 :=
      ⟨(Wire.read_frame source r size).1, (Wire.read_frame source r size).2⟩
    obtain ⟨_, heq⟩ | ⟨_, _, heq⟩ | ⟨_, _, heq⟩ :=
      ReadState.refill_cases size (Wire.readFn r) impl source
    · exact heq ▸ .refl source
    · exact heq ▸ hread
    · exact heq ▸ hread
  unfold ReadState.readImpl
  dsimp only
  split <;> exact hrefill

/-- A relation of the sources that every call of `bio_buffered_read` keeps is kept by a loop of them. -/
theorem sameStream_read (b : ReadState (Wire τ)) (size : Nat) :
    SameStream b.source (b.bufferedRead (readOptions options) size).1.source := by
  unfold ReadState.bufferedRead
  split
  · exact sameStream_readImpl _ _ _ _ _
  · exact .refl _

theorem sameStream_readExactly (b : ReadState (Wire τ)) (size : Nat) :
    SameStream b.source (b.bufferedReadExactly (readOptions options) size).1.source :=
  ReadState.readLoop_invariant (P := fun b' _ => SameStream b.source b'.source)
    (fun b' _ h _ => h.trans (sameStream_read b' _)) (.refl _)

/-- The invariant. -/
structure Inv (options : StreamOptions σ τ) (s : StreamState σ τ) : Prop where
  writer : ∃ impl, BufferState.Inv options.writer s.writer impl
  reader : ∃ impl, ReadState.Inv (readOptions options) s.reader impl
  stream : ∀ i, s.reader.source.stream i = s.writer.sink.accepted.getD i 0
  come : s.reader.source.taken + s.reader.source.state.available = s.writer.sink.accepted.length

/-- What was delivered is a prefix of what was accepted. -/
theorem delivered_eq {source : Source (Wire τ)} {accepted : List UInt8}
    (hstream : ∀ i < source.taken, source.stream i = accepted.getD i 0)
    (hle : source.taken ≤ accepted.length) : source.delivered = accepted.take source.taken := by
  refine List.ext_getElem ?_ fun i h₁ h₂ => ?_
  · rw [Source.delivered, Source.length_slice, List.length_take, Nat.min_eq_left hle]
  · rw [Source.delivered, Source.length_slice] at h₁
    simp only [Source.delivered, Source.slice, List.getElem_map, List.getElem_range', Nat.zero_add,
      Nat.one_mul, List.getElem_take]
    rw [hstream i h₁, List.getD_eq_getElem _ _ (Nat.lt_of_lt_of_le h₁ hle)]

/-- A call at the writer's end, which the connection carries over. -/
theorem Inv.transmit (hi : s.Inv options) {writer : BufferState σ}
    (hwriter : ∃ impl, BufferState.Inv options.writer writer impl)
    (hgrows : s.writer.sink.accepted <+: writer.sink.accepted) :
    Inv options (StreamState.transmit { s with writer := writer }) := by
  obtain ⟨more, hmore⟩ := hgrows
  obtain ⟨impl, hreader⟩ := hi.reader
  have hle : s.reader.source.taken ≤ s.writer.sink.accepted.length := by
    rw [← hi.come]
    exact Nat.le_add_right _ _
  have hle' : s.reader.source.taken ≤ writer.sink.accepted.length := by
    rw [← hmore, List.length_append]
    exact Nat.le_trans hle (Nat.le_add_right _ _)
  have hdelivered : (StreamState.transmit { s with writer := writer }).reader.source.delivered =
      writer.sink.accepted.take s.reader.source.taken := delivered_eq (fun _ _ => rfl) hle'
  have hsame : writer.sink.accepted.take s.reader.source.taken = s.reader.source.delivered := by
    rw [delivered_eq (fun i _ => hi.stream i) hle, ← hmore, List.take_append_of_le_length hle]
  exact ⟨hwriter, ⟨impl, hreader.opened, hreader.window,
    hreader.stream.trans (hdelivered.trans hsame).symm⟩, fun _ => rfl, Nat.add_sub_of_le hle'⟩

theorem Inv.read (hi : s.Inv options) {reader : ReadState (Wire τ)}
    (hreader : ∃ impl, ReadState.Inv (readOptions options) reader impl)
    (hsame : SameStream s.reader.source reader.source) : Inv options { s with reader := reader } :=
  ⟨hi.writer, hreader, fun i => by rw [hsame.stream]; exact hi.stream i, hsame.come.trans hi.come⟩

theorem Inv.step (hi : s.Inv options) (hwrite : options.writer.writeFn = some w) (hw : w.Accepts)
    (a : StreamCall) : ((machine options).perform s a).Inv options := by
  obtain ⟨impl, hwriter⟩ := hi.writer
  obtain ⟨impl', hreader⟩ := hi.reader
  cases a with
  | write out =>
    exact hi.transmit (hwriter.write hwrite hw out)
      (BufferState.accepted_prefix hwriter hwrite (.write out))
  | writeExactly out =>
    -- Each call of the loop adds to what was accepted.
    have hgrows : (∃ impl, BufferState.Inv options.writer
          (s.writer.bufferedWriteExactly options.writer out).1 impl) ∧
        s.writer.sink.accepted <+:
          (s.writer.bufferedWriteExactly options.writer out).1.sink.accepted :=
      BufferState.writeLoop_invariant (P := fun b => (∃ impl, BufferState.Inv options.writer b impl) ∧
        s.writer.sink.accepted <+: b.sink.accepted) (fun b out ⟨⟨impl, hb⟩, hprefix⟩ =>
          ⟨hb.write hwrite hw out,
            hprefix.trans (BufferState.accepted_prefix hb hwrite (.write out))⟩)
        ⟨hi.writer, List.prefix_refl _⟩
    exact hi.transmit hgrows.1 hgrows.2
  | flush =>
    exact hi.transmit ⟨_, hwriter.flush hwrite hw⟩ (BufferState.accepted_prefix hwriter hwrite .flush)
  | read size => exact hi.read (hreader.read rfl size) (sameStream_read _ _)
  | readExactly size => exact hi.read (hreader.readExactly rfl size) (sameStream_readExactly _ _)

theorem inv_of_reachable (hwrite : options.writer.writeFn = some w) (hw : w.Accepts)
    (hr : (machine options).Reachable s) : s.Inv options := by
  refine Machine.invariant (P := Inv options) ?_ (fun _ a _ hi _ => hi.step hwrite hw a) hr
  rintro _ ⟨writeMemory, readMemory, sinkState, sourceState, hwriteLength, hreadLength, rfl⟩
  exact ⟨⟨_, rfl, ⟨hwriteLength, Nat.zero_le _⟩, rfl⟩,
    ⟨_, rfl, ⟨Nat.le_refl _, Nat.zero_le _, hreadLength⟩, rfl⟩, fun _ => rfl, rfl⟩

/-- Whatever the sizes of the buffers and however the connection cuts the stream: between any two calls,
what the reader has returned, what its buffer holds, what is on its way and what the writer's buffer holds
are together the bytes that were reported as written. So the reader gets them in order, none twice. -/
theorem end_to_end (hwrite : options.writer.writeFn = some w) (hw : w.Accepts)
    (hr : (machine options).Reachable s) :
    ∃ writeImpl readImpl, s.writer.impl = some writeImpl ∧ s.reader.impl = some readImpl ∧
      s.reader.returned ++ (readImpl.data.drop readImpl.offset).take
          (readImpl.dataSize - readImpl.offset) ++ s.inFlight ++
        writeImpl.data.take writeImpl.offset = s.writer.reported ∧
      s.reader.returned <+: s.writer.reported := by
  have hi := inv_of_reachable hwrite hw hr
  obtain ⟨impl, hwriter⟩ := hi.writer
  obtain ⟨impl', hreader⟩ := hi.reader
  have hle : s.reader.source.taken ≤ s.writer.sink.accepted.length := by
    rw [← hi.come]
    exact Nat.le_add_right _ _
  have hstream : s.reader.returned ++ ReadState.unread impl' ++ s.inFlight ++
      impl.data.take impl.offset = s.writer.reported := calc
    s.reader.returned ++ ReadState.unread impl' ++ s.inFlight ++ impl.data.take impl.offset
      = s.reader.source.delivered ++ s.inFlight ++ impl.data.take impl.offset := by
        rw [hreader.stream]
    _ = s.writer.sink.accepted ++ impl.data.take impl.offset := by
        rw [delivered_eq (fun i _ => hi.stream i) hle, inFlight, List.take_append_drop]
    _ = s.writer.reported := hwriter.stream
  refine ⟨impl, impl', hwriter.opened, hreader.opened, hstream, ?_⟩
  rw [← hstream, List.append_assoc, List.append_assoc]
  exact List.prefix_append _ _

theorem end_to_end_short :
    let options : StreamOptions Unit Nat :=
      { writer := { writeFn := some BufferState.oneByte, flushFn := none, size := 3 }
        readFn := ReadState.oneOrNone, readSize := 2 }
    let s := (machine options).run ⟨.make [0, 0, 0] (), .make [0, 0] (fun _ => 0) ⟨0, 0⟩⟩
      [.writeExactly [1, 2, 3, 4, 5], .read 2, .read 1, .flush, .readExactly 4, .write [6]]
    s.reader.returned = [1, 2] ∧ s.inFlight = [3, 4, 5] ∧ s.writer.reported = [1, 2, 3, 4, 5, 6] ∧
      s.reader.returned <+: s.writer.reported := by
  intro options s
  have hr : (machine options).Reachable s :=
    Machine.Reachable.run (.init ⟨_, _, _, _, rfl, rfl, rfl⟩) (by simp [Machine.Legal, machine])
  obtain ⟨_, _, _, _, _, hprefix⟩ := end_to_end rfl BufferState.oneByte_accepts hr
  exact ⟨by decide +kernel, by decide +kernel, by decide +kernel, hprefix⟩

end StreamState

end Bio
