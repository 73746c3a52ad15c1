import Bio.Buffer
import Mathlib.Data.List.TakeDrop

/-!
# Flushes that fail, and the last flush

A write callback may accept some of the bytes of a buffer and fail behind that. `bio_flush_buffer` and
`bio_buffered_write` then fail, and the buffer holds all of its bytes as before: those that were accepted
are written again by the next flush. `bio_destroy_buffer` has a flush of its own, which calls the callback
once.

* `Drains`: the callback takes all of the bytes, in any number of calls.
* `failed_flush_iff`: nothing is lost or repeated in a run exactly when each flush of it fails at once or
  not at all.
* `destroy_delivers_iff`: everything is delivered by the end exactly when the callback takes what is left
  in one call.
-/

namespace Bio

variable {σ : Type*}

/-- The write callback, called again with what it has not accepted, accepts all of the bytes. -/
inductive WriteFn.Drains (w : WriteFn σ) : σ → List UInt8 → Prop
  | nil {state : σ} : w.Drains state []
  | call {state : σ} {bytes : List UInt8} : bytes ≠ [] → 0 < (w.call state bytes).1 →
      w.Drains (w.call state bytes).2 (bytes.drop (w.call state bytes).1) → w.Drains state bytes

theorem WriteFn.drains_iff {w : WriteFn σ} {state : σ} {bytes : List UInt8} (hne : bytes ≠ []) :
    w.Drains state bytes ↔ 0 < (w.call state bytes).1 ∧
      w.Drains (w.call state bytes).2 (bytes.drop (w.call state bytes).1) := by
  refine ⟨fun h => ?_, fun h => .call hne h.1 h.2⟩
  cases h with
  | nil => exact absurd rfl hne
  | call _ hpos hrest => exact ⟨hpos, hrest⟩

/-- The callback accepts nothing, or it takes all of the bytes. -/
def WriteFn.AllOrNothing (w : WriteFn σ) (state : σ) (bytes : List UInt8) : Prop :=
  (w.call state bytes).1 = 0 ∨ w.Drains state bytes

namespace BufferState

/-- `bio_destroy_buffer` on an open buffer, but for `bio_free`. -/
def destroyImpl (options : BufferOptions σ) (impl : IoBuffer) (sink : Sink σ) : Sink σ :=
  if impl.offset > 0 then
    let sink := match options.writeFn with
      | some w => (sink.write w (impl.data.take impl.offset)).1
      | none => sink
    (flushSink options.flushFn sink).1
  else sink

/-- `bio_destroy_buffer`. -/
def destroyBuffer (options : BufferOptions σ) (b : BufferState σ) : BufferState σ :=
  match b.impl with
  | some impl => { b with impl := none, sink := destroyImpl options impl b.sink }
  | none => b

/-- What the buffer holds. -/
def held (b : BufferState σ) : List UInt8 :=
  match b.impl with
  | some impl => impl.data.take impl.offset
  | none => []

/-- The call fails. -/
def Fails (options : BufferOptions σ) (b : BufferState σ) : BufferCall → Prop
  | .write out => (b.bufferedWrite options out).2 = .ok 0
  | .flush => (b.flushBuffer options).2 = .ok false

/-- When the call fails, what the callback has accepted in it and what the buffer still holds is what the
buffer held before. -/
def KeepsHeld (options : BufferOptions σ) (b : BufferState σ) (a : BufferCall) : Prop :=
  Fails options b a → ∃ accepted,
    ((machine options).perform b a).sink.accepted = b.sink.accepted ++ accepted ∧
      accepted ++ ((machine options).perform b a).held = b.held

/-- The sink has received the bytes that were reported as written, but for those that the buffer holds. -/
def Delivered (b : BufferState σ) : Prop := b.sink.accepted ++ b.held = b.reported

/-- The guard: a flush gets rid of all bytes or of none. -/
def FlushOk (options : BufferOptions σ) (w : WriteFn σ) (b : BufferState σ) : BufferCall → Prop
  | .write out => ∀ impl ∈ b.impl, impl.offset + out.length > options.size →
      w.AllOrNothing b.sink.state (impl.data.take impl.offset)
  | .flush => ∀ impl ∈ b.impl, w.AllOrNothing b.sink.state (impl.data.take impl.offset)

/-! ## One flush -/

variable {w : WriteFn σ} {impl : IoBuffer} {sink : Sink σ} {data out : List UInt8} {size : Nat}

theorem slice_ne_nil {total count : Nat} (hlen : total + count ≤ data.length) (hcount : count ≠ 0) :
    (data.drop total).take count ≠ [] := by
  rw [← List.length_pos_iff, List.length_take, List.length_drop]
  omega

/-- The loop gets to its end when the callback drains the bytes, and else has handed over some of them,
none if the first call failed. -/
theorem flushLoop_cases (w : WriteFn σ) (sink : Sink σ) {total count : Nat}
    (hlen : total + count ≤ data.length) :
    (w.Drains sink.state ((data.drop total).take count) ∧
      (flushLoop w data sink total count).2 = true ∧
      (flushLoop w data sink total count).1.accepted =
        sink.accepted ++ (data.drop total).take count) ∨
    (¬w.Drains sink.state ((data.drop total).take count) ∧
      (flushLoop w data sink total count).2 = false ∧
      ∃ accepted, (flushLoop w data sink total count).1.accepted = sink.accepted ++ accepted ∧
        (accepted = [] ↔ (w.call sink.state ((data.drop total).take count)).1 = 0)) := by
  induction sink, total, count using flushLoop.induct w data with
  | case1 sink total =>
    unfold flushLoop
    exact .inl ⟨by simpa using .nil, by simp⟩
  | case2 sink total count h result hzero =>
    rw [flushLoop, dif_neg h, dif_pos hzero]
    have hnone : (w.call sink.state ((data.drop total).take count)).1 = 0 := hzero
    have hne := slice_ne_nil hlen h
    refine .inr ⟨fun hdrains => ?_, rfl, [], ?_, iff_of_true rfl hnone⟩
    · exact absurd hnone (Nat.ne_of_gt ((WriteFn.drains_iff hne).mp hdrains).1)
    · exact (write_accepted sink w _).trans (by rw [hzero, List.take_zero])
  | case3 sink total count h result hpos ih =>
    have hne := slice_ne_nil hlen h
    have hle : result.2 ≤ count := by
      have := w.le_length sink.state ((data.drop total).take count)
      rw [List.length_take, List.length_drop] at this
      exact Nat.le_trans this (Nat.min_le_left _ _)
    have hsome : (w.call sink.state ((data.drop total).take count)).1 ≠ 0 := hpos
    -- What is offered next is what this call has not accepted.
    have hrest : ((data.drop total).take count).drop result.2 =
        (data.drop (total + result.2)).take (count - result.2) := by
      rw [List.drop_take, List.drop_drop]
    have hdrains : w.Drains sink.state ((data.drop total).take count) ↔
        w.Drains result.1.state ((data.drop (total + result.2)).take (count - result.2)) := by
      rw [← hrest, WriteFn.drains_iff hne]
      exact and_iff_right (Nat.pos_of_ne_zero hsome)
    have hwritten : result.1.accepted = sink.accepted ++ ((data.drop total).take count).take result.2 :=
      write_accepted sink w _
    rw [flushLoop, dif_neg h, dif_neg hpos, hdrains]
    obtain ⟨hd, hdone, haccepted⟩ | ⟨hd, hfailed, accepted, haccepted, _⟩ := ih (by omega)
    · refine .inl ⟨hd, hdone, haccepted.trans ?_⟩
      rw [hwritten, List.append_assoc, ← hrest, List.take_append_drop]
    · refine .inr ⟨hd, hfailed, ((data.drop total).take count).take result.2 ++ accepted,
        haccepted.trans ?_, iff_of_false ?_ hsome⟩
      · rw [hwritten, List.append_assoc]
      · intro hnil
        have hzero := congrArg List.length (List.append_eq_nil_iff.mp hnil).1
        rw [List.length_take, List.length_nil] at hzero
        have := List.length_pos_iff.mpr hne
        omega

/-- A flush that empties the buffer, and one that fails with the buffer as it was. -/
theorem flushInternalBuffer_cases (w : WriteFn σ) (sink : Sink σ) (hf : Fits size impl) :
    (w.Drains sink.state (impl.data.take impl.offset) ∧
      (flushInternalBuffer w impl sink).2.2 = true ∧
      (flushInternalBuffer w impl sink).1 = { impl with offset := 0 } ∧
      (flushInternalBuffer w impl sink).2.1.accepted = stream impl sink) ∨
    (¬w.Drains sink.state (impl.data.take impl.offset) ∧
      (flushInternalBuffer w impl sink).2.2 = false ∧
      (flushInternalBuffer w impl sink).1 = impl ∧
      ∃ accepted, (flushInternalBuffer w impl sink).2.1.accepted = sink.accepted ++ accepted ∧
        (accepted = [] ↔ (w.call sink.state (impl.data.take impl.offset)).1 = 0)) := by
  have hlen : 0 + impl.offset ≤ impl.data.length := by
    rw [hf.length, Nat.zero_add]
    exact hf.offset
  have h := flushLoop_cases w sink hlen
  rw [List.drop_zero] at h
  unfold flushInternalBuffer
  dsimp only
  obtain ⟨hd, hdone, haccepted⟩ | ⟨hd, hfailed, accepted, haccepted, hnone⟩ := h
  · exact .inl ⟨hd, hdone, if_pos hdone, haccepted⟩
  · exact .inr ⟨hd, hfailed, if_neg (by rw [hfailed]; exact nofun), accepted, haccepted, hnone⟩

/-! ## One call -/

/-- What one call does to the stream: the bytes that it reports go to its end, or it fails, the buffer stays
as it is and the sink has received some of its bytes. -/
structure CallStep (guard : Prop) (size : Nat) (impl impl' : IoBuffer) (sink sink' : Sink σ)
    (reported : List UInt8) (failed : Prop) : Prop where
  fits : Fits size impl'
  grows : ∃ accepted, sink'.accepted = sink.accepted ++ accepted
  stream : guard → stream impl' sink' = stream impl sink ++ reported
  fails : ¬guard → failed ∧ reported = [] ∧ impl' = impl ∧
    ∃ accepted, accepted ≠ [] ∧ sink'.accepted = sink.accepted ++ accepted

theorem stream_emptied (hf : Fits size impl) (w : WriteFn σ)
    (hemptied : (flushInternalBuffer w impl sink).1 = { impl with offset := 0 })
    (haccepted : (flushInternalBuffer w impl sink).2.1.accepted = stream impl sink) :
    Fits size (flushInternalBuffer w impl sink).1 ∧
      stream (flushInternalBuffer w impl sink).1 (flushInternalBuffer w impl sink).2.1 =
        stream impl sink := by
  rw [hemptied]
  exact ⟨⟨hf.length, Nat.zero_le _⟩, by rw [stream, haccepted, List.take_zero, List.append_nil]⟩

theorem storeOrWrite_grows (size : Nat) (w : WriteFn σ) (impl : IoBuffer) (sink : Sink σ) (out : List UInt8) :
    ∃ accepted, (storeOrWrite size w impl sink out).2.1.accepted = sink.accepted ++ accepted := by
  unfold storeOrWrite
  split
  · exact ⟨[], (List.append_nil _).symm⟩
  · exact ⟨_, write_accepted sink w out⟩

theorem writeImpl_step (w : WriteFn σ) (sink : Sink σ) (out : List UInt8) (hf : Fits size impl) :
    CallStep (impl.offset + out.length > size → w.AllOrNothing sink.state (impl.data.take impl.offset))
      size impl (writeImpl size w impl sink out).1 sink (writeImpl size w impl sink out).2.1
      (out.take (writeImpl size w impl sink out).2.2)
      ((writeImpl size w impl sink out).2.2 = 0) := by
  unfold writeImpl
  split
  · next hfull =>
    have hcases := flushInternalBuffer_cases w sink hf
    dsimp only
    obtain ⟨hdrains, hdone, hemptied, haccepted⟩ | ⟨hd, hfailed, hsame, accepted, haccepted, hnone⟩ :=
      hcases
    · obtain ⟨hfits, hstream⟩ := stream_emptied hf w hemptied haccepted
      have hstore := storeOrWrite_spec w (flushInternalBuffer w impl sink).2.1 out hfits fun _ => by
        rw [hemptied]
      obtain ⟨more, hmore⟩ := storeOrWrite_grows size w (flushInternalBuffer w impl sink).1
        (flushInternalBuffer w impl sink).2.1 out
      rw [if_pos hdone]
      refine ⟨hstore.1, ⟨impl.data.take impl.offset ++ more, hmore.trans ?_⟩, fun _ => hstore.2.trans (by rw [hstream]),
        fun hnot => ?_⟩
      · rw [haccepted, stream, List.append_assoc]
      · exact absurd (fun _ => .inr hdrains) hnot
    · rw [if_neg (by simp [hfailed])]
      refine ⟨by rw [hsame]; exact hf, ⟨accepted, haccepted⟩, fun hok => ?_, fun hnot => ?_⟩
      · have hzero := (hok hfull).resolve_right hd
        rw [stream, hsame, haccepted, hnone.mpr hzero, List.append_nil, List.take_zero, List.append_nil]
        rfl
      · refine ⟨rfl, List.take_zero, hsame, accepted, fun hnil => hnot fun _ => ?_, haccepted⟩
        exact .inl (hnone.mp hnil)
  · next hroom =>
    have hfit : ¬impl.offset + out.length ≤ size → impl.offset = 0 :=
      fun hnot => absurd (Nat.not_lt.mp hroom) hnot
    obtain ⟨hfits, hstream⟩ := storeOrWrite_spec w sink out hf hfit
    exact ⟨hfits, storeOrWrite_grows size w impl sink out, fun _ => hstream,
      fun hnot => absurd (fun hfull => absurd hfull hroom) hnot⟩

theorem flushImpl_step {options : BufferOptions σ} (w : WriteFn σ) (sink : Sink σ)
    (hf : Fits options.size impl) :
    CallStep (w.AllOrNothing sink.state (impl.data.take impl.offset)) options.size impl
      (flushImpl options w impl sink).1 sink (flushImpl options w impl sink).2.1 []
      ((flushImpl options w impl sink).2.2 = false) := by
  unfold flushImpl
  split
  · have hcases := flushInternalBuffer_cases w sink hf
    dsimp only
    obtain ⟨hdrains, hdone, hemptied, haccepted⟩ | ⟨hd, hfailed, hsame, accepted, haccepted, hnone⟩ :=
      hcases
    · obtain ⟨hfits, hstream⟩ := stream_emptied hf w hemptied haccepted
      have hflush := flushSink_accepted options.flushFn (flushInternalBuffer w impl sink).2.1
      rw [if_pos hdone]
      refine ⟨hfits, ⟨impl.data.take impl.offset, hflush.trans haccepted⟩, fun _ => ?_, fun hnot => ?_⟩
      · rw [List.append_nil, ← hstream, stream, stream, hflush]
      · exact absurd (.inr hdrains) hnot
    · rw [if_neg (by simp [hfailed])]
      refine ⟨by rw [hsame]; exact hf, ⟨accepted, haccepted⟩, fun hok => ?_, fun hnot => ?_⟩
      · rw [stream, hsame, haccepted, hnone.mpr (hok.resolve_right hd), List.append_nil, List.append_nil]
        rfl
      · exact ⟨rfl, rfl, hsame, accepted, fun hnil => hnot (.inl (hnone.mp hnil)), haccepted⟩
  · next hzero =>
    have hflush := flushSink_accepted options.flushFn sink
    refine ⟨hf, ⟨[], hflush.trans (List.append_nil _).symm⟩, fun _ => ?_, fun hnot => ?_⟩
    · rw [List.append_nil, stream, stream, hflush]
    · rw [Nat.eq_zero_of_not_pos hzero, List.take_zero] at hnot
      exact absurd (.inr .nil) hnot

variable {options : BufferOptions σ} {b : BufferState σ}

/-- One call on an open buffer. -/
theorem perform_step (hwrite : options.writeFn = some w) (himpl : b.impl = some impl)
    (hf : Fits options.size impl) (a : BufferCall) :
    ∃ impl' reported, ((machine options).perform b a).impl = some impl' ∧
      ((machine options).perform b a).reported = b.reported ++ reported ∧
      (Fails options b a → reported = []) ∧
      CallStep (FlushOk options w b a) options.size impl impl' b.sink
        ((machine options).perform b a).sink reported (Fails options b a) := by
  cases a with
  | write out =>
    have hstep := writeImpl_step w b.sink out hf
    have hguard : FlushOk options w b (.write out) ↔ (impl.offset + out.length > options.size →
        w.AllOrNothing b.sink.state (impl.data.take impl.offset)) := by
      simp [FlushOk, himpl]
    rw [hguard]
    simp only [machine, Fails, bufferedWrite, himpl, hwrite, Except.ok.injEq]
    exact ⟨_, _, rfl, rfl, fun hzero => by rw [hzero, List.take_zero], hstep⟩
  | flush =>
    have hstep := flushImpl_step w b.sink hf
    have hguard : FlushOk options w b .flush ↔
        w.AllOrNothing b.sink.state (impl.data.take impl.offset) := by
      simp [FlushOk, himpl]
    rw [hguard]
    simp only [machine, Fails, flushBuffer, himpl, hwrite, Except.ok.injEq]
    exact ⟨_, [], rfl, (List.append_nil _).symm, fun _ => rfl, hstep⟩

theorem held_open (himpl : b.impl = some impl) : b.held = impl.data.take impl.offset := by
  rw [held, himpl]

theorem delivered_open (himpl : b.impl = some impl) :
    Delivered b ↔ stream impl b.sink = b.reported := by
  rw [Delivered, held_open himpl, stream]

/-- A failed call keeps what the buffer held exactly when it has met the guard. -/
theorem keepsHeld_iff (hwrite : options.writeFn = some w) (himpl : b.impl = some impl)
    (hf : Fits options.size impl) (a : BufferCall) :
    KeepsHeld options b a ↔ FlushOk options w b a := by
  obtain ⟨impl', reported, himpl', _, hnone, hstep⟩ := perform_step hwrite himpl hf a
  rw [KeepsHeld, held_open himpl, held_open himpl']
  refine ⟨fun hkeeps => ?_, fun hok hfails => ?_⟩
  · by_contra hnot
    obtain ⟨hfails, _, rfl, accepted, hsome, haccepted⟩ := hstep.fails hnot
    obtain ⟨accepted', haccepted', hheld⟩ := hkeeps hfails
    -- The callback has accepted bytes that the buffer still holds.
    have hsame : accepted = accepted' := List.append_cancel_left (haccepted.symm.trans haccepted')
    exact hsome (hsame ▸ List.append_left_eq_self.mp hheld)
  · obtain ⟨accepted, haccepted⟩ := hstep.grows
    have hstream := hstep.stream hok
    rw [hnone hfails, List.append_nil, stream, stream, haccepted, List.append_assoc] at hstream
    exact ⟨accepted, haccepted, List.append_cancel_left hstream⟩

/-! ## Runs -/

/-- The buffer is open, and no byte that was reported is missing: the sink and the buffer have at least as
many. -/
structure Opened (options : BufferOptions σ) (b : BufferState σ) (impl : IoBuffer) : Prop where
  opened : b.impl = some impl
  fits : Fits options.size impl
  length : b.reported.length ≤ (stream impl b.sink).length

/-- A call that breaks the guard leaves more bytes in the sink and the buffer than were reported. -/
theorem Opened.perform (ho : Opened options b impl) (hwrite : options.writeFn = some w)
    (a : BufferCall) : ∃ impl', Opened options ((machine options).perform b a) impl' ∧
      (¬FlushOk options w b a →
        ((machine options).perform b a).reported.length <
          (stream impl' ((machine options).perform b a).sink).length) := by
  obtain ⟨impl', reported, himpl', hreported, _, hstep⟩ := perform_step hwrite ho.opened ho.fits a
  have hlength := ho.length
  by_cases hok : FlushOk options w b a
  · refine ⟨impl', ⟨himpl', hstep.fits, ?_⟩, fun hnot => absurd hok hnot⟩
    rw [hreported, hstep.stream hok, List.length_append, List.length_append]
    exact Nat.add_le_add_right hlength _
  · obtain ⟨_, hnone, rfl, accepted, hsome, haccepted⟩ := hstep.fails hok
    have hmore : ((machine options).perform b a).reported.length <
        (stream impl' ((machine options).perform b a).sink).length := by
      rw [hreported, hnone, List.append_nil, stream, haccepted]
      simp only [stream, List.length_append] at hlength ⊢
      have hpos := List.length_pos_iff.mpr hsome
      omega
    exact ⟨impl', ⟨himpl', hstep.fits, Nat.le_of_lt hmore⟩, fun _ => hmore⟩

theorem opened_of_reachable (hwrite : options.writeFn = some w) (hr : (machine options).Reachable b) :
    ∃ impl, Opened options b impl := by
  refine Machine.invariant (M := machine options) (P := fun b => ∃ impl, Opened options b impl) ?_ ?_ hr
  · rintro _ ⟨memory, state, hlen, rfl⟩
    exact ⟨{ offset := 0, data := memory }, rfl, ⟨hlen, Nat.zero_le _⟩, Nat.zero_le _⟩
  · rintro b a _ ⟨impl, ho⟩ _
    obtain ⟨impl', ho', _⟩ := ho.perform hwrite a
    exact ⟨impl', ho'⟩

/-- Under the guard everything is delivered once. -/
theorem delivered_of_restrict (hwrite : options.writeFn = some w)
    (hr : ((machine options).restrict (FlushOk options w)).Reachable b) : Delivered b := by
  refine Machine.invariant (M := (machine options).restrict (FlushOk options w)) (P := Delivered)
    ?_ ?_ hr
  · rintro _ ⟨memory, state, _, rfl⟩
    rfl
  · rintro b a hr hdelivered ⟨_, hok⟩
    obtain ⟨impl, ho⟩ := opened_of_reachable hwrite hr.of_restrict
    obtain ⟨impl', reported, himpl', hreported, _, hstep⟩ := perform_step hwrite ho.opened ho.fits a
    rw [delivered_open ho.opened] at hdelivered
    refine (delivered_open himpl').mpr ?_
    show _ = ((machine options).perform b a).reported
    rw [hreported, ← hdelivered]
    exact hstep.stream hok

/-- A call after which everything is delivered once has met the guard. -/
theorem flushOk_of_delivered (hwrite : options.writeFn = some w) (hr : (machine options).Reachable b)
    (a : BufferCall) (hdelivered : Delivered ((machine options).perform b a)) :
    FlushOk options w b a := by
  obtain ⟨impl, ho⟩ := opened_of_reachable hwrite hr
  obtain ⟨impl', ho', hmore⟩ := ho.perform hwrite a
  by_contra hnot
  rw [delivered_open ho'.opened] at hdelivered
  exact absurd (congrArg List.length hdelivered) (Nat.ne_of_gt (hmore hnot))

/-- In every run of writes, flushes and retries, the bytes that the callback has accepted in a call that
fails, followed by those that the buffer then holds, are those that it held before, exactly when each
flush of the run gets rid of all bytes or of none. The same condition is the exact one for the sink to
receive every byte once. -/
theorem failed_flush_iff (hwrite : options.writeFn = some w) (hb : (machine options).init b)
    (as : List BufferCall) :
    ((∀ bs a, bs ++ [a] <+: as → KeepsHeld options ((machine options).run b bs) a) ↔
      ((machine options).restrict (FlushOk options w)).Legal b as) ∧
    ((∀ bs, bs <+: as → Delivered ((machine options).run b bs)) ↔
      ((machine options).restrict (FlushOk options w)).Legal b as) := by
  have hl : ∀ as (b : BufferState σ), (machine options).Legal b as := by
    intro as
    induction as with
    | nil => exact fun _ => trivial
    | cons a as ih => exact fun b => ⟨trivial, ih _⟩
  constructor
  · refine Machine.steps_iff hb (fun s a hr _ => ?_) (hl as b)
    obtain ⟨impl, ho⟩ := opened_of_reachable hwrite hr
    exact keepsHeld_iff hwrite ho.opened ho.fits a
  · exact Machine.always_iff (fun _ => delivered_of_restrict hwrite)
      (fun _ a hr _ => flushOk_of_delivered hwrite hr a) hb (hl as b)

/-- A callback that accepts one byte in its first call, none in its second one, and all from then on. -/
def breaksOff : WriteFn Nat where
  call := fun state bytes =>
    (if state = 0 then min 1 bytes.length else if state = 1 then 0 else bytes.length, state + 1)
  le_length := fun state bytes => by
    split
    · exact Nat.min_le_right _ _
    · split
      · exact Nat.zero_le _
      · exact Nat.le_refl _

/-- A buffer in front of that callback. -/
def smallBuffer : BufferOptions Nat := { writeFn := some breaksOff, flushFn := none, size := 4 }

/-- A flush fails at once, and the next one succeeds. -/
theorem failed_flush_iff_refused :
    let b := make [0, 0, 0, 0] 1
    let as : List BufferCall := [.write [1, 2, 3], .flush, .flush]
    (((∀ bs a, bs ++ [a] <+: as → KeepsHeld smallBuffer ((machine smallBuffer).run b bs) a) ↔
        ((machine smallBuffer).restrict (FlushOk smallBuffer breaksOff)).Legal b as) ∧
      ((∀ bs, bs <+: as → Delivered ((machine smallBuffer).run b bs)) ↔
        ((machine smallBuffer).restrict (FlushOk smallBuffer breaksOff)).Legal b as)) ∧
      ((machine smallBuffer).restrict (FlushOk smallBuffer breaksOff)).Legal b as := by
  refine ⟨failed_flush_iff rfl ⟨[0, 0, 0, 0], 1, rfl, rfl⟩ _, ⟨trivial, ?_⟩, ⟨trivial, ?_⟩,
    ⟨trivial, ?_⟩, trivial⟩
  · rintro impl ⟨⟩ hfull
    exact absurd hfull (by decide)
  · rintro impl himpl
    have hstate : ((machine smallBuffer).run (make [0, 0, 0, 0] 1) [.write [1, 2, 3]]).sink.state = 1 := by
      decide +kernel
    refine .inl ?_
    show (breaksOff.call ((machine smallBuffer).run (make [0, 0, 0, 0] 1)
      [.write [1, 2, 3]]).sink.state _).1 = 0
    rw [hstate]
    rfl
  · rintro impl himpl
    have hstate : ((machine smallBuffer).run (make [0, 0, 0, 0] 1)
        [.write [1, 2, 3], .flush]).sink.state = 2 := by
      decide +kernel
    have hheld : ((machine smallBuffer).run (make [0, 0, 0, 0] 1)
        [.write [1, 2, 3], .flush]).impl = some ⟨3, [1, 2, 3, 0]⟩ := by
      decide +kernel
    obtain rfl : impl = ⟨3, [1, 2, 3, 0]⟩ := Option.some.inj (himpl.symm.trans hheld)
    refine .inr ?_
    show breaksOff.Drains ((machine smallBuffer).run (make [0, 0, 0, 0] 1)
      [.write [1, 2, 3], .flush]).sink.state _
    rw [hstate]
    exact .call (by decide) (by decide) .nil

/-- A flush that fails behind its first byte. The next one writes that byte again. -/
theorem failed_flush_repeats :
    let b := (machine smallBuffer).run (make [0, 0, 0, 0] 0) [.write [1, 2, 3], .flush, .flush]
    ¬KeepsHeld smallBuffer ((machine smallBuffer).run (make [0, 0, 0, 0] 0) [.write [1, 2, 3]]) .flush ∧
      b.sink.accepted = [1, 1, 2, 3] ∧ b.reported = [1, 2, 3] ∧ ¬Delivered b := by
  have haccepted : ((machine smallBuffer).run (make [0, 0, 0, 0] 0)
      [.write [1, 2, 3], .flush]).sink.accepted = [1] := by decide +kernel
  have hheld : ((machine smallBuffer).run (make [0, 0, 0, 0] 0)
      [.write [1, 2, 3], .flush]).held = [1, 2, 3] := by decide +kernel
  have hall : ((machine smallBuffer).run (make [0, 0, 0, 0] 0)
      [.write [1, 2, 3], .flush, .flush]).sink.accepted = [1, 1, 2, 3] := by decide +kernel
  have hreported : ((machine smallBuffer).run (make [0, 0, 0, 0] 0)
      [.write [1, 2, 3], .flush, .flush]).reported = [1, 2, 3] := by decide +kernel
  refine ⟨fun hkeeps => ?_, hall, hreported, fun hdelivered => ?_⟩
  · obtain ⟨accepted, haccepted', hheld'⟩ := hkeeps (by unfold Fails; decide +kernel)
    obtain rfl : [1] = accepted := haccepted.symm.trans haccepted'
    exact absurd ((congrArg ([1] ++ ·) hheld).symm.trans hheld') (by decide +kernel)
  · have hlength := congrArg List.length hdelivered
    rw [List.length_append, hall, hreported] at hlength
    simp at hlength
    omega

/-! ## Destroying a buffer -/

/-- Its only call of the write callback. -/
theorem destroyImpl_accepted (hwrite : options.writeFn = some w) (impl : IoBuffer) (sink : Sink σ) :
    (destroyImpl options impl sink).accepted = sink.accepted ++
      (impl.data.take impl.offset).take (w.call sink.state (impl.data.take impl.offset)).1 := by
  unfold destroyImpl
  split
  · rw [hwrite, flushSink_accepted]
    exact write_accepted sink w _
  · next hzero => simp [Nat.eq_zero_of_not_pos hzero]

/-- When `bio_destroy_buffer` returns behind any calls, everything that was reported as written has been
delivered exactly when the buffer was empty or the callback takes in one call all that it held. -/
theorem destroy_delivers_iff (hwrite : options.writeFn = some w) (hw : w.Accepts)
    (hr : (machine options).Reachable b) :
    (b.destroyBuffer options).sink.accepted = b.reported ↔
      ∀ impl ∈ b.impl, impl.offset = 0 ∨
        (w.call b.sink.state (impl.data.take impl.offset)).1 = impl.offset := by
  obtain ⟨impl, hi⟩ := inv_of_reachable hwrite hw hr
  have hlength : (impl.data.take impl.offset).length = impl.offset := by
    rw [List.length_take, hi.fits.length]
    exact Nat.min_eq_left hi.fits.offset
  have hle := w.le_length b.sink.state (impl.data.take impl.offset)
  have hdestroy : (b.destroyBuffer options).sink = destroyImpl options impl b.sink := by
    rw [destroyBuffer, hi.opened]
  rw [hdestroy, destroyImpl_accepted hwrite, ← hi.stream, stream, List.append_cancel_left_eq,
    List.take_eq_self_iff, hlength]
  rw [hlength] at hle
  rw [hi.opened]
  constructor
  · rintro htaken _ ⟨⟩
    exact .inr (Nat.le_antisymm hle htaken)
  · intro h
    rcases h impl rfl with hzero | hall
    · exact hzero ▸ Nat.zero_le _
    · exact Nat.le_of_eq hall.symm

/-- A callback that takes two bytes at a time. -/
def twoBytes : WriteFn Unit where
  call := fun _ bytes => (min 2 bytes.length, ())
  le_length := fun _ _ => Nat.min_le_right _ _

theorem twoBytes_accepts : twoBytes.Accepts := by
  intro _ bytes hne
  have hpos := List.length_pos_iff.mpr hne
  simp only [twoBytes]
  omega

def twoByteBuffer : BufferOptions Unit := { writeFn := some twoBytes, flushFn := none, size := 4 }

/-- Two bytes are left, and the callback takes both. -/
theorem destroy_delivers_iff_two :
    let b := (machine twoByteBuffer).run (make [0, 0, 0, 0] ()) [.write [1, 2, 3], .write [4, 5]]
    ((b.destroyBuffer twoByteBuffer).sink.accepted = b.reported ↔
      ∀ impl ∈ b.impl, impl.offset = 0 ∨
        (twoBytes.call b.sink.state (impl.data.take impl.offset)).1 = impl.offset) ∧
      (b.destroyBuffer twoByteBuffer).sink.accepted = [1, 2, 3, 4, 5] := by
  intro b
  have hr : (machine twoByteBuffer).Reachable b :=
    Machine.Reachable.run (.init ⟨[0, 0, 0, 0], (), rfl, rfl⟩) ⟨trivial, trivial, trivial⟩
  exact ⟨destroy_delivers_iff rfl twoBytes_accepts hr, by decide +kernel⟩

/-- Three bytes are left, and the callback takes two of them. -/
theorem destroy_loses_rest :
    let b := (machine twoByteBuffer).run (make [0, 0, 0, 0] ()) [.write [1, 2, 3]]
    b.reported = [1, 2, 3] ∧ (b.destroyBuffer twoByteBuffer).sink.accepted = [1, 2] ∧
      (b.destroyBuffer twoByteBuffer).sink.accepted ≠ b.reported := by
  decide +kernel

end BufferState

end Bio
