import Bio.Handle
import Bio.Buffer
import Bio.Lib.Cursor

/-!
# Files on Linux

`src/linux/file.c` from the moment at which a file is open. An operation finds the file object by its
handle, submits a request to the kernel and suspends in `bio_submit_io_req`. Other coroutines run
until the request completes, in any order. `bio_fread` and `bio_fwrite` go back to the object after
that, through the pointer that they have.

* `impls` is the part of the handle table with the tag of files, together with the memory behind it:
  `bio_fclose` closes the handle and frees the object in one go. No handle is issued twice
  (`handleTable_refines_map`).
* `FileFrame.file` stands for the pointer to the object: nothing checks that it is still there.
* The fields `stale`, `written` and `clock` are ghosts: the coroutines that used an object after it
  was freed, the writes that have returned, and the number of steps so far.

Results: `file_unused_after_close`, `writes_disjoint_iff`.
-/

namespace Bio

/-- `bio_file_impl_t`. -/
structure FileImpl where
  fd : Int
  offset : Int
  seekable : Bool
deriving DecidableEq, Repr

/-- The error that a call sets. -/
inductive FileError
  | core (error : CoreError)
  | errno (code : Int)
deriving DecidableEq, Repr

/-- `ENOTSUP`. -/
def enotsup : Int := 95

/-! The codes that `src/freebsd` uses. -/

namespace FreebsdErrno

def ebadf : Nat := 9
def ebusy : Nat := 16
def einval : Nat := 22
def ewouldblock : Nat := 35
def eopnotsupp : Nat := 45
def ecanceled : Nat := 85

end FreebsdErrno

/-- The third argument of `bio_fseek`. -/
inductive Whence
  | set | cur | fromEnd
deriving DecidableEq, Repr

/-- The requests that an operation waits for. -/
inductive FileOp
  | read | write | fsync | statx | close
deriving DecidableEq, Repr

/-- The operation uses the file object after its request has completed. -/
def FileOp.moves : FileOp → Bool
  | .read | .write => true
  | .fsync | .statx | .close => false

/-- An operation that is suspended in `bio_submit_io_req`. `result` is set when the request has
completed. -/
structure FileFrame where
  op : FileOp
  file : Handle
  offset : Int
  size : Nat
  result : Option Int
  began : Nat
deriving DecidableEq, Repr

/-- What an operation returns. -/
inductive FileReturn
  | size (n : Nat)
  | success (done : Bool)
  | offset (offset : Int)
deriving DecidableEq, Repr

/-- A write that has returned: the bytes from `offset` on that the kernel wrote, and the steps at which
it was submitted and at which it returned. -/
structure WriteRecord where
  offset : Int
  bytes : Nat
  began : Nat
  ended : Nat
deriving DecidableEq, Repr

structure FileState where
  impls : Handle → Option FileImpl
  /-- the coroutines inside an operation -/
  frames : Handle → Option FileFrame
  issued : List Handle
  stale : List Handle
  written : Handle → List WriteRecord
  clock : Nat

/-- `bio_result_to_size`. -/
def resultToSize (result : Int) : Nat × Option FileError :=
  if 0 ≤ result then (result.toNat, none) else (0, some (.errno (-result)))

/-- `bio_result_to_bool`. -/
def resultToBool (result : Int) : Bool × Option FileError :=
  if 0 ≤ result then (true, none) else (false, some (.errno (-result)))

namespace FileState

def setImpl (s : FileState) (file : Handle) (impl : FileImpl) : FileState :=
  { s with impls := Function.update s.impls file (some impl) }

def setFrame (s : FileState) (c : Handle) (f : Option FileFrame) : FileState :=
  { s with frames := Function.update s.frames c f }

/-- `bio_file_from_fd`, with the handle that the file gets. -/
def fileFromFd (s : FileState) (fd offset : Int) (seekable : Bool) (handle : Handle) : FileState :=
  { s.setImpl handle { fd := fd, offset := if seekable then offset else -1, seekable := seekable } with
    issued := handle :: s.issued }

/-- The size of a request. -/
def requestSize (size : Nat) : Nat := if size < 2 ^ 31 - 1 then size else 2 ^ 31 - 1

/-- An operation up to its suspension. It fails when the handle does not resolve. -/
def submit (s : FileState) (c file : Handle) (op : FileOp) (size : Nat) (failed : FileReturn) :
    FileState × Option (FileReturn × Option FileError) :=
  match s.impls file with
  | some impl =>
    (s.setFrame c (some ⟨op, file, impl.offset, requestSize size, none, s.clock⟩), none)
  | none => (s, some (failed, some (.core .invalidArgument)))

/-- `bio_fwrite` up to its suspension. -/
def fwrite (s : FileState) (c file : Handle) (size : Nat) :
    FileState × Option (FileReturn × Option FileError) := s.submit c file .write size (.size 0)

/-- `bio_fread` up to its suspension. -/
def fread (s : FileState) (c file : Handle) (size : Nat) :
    FileState × Option (FileReturn × Option FileError) := s.submit c file .read size (.size 0)

/-- `bio_fflush` up to its suspension. -/
def fflush (s : FileState) (c file : Handle) :
    FileState × Option (FileReturn × Option FileError) := s.submit c file .fsync 0 (.success false)

/-- `bio_fstat` up to its suspension. It returns `-1`, which is true, when the handle does not
resolve. -/
def fstat (s : FileState) (c file : Handle) :
    FileState × Option (FileReturn × Option FileError) := s.submit c file .statx 0 (.success true)

/-- `bio_fclose` up to its suspension: the object is freed before the request is submitted. -/
def fclose (s : FileState) (c file : Handle) :
    FileState × Option (FileReturn × Option FileError) :=
  match s.impls file with
  | some _ =>
    (({ s with impls := Function.update s.impls file none }).setFrame c
      (some ⟨.close, file, 0, 0, none, s.clock⟩), none)
  | none => (s, some (.success false, some (.core .invalidArgument)))

/-- `bio_fseek`. -/
def fseek (s : FileState) (file : Handle) (offset : Int) (origin : Whence) :
    FileState × FileReturn × Option FileError :=
  match s.impls file with
  | some impl =>
    if impl.seekable then
      match origin with
      | .set => (s.setImpl file { impl with offset := offset }, .success true, none)
      | .cur => (s.setImpl file { impl with offset := impl.offset + offset }, .success true, none)
      | .fromEnd => (s, .success false, some (.errno enotsup))
    else (s, .success false, some (.errno enotsup))
  | none => (s, .success false, some (.core .invalidArgument))

/-- `bio_ftell`. -/
def ftell (s : FileState) (file : Handle) : FileReturn × Option FileError :=
  match s.impls file with
  | some impl =>
    if impl.seekable then (.offset impl.offset, none) else (.offset (-1), some (.errno enotsup))
  | none => (.offset (-1), some (.core .invalidArgument))

/-- The request of a suspended operation completes. -/
def complete (s : FileState) (c : Handle) (result : Int) : FileState :=
  match s.frames c with
  | some f => s.setFrame c (some { f with result := some result })
  | none => s

/-- The last part of `bio_fread` and `bio_fwrite`: the object is read and the offset in it advanced.
The pointer may be one to an object that was freed. -/
def advance (s : FileState) (c file : Handle) (bytes : Nat) : FileState :=
  match s.impls file with
  | some impl =>
    if impl.seekable then s.setImpl file { impl with offset := impl.offset + bytes } else s
  | none => { s with stale := s.stale ++ [c] }

/-- The write has returned. -/
def record (s : FileState) (f : FileFrame) (bytes : Nat) : FileState :=
  { s with
    written := Function.update s.written f.file
      (s.written f.file ++ [⟨f.offset, bytes, f.began, s.clock⟩]) }

/-- An operation behind `bio_submit_io_req`. -/
def finish (s : FileState) (c : Handle) (f : FileFrame) (result : Int) :
    FileState × FileReturn × Option FileError :=
  match f.op with
  | .read =>
    let (bytes, error) := resultToSize result
    (s.advance c f.file bytes, .size bytes, error)
  | .write =>
    let (bytes, error) := resultToSize result
    ((s.advance c f.file bytes).record f bytes, .size bytes, error)
  | .fsync | .close =>
    let (done, error) := resultToBool result
    (s, .success done, error)
  | .statx =>
    if result = 0 then (s, .success true, none)
    else
      let (done, error) := resultToBool result
      (s, .success done, error)

/-- The coroutine goes on behind `bio_submit_io_req`, with the result of its request. -/
def resume (s : FileState) (c : Handle) : FileState :=
  match s.frames c with
  | some f =>
    match f.result with
    | some result => (s.setFrame c none |>.finish c f result).1
    | none => s
  | none => s

end FileState

inductive FileAction
  /-- `bio_fopen`, `bio_fdopen` or `bio_fs_init` has a new file -/
  | opened (fd offset : Int) (seekable : Bool) (handle : Handle)
  | fwrite (c file : Handle) (size : Nat)
  | fread (c file : Handle) (size : Nat)
  | fflush (c file : Handle)
  | fstat (c file : Handle)
  | fclose (c file : Handle)
  | fseek (c file : Handle) (offset : Int) (origin : Whence)
  | ftell (c file : Handle)
  | complete (c : Handle) (result : Int)
  | resume (c : Handle)
deriving DecidableEq, Repr

namespace FileState

def init : FileState where
  impls := fun _ => none
  frames := fun _ => none
  issued := []
  stale := []
  written := fun _ => []
  clock := 0

/-- A coroutine inside an operation does nothing else. The kernel transfers at most as many bytes as it
was asked for. -/
def enabled (s : FileState) : FileAction → Prop
  | .opened _ _ _ handle => handle ∉ s.issued
  | .fwrite c _ _ | .fread c _ _ | .fflush c _ | .fstat c _ | .fclose c _ | .fseek c _ _ _
  | .ftell c _ => s.frames c = none
  | .complete c result => ∃ f ∈ s.frames c, f.result = none ∧ result ≤ f.size
  | .resume c => ∃ f ∈ s.frames c, f.result ≠ none

/-- The effect of an action on everything but the clock. -/
def effect (s : FileState) : FileAction → FileState
  | .opened fd offset seekable handle => s.fileFromFd fd offset seekable handle
  | .fwrite c file size => (s.fwrite c file size).1
  | .fread c file size => (s.fread c file size).1
  | .fflush c file => (s.fflush c file).1
  | .fstat c file => (s.fstat c file).1
  | .fclose c file => (s.fclose c file).1
  | .fseek _ file offset origin => (s.fseek file offset origin).1
  | .ftell _ _ => s
  | .complete c result => s.complete c result
  | .resume c => s.resume c

/-- All interleavings of the operations of any number of coroutines on any number of files. -/
def machine : Machine FileState FileAction where
  init := fun s => s = init
  enabled := enabled
  perform := fun s a => { s.effect a with clock := s.clock + 1 }

instance (s : FileState) : ∀ a, Decidable (machine.enabled s a)
  | .opened _ _ _ handle => inferInstanceAs (Decidable (handle ∉ s.issued))
  | .fwrite c _ _ | .fread c _ _ | .fflush c _ | .fstat c _ | .fclose c _ | .fseek c _ _ _
  | .ftell c _ => inferInstanceAs (Decidable (s.frames c = none))
  | .complete c result =>
    inferInstanceAs (Decidable (∃ f ∈ s.frames c, f.result = none ∧ result ≤ f.size))
  | .resume c => inferInstanceAs (Decidable (∃ f ∈ s.frames c, f.result ≠ none))

/-! ## Closing a file -/

section Close

variable {s : FileState} {c file : Handle}

/-- No object was used after it was freed, and no operation is going to: the objects that the
operations in progress will go back to are there. -/
structure Safe (s : FileState) : Prop where
  stale : s.stale = []
  held : ∀ c f, s.frames c = some f → f.op.moves = true → s.impls f.file ≠ none

/-- A file is closed only while no coroutine is reading from it or writing to it. -/
def ClosesIdle (s : FileState) : FileAction → Prop
  | .fclose _ file => ∀ c f, s.frames c = some f → f.op.moves = true → f.file ≠ file
  | _ => True

theorem Safe.setImpl (h : s.Safe) (file : Handle) (impl : FileImpl) : (s.setImpl file impl).Safe := by
  refine ⟨h.stale, fun c f hf hmoves => ?_⟩
  show Function.update s.impls file (some impl) f.file ≠ none
  rw [Function.update_apply]
  split
  · nofun
  · exact h.held c f hf hmoves

theorem Safe.setFrame (h : s.Safe) (c : Handle) {new : Option FileFrame}
    (hnew : ∀ f, new = some f → f.op.moves = true → s.impls f.file ≠ none) :
    (s.setFrame c new).Safe := by
  refine ⟨h.stale, fun d f hf hmoves => ?_⟩
  have hf' : Function.update s.frames c new d = some f := hf
  rw [Function.update_apply] at hf'
  split at hf'
  · exact hnew f hf' hmoves
  · exact h.held d f hf' hmoves

theorem Safe.submit (h : s.Safe) (c file : Handle) (op : FileOp) (size : Nat) (failed : FileReturn) :
    (s.submit c file op size failed).1.Safe := by
  unfold FileState.submit
  split
  · next impl himpl =>
    refine h.setFrame c fun f hf _ => ?_
    cases hf
    simp [himpl]
  · exact h

theorem Safe.fclose (h : s.Safe) (c : Handle) (hidle : s.ClosesIdle (.fclose c file)) :
    (s.fclose c file).1.Safe := by
  unfold FileState.fclose
  split
  · have hclosed : Safe { s with impls := Function.update s.impls file none } := by
      refine ⟨h.stale, fun d f hf hmoves => ?_⟩
      show Function.update s.impls file none f.file ≠ none
      rw [Function.update_of_ne (hidle d f hf hmoves)]
      exact h.held d f hf hmoves
    refine hclosed.setFrame c fun f hf hmoves => ?_
    cases hf
    cases hmoves
  · exact h

theorem Safe.fseek (h : s.Safe) (file : Handle) (offset : Int) (origin : Whence) :
    (s.fseek file offset origin).1.Safe := by
  unfold FileState.fseek
  split
  · split
    · cases origin with
      | set => exact h.setImpl file _
      | cur => exact h.setImpl file _
      | fromEnd => exact h
    · exact h
  · exact h

theorem Safe.advance (h : s.Safe) (c : Handle) (hfile : s.impls file ≠ none) (bytes : Nat) :
    (s.advance c file bytes).Safe := by
  unfold FileState.advance
  split
  · split
    · exact h.setImpl file _
    · exact h
  · next hnone => exact absurd hnone hfile

theorem Safe.record (h : s.Safe) (f : FileFrame) (bytes : Nat) : (s.record f bytes).Safe :=
  ⟨h.stale, h.held⟩

theorem Safe.resume (h : s.Safe) (c : Handle) : (s.resume c).Safe := by
  unfold FileState.resume
  split
  · next f hf =>
    split
    · next result _ =>
      have hdone : (s.setFrame c none).Safe := h.setFrame c nofun
      unfold FileState.finish
      cases hop : f.op with
      | read => exact hdone.advance c (h.held c f hf (by rw [hop]; rfl)) _
      | write => exact (hdone.advance c (h.held c f hf (by rw [hop]; rfl)) _).record f _
      | fsync => exact hdone
      | close => exact hdone
      | statx =>
        dsimp only
        split <;> exact hdone
    · exact h
  · exact h

theorem Safe.complete (h : s.Safe) (c : Handle) (result : Int) : (s.complete c result).Safe := by
  unfold FileState.complete
  split
  · next f hf =>
    refine h.setFrame c fun g hg hmoves => ?_
    cases hg
    exact h.held c f hf hmoves
  · exact h

/-- The step lemma. -/
theorem Safe.step (h : s.Safe) {a : FileAction} (hidle : s.ClosesIdle a) :
    (machine.perform s a).Safe := by
  have heffect : (s.effect a).Safe := by
    cases a with
    | opened fd offset seekable handle =>
      have hset := h.setImpl handle ⟨fd, if seekable then offset else -1, seekable⟩
      exact ⟨hset.stale, hset.held⟩
    | fwrite c file size => exact h.submit c file .write size _
    | fread c file size => exact h.submit c file .read size _
    | fflush c file => exact h.submit c file .fsync 0 _
    | fstat c file => exact h.submit c file .statx 0 _
    | fclose c file => exact h.fclose c hidle
    | fseek c file offset origin => exact h.fseek file offset origin
    | ftell c file => exact h
    | complete c result => exact h.complete c result
    | resume c => exact h.resume c
  exact ⟨heffect.stale, heffect.held⟩

/-- When files are closed only while no coroutine is reading from them or writing to them, no operation
ever uses a file object after `bio_fclose` has freed it, and none is left that is going to. -/
theorem file_unused_after_close (hr : (machine.restrict ClosesIdle).Reachable s) :
    s.stale = [] ∧
      ∀ c f, s.frames c = some f → f.op.moves = true → s.impls f.file ≠ none := by
  have hsafe : s.Safe := by
    refine Machine.invariant (M := machine.restrict ClosesIdle) (P := Safe) ?_
      (fun _ _ _ h he => h.step he.2) hr
    rintro _ rfl
    exact ⟨rfl, nofun⟩
  exact ⟨hsafe.stale, hsafe.held⟩

/-- A coroutine writes, and the file is closed after the write has returned. Another one is still in
`bio_fflush`. -/
theorem file_unused_after_close_returned :
    let s := machine.run init [.opened 3 0 true ⟨0, 1⟩, .fflush ⟨2, 1⟩ ⟨0, 1⟩,
      .fwrite ⟨1, 1⟩ ⟨0, 1⟩ 5, .complete ⟨1, 1⟩ 5, .resume ⟨1, 1⟩, .fclose ⟨1, 1⟩ ⟨0, 1⟩,
      .complete ⟨2, 1⟩ 0, .resume ⟨2, 1⟩]
    s.impls ⟨0, 1⟩ = none ∧ s.stale = [] := by
  intro s
  have hlegal : (machine.restrict ClosesIdle).Legal init [.opened 3 0 true ⟨0, 1⟩,
      .fflush ⟨2, 1⟩ ⟨0, 1⟩, .fwrite ⟨1, 1⟩ ⟨0, 1⟩ 5, .complete ⟨1, 1⟩ 5, .resume ⟨1, 1⟩,
      .fclose ⟨1, 1⟩ ⟨0, 1⟩, .complete ⟨2, 1⟩ 0, .resume ⟨2, 1⟩] := by
    refine ⟨⟨by decide, trivial⟩, ⟨by decide, trivial⟩, ⟨by decide, trivial⟩, ⟨by decide, trivial⟩,
      ⟨by decide, trivial⟩, ⟨by decide, ?_⟩, ⟨by decide, trivial⟩, ⟨by decide, trivial⟩, trivial⟩
    -- Only the flush is in progress.
    rintro c f hf hmoves -
    have hflush : Function.update (Function.update (Function.update (Function.update init.frames
        ⟨2, 1⟩ (some ⟨.fsync, ⟨0, 1⟩, 0, 0, none, 1⟩))
        ⟨1, 1⟩ (some ⟨.write, ⟨0, 1⟩, 0, 5, none, 2⟩))
        ⟨1, 1⟩ (some ⟨.write, ⟨0, 1⟩, 0, 5, some 5, 2⟩)) ⟨1, 1⟩ none c = some f := hf
    simp only [Function.update_idem, Function.update_apply] at hflush
    split at hflush
    · cases hflush
    · split at hflush
      · cases hflush
        cases hmoves
      · cases hflush
  have hr := Machine.Reachable.run (M := machine.restrict ClosesIdle) (.init rfl) hlegal
  exact ⟨rfl, (file_unused_after_close hr).1⟩

/-- A coroutine reads, and the file is closed by another one before the read has completed. -/
theorem file_used_after_close :
    let s := machine.run init [.opened 3 0 true ⟨0, 1⟩, .fread ⟨1, 1⟩ ⟨0, 1⟩ 5,
      .fclose ⟨2, 1⟩ ⟨0, 1⟩, .complete ⟨1, 1⟩ 5, .resume ⟨1, 1⟩]
    machine.Reachable s ∧ s.impls ⟨0, 1⟩ = none ∧ s.stale = [⟨1, 1⟩] := by
  intro s
  exact ⟨Machine.Reachable.run (.init rfl) (by decide), rfl, rfl⟩

end Close

end FileState

/-! ## Concurrent writes -/

namespace WriteRecord

/-- The bytes that a write has written. -/
def range (w : WriteRecord) : Set ℤ := Set.Ico w.offset (w.offset + w.bytes)

/-- Both writes had been submitted before one of them returned. -/
def Overlap (v w : WriteRecord) : Prop := Cursor.Overlap began ended v w

/-- The bytes written by those writes that had returned at the step `n`. -/
def total (ws : List WriteRecord) (n : Nat) : Nat :=
  ((ws.filter fun w => w.ended < n).map bytes).sum

theorem total_append (ws : List WriteRecord) {w : WriteRecord} {n : Nat} (h : n ≤ w.ended) :
    total (ws ++ [w]) n = total ws n := by
  have hnot : ¬w.ended < n := Nat.not_lt.mpr h
  simp [total, hnot]

theorem total_all {ws : List WriteRecord} {n : Nat} (h : ∀ w ∈ ws, w.ended < n) :
    total ws n = (ws.map bytes).sum := by
  have hall : ws.filter (fun w => w.ended < n) = ws :=
    List.filter_eq_self.mpr fun w hw => decide_eq_true (h w hw)
  rw [total, hall]

/-- The offset of each write is where the writes that had returned before it left the cursor. -/
structure Consecutive (base : Int) (ws : List WriteRecord) : Prop where
  nodup : ws.Nodup
  begins : ∀ w ∈ ws, w.began < w.ended
  times : ∀ v ∈ ws, ∀ w ∈ ws, v.ended ≠ w.began
  offset : ∀ w ∈ ws, w.offset = base + total ws w.began

theorem Consecutive.range_eq {base : Int} {ws : List WriteRecord} (h : Consecutive base ws)
    {w : WriteRecord} (hw : w ∈ ws) :
    w.range = Cursor.range ws.toFinset began ended bytes base w := by
  have hstart : Cursor.start ws.toFinset began ended bytes w = total ws w.began := by
    rw [Cursor.start, List.filter_toFinset, List.sum_toFinset bytes (h.nodup.filter _)]
    rfl
  rw [range, Cursor.range, hstart, h.offset w hw]

/-- The ranges are disjoint exactly when no two writes that wrote something overlap. -/
theorem Consecutive.disjoint_iff {base : Int} {ws : List WriteRecord} (h : Consecutive base ws) :
    (ws.Pairwise fun v w => Disjoint v.range w.range) ↔
      ws.Pairwise fun v w => 0 < v.bytes → 0 < w.bytes → ¬v.Overlap w := by
  have hdisj : (ws.Pairwise fun v w => Disjoint v.range w.range) ↔
      ∀ v ∈ ws, ∀ w ∈ ws, v ≠ w → Disjoint v.range w.range := by
    have : Std.Symm fun v w : WriteRecord => Disjoint v.range w.range := ⟨fun _ _ h => h.symm⟩
    rw [← List.Nodup.pairwise_coe h.nodup]
    exact ⟨fun hp v hv w hw hne => hp hv hw hne, fun hp v hv w hw hne => hp v hv w hw hne⟩
  have hover : (ws.Pairwise fun v w => 0 < v.bytes → 0 < w.bytes → ¬v.Overlap w) ↔
      ∀ v ∈ ws, ∀ w ∈ ws, v ≠ w → 0 < v.bytes → 0 < w.bytes → ¬v.Overlap w := by
    have : Std.Symm fun v w : WriteRecord => 0 < v.bytes → 0 < w.bytes → ¬v.Overlap w :=
      ⟨fun _ _ h hv hw ho => h hw hv ho.symm⟩
    rw [← List.Nodup.pairwise_coe h.nodup]
    exact ⟨fun hp v hv w hw hne => hp hv hw hne, fun hp v hv w hw hne => hp v hv w hw hne⟩
  have hcursor := @Cursor.ranges_disjoint_iff _ ws.toFinset began ended bytes base
    (by simpa using h.begins) (by simpa using h.times)
  simp only [List.mem_toFinset] at hcursor
  rw [hdisj, hover]
  refine Iff.trans ?_ hcursor
  refine forall₂_congr fun v hv => forall₂_congr fun w hw => ?_
  rw [h.range_eq hv, h.range_eq hw]

end WriteRecord

namespace FileState

section Writes

variable {s t : FileState} {file : Handle} {base : Int} {old new : List WriteRecord}

/-- Of the operations that read or move the offset of the file, only writes. -/
def OnlyWrites (file : Handle) (_ : FileState) : FileAction → Prop
  | .fread _ f _ | .fclose _ f | .fseek _ f _ _ => f ≠ file
  | _ => True

/-- No coroutine is reading from the file or writing to it. -/
def Idle (s : FileState) (file : Handle) : Prop :=
  ∀ c f, s.frames c = some f → f.op.moves = true → f.file ≠ file

/-- What holds of a write that is in progress. -/
structure WriteOk (base : Int) (clock : Nat) (new : List WriteRecord) (f : FileFrame) : Prop where
  op : f.op = .write
  began : f.began < clock
  times : ∀ w ∈ new, w.ended ≠ f.began
  offset : f.offset = base + WriteRecord.total new f.began

/-- What holds during a run of writes. -/
structure Writing (t : FileState) (file : Handle) (base : Int) (old new : List WriteRecord) :
    Prop where
  issued : file ∈ t.issued
  impl : ∃ impl, t.impls file = some impl ∧ impl.seekable = true ∧
    impl.offset = base + (new.map WriteRecord.bytes).sum
  written : t.written file = old ++ new
  consecutive : WriteRecord.Consecutive base new
  ended : ∀ w ∈ new, w.ended < t.clock
  frames : ∀ c f, t.frames c = some f → f.op.moves = true → f.file = file →
    WriteOk base t.clock new f

theorem WriteOk.mono {clock clock' : Nat} {f : FileFrame} (h : WriteOk base clock new f)
    (hle : clock ≤ clock') : WriteOk base clock' new f :=
  ⟨h.op, Nat.lt_of_lt_of_le h.began hle, h.times, h.offset⟩

/-- A step that does not touch the file. It may begin another write. -/
theorem Writing.keep (h : t.Writing file base old new) {t' : FileState}
    (hissued : file ∈ t'.issued) (himpl : t'.impls file = t.impls file)
    (hwritten : t'.written file = t.written file)
    (hframes : ∀ c f, t'.frames c = some f → f.op.moves = true → f.file = file →
      t.frames c = some f ∨ WriteOk base (t.clock + 1) new f) :
    Writing { t' with clock := t.clock + 1 } file base old new := by
  refine ⟨hissued, himpl ▸ h.impl, hwritten.trans h.written, h.consecutive,
    fun w hw => Nat.lt_succ_of_lt (h.ended w hw), fun c f hf hmoves hfile => ?_⟩
  rcases hframes c f hf hmoves hfile with hold | hok
  · exact (h.frames c f hold hmoves hfile).mono (Nat.le_succ _)
  · exact hok

theorem setFrame_cases {c d : Handle} {x : Option FileFrame} {f : FileFrame}
    (hf : (t.setFrame c x).frames d = some f) : x = some f ∨ t.frames d = some f := by
  have hf' : Function.update t.frames c x d = some f := hf
  rw [Function.update_apply] at hf'
  split at hf'
  · exact .inl hf'
  · exact .inr hf'

/-- A write begins at the cursor. -/
theorem Writing.begins (h : t.Writing file base old new) {f : FileFrame} {impl : FileImpl}
    (himpl : t.impls file = some impl) (hop : f.op = .write) (hoffset : f.offset = impl.offset)
    (hbegan : f.began = t.clock) : WriteOk base (t.clock + 1) new f := by
  obtain ⟨impl', himpl', _, hcursor⟩ := h.impl
  obtain rfl := Option.some.inj (himpl.symm.trans himpl')
  refine ⟨hop, by omega, fun w hw => ?_, ?_⟩
  · have := h.ended w hw
    omega
  · rw [hoffset, hbegan, hcursor, WriteRecord.total_all h.ended]

theorem Writing.submit (h : t.Writing file base old new) (c f : Handle) {op : FileOp} (size : Nat)
    (failed : FileReturn) (hop : f = file → op.moves = true → op = .write) :
    Writing { (t.submit c f op size failed).1 with clock := t.clock + 1 } file base old new := by
  unfold FileState.submit
  split
  · next impl himpl =>
    refine h.keep h.issued rfl rfl fun d g hg hmoves hfile => ?_
    rcases setFrame_cases hg with hnew | hold
    · cases hnew
      have hfile' : f = file := hfile
      exact .inr (h.begins (hfile' ▸ himpl) (hop hfile' hmoves) rfl rfl)
    · exact .inl hold
  · exact h.keep h.issued rfl rfl fun d g hg _ _ => .inl hg

/-- The cursor moves when a write returns. -/
theorem Writing.returns (h : t.Writing file base old new) {c : Handle} {f : FileFrame}
    (hok : WriteOk base t.clock new f) (hfile : f.file = file)
    (bytes : Nat) :
    Writing { ((t.setFrame c none).advance c f.file bytes).record f bytes with
      clock := t.clock + 1 } file base old (new ++ [⟨f.offset, bytes, f.began, t.clock⟩]) := by
  subst hfile
  obtain ⟨impl, himpl, hseek, hcursor⟩ := h.impl
  have himpl' : (t.setFrame c none).impls f.file = some impl := himpl
  rw [advance, himpl']
  dsimp only
  rw [if_pos hseek]
  have hbegan := hok.began
  have hcons := h.consecutive
  have hlater : ∀ w ∈ new, w.began < t.clock := fun w hw =>
    Nat.lt_trans (hcons.begins w hw) (h.ended w hw)
  refine ⟨h.issued, ⟨{ impl with offset := impl.offset + bytes }, Function.update_self .., hseek, ?_⟩,
    ?_, ⟨?_, ?_, ?_, ?_⟩, ?_, fun d g hg hmoves hg' => ?_⟩
  · simp only [hcursor, List.map_append, List.sum_append, List.map_cons, List.map_nil,
      List.sum_cons, List.sum_nil, Nat.add_zero]
    omega
  · show Function.update t.written f.file _ f.file = _
    rw [Function.update_self, show (t.setFrame c none |>.setImpl f.file _).written f.file = _ from
      h.written, List.append_assoc]
    rfl
  · refine List.nodup_append.mpr ⟨hcons.nodup, List.nodup_singleton _, fun v hv w hw heq => ?_⟩
    have hended := h.ended v hv
    rw [heq, List.mem_singleton.mp hw] at hended
    exact Nat.lt_irrefl _ hended
  · intro w hw
    rcases List.mem_append.mp hw with hw | hw
    · exact hcons.begins w hw
    · rw [List.mem_singleton.mp hw]
      exact hbegan
  · intro v hv w hw
    rcases List.mem_append.mp hv with hv | hv <;> rcases List.mem_append.mp hw with hw | hw
    · exact hcons.times v hv w hw
    · rw [List.mem_singleton.mp hw]
      exact hok.times v hv
    · rw [List.mem_singleton.mp hv]
      exact (hlater w hw).ne'
    · rw [List.mem_singleton.mp hv, List.mem_singleton.mp hw]
      exact hbegan.ne'
  · intro w hw
    rcases List.mem_append.mp hw with hw | hw
    · rw [WriteRecord.total_append new (hlater w hw).le]
      exact hcons.offset w hw
    · rw [List.mem_singleton.mp hw, WriteRecord.total_append new hbegan.le]
      exact hok.offset
  · intro w hw
    rcases List.mem_append.mp hw with hw | hw
    · exact Nat.lt_succ_of_lt (h.ended w hw)
    · rw [List.mem_singleton.mp hw]
      exact Nat.lt_succ_self _
  · -- The other writes began before, so this one does not count for their offsets.
    rcases setFrame_cases hg with hnew | hold
    · cases hnew
    · obtain ⟨hop, hb, htimes, hoffset⟩ := h.frames d g hold hmoves hg'
      refine ⟨hop, Nat.lt_succ_of_lt hb, fun w hw => ?_, ?_⟩
      · rcases List.mem_append.mp hw with hw | hw
        · exact htimes w hw
        · rw [List.mem_singleton.mp hw]
          exact hb.ne'
      · rw [WriteRecord.total_append new hb.le]
        exact hoffset

theorem advance_frame (t : FileState) (c f : Handle) (bytes : Nat) :
    (t.advance c f bytes).frames = t.frames ∧ (t.advance c f bytes).issued = t.issued ∧
      (t.advance c f bytes).written = t.written ∧
      ∀ file, file ≠ f → (t.advance c f bytes).impls file = t.impls file := by
  unfold FileState.advance
  split
  · split
    · exact ⟨rfl, rfl, rfl, fun file hne => Function.update_of_ne hne ..⟩
    · exact ⟨rfl, rfl, rfl, fun _ _ => rfl⟩
  · exact ⟨rfl, rfl, rfl, fun _ _ => rfl⟩

/-- An operation on another file returns, or one that does not move the offset. -/
theorem Writing.finish_other (h : t.Writing file base old new) {c : Handle} {f : FileFrame}
    (hother : f.op.moves = true → file ≠ f.file) (result : Int) :
    Writing { ((t.setFrame c none).finish c f result).1 with clock := t.clock + 1 }
      file base old new := by
  have hleave : ∀ d g, (t.setFrame c none).frames d = some g → t.frames d = some g := fun d g hg =>
    (setFrame_cases hg).resolve_left nofun
  have hdone : Writing { t.setFrame c none with clock := t.clock + 1 } file base old new :=
    h.keep h.issued rfl rfl fun d g hg _ _ => .inl (hleave d g hg)
  unfold FileState.finish
  cases hop : f.op with
  | read =>
    obtain ⟨hframes, hissued, hwritten, himpls⟩ :=
      advance_frame (t.setFrame c none) c f.file (resultToSize result).1
    refine h.keep (hissued ▸ h.issued) (himpls file (hother (by rw [hop]; rfl)))
      (congrFun hwritten file) fun d g hg _ _ => .inl (hleave d g (hframes ▸ hg))
  | write =>
    obtain ⟨hframes, hissued, hwritten, himpls⟩ :=
      advance_frame (t.setFrame c none) c f.file (resultToSize result).1
    have hne := hother (by rw [hop]; rfl)
    refine h.keep (hissued ▸ h.issued) (himpls file hne) ?_
      fun d g hg _ _ => .inl (hleave d g (hframes ▸ hg))
    exact (Function.update_of_ne hne ..).trans (congrFun hwritten file)
  | fsync => exact hdone
  | close => exact hdone
  | statx =>
    dsimp only
    split <;> exact hdone

theorem Writing.resume (h : t.Writing file base old new) (c : Handle) :
    ∃ new', Writing { t.resume c with clock := t.clock + 1 } file base old new' := by
  have hsame : Writing { t with clock := t.clock + 1 } file base old new :=
    h.keep h.issued rfl rfl fun _ _ hf _ _ => .inl hf
  unfold FileState.resume
  split
  · next f hf =>
    split
    · next result _ =>
      by_cases hours : f.op.moves = true ∧ file = f.file
      · have hok := h.frames c f hf hours.1 hours.2.symm
        dsimp only
        rw [finish, hok.op]
        exact ⟨_, h.returns hok hours.2.symm _⟩
      · exact ⟨new, h.finish_other (fun hmoves hfile => hours ⟨hmoves, hfile⟩) result⟩
    · exact ⟨new, hsame⟩
  · exact ⟨new, hsame⟩

/-- The step lemma. -/
theorem Writing.step (h : t.Writing file base old new) {a : FileAction}
    (he : (machine.restrict (OnlyWrites file)).enabled t a) :
    ∃ new', Writing (machine.perform t a) file base old new' := by
  obtain ⟨hen, hq⟩ := he
  show ∃ new', Writing { t.effect a with clock := t.clock + 1 } file base old new'
  cases a with
  | opened fd offset seekable handle =>
    have hne : file ≠ handle := fun heq => hen (heq ▸ h.issued)
    exact ⟨new, h.keep (List.mem_cons_of_mem _ h.issued) (Function.update_of_ne hne ..) rfl
      fun _ _ hf _ _ => .inl hf⟩
  | fwrite c f size => exact ⟨new, h.submit c f size _ fun _ _ => rfl⟩
  | fread c f size => exact ⟨new, h.submit c f size _ fun heq _ => absurd heq hq⟩
  | fflush c f => exact ⟨new, h.submit c f 0 _ nofun⟩
  | fstat c f => exact ⟨new, h.submit c f 0 _ nofun⟩
  | fclose c f =>
    refine ⟨new, ?_⟩
    dsimp only [effect]
    unfold FileState.fclose
    split
    · refine h.keep h.issued (Function.update_of_ne (Ne.symm hq) ..) rfl fun d g hg hmoves _ => ?_
      rcases setFrame_cases hg with hnew | hold
      · cases hnew
        cases hmoves
      · exact .inl hold
    · exact h.keep h.issued rfl rfl fun _ _ hf _ _ => .inl hf
  | fseek c f offset origin =>
    have hsame : Writing { t with clock := t.clock + 1 } file base old new :=
      h.keep h.issued rfl rfl fun _ _ hf _ _ => .inl hf
    have hset : ∀ impl, Writing { t.setImpl f impl with clock := t.clock + 1 } file base old new :=
      fun impl => h.keep h.issued (Function.update_of_ne (Ne.symm hq) ..) rfl
        fun _ _ hf _ _ => .inl hf
    refine ⟨new, ?_⟩
    dsimp only [effect]
    unfold FileState.fseek
    split
    · split
      · cases origin with
        | set => exact hset _
        | cur => exact hset _
        | fromEnd => exact hsame
      · exact hsame
    · exact hsame
  | ftell c f => exact ⟨new, h.keep h.issued rfl rfl fun _ _ hf _ _ => .inl hf⟩
  | complete c result =>
    refine ⟨new, ?_⟩
    dsimp only [effect]
    unfold FileState.complete
    split
    · next f hf =>
      refine h.keep h.issued rfl rfl fun d g hg hmoves hfile => ?_
      rcases setFrame_cases hg with hnew | hold
      · cases hnew
        obtain ⟨hop, hbegan, htimes, hoffset⟩ := h.frames c f hf hmoves hfile
        exact .inr ⟨hop, Nat.lt_succ_of_lt hbegan, htimes, hoffset⟩
      · exact .inl hold
    · exact h.keep h.issued rfl rfl fun _ _ hf _ _ => .inl hf
  | resume c => exact h.resume c

/-- The handles of the open files were issued. -/
def OpenIssued (s : FileState) : Prop := ∀ file, s.impls file ≠ none → file ∈ s.issued

theorem OpenIssued.setImpl (h : s.OpenIssued) {file : Handle} (hfile : s.impls file ≠ none)
    (impl : FileImpl) : (s.setImpl file impl).OpenIssued := by
  intro f hf
  have hf' : Function.update s.impls file (some impl) f ≠ none := hf
  rw [Function.update_apply] at hf'
  split at hf'
  · next heq => exact heq ▸ h file hfile
  · exact h f hf'

theorem OpenIssued.submit (h : s.OpenIssued) (c file : Handle) (op : FileOp) (size : Nat)
    (failed : FileReturn) : (s.submit c file op size failed).1.OpenIssued := by
  unfold FileState.submit
  split <;> exact h

theorem OpenIssued.fclose (h : s.OpenIssued) (c file : Handle) : (s.fclose c file).1.OpenIssued := by
  unfold FileState.fclose
  split
  · intro f hf
    have hf' : Function.update s.impls file none f ≠ none := hf
    rw [Function.update_apply] at hf'
    split at hf'
    · exact absurd rfl hf'
    · exact h f hf'
  · exact h

theorem OpenIssued.fseek (h : s.OpenIssued) (file : Handle) (offset : Int) (origin : Whence) :
    (s.fseek file offset origin).1.OpenIssued := by
  unfold FileState.fseek
  split
  · next impl himpl =>
    have hopen : s.impls file ≠ none := by simp [himpl]
    split
    · cases origin with
      | set => exact h.setImpl hopen _
      | cur => exact h.setImpl hopen _
      | fromEnd => exact h
    · exact h
  · exact h

theorem OpenIssued.advance (h : s.OpenIssued) (c file : Handle) (bytes : Nat) :
    (s.advance c file bytes).OpenIssued := by
  unfold FileState.advance
  split
  · next impl himpl =>
    have hopen : s.impls file ≠ none := by simp [himpl]
    split
    · exact h.setImpl hopen _
    · exact h
  · exact h

theorem OpenIssued.resume (h : s.OpenIssued) (c : Handle) : (s.resume c).OpenIssued := by
  unfold FileState.resume
  split
  · next f _ =>
    split
    · next result _ =>
      have hdone : (s.setFrame c none).OpenIssued := h
      unfold FileState.finish
      cases f.op with
      | read => exact hdone.advance c f.file _
      | write => exact hdone.advance c f.file _
      | fsync => exact hdone
      | close => exact hdone
      | statx =>
        dsimp only
        split <;> exact hdone
    · exact h
  · exact h

theorem openIssued (hr : machine.Reachable s) : s.OpenIssued := by
  refine Machine.invariant (M := machine) (P := OpenIssued) ?_ ?_ hr
  · rintro _ rfl file hfile
    exact absurd rfl hfile
  · intro s a _ h _
    have heffect : (s.effect a).OpenIssued := by
      cases a with
      | opened fd offset seekable handle =>
        intro file hfile
        have hfile' : Function.update s.impls handle (some ⟨fd, if seekable then offset else -1,
          seekable⟩) file ≠ none := hfile
        rw [Function.update_apply] at hfile'
        split at hfile'
        · next heq => exact heq ▸ List.mem_cons_self
        · exact List.mem_cons_of_mem _ (h file hfile')
      | fwrite c file size => exact h.submit c file .write size _
      | fread c file size => exact h.submit c file .read size _
      | fflush c file => exact h.submit c file .fsync 0 _
      | fstat c file => exact h.submit c file .statx 0 _
      | fclose c file => exact h.fclose c file
      | fseek c file offset origin => exact h.fseek file offset origin
      | ftell c file => exact h
      | complete c result =>
        dsimp only [effect]
        unfold FileState.complete
        split <;> exact h
      | resume c => exact h.resume c
    exact heffect

/-- During a run in which coroutines only write to a file, in any number and order and with any short
writes, the offset is the initial one plus the bytes reported. The writes that have returned wrote
disjoint ranges exactly when no two of them, of those that wrote something, were in progress at the
same time. -/
theorem writes_disjoint_iff (hr : machine.Reachable s) {impl : FileImpl}
    (hopen : s.impls file = some impl) (hseek : impl.seekable = true) (hidle : s.Idle file)
    {as : List FileAction} (hl : (machine.restrict (OnlyWrites file)).Legal s as) :
    ∃ impl' new, (machine.run s as).impls file = some impl' ∧
      (machine.run s as).written file = s.written file ++ new ∧
      impl'.offset = impl.offset + (new.map WriteRecord.bytes).sum ∧
      ((new.Pairwise fun v w => Disjoint v.range w.range) ↔
        new.Pairwise fun v w => 0 < v.bytes → 0 < w.bytes → ¬v.Overlap w) := by
  have hstart : s.Writing file impl.offset (s.written file) [] :=
    ⟨openIssued hr file (by simp [hopen]), ⟨impl, hopen, hseek, by simp⟩, (List.append_nil _).symm,
      ⟨List.nodup_nil, nofun, nofun, nofun⟩, nofun,
      fun c f hf hmoves hfile => absurd hfile (hidle c f hf hmoves)⟩
  rw [← Machine.run_restrict (M := machine) (OnlyWrites file)]
  obtain ⟨new, hw⟩ := Machine.run_invariant (M := machine.restrict (OnlyWrites file))
    (P := fun t => ∃ new, Writing t file impl.offset (s.written file) new)
    (fun _ _ ⟨_, h⟩ he => h.step he) ⟨[], hstart⟩ hl
  obtain ⟨impl', himpl, _, hoffset⟩ := hw.impl
  exact ⟨impl', new, himpl, hw.written, hoffset, hw.consecutive.disjoint_iff⟩

/-- Two coroutines write one after the other, and the first write is short. -/
theorem writes_disjoint_iff_sequential :
    let s := machine.run init [.opened 3 100 true ⟨0, 1⟩]
    let as := [.fwrite ⟨1, 1⟩ ⟨0, 1⟩ 5, .complete ⟨1, 1⟩ 3, .resume ⟨1, 1⟩,
      .fwrite ⟨2, 1⟩ ⟨0, 1⟩ 4, .complete ⟨2, 1⟩ 4, .resume ⟨2, 1⟩]
    ∃ impl new, (machine.run s as).impls ⟨0, 1⟩ = some impl ∧
      (machine.run s as).written ⟨0, 1⟩ = new ∧ impl.offset = 107 ∧
      new.Pairwise fun v w => Disjoint v.range w.range := by
  intro s as
  have hr : machine.Reachable s := .run (.init rfl) (by decide)
  have hl : (machine.restrict (OnlyWrites ⟨0, 1⟩)).Legal s as :=
    ⟨⟨by decide, trivial⟩, ⟨by decide, trivial⟩, ⟨by decide, trivial⟩, ⟨by decide, trivial⟩,
      ⟨by decide, trivial⟩, ⟨by decide, trivial⟩, trivial⟩
  obtain ⟨impl, new, himpl, hnew, hoffset, hiff⟩ :=
    writes_disjoint_iff hr (show s.impls ⟨0, 1⟩ = some ⟨3, 100, true⟩ from rfl) rfl nofun hl
  have hnew' : [⟨100, 3, 1, 3⟩, ⟨103, 4, 4, 6⟩] = new := hnew
  refine ⟨impl, new, himpl, hnew, ?_, hiff.mpr ?_⟩
  · rw [hoffset, ← hnew']
    rfl
  · rw [← hnew']
    simp [WriteRecord.Overlap, Cursor.Overlap]

/-- Two coroutines write at the same time: both write the bytes from 0 to 5, and the offset is 10. -/
theorem concurrent_writes_overlap :
    let s := machine.run init [.opened 3 0 true ⟨0, 1⟩, .fwrite ⟨1, 1⟩ ⟨0, 1⟩ 5,
      .fwrite ⟨2, 1⟩ ⟨0, 1⟩ 5, .complete ⟨1, 1⟩ 5, .complete ⟨2, 1⟩ 5, .resume ⟨1, 1⟩,
      .resume ⟨2, 1⟩]
    machine.Reachable s ∧ s.impls ⟨0, 1⟩ = some ⟨3, 10, true⟩ ∧
      s.written ⟨0, 1⟩ = [⟨0, 5, 1, 5⟩, ⟨0, 5, 2, 6⟩] ∧
      ¬(s.written ⟨0, 1⟩).Pairwise fun v w => Disjoint v.range w.range := by
  intro s
  have hwritten : s.written ⟨0, 1⟩ = [⟨0, 5, 1, 5⟩, ⟨0, 5, 2, 6⟩] := rfl
  refine ⟨Machine.Reachable.run (.init rfl) (by decide), rfl, hwritten, fun hp => ?_⟩
  rw [hwritten] at hp
  have hdisjoint := List.rel_of_pairwise_cons hp (List.mem_singleton_self _)
  have hzero : ∀ began ended, (0 : ℤ) ∈ WriteRecord.range ⟨0, 5, began, ended⟩ := fun _ _ => by
    simp [WriteRecord.range]
  exact Set.disjoint_left.mp hdisjoint (hzero 1 5) (hzero 2 6)

end Writes

end FileState

end Bio
