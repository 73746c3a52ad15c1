import Bio.FreebsdFile

/-!
# The position of a FreeBSD file

`bio_fread`, `bio_fwrite`, `bio_fseek` and `bio_ftell` of `src/freebsd/file.c` on one seekable file, by one
coroutine, with and without support for asynchronous requests. A request names its position in the file,
which is the offset of the file object. The system call in the async thread goes to the offset of the
descriptor, which the kernel keeps.

* `FileRun` is a file object with its file. `reads` and `writes` are the bytes that were moved, each with
  its place, and `returns` the counts and offsets that were returned.
* The kernel moves as many bytes as it likes, or fails, and refuses a request with a negative offset. In a
  `FilePair` both sides get the same answer.
* Between two calls `impl->aio` is null, for there is only one coroutine.
* A `FileCursor` is what the calls amount to by themselves: where they seek to, and how many bytes they move
  in place. It has no file and no file object.

Results: `positions_agree_iff` and, for programs that neither seek nor tell, `streams_agree`.
-/

namespace Bio

open FreebsdErrno (ebusy einval eopnotsupp)

/-- What `bio_fread` and `bio_fwrite` ask the kernel for. -/
inductive FileIo
  | read (size : Nat)
  | write (data : List (BitVec 8))
deriving DecidableEq, Repr

/-- The bytes that are moved at a position, at most `limit` of them. -/
def FileIo.bytes (io : FileIo) (content : List (BitVec 8)) (position limit : Nat) :
    List (BitVec 8) :=
  match io with
  | .read size => (content.drop position).take (min size limit)
  | .write data => data.take limit

/-- The content of a file after bytes were written at a position. A gap in front is filled with zeros. -/
def overwrite (content : List (BitVec 8)) (position : Nat) (bytes : List (BitVec 8)) :
    List (BitVec 8) :=
  if bytes = [] then content
  else (content ++ List.replicate (position - content.length) 0).take position ++ bytes ++
    content.drop (position + bytes.length)

structure FileRun where
  impl : AioFile
  content : List (BitVec 8)
  /-- the offset of the descriptor -/
  position : Nat
  reads : List (BitVec 8 × Nat)
  writes : List (BitVec 8 × Nat)
  returns : List FileReturn
deriving DecidableEq

namespace FileRun

/-- The kernel moves bytes at a position. -/
def transfer (r : FileRun) (io : FileIo) (position limit : Nat) : FileRun × Nat :=
  let bytes := io.bytes r.content position limit
  match io with
  | .read _ => ({ r with reads := r.reads ++ bytes.zipIdx position }, bytes.length)
  | .write _ =>
    ({ r with
      content := overwrite r.content position bytes
      writes := r.writes ++ bytes.zipIdx position }, bytes.length)

/-- `read` and `write`: they act at the offset of the descriptor and advance it. -/
def syscall (r : FileRun) (io : FileIo) : Except Nat Nat → FileRun × Except Nat Nat
  | .ok limit =>
    let (r', n) := r.transfer io r.position limit
    ({ r' with position := r.position + n }, .ok n)
  | .error e => (r, .error e)

/-- `aio_read` and `aio_write`, with the end of the request: they act at `aio_offset`. -/
def aioRequest (supported : Bool) (r : FileRun) (io : FileIo) (aioOffset : Int) :
    Except Nat Nat → FileRun × Except Nat Nat
  | .ok limit =>
    if !supported then (r, .error eopnotsupp)
    else if aioOffset < 0 then (r, .error einval)
    else
      let (r, n) := r.transfer io aioOffset.toNat limit
      (r, .ok n)
  | .error e => if !supported then (r, .error eopnotsupp) else (r, .error e)

def setSupport (r : FileRun) (support : AioSupport) : FileRun :=
  { r with impl := { r.impl with aioSupport := support } }

/-- `bio_fread_aio` and `bio_fwrite_aio`. -/
def transferAio (supported : Bool) (r : FileRun) (io : FileIo) (answer : Except Nat Nat) :
    FileRun × Except Nat Nat :=
  if r.impl.aio ≠ none then (r, .error ebusy)
  else
    match r.aioRequest supported io r.impl.offset answer with
    | (r, .ok n) =>
      if r.impl.seekable then
        ({ r with impl := { r.impl with offset := r.impl.offset + n } }, .ok n)
      else (r, .ok n)
    | (r, .error e) => (r, .error e)

/-- `bio_fread_in_async_thread` and `bio_fwrite_in_async_thread`. -/
def transferInAsyncThread (r : FileRun) (io : FileIo) (answer : Except Nat Nat) :
    FileRun × Except Nat Nat := r.syscall io answer

/-- The count that is returned, and the error that is set. -/
def toSize : Except Nat Nat → Nat × Option Nat
  | .ok n => (n, none)
  | .error e => (0, some e)

/-- `bio_fread` and `bio_fwrite`, when the handle resolves. -/
def fileIo (supported : Bool) (r : FileRun) (io : FileIo) (answer : Except Nat Nat) :
    FileRun × Nat × Option Nat :=
  match r.impl.aioSupport with
  | .unknown =>
    match r.transferAio supported io answer with
    | (r, .ok n) => (r.setSupport .enabled, toSize (.ok n))
    | (r, .error e) =>
      if e = eopnotsupp then
        let (r, result) := (r.setSupport .disabled).transferInAsyncThread io answer
        (r, toSize result)
      else (r, toSize (.error e))
  | .enabled =>
    let (r, result) := r.transferAio supported io answer
    (r, toSize result)
  | .disabled =>
    let (r, result) := r.transferInAsyncThread io answer
    (r, toSize result)

def fread (supported : Bool) (r : FileRun) (size : Nat) := r.fileIo supported (.read size)
def fwrite (supported : Bool) (r : FileRun) (data : List (BitVec 8)) := r.fileIo supported (.write data)

/-- `bio_fseek`, when the handle resolves. -/
def fseek (r : FileRun) (offset : Int) (origin : Whence) : FileRun × Bool × Option Nat :=
  if r.impl.seekable then
    match origin with
    | .set => ({ r with impl := { r.impl with offset := offset } }, true, none)
    | .cur => ({ r with impl := { r.impl with offset := r.impl.offset + offset } }, true, none)
    | .fromEnd => (r, false, some eopnotsupp)
  else (r, false, some eopnotsupp)

/-- `bio_ftell`, when the handle resolves. -/
def ftell (r : FileRun) : Int × Option Nat :=
  if r.impl.seekable then (r.impl.offset, none) else (-1, some eopnotsupp)

def log (r : FileRun) (value : FileReturn) : FileRun := { r with returns := r.returns ++ [value] }

end FileRun

/-- The calls of the program, with the answer of the kernel: at most how many bytes it moves, or an
error. -/
inductive FileCall
  | fread (size : Nat) (answer : Except Nat Nat)
  | fwrite (data : List (BitVec 8)) (answer : Except Nat Nat)
  | fseek (offset : Int) (origin : Whence)
  | ftell
deriving DecidableEq

/-- The answer of the kernel to a call. -/
def FileCall.answer : FileCall → Option (Except Nat Nat)
  | .fread _ answer | .fwrite _ answer => some answer
  | .fseek _ _ | .ftell => none

namespace FileRun

/-- One call, with or without support by the kernel. -/
def call (supported : Bool) (r : FileRun) : FileCall → FileRun
  | .fread size answer =>
    let (r, n, _) := r.fread supported size answer
    r.log (.size n)
  | .fwrite data answer =>
    let (r, n, _) := r.fwrite supported data answer
    r.log (.size n)
  | .fseek offset origin =>
    let (r, done, _) := r.fseek offset origin
    r.log (.success done)
  | .ftell => r.log (.offset r.ftell.1)

/-- A seekable file with this content that was opened without append. -/
def opened (fd : Nat) (content : List (BitVec 8)) : FileRun :=
  ⟨⟨fd, 0, true, .unknown, none⟩, content, 0, [], [], []⟩

end FileRun

/-- The same calls on two kernels: one has asynchronous requests for the file, and the other answers
`EOPNOTSUPP`. -/
structure FilePair where
  aio : FileRun
  thread : FileRun
deriving DecidableEq

namespace FilePair

def start (fd : Nat) (content : List (BitVec 8)) : FilePair := ⟨.opened fd content, .opened fd content⟩

def machine : Machine FilePair FileCall where
  init := fun q => ∃ fd content, q = start fd content
  enabled := fun _ a => a.answer ≠ some (.error eopnotsupp)
  perform := fun q a => ⟨q.aio.call true a, q.thread.call false a⟩

instance (q : FilePair) (a : FileCall) : Decidable (machine.enabled q a) :=
  inferInstanceAs (Decidable (a.answer ≠ some (.error eopnotsupp)))

end FilePair

/-! ## What the calls amount to -/

namespace FileIo

/-- How many bytes are moved at a position of a file of this length. -/
def count (length position limit : Nat) : FileIo → Nat
  | .read size => min (min size limit) (length - position)
  | .write data => min limit data.length

end FileIo

/-- The length of the file, where the last `SEEK_SET` and each `SEEK_CUR` behind it lead, and how many bytes
were moved before that `SEEK_SET` and since. At the beginning it is as if there had been one to zero. -/
structure FileCursor where
  length : Nat
  sought : Int
  before : Nat
  since : Nat
deriving DecidableEq, Repr

namespace FileCursor

def opened (length : Nat) : FileCursor := ⟨length, 0, 0, 0⟩

/-- How many bytes are moved where the seeks have led. -/
def countSought (p : FileCursor) (io : FileIo) : Except Nat Nat → Nat
  | .ok limit => if 0 ≤ p.sought + p.since then io.count p.length (p.sought + p.since).toNat limit else 0
  | .error _ => 0

/-- How many bytes are moved behind those that were moved already. -/
def countNext (p : FileCursor) (io : FileIo) : Except Nat Nat → Nat
  | .ok limit => io.count p.length (p.before + p.since) limit
  | .error _ => 0

/-- Nothing is moved, or the seeks have led back to where the last `SEEK_SET` found the file. -/
def InPlaceIo (p : FileCursor) (io : FileIo) (answer : Except Nat Nat) : Prop :=
  (p.countSought io answer = 0 ∧ p.countNext io answer = 0) ∨ p.sought = p.before

/-- The guard. `bio_ftell` is not called when bytes were moved since the last `SEEK_SET`. -/
def InPlace (p : FileCursor) : FileCall → Prop
  | .fread size answer => p.InPlaceIo (.read size) answer
  | .fwrite data answer => p.InPlaceIo (.write data) answer
  | .fseek _ _ => True
  | .ftell => p.since = 0

/-- The bytes are moved behind those that were moved already. A write makes the file as long as it needs. -/
def afterIo (p : FileCursor) (io : FileIo) (answer : Except Nat Nat) : FileCursor :=
  let n := p.countNext io answer
  match io with
  | .read _ => { p with since := p.since + n }
  | .write _ =>
    { p with
      length := if n = 0 then p.length else max p.length (p.before + p.since + n)
      since := p.since + n }

def perform (p : FileCursor) : FileCall → FileCursor
  | .fread size answer => p.afterIo (.read size) answer
  | .fwrite data answer => p.afterIo (.write data) answer
  | .fseek offset .set => ⟨p.length, offset, p.before + p.since, 0⟩
  | .fseek offset .cur => { p with sought := p.sought + offset }
  | .fseek _ .fromEnd | .ftell => p

/-- The sequences of calls that move bytes and tell offsets only in place. -/
def machine : Machine FileCursor FileCall where
  init := fun p => ∃ length, p = opened length
  enabled := InPlace
  perform := perform

instance (p : FileCursor) (io : FileIo) (answer : Except Nat Nat) : Decidable (p.InPlaceIo io answer) :=
  inferInstanceAs (Decidable ((p.countSought io answer = 0 ∧ p.countNext io answer = 0) ∨
    p.sought = p.before))

instance (p : FileCursor) : ∀ a, Decidable (machine.enabled p a)
  | .fread size answer => inferInstanceAs (Decidable (p.InPlaceIo (.read size) answer))
  | .fwrite data answer => inferInstanceAs (Decidable (p.InPlaceIo (.write data) answer))
  | .fseek _ _ => .isTrue trivial
  | .ftell => inferInstanceAs (Decidable (p.since = 0))

end FileCursor

/-! ## What a call does -/

namespace FileIo

/-- The content after these bytes were moved. -/
def contentAfter (content : List (BitVec 8)) (position : Nat) (bytes : List (BitVec 8)) :
    FileIo → List (BitVec 8)
  | .read _ => content
  | .write _ => overwrite content position bytes

def readLog (position : Nat) (bytes : List (BitVec 8)) : FileIo → List (BitVec 8 × Nat)
  | .read _ => bytes.zipIdx position
  | .write _ => []

def writeLog (position : Nat) (bytes : List (BitVec 8)) : FileIo → List (BitVec 8 × Nat)
  | .read _ => []
  | .write _ => bytes.zipIdx position

end FileIo

namespace FileRun

variable {r r' : FileRun} {io : FileIo} {answer : Except Nat Nat}

/-- The bytes that a request moves. -/
def aioBytes (r : FileRun) (io : FileIo) : Except Nat Nat → List (BitVec 8)
  | .ok limit =>
    if 0 ≤ r.impl.offset then io.bytes r.content r.impl.offset.toNat limit else []
  | .error _ => []

/-- The bytes that the system call in the async thread moves. -/
def threadBytes (r : FileRun) (io : FileIo) : Except Nat Nat → List (BitVec 8)
  | .ok limit => io.bytes r.content r.position limit
  | .error _ => []

/-- The bytes were moved at the position, and nothing was returned yet. -/
structure Moved (r : FileRun) (io : FileIo) (position : Nat) (bytes : List (BitVec 8))
    (r' : FileRun) : Prop where
  content : r'.content = io.contentAfter r.content position bytes
  reads : r'.reads = r.reads ++ io.readLog position bytes
  writes : r'.writes = r.writes ++ io.writeLog position bytes
  returns : r'.returns = r.returns

theorem moved_transfer (r : FileRun) (io : FileIo) (position limit : Nat) :
    r.Moved io position (io.bytes r.content position limit) (r.transfer io position limit).1 := by
  cases io
  · exact ⟨rfl, rfl, (List.append_nil _).symm, rfl⟩
  · exact ⟨rfl, (List.append_nil _).symm, rfl, rfl⟩

theorem moved_nil (r : FileRun) (io : FileIo) (position : Nat) : r.Moved io position [] r := by
  cases io
  · exact ⟨rfl, (List.append_nil _).symm, (List.append_nil _).symm, rfl⟩
  · have hsame : overwrite r.content position [] = r.content := if_pos rfl
    exact ⟨hsame.symm, (List.append_nil _).symm, (List.append_nil _).symm, rfl⟩

/-- The log and the content do not depend on the rest. -/
theorem Moved.congr {position : Nat} {bytes : List (BitVec 8)} {r'' : FileRun}
    (h : r.Moved io position bytes r') (hcontent : r''.content = r'.content)
    (hreads : r''.reads = r'.reads) (hwrites : r''.writes = r'.writes)
    (hreturns : r''.returns = r'.returns) : r.Moved io position bytes r'' :=
  ⟨hcontent.trans h.content, hreads.trans h.reads, hwrites.trans h.writes, hreturns.trans h.returns⟩

/-- The file object on the side with support, between two calls. -/
structure Aio (impl : AioFile) : Prop where
  idle : impl.aio = none
  seekable : impl.seekable = true
  support : impl.aioSupport ≠ .disabled

/-- The file object on the other side. -/
structure Thread (impl : AioFile) : Prop where
  idle : impl.aio = none
  seekable : impl.seekable = true
  support : impl.aioSupport ≠ .enabled

/-- A request moves its bytes at the offset of the file object and advances it. -/
theorem transferAio_spec (h : Aio r.impl) (io : FileIo) (answer : Except Nat Nat) :
    ∃ r' result, r.transferAio true io answer = (r', result) ∧
      r.Moved io r.impl.offset.toNat (r.aioBytes io answer) r' ∧ Aio r'.impl ∧
      r'.impl.offset = r.impl.offset + (r.aioBytes io answer).length ∧
      (toSize result).1 = (r.aioBytes io answer).length ∧
      ∀ e, result = .error e → e = einval ∨ answer = .error e := by
  have hidle : ¬r.impl.aio ≠ none := fun hne => hne h.idle
  unfold transferAio
  rw [if_neg hidle]
  cases answer with
  | error e =>
    exact ⟨r, .error e, rfl, moved_nil r io _, h, (Int.add_zero _).symm, rfl, fun _ heq => .inr heq⟩
  | ok limit =>
    by_cases hneg : r.impl.offset < 0
    · have hbytes : r.aioBytes io (.ok limit) = [] := if_neg (not_le.mpr hneg)
      have hrequest : r.aioRequest true io r.impl.offset (.ok limit) = (r, .error einval) :=
        if_pos hneg
      rw [hbytes, hrequest]
      refine ⟨r, .error einval, rfl, moved_nil r io _, h, (Int.add_zero _).symm, rfl, ?_⟩
      exact fun e heq => .inl (Except.error.inj heq).symm
    · have hle : 0 ≤ r.impl.offset := not_lt.mp hneg
      have hbytes : r.aioBytes io (.ok limit) =
          io.bytes r.content r.impl.offset.toNat limit := if_pos hle
      have hmoved := moved_transfer r io r.impl.offset.toNat limit
      have himpl : (r.transfer io r.impl.offset.toNat limit).1.impl = r.impl := by cases io <;> rfl
      have hrequest : r.aioRequest true io r.impl.offset (.ok limit) =
          ((r.transfer io r.impl.offset.toNat limit).1,
            .ok (io.bytes r.content r.impl.offset.toNat limit).length) := by
        refine (if_neg hneg).trans ?_
        cases io <;> rfl
      rw [hbytes, hrequest]
      dsimp only
      rw [himpl, if_pos h.seekable]
      exact ⟨_, _, rfl, hmoved.congr rfl rfl rfl rfl, ⟨h.idle, h.seekable, h.support⟩, rfl, rfl, nofun⟩

/-- The system call moves its bytes at the offset of the descriptor and advances that. -/
theorem syscall_spec (r : FileRun) (io : FileIo) (answer : Except Nat Nat) :
    ∃ r' result, r.syscall io answer = (r', result) ∧
      r.Moved io r.position (r.threadBytes io answer) r' ∧ r'.impl = r.impl ∧
      r'.position = r.position + (r.threadBytes io answer).length ∧
      (toSize result).1 = (r.threadBytes io answer).length := by
  cases answer with
  | error e => exact ⟨r, .error e, rfl, moved_nil r io _, rfl, rfl, rfl⟩
  | ok limit =>
    have hmoved := moved_transfer r io r.position limit
    cases io
    all_goals exact ⟨_, _, rfl, hmoved.congr rfl rfl rfl rfl, rfl, rfl, rfl⟩

/-- `bio_fread` and `bio_fwrite` with support. -/
theorem fileIo_aio (h : Aio r.impl) (io : FileIo) (hanswer : answer ≠ .error eopnotsupp) :
    ∃ r' error, r.fileIo true io answer = (r', (r.aioBytes io answer).length, error) ∧
      r.Moved io r.impl.offset.toNat (r.aioBytes io answer) r' ∧ Aio r'.impl ∧
      r'.impl.offset = r.impl.offset + (r.aioBytes io answer).length := by
  obtain ⟨r', result, heq, hmoved, haio, hoffset, hsize, herror⟩ := transferAio_spec h io answer
  unfold fileIo
  rw [heq]
  cases hsupport : r.impl.aioSupport with
  | disabled => exact absurd hsupport h.support
  | enabled => exact ⟨r', _, Prod.ext rfl (Prod.ext hsize rfl), hmoved, haio, hoffset⟩
  | unknown =>
    cases result with
    | ok n =>
      exact ⟨r'.setSupport .enabled, _, Prod.ext rfl (Prod.ext hsize rfl), hmoved.congr rfl rfl rfl rfl,
        ⟨haio.idle, haio.seekable, nofun⟩, hoffset⟩
    | error e =>
      have hne : e ≠ eopnotsupp := by
        rintro rfl
        rcases herror _ rfl with hinval | hsame
        · exact absurd hinval (by decide)
        · exact hanswer hsame
      dsimp only
      rw [if_neg hne]
      exact ⟨r', _, Prod.ext rfl (Prod.ext hsize rfl), hmoved, haio, hoffset⟩

/-- `bio_fread` and `bio_fwrite` without support. -/
theorem fileIo_thread (h : Thread r.impl) (io : FileIo) (answer : Except Nat Nat) :
    ∃ r' error, r.fileIo false io answer = (r', (r.threadBytes io answer).length, error) ∧
      r.Moved io r.position (r.threadBytes io answer) r' ∧ Thread r'.impl ∧
      r'.impl.offset = r.impl.offset ∧
      r'.position = r.position + (r.threadBytes io answer).length := by
  unfold fileIo
  cases hsupport : r.impl.aioSupport with
  | enabled => exact absurd hsupport h.support
  | disabled =>
    obtain ⟨r', result, heq, hmoved, himpl, hposition, hsize⟩ := syscall_spec r io answer
    unfold transferInAsyncThread
    rw [heq]
    exact ⟨r', _, Prod.ext rfl (Prod.ext hsize rfl), hmoved, himpl ▸ h, by rw [himpl], hposition⟩
  | unknown =>
    have hrequest : r.transferAio false io answer = (r, .error eopnotsupp) := by
      unfold transferAio
      rw [if_neg fun hne => hne h.idle]
      cases answer <;> rfl
    obtain ⟨r', result, heq, hmoved, himpl, hposition, hsize⟩ :=
      syscall_spec (r.setSupport .disabled) io answer
    have hbytes : (r.setSupport .disabled).threadBytes io answer = r.threadBytes io answer := by
      cases answer <;> rfl
    rw [hbytes] at hmoved hposition hsize
    rw [hrequest]
    dsimp only
    rw [if_pos rfl]
    unfold transferInAsyncThread
    rw [heq]
    refine ⟨r', _, Prod.ext rfl (Prod.ext hsize rfl), ?_, ?_, ?_, hposition⟩
    · exact ⟨hmoved.content, hmoved.reads, hmoved.writes, hmoved.returns⟩
    · rw [himpl]
      exact ⟨h.idle, h.seekable, nofun⟩
    · rw [himpl]
      rfl

/-- Where a seek leads from an offset. -/
def sought (current offset : Int) : Whence → Int
  | .set => offset
  | .cur => current + offset
  | .fromEnd => current

/-- `bio_fseek` sets the offset of the file object and nothing else. -/
theorem fseek_spec (hseek : r.impl.seekable = true) (offset : Int) (origin : Whence) :
    ∃ e, r.fseek offset origin =
      ({ r with impl := { r.impl with offset := sought r.impl.offset offset origin } },
        decide (origin ≠ .fromEnd), e) := by
  unfold fseek
  rw [if_pos hseek]
  cases origin
  · exact ⟨_, rfl⟩
  · exact ⟨_, rfl⟩
  · exact ⟨_, rfl⟩

end FileRun

/-! ## Agreement -/

namespace FilePair

variable {q : FilePair} {io : FileIo} {answer : Except Nat Nat} {a : FileCall}

/-- What is promised: the same bytes are read and written at the same places, and the same counts and
offsets are returned. -/
structure Agree (q : FilePair) : Prop where
  reads : q.aio.reads = q.thread.reads
  writes : q.aio.writes = q.thread.writes
  returns : q.aio.returns = q.thread.returns

/-- No byte is moved, or the offset of the file object on one side is the offset of the descriptor on the
other. When this is so is a matter of the calls: `inPlace_iff`. -/
def InPlaceIo (q : FilePair) (io : FileIo) (answer : Except Nat Nat) : Prop :=
  (q.aio.aioBytes io answer = [] ∧ q.thread.threadBytes io answer = []) ∨
    q.aio.impl.offset = q.thread.position

/-- For `bio_ftell` the offsets of both file objects are the same. -/
def InPlace (q : FilePair) : FileCall → Prop
  | .fread size answer => q.InPlaceIo (.read size) answer
  | .fwrite data answer => q.InPlaceIo (.write data) answer
  | .fseek _ _ => True
  | .ftell => q.aio.impl.offset = q.thread.impl.offset

/-- The pair behind a call of `bio_fread` or `bio_fwrite`. -/
def afterIo (q : FilePair) (io : FileIo) (answer : Except Nat Nat) : FilePair where
  aio := (q.aio.fileIo true io answer).1.log (.size (q.aio.fileIo true io answer).2.1)
  thread := (q.thread.fileIo false io answer).1.log (.size (q.thread.fileIo false io answer).2.1)

structure Sides (q : FilePair) : Prop where
  aio : FileRun.Aio q.aio.impl
  thread : FileRun.Thread q.thread.impl

theorem afterIo_spec (hs : q.Sides) (io : FileIo) (hanswer : answer ≠ .error eopnotsupp) :
    ∃ r t, q.afterIo io answer = ⟨r.log (.size (q.aio.aioBytes io answer).length),
        t.log (.size (q.thread.threadBytes io answer).length)⟩ ∧
      q.aio.Moved io q.aio.impl.offset.toNat (q.aio.aioBytes io answer) r ∧
      q.thread.Moved io q.thread.position (q.thread.threadBytes io answer) t ∧
      Sides ⟨r, t⟩ ∧ r.impl.offset = q.aio.impl.offset + (q.aio.aioBytes io answer).length ∧
      t.impl.offset = q.thread.impl.offset ∧
      t.position = q.thread.position + (q.thread.threadBytes io answer).length := by
  obtain ⟨r, e, heq, hmoved, haio, hoffset⟩ := FileRun.fileIo_aio hs.aio io hanswer
  obtain ⟨t, e', heq', hmoved', hthread, hkept, hposition⟩ :=
    FileRun.fileIo_thread hs.thread io answer
  refine ⟨r, t, ?_, hmoved, hmoved', ⟨haio, hthread⟩, hoffset, hkept, hposition⟩
  unfold afterIo
  rw [heq, heq']

/-- The file and the log are the same on both sides. -/
structure Same (q : FilePair) : Prop where
  sides : q.Sides
  agree : q.Agree
  content : q.aio.content = q.thread.content

theorem contentAfter_nil (content : List (BitVec 8)) (position : Nat) (io : FileIo) :
    io.contentAfter content position [] = content := by
  cases io
  · rfl
  · show overwrite content position [] = content
    exact if_pos rfl

/-- The same bytes at the same position, on both sides. -/
theorem Same.log (h : q.Same) {bytes : List (BitVec 8)} {position position' n : Nat} {r t : FileRun}
    (hsides : Sides ⟨r, t⟩) (hr : q.aio.Moved io position bytes r)
    (ht : q.thread.Moved io position' bytes t) (hplace : bytes = [] ∨ position = position') :
    Same ⟨r.log (.size n), t.log (.size n)⟩ := by
  have hlog : io.contentAfter q.aio.content position bytes =
        io.contentAfter q.thread.content position' bytes ∧
      io.readLog position bytes = io.readLog position' bytes ∧
      io.writeLog position bytes = io.writeLog position' bytes := by
    rcases hplace with rfl | rfl
    · rw [contentAfter_nil, contentAfter_nil, h.content]
      cases io <;> exact ⟨rfl, rfl, rfl⟩
    · rw [h.content]
      exact ⟨rfl, rfl, rfl⟩
  obtain ⟨hcontent, hreads, hwrites⟩ := hlog
  refine ⟨⟨hsides.aio, hsides.thread⟩, ⟨?_, ?_, ?_⟩, ?_⟩
  · exact hr.reads.trans ((congrArg₂ _ h.agree.reads hreads).trans ht.reads.symm)
  · exact hr.writes.trans ((congrArg₂ _ h.agree.writes hwrites).trans ht.writes.symm)
  · exact congrArg (· ++ _) (hr.returns.trans (h.agree.returns.trans ht.returns.symm))
  · exact hr.content.trans (hcontent.trans ht.content.symm)

/-- At the same position the same bytes are moved. -/
theorem bytes_eq (hcontent : q.aio.content = q.thread.content)
    (hplace : q.aio.impl.offset = q.thread.position) (io : FileIo) (answer : Except Nat Nat) :
    q.aio.aioBytes io answer = q.thread.threadBytes io answer := by
  cases answer with
  | error e => rfl
  | ok limit =>
    have hle : 0 ≤ q.aio.impl.offset := by omega
    have hnat : q.aio.impl.offset.toNat = q.thread.position := by omega
    unfold FileRun.aioBytes FileRun.threadBytes
    dsimp only
    rw [if_pos hle, hnat, hcontent]

theorem Same.afterIo (h : q.Same) (hanswer : answer ≠ .error eopnotsupp)
    (hok : q.InPlaceIo io answer) : (q.afterIo io answer).Same := by
  obtain ⟨r, t, heq, hr, ht, hsides, _, _⟩ := afterIo_spec h.sides io hanswer
  rw [heq]
  rcases hok with ⟨haio, hthread⟩ | hplace
  · rw [haio] at hr ⊢
    rw [hthread] at ht ⊢
    exact h.log hsides hr ht (.inl rfl)
  · rw [bytes_eq h.content hplace] at hr ⊢
    exact h.log hsides hr ht (.inr (by omega))

/-- The pair behind a call of `bio_fseek`, on both sides with the same success. -/
theorem afterSeek_spec (hs : q.Sides) (offset : Int) (origin : Whence) :
    ∃ done, machine.perform q (.fseek offset origin) =
      ⟨FileRun.log { q.aio with impl := { q.aio.impl with
          offset := FileRun.sought q.aio.impl.offset offset origin } } (.success done),
        FileRun.log { q.thread with impl := { q.thread.impl with
          offset := FileRun.sought q.thread.impl.offset offset origin } } (.success done)⟩ := by
  obtain ⟨e, heq⟩ := FileRun.fseek_spec hs.aio.seekable offset origin
  obtain ⟨e', heq'⟩ := FileRun.fseek_spec hs.thread.seekable offset origin
  refine ⟨decide (origin ≠ .fromEnd), ?_⟩
  simp only [machine, FileRun.call, heq, heq']

theorem Sides.fseek (h : q.Sides) (x y : Int) : Sides
    ⟨{ q.aio with impl := { q.aio.impl with offset := x } },
      { q.thread with impl := { q.thread.impl with offset := y } }⟩ :=
  ⟨⟨h.aio.idle, h.aio.seekable, h.aio.support⟩, ⟨h.thread.idle, h.thread.seekable, h.thread.support⟩⟩

theorem Sides.afterIo (h : q.Sides) (io : FileIo) (hanswer : answer ≠ .error eopnotsupp) :
    (q.afterIo io answer).Sides := by
  obtain ⟨r, t, heq, _, _, hsides, _⟩ := afterIo_spec h io hanswer
  rw [heq]
  exact ⟨hsides.aio, hsides.thread⟩

theorem Sides.perform (h : q.Sides) (he : machine.enabled q a) : (machine.perform q a).Sides := by
  cases a with
  | fread size answer => exact h.afterIo (.read size) fun heq => he (congrArg some heq)
  | fwrite data answer => exact h.afterIo (.write data) fun heq => he (congrArg some heq)
  | fseek offset origin =>
    obtain ⟨done, heq⟩ := afterSeek_spec h offset origin
    have hseek := h.fseek (FileRun.sought q.aio.impl.offset offset origin)
      (FileRun.sought q.thread.impl.offset offset origin)
    rw [heq]
    exact ⟨hseek.aio, hseek.thread⟩
  | ftell => exact ⟨h.aio, h.thread⟩

theorem sides_of_reachable (hr : machine.Reachable q) : q.Sides := by
  refine Machine.invariant (fun t ht => ?_) (fun t a _ h he => h.perform he) hr
  obtain ⟨fd, content, rfl⟩ : ∃ fd content, t = start fd content := ht
  exact ⟨⟨rfl, rfl, nofun⟩, ⟨rfl, rfl, nofun⟩⟩

theorem ftell_eq (h : q.Sides) :
    q.aio.ftell.1 = q.aio.impl.offset ∧ q.thread.ftell.1 = q.thread.impl.offset := by
  unfold FileRun.ftell
  rw [if_pos h.aio.seekable, if_pos h.thread.seekable]
  exact ⟨rfl, rfl⟩

/-- The step lemma. -/
theorem Same.perform (h : q.Same) (he : machine.enabled q a) (hok : q.InPlace a) :
    (machine.perform q a).Same := by
  cases a with
  | fread size answer =>
    have hok : q.InPlaceIo (.read size) answer := hok
    exact h.afterIo (fun heq => he (congrArg some heq)) hok
  | fwrite data answer =>
    have hok : q.InPlaceIo (.write data) answer := hok
    exact h.afterIo (fun heq => he (congrArg some heq)) hok
  | fseek offset origin =>
    obtain ⟨done, heq⟩ := afterSeek_spec h.sides offset origin
    have hseek := h.sides.fseek (FileRun.sought q.aio.impl.offset offset origin)
      (FileRun.sought q.thread.impl.offset offset origin)
    rw [heq]
    exact ⟨⟨hseek.aio, hseek.thread⟩,
      ⟨h.agree.reads, h.agree.writes, congrArg (· ++ _) h.agree.returns⟩, h.content⟩
  | ftell =>
    have hoffset : q.aio.impl.offset = q.thread.impl.offset := hok
    obtain ⟨haio, hthread⟩ := ftell_eq h.sides
    refine ⟨⟨h.sides.aio, h.sides.thread⟩, ⟨h.agree.reads, h.agree.writes, ?_⟩, h.content⟩
    show q.aio.returns ++ [.offset q.aio.ftell.1] = q.thread.returns ++ [.offset q.thread.ftell.1]
    rw [haio, hthread, hoffset, h.agree.returns]

theorem same_start (fd : Nat) (content : List (BitVec 8)) : (start fd content).Same :=
  ⟨⟨⟨rfl, rfl, nofun⟩, ⟨rfl, rfl, nofun⟩⟩, ⟨rfl, rfl, rfl⟩, rfl⟩

theorem agree_of_restrict (hr : (machine.restrict InPlace).Reachable q) : q.Agree := by
  refine Same.agree (Machine.invariant (fun t ht => ?_) (fun t a _ h he => h.perform he.1 he.2) hr)
  obtain ⟨fd, content, rfl⟩ : ∃ fd content, t = start fd content := ht
  exact same_start fd content

/-! ## The converse -/

theorem zipIdx_place {α : Type*} {l l' : List α} {n n' : Nat} (hne : l ≠ [])
    (h : l.zipIdx n = l'.zipIdx n') : n = n' := by
  cases l with
  | nil => exact absurd rfl hne
  | cons x l =>
    cases l' with
    | nil => cases h
    | cons x' l' =>
      rw [List.zipIdx_cons, List.zipIdx_cons] at h
      exact (Prod.mk.inj (List.cons.inj h).1).2

/-- When both sides agree behind a transfer, it was made in place. -/
theorem inPlace_of_agree (hs : q.Sides) (hanswer : answer ≠ .error eopnotsupp)
    (h : (q.afterIo io answer).Agree) : q.InPlaceIo io answer := by
  obtain ⟨r, t, heq, hr, ht, _⟩ := afterIo_spec hs io hanswer
  rw [heq] at h
  have hlength : (q.aio.aioBytes io answer).length = (q.thread.threadBytes io answer).length := by
    have hreturns : r.returns ++ [FileReturn.size (q.aio.aioBytes io answer).length] =
        t.returns ++ [.size (q.thread.threadBytes io answer).length] := h.returns
    have hlast := (List.append_inj' hreturns rfl).2
    exact FileReturn.size.inj (List.cons.inj hlast).1
  by_cases hempty : q.aio.aioBytes io answer = []
  · refine .inl ⟨hempty, List.eq_nil_of_length_eq_zero ?_⟩
    rw [← hlength, hempty, List.length_nil]
  · have hzip : (q.aio.aioBytes io answer).zipIdx q.aio.impl.offset.toNat =
        (q.thread.threadBytes io answer).zipIdx q.thread.position := by
      have hreads : r.reads = t.reads := h.reads
      have hwrites : r.writes = t.writes := h.writes
      rw [hr.reads, ht.reads] at hreads
      rw [hr.writes, ht.writes] at hwrites
      cases io with
      | read size =>
        exact (List.append_inj' hreads (by simpa [FileIo.readLog] using hlength)).2
      | write data =>
        exact (List.append_inj' hwrites (by simpa [FileIo.writeLog] using hlength)).2
    have hplace := zipIdx_place hempty hzip
    have hle : 0 ≤ q.aio.impl.offset := by
      by_contra hneg
      apply hempty
      cases answer with
      | error e => rfl
      | ok limit => exact if_neg hneg
    exact .inr (by omega)

theorem inPlace_of_step (hr : machine.Reachable q) (he : machine.enabled q a)
    (h : (machine.perform q a).Agree) : q.InPlace a := by
  have hs := sides_of_reachable hr
  cases a with
  | fread size answer => exact inPlace_of_agree hs (fun heq => he (congrArg some heq)) h
  | fwrite data answer => exact inPlace_of_agree hs (fun heq => he (congrArg some heq)) h
  | fseek offset origin => trivial
  | ftell =>
    have hreturns : q.aio.returns ++ [FileReturn.offset q.aio.ftell.1] =
        q.thread.returns ++ [.offset q.thread.ftell.1] := h.returns
    have hlast := (List.cons.inj (List.append_inj' hreturns rfl).2).1
    obtain ⟨haio, hthread⟩ := ftell_eq hs
    rw [haio, hthread] at hlast
    exact FileReturn.offset.inj hlast

/-- Both sides agree in a run exactly when bytes are moved and offsets are told only in place. -/
theorem agree_iff_restrict {fd : Nat} {content : List (BitVec 8)} {as : List FileCall}
    (hl : machine.Legal (start fd content) as) :
    (∀ bs, bs <+: as → (machine.run (start fd content) bs).Agree) ↔
      (machine.restrict InPlace).Legal (start fd content) as :=
  Machine.always_iff (fun _ => agree_of_restrict) (fun _ _ hr he => inPlace_of_step hr he)
    ⟨fd, content, rfl⟩ hl

/-! ## The calls by themselves -/

/-- The cursor knows where both sides are. -/
structure Tracks (q : FilePair) (p : FileCursor) : Prop where
  same : q.Same
  offset : q.aio.impl.offset = p.sought + p.since
  sought : q.thread.impl.offset = p.sought
  position : q.thread.position = p.before + p.since
  length : q.aio.content.length = p.length

theorem length_bytes (io : FileIo) (content : List (BitVec 8)) (position limit : Nat) :
    (io.bytes content position limit).length = io.count content.length position limit := by
  cases io with
  | read size => simp only [FileIo.bytes, FileIo.count, List.length_take, List.length_drop]
  | write data => exact List.length_take

theorem length_overwrite (content : List (BitVec 8)) (position : Nat) (bytes : List (BitVec 8)) :
    (overwrite content position bytes).length =
      if bytes.length = 0 then content.length else max content.length (position + bytes.length) := by
  unfold overwrite
  simp only [List.length_eq_zero_iff]
  split
  · rfl
  · simp only [List.length_append, List.length_take, List.length_replicate, List.length_drop]
    omega

namespace Tracks

variable {p : FileCursor}

theorem length_aioBytes (h : Tracks q p) (io : FileIo) (answer : Except Nat Nat) :
    (q.aio.aioBytes io answer).length = p.countSought io answer := by
  cases answer with
  | error e => rfl
  | ok limit =>
    simp only [FileRun.aioBytes, FileCursor.countSought, h.offset]
    split
    · rw [length_bytes, h.length]
    · rfl

theorem length_threadBytes (h : Tracks q p) (io : FileIo) (answer : Except Nat Nat) :
    (q.thread.threadBytes io answer).length = p.countNext io answer := by
  cases answer with
  | error e => rfl
  | ok limit => rw [FileRun.threadBytes, FileCursor.countNext, length_bytes, ← h.same.content, h.length,
      h.position]

theorem inPlaceIo_iff (h : Tracks q p) (io : FileIo) (answer : Except Nat Nat) :
    q.InPlaceIo io answer ↔ p.InPlaceIo io answer := by
  unfold InPlaceIo FileCursor.InPlaceIo
  rw [← h.length_aioBytes, ← h.length_threadBytes, List.length_eq_zero_iff, List.length_eq_zero_iff,
    h.offset, h.position]
  exact or_congr_right ⟨fun heq => by omega, fun heq => by omega⟩

/-- What the offsets are is a matter of the calls. -/
theorem inPlace_iff (h : Tracks q p) (a : FileCall) : q.InPlace a ↔ p.InPlace a := by
  cases a with
  | fread size answer => exact h.inPlaceIo_iff (.read size) answer
  | fwrite data answer => exact h.inPlaceIo_iff (.write data) answer
  | fseek offset origin => exact Iff.rfl
  | ftell =>
    show q.aio.impl.offset = q.thread.impl.offset ↔ p.since = 0
    rw [h.offset, h.sought]
    omega

theorem afterIo (h : Tracks q p) (io : FileIo) (hanswer : answer ≠ .error eopnotsupp)
    (hok : q.InPlaceIo io answer) :
    Tracks (q.afterIo io answer) (p.afterIo io answer) := by
  have hsame := h.same.afterIo hanswer hok
  have hequal : (q.aio.aioBytes io answer).length = (q.thread.threadBytes io answer).length := by
    rcases hok with ⟨haio, hthread⟩ | hplace
    · rw [haio, hthread]
    · rw [bytes_eq h.same.content hplace]
  obtain ⟨r, t, heq, _, ht, _, hoffset, hkept, hposition⟩ := afterIo_spec h.same.sides io hanswer
  rw [heq] at hsame ⊢
  rw [hequal, h.length_threadBytes, h.offset] at hoffset
  rw [h.length_threadBytes, h.position] at hposition
  have hlength : r.content.length = t.content.length := congrArg List.length hsame.content
  have hcontent := congrArg List.length ht.content
  cases io with
  | read size =>
    refine ⟨hsame, ?_, hkept.trans h.sought, ?_, ?_⟩
    · exact hoffset.trans (by simp only [FileCursor.afterIo]; omega)
    · exact hposition.trans (Nat.add_assoc ..)
    · exact hlength.trans (hcontent.trans ((congrArg List.length h.same.content).symm.trans h.length))
  | write data =>
    refine ⟨hsame, ?_, hkept.trans h.sought, ?_, ?_⟩
    · exact hoffset.trans (by simp only [FileCursor.afterIo]; omega)
    · exact hposition.trans (Nat.add_assoc ..)
    · refine hlength.trans (hcontent.trans ?_)
      rw [FileIo.contentAfter, length_overwrite, h.length_threadBytes, h.position, ← h.same.content,
        h.length]
      rfl

/-- The step lemma. -/
theorem perform (h : Tracks q p) (he : machine.enabled q a) (hok : q.InPlace a) :
    Tracks (machine.perform q a) (p.perform a) := by
  have hsame := h.same.perform he hok
  cases a with
  | fread size answer => exact h.afterIo (.read size) (fun heq => he (congrArg some heq)) hok
  | fwrite data answer => exact h.afterIo (.write data) (fun heq => he (congrArg some heq)) hok
  | fseek offset origin =>
    obtain ⟨done, heq⟩ := afterSeek_spec h.same.sides offset origin
    rw [heq] at hsame ⊢
    have hoffset := h.offset
    have hsought := h.sought
    refine ⟨hsame, ?_, ?_, ?_, ?_⟩
    all_goals cases origin <;>
      simp only [FileRun.log, FileRun.sought, FileCursor.perform, h.position, h.length] <;> omega
  | ftell => exact ⟨hsame, h.offset, h.sought, h.position, h.length⟩

end Tracks

theorem tracks_start (fd : Nat) (content : List (BitVec 8)) :
    Tracks (start fd content) (.opened content.length) :=
  ⟨same_start fd content, rfl, rfl, rfl, rfl⟩

/-- The run lemma. -/
theorem Tracks.legal_iff {p : FileCursor} {as : List FileCall} (h : Tracks q p)
    (hl : machine.Legal q as) :
    (machine.restrict InPlace).Legal q as ↔ FileCursor.machine.Legal p as := by
  induction as generalizing q p with
  | nil => exact Iff.rfl
  | cons a as ih =>
    obtain ⟨he, hl⟩ := hl
    constructor
    · rintro ⟨⟨_, hok⟩, hrest⟩
      exact ⟨(h.inPlace_iff a).mp hok, (ih (h.perform he hok) hl).mp hrest⟩
    · rintro ⟨hplace, hrest⟩
      have hok := (h.inPlace_iff a).mpr hplace
      exact ⟨⟨he, hok⟩, (ih (h.perform he hok) hl).mpr hrest⟩

/-- For every content of the file and every sequence of calls, with any answers of the kernel, both sides
agree in all states of the run exactly when each call is made in place. That is a matter of the calls and of
the length of the file: a call of `bio_fread` or `bio_fwrite` moves nothing, or the seeks have led back to
where the last `SEEK_SET` found the file, and `bio_ftell` is not called when bytes were moved since. -/
theorem positions_agree_iff {fd : Nat} {content : List (BitVec 8)} {as : List FileCall}
    (hl : machine.Legal (start fd content) as) :
    (∀ bs, bs <+: as → (machine.run (start fd content) bs).Agree) ↔
      FileCursor.machine.Legal (.opened content.length) as :=
  (agree_iff_restrict hl).trans ((tracks_start fd content).legal_iff hl)

/-- A file is read from its beginning, and then up to its end. -/
theorem positions_agree_iff_read :
    let as : List FileCall := [.ftell, .fread 2 (.ok 2), .fread 10 (.ok 10), .fread 10 (.ok 10),
      .fseek 0 .set, .ftell]
    machine.Legal (start 3 [1, 2, 3]) as ∧
      ((∀ bs, bs <+: as → (machine.run (start 3 [1, 2, 3]) bs).Agree) ↔
        FileCursor.machine.Legal (.opened 3) as) ∧
      FileCursor.machine.Legal (.opened 3) as :=
  ⟨by decide +kernel, positions_agree_iff (by decide +kernel), by decide +kernel⟩

/-- Three bytes are written, and `bio_ftell` is called. -/
def writeTell : List FileCall := [.fwrite [1, 2, 3] (.ok 3), .ftell]

/-- Three bytes are written and read back. -/
def writeSeekRead : List FileCall := [.fwrite [1, 2, 3] (.ok 3), .fseek 0 .set, .fread 3 (.ok 3)]

/-- In the first run `bio_ftell` tells of the bytes on one side only. In the second one only one side reads
them. -/
theorem fallback_loses_position :
    machine.Legal (start 3 []) writeTell ∧
    (machine.run (start 3 []) writeTell).aio.returns = [.size 3, .offset 3] ∧
    (machine.run (start 3 []) writeTell).thread.returns = [.size 3, .offset 0] ∧
    ¬(machine.run (start 3 []) writeTell).Agree ∧
    machine.Legal (start 3 []) writeSeekRead ∧
    (machine.run (start 3 []) writeSeekRead).aio.reads = [(1, 0), (2, 1), (3, 2)] ∧
    (machine.run (start 3 []) writeSeekRead).thread.reads = [] ∧
    ¬(machine.run (start 3 []) writeSeekRead).Agree :=
  ⟨by decide +kernel, by decide +kernel, by decide +kernel,
    fun h => absurd h.returns (by decide +kernel), by decide +kernel, by decide +kernel,
    by decide +kernel, fun h => absurd h.reads (by decide +kernel)⟩

/-! ## Streams -/

/-- Only `bio_fread` and `bio_fwrite` are called. -/
def Streams (_ : FilePair) (a : FileCall) : Prop := a.answer ≠ none

theorem streams_agree (hr : (machine.restrict Streams).Reachable q) : q.Agree := by
  have h : q.Same ∧ q.aio.impl.offset = q.thread.position := by
    refine Machine.invariant (P := fun t : FilePair =>
      t.Same ∧ t.aio.impl.offset = t.thread.position) (fun t ht => ?_)
      (fun t a _ ⟨h, hplace⟩ he => ?_) hr
    · obtain ⟨fd, content, rfl⟩ : ∃ fd content, t = start fd content := ht
      exact ⟨same_start fd content, rfl⟩
    · have hio : ∀ io answer, answer ≠ .error eopnotsupp → (t.afterIo io answer).Same ∧
          (t.afterIo io answer).aio.impl.offset = (t.afterIo io answer).thread.position := by
        intro io answer hanswer
        refine ⟨h.afterIo hanswer (.inr hplace), ?_⟩
        obtain ⟨r, r', heq, _, _, _, hoffset, _, hposition⟩ := afterIo_spec h.sides io hanswer
        rw [heq]
        show r.impl.offset = r'.position
        rw [hoffset, hposition, bytes_eq h.content hplace, hplace]
        exact (Int.natCast_add _ _).symm
      cases a with
      | fread size answer => exact hio (.read size) answer fun heq => he.1 (congrArg some heq)
      | fwrite data answer => exact hio (.write data) answer fun heq => he.1 (congrArg some heq)
      | fseek offset origin => exact absurd rfl he.2
      | ftell => exact absurd rfl he.2
  exact h.1.agree

end FilePair

end Bio
