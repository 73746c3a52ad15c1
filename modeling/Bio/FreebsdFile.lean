import Bio.File
import Mathlib.Data.Finset.Basic

/-!
# Files on FreeBSD

`src/freebsd/file.c` from the moment at which a file is open. The first operation on a file finds out
whether the kernel has asynchronous requests for it. If so, an operation submits an `aiocb`, which is one
of its local variables, and waits for the event of it. Otherwise it waits for a system call in the async
thread.

* `objects` is the memory of the file objects, `handles` are the handles that resolve to them. An object
  that is neither freed nor has a handle is lost. `bio_fs_init` and `bio_fdopen` are left out: their
  descriptors are not from `bio_fopen`.
* `impl->aio` points into the frame of the coroutine that it names.
* The kernel and the thread are free in their answers. `aio_cancel` stops only a request that has not
  completed, and tells of one that has.
* `stale` and `busy` are ghosts: the coroutines that have dereferenced a null pointer or an object that
  was freed, and the calls of `bio_fclose` that returned `EBUSY`, with whether the handle was still valid.
-/

namespace Bio

/-- `bio_aio_support_t`. -/
inductive AioSupport
  | unknown | enabled | disabled
deriving DecidableEq, Repr

/-- `bio_file_impl_t`. -/
structure AioFile where
  fd : Nat
  offset : Int
  seekable : Bool
  aioSupport : AioSupport
  aio : Option Handle
deriving DecidableEq, Repr

inductive AioOp
  | read | write | fsync
deriving DecidableEq, Repr

/-- What `aio_cancel` returns. -/
inductive AioCancel
  | canceled | notCanceled | allDone | failed
deriving DecidableEq, Repr

open FreebsdErrno (ebusy eopnotsupp ecanceled)

/-- An operation that waits, for its request or for the async thread. `aioSupport` is the case of its
switch, `result` what the request or the system call ended with. -/
structure AioFrame where
  op : AioOp
  file : Handle
  aioSupport : AioSupport
  thread : Bool
  cancelled : Bool
  result : Option (Except Nat Nat)
deriving DecidableEq

structure AioState where
  handles : Finset Handle
  objects : Handle → Option AioFile
  /-- the coroutines inside an operation -/
  frames : Handle → Option AioFrame
  issued : List Handle
  /-- the descriptors of `bio_fopen` that are open -/
  fds : Finset Nat
  stale : List Handle
  busy : List (Handle × Bool)

namespace AioState

def setObject (s : AioState) (file : Handle) (impl : Option AioFile) : AioState :=
  { s with objects := Function.update s.objects file impl }

def setFrame (s : AioState) (c : Handle) (f : Option AioFrame) : AioState :=
  { s with frames := Function.update s.frames c f }

/-- `bio_resolve_handle`. -/
def resolve (s : AioState) (file : Handle) : Option AioFile :=
  if file ∈ s.handles then s.objects file else none

/-- `bio_file_from_fd`, with the handle that the file gets. -/
def fileFromFd (s : AioState) (fd : Nat) (offset : Int) (seekable : Bool) (handle : Handle) :
    AioState :=
  { s.setObject handle (some ⟨fd, if seekable then offset else 0, seekable, .unknown, none⟩) with
    handles := insert handle s.handles
    issued := handle :: s.issued }

/-- `bio_fopen`, when `open` has returned a descriptor and `lseek` an offset. -/
def fopen (s : AioState) (fd : Nat) (offset : Int) (handle : Handle) : AioState :=
  { s.fileFromFd fd offset (0 ≤ offset) handle with fds := insert fd s.fds }

/-- What an operation returns when it fails. -/
def failed : AioOp → FileReturn
  | .read | .write => .size 0
  | .fsync => .success false

/-- What an operation returns when it succeeds. -/
def succeeded (n : Nat) : AioOp → FileReturn
  | .read | .write => .size n
  | .fsync => .success true

def returned (op : AioOp) : Except Nat Nat → FileReturn × Option FileError
  | .ok n => (succeeded n op, none)
  | .error e => (failed op, some (.errno e))

/-- The wait of `bio_run_async_and_wait`. -/
def inAsyncThread (s : AioState) (c file : Handle) (op : AioOp) : AioState :=
  s.setFrame c (some ⟨op, file, .disabled, true, false, none⟩)

/-- `bio_fread_aio`, `bio_fwrite_aio` and `bio_fsync_aio` up to their wait, with the error of the
submission. -/
def submitAio (s : AioState) (c file : Handle) (impl : AioFile) (op : AioOp)
    (submission : Option Nat) : AioState × Option Nat :=
  if impl.aio ≠ none then (s, some ebusy)
  else
    match submission with
    | some e => (s, some e)
    | none =>
      ((s.setObject file (some { impl with aio := some c })).setFrame c
        (some ⟨op, file, impl.aioSupport, false, false, none⟩), none)

/-- An operation up to its wait, or with what it returns at once. -/
def operation (op : AioOp) (s : AioState) (c file : Handle) (submission : Option Nat) :
    AioState × Option (FileReturn × Option FileError) :=
  match s.resolve file with
  | some impl =>
    match impl.aioSupport with
    | .unknown =>
      match s.submitAio c file impl op submission with
      | (s, some e) =>
        if e = eopnotsupp then
          ((s.setObject file (some { impl with aioSupport := .disabled })).inAsyncThread c file op,
            none)
        else (s, some (returned op (.error e)))
      | (s, none) => (s, none)
    | .enabled =>
      match s.submitAio c file impl op submission with
      | (s, some e) => (s, some (returned op (.error e)))
      | (s, none) => (s, none)
    | .disabled => (s.inAsyncThread c file op, none)
  | none => (s, some (failed op, some (.core .invalidArgument)))

def fread := operation .read
def fwrite := operation .write
def fflush := operation .fsync

/-- The object behind the pointer that an operation has from its beginning. -/
def touch (s : AioState) (c file : Handle) (g : AioFile → AioFile) : AioState :=
  match s.objects file with
  | some impl => s.setObject file (some (g impl))
  | none => { s with stale := s.stale ++ [c] }

/-- The offset is moved, through the pointer that the operation got behind its wait. -/
def advance (s : AioState) (c file : Handle) (n : Nat) : AioState :=
  match s.resolve file with
  | some impl =>
    if impl.seekable then s.setObject file (some { impl with offset := impl.offset + n }) else s
  | none => { s with stale := s.stale ++ [c] }

/-- `impl->aio` is null again when the file is still open. -/
def clearAio (s : AioState) (file : Handle) : AioState :=
  match s.resolve file with
  | some impl => s.setObject file (some { impl with aio := none })
  | none => s

/-- `bio_fread_aio`, `bio_fwrite_aio` and `bio_fsync_aio` behind their wait. -/
def finishAio (s : AioState) (c : Handle) (f : AioFrame) (result : Except Nat Nat) :
    AioState × Except Nat Nat :=
  let s := s.clearAio f.file
  if f.cancelled then (s, .error ecanceled)
  else
    match result with
    | .error e => (s, .error e)
    | .ok n =>
      match f.op with
      | .read | .write => (s.advance c f.file n, .ok n)
      | .fsync => (s, .ok n)

/-- An operation behind its wait. It may go on in the async thread. -/
def finish (s : AioState) (c : Handle) (f : AioFrame) (result : Except Nat Nat) :
    AioState × Option (FileReturn × Option FileError) :=
  if f.thread then (s, some (returned f.op result))
  else
    let (s, result) := s.finishAio c f result
    match f.aioSupport with
    | .unknown =>
      match result with
      | .ok n =>
        (s.touch c f.file fun impl => { impl with aioSupport := .enabled },
          some (returned f.op (.ok n)))
      | .error e =>
        if e = eopnotsupp then
          ((s.touch c f.file fun impl => { impl with aioSupport := .disabled }).inAsyncThread c f.file
            f.op, none)
        else (s, some (returned f.op (.error e)))
    | .enabled | .disabled => (s, some (returned f.op result))

/-- The request, or the system call in the thread, ends. -/
def complete (s : AioState) (c : Handle) (result : Except Nat Nat) : AioState :=
  match s.frames c with
  | some f => s.setFrame c (some { f with result := some result })
  | none => s

/-- The coroutine goes on behind its wait. -/
def resume (s : AioState) (c : Handle) : AioState :=
  match s.frames c with
  | some f =>
    match f.result with
    | some result => ((s.setFrame c none).finish c f result).1
    | none => s
  | none => s

/-- `aio_cancel` on the request of the coroutine `d`. -/
def aioCancel (s : AioState) (d : Handle) (answer : AioCancel) : AioState :=
  match answer with
  | .canceled => s.complete d (.error ecanceled)
  | .notCanceled | .allDone | .failed => s

/-- The object is freed and the descriptor closed, with the error of `close`. -/
def release (s : AioState) (file : Handle) (impl : AioFile) (errno : Option Nat) :
    AioState × FileReturn × Option FileError :=
  ({ s.setObject file none with fds := s.fds.erase impl.fd },
    .success errno.isNone, errno.map fun e => .errno e)

/-- `bio_fclose`. The handle is closed first. -/
def fclose (s : AioState) (file : Handle) (answer : AioCancel) (errno : Option Nat) :
    AioState × FileReturn × Option FileError :=
  match s.resolve file with
  | some impl =>
    let s := { s with handles := s.handles.erase file }
    match impl.aio with
    | some d =>
      let s := s.aioCancel d answer
      if answer = .notCanceled then
        ({ s with busy := s.busy ++ [(file, decide (file ∈ s.handles))] }, .success false,
          some (.errno ebusy))
      else s.release file impl errno
    | none => s.release file impl errno
  | none => (s, .success false, some (.core .invalidArgument))

end AioState

inductive AioAction
  | fopen (c : Handle) (fd : Nat) (offset : Int) (handle : Handle)
  | fread (c file : Handle) (submission : Option Nat)
  | fwrite (c file : Handle) (submission : Option Nat)
  | fflush (c file : Handle) (submission : Option Nat)
  | fclose (c file : Handle) (answer : AioCancel) (errno : Option Nat)
  | complete (c : Handle) (result : Except Nat Nat)
  | resume (c : Handle)
deriving DecidableEq

namespace AioState

def init : AioState := ⟨∅, fun _ => none, fun _ => none, [], ∅, [], []⟩

/-- What `aio_cancel` may answer for the request of an operation. -/
def CanAnswer (f : AioFrame) : AioCancel → Prop
  | .canceled | .notCanceled => f.result = none
  | .allDone => f.result ≠ none
  | .failed => True

instance (f : AioFrame) : ∀ answer, Decidable (CanAnswer f answer)
  | .canceled | .notCanceled => inferInstanceAs (Decidable (f.result = none))
  | .allDone => inferInstanceAs (Decidable (f.result ≠ none))
  | .failed => .isTrue trivial

/-- A coroutine inside an operation does nothing else. The kernel returns no descriptor that is open. -/
def enabled (s : AioState) : AioAction → Prop
  | .fopen c fd _ handle => s.frames c = none ∧ fd ∉ s.fds ∧ handle ∉ s.issued
  | .fread c _ _ | .fwrite c _ _ | .fflush c _ _ => s.frames c = none
  | .fclose c file answer _ => s.frames c = none ∧ ∀ impl ∈ s.resolve file, ∀ d ∈ impl.aio,
      ∀ f ∈ s.frames d, CanAnswer f answer
  | .complete c _ => ∃ f ∈ s.frames c, f.result = none
  | .resume c => ∃ f ∈ s.frames c, f.result ≠ none

def perform (s : AioState) : AioAction → AioState
  | .fopen _ fd offset handle => s.fopen fd offset handle
  | .fread c file submission => (s.fread c file submission).1
  | .fwrite c file submission => (s.fwrite c file submission).1
  | .fflush c file submission => (s.fflush c file submission).1
  | .fclose _ file answer errno => (s.fclose file answer errno).1
  | .complete c result => s.complete c result
  | .resume c => s.resume c

/-- All interleavings of the operations of any number of coroutines on any number of files. -/
def machine : Machine AioState AioAction where
  init := fun s => s = init
  enabled := enabled
  perform := perform

instance (s : AioState) : ∀ a, Decidable (machine.enabled s a)
  | .fopen c fd _ handle =>
    inferInstanceAs (Decidable (s.frames c = none ∧ fd ∉ s.fds ∧ handle ∉ s.issued))
  | .fread c _ _ | .fwrite c _ _ | .fflush c _ _ => inferInstanceAs (Decidable (s.frames c = none))
  | .fclose c file answer _ => inferInstanceAs (Decidable (s.frames c = none ∧
      ∀ impl ∈ s.resolve file, ∀ d ∈ impl.aio, ∀ f ∈ s.frames d, CanAnswer f answer))
  | .complete c _ => inferInstanceAs (Decidable (∃ f ∈ s.frames c, f.result = none))
  | .resume c => inferInstanceAs (Decidable (∃ f ∈ s.frames c, f.result ≠ none))

end AioState

end Bio
