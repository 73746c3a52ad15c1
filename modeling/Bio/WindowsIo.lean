import Bio.SchedulerLocal
import Bio.File
import Bio.WindowsPipe

/-!
# Overlapped requests on Windows

`bio_fdopen`, `bio_fread`, `bio_fwrite`, `bio_fseek` and `bio_fclose` of `src/windows/file.c`, and the
calls that send and receive on a socket of `src/windows/net/ws.c` or `src/windows/net/pipe.c`. The
request of a call is a local variable of it. The kernel has a pointer to it until the operation ends, and the
completion port has it until `bio_platform_update` takes the packet.

* An operation that is pending posts a packet when it ends. One that succeeds at once posts a packet too,
  unless its handle skips that. The code keeps what the kernel does in `completion_mode`.
* A file calls the kernel in a job of the thread pool. A job runs once and at any time before
  `bio_run_async_and_wait` returns (`async_jobs_exact`), and what that call does with the scheduler is
  left to the actions of the rest of the program. The same holds of the job of `bio_fclose`.
* Nothing checks that an object is still there when a call goes back to it. `dangled`: a packet was taken
  after the call with the request had returned. `stale`: an object was used after it was freed.
* `wrapped` is a ghost: an object has been made for the handle.
-/

namespace Bio

/-- `MAXDWORD`, and `ULONG_MAX`. -/
def maxDword : Nat := 2 ^ 32 - 1

inductive IoKind
  | file | socket
deriving DecidableEq, Repr

/-- How far an object is closed. -/
inductive IoStage
  | opened
  /-- in `bio_fclose`, before `CloseHandle` -/
  | closing
  | closed
deriving DecidableEq, Repr

/-- `bio_file_impl_t`, or what the two kinds of sockets have in common. -/
structure IoImpl where
  kind : IoKind
  handle : Nat
  completionMode : CompletionMode
  offset : Nat
  stage : IoStage
deriving DecidableEq, Repr

/-- What the kernel has behind a handle. -/
structure FileObject where
  /-- with the completion port -/
  associated : Bool
  /-- `FILE_SKIP_COMPLETION_PORT_ON_SUCCESS` -/
  skips : Bool
  wrapped : Bool
deriving DecidableEq, Repr

/-- An operation that succeeds at once posts a packet. -/
def FileObject.posts (o : FileObject) : Bool := o.associated && !o.skips

/-- What the kernel returns from a call. -/
inductive CallResult
  | success (transferred : Nat)
  | pending
  | error (code : Nat)
deriving DecidableEq, Repr

/-- The locals of a call: its request, and the arguments of its job. -/
structure IoFrame where
  call : Nat
  kind : IoKind
  impl : Handle
  handle : Nat
  size : Nat
  offset : Nat
  signal : Handle
  /-- what the kernel has returned -/
  result : Option CallResult
  /-- in `bio_wait_for_one_signal`, for the request -/
  waiting : Bool
deriving DecidableEq, Repr

structure WindowsIo where
  sched : Sched
  /-- the objects that are allocated, by their handles -/
  memory : Handle → Option IoImpl
  objects : Nat → Option FileObject
  frames : Handle → Option IoFrame
  calls : Nat
  /-- the operations that are pending -/
  inFlight : List (Handle × Nat)
  /-- the packets of the completion port -/
  port : List (Handle × Nat)
  dangled : Bool
  stale : Bool

/-- What a call returns, if it does not wait. -/
abbrev IoReturn := Option (Except FileError Nat)

namespace WindowsIo

def setImpl (s : WindowsIo) (h : Handle) (impl : Option IoImpl) : WindowsIo :=
  { s with memory := Function.update s.memory h impl }

def setFrame (s : WindowsIo) (c : Handle) (f : Option IoFrame) : WindowsIo :=
  { s with frames := Function.update s.frames c f }

def setObject (s : WindowsIo) (handle : Nat) (o : Option FileObject) : WindowsIo :=
  { s with objects := Function.update s.objects handle o }

/-- The locals behind a pointer to a request. -/
def frame (s : WindowsIo) (p : Handle × Nat) : Option IoFrame :=
  (s.frames p.1).filter fun f => f.call = p.2

/-- `bio_resolve_handle` with the tag of files or of sockets. -/
def resolve (s : WindowsIo) (kind : IoKind) (h : Handle) : Option IoImpl :=
  (s.memory h).filter fun impl => impl.kind = kind ∧ impl.stage = .opened

def raise (s : WindowsIo) (signal : Handle) : WindowsIo :=
  { s with sched := (s.sched.raiseSignal signal).1 }

/-! ## Requests -/

/-- What a call of the kernel does with a request. -/
def kernelCall (s : WindowsIo) (p : Handle × Nat) (handle : Nat) : CallResult → WindowsIo
  | .success _ => if (s.objects handle).any FileObject.posts then { s with port := s.port ++ [p] } else s
  | .pending => { s with inFlight := s.inFlight ++ [p] }
  | .error _ => s

/-- `bio_prepare_io_req`, in a call with these locals. -/
def prepareIoReq (s : WindowsIo) (c : Handle) (f : IoFrame) : WindowsIo :=
  { s.setFrame c (some f) with sched := s.sched.makeSignal c f.signal, calls := s.calls + 1 }

/-- `bio_wait_for_io`. -/
def waitForIo (s : WindowsIo) (c : Handle) (f : IoFrame) : WindowsIo :=
  { s.setFrame c (some { f with waiting := true }) with
    sched := s.sched.waitForSignals c [f.signal] true }

/-- A call returns the number of bytes. For a file it moves the offset first. -/
def transferred (s : WindowsIo) (c : Handle) (f : IoFrame) (n : Nat) : WindowsIo × IoReturn :=
  match f.kind, s.memory f.impl with
  | .socket, _ => (s.setFrame c none, some (.ok n))
  | .file, some impl =>
    ((s.setImpl f.impl (some { impl with offset := (impl.offset + n) % 2 ^ 64 })).setFrame c none,
      some (.ok n))
  | .file, none => ({ s with stale := true }, none)

/-- `bio_maybe_wait_after_success`, and the end of the call when it does not wait. -/
def maybeWaitAfterSuccess (s : WindowsIo) (c : Handle) (f : IoFrame) (mode : CompletionMode) (n : Nat) :
    WindowsIo × IoReturn :=
  if mode = .skipOnSuccess then (s.raise f.signal).transferred c f n
  else (s.waitForIo c f, none)

/-- `bio_fread` and `bio_fwrite` behind their job. -/
def afterJob (s : WindowsIo) (c : Handle) (f : IoFrame) : WindowsIo × IoReturn :=
  match f.result with
  | some (.success n) =>
    match s.memory f.impl with
    | some impl => s.maybeWaitAfterSuccess c f impl.completionMode n
    | none => ({ s with stale := true }, none)
  | some .pending => (s.waitForIo c f, none)
  | some (.error e) => (s.setFrame c none, some (.error (.errno e)))
  | none => (s, none)

/-- A call behind the wait for its request, with the answer of `GetOverlappedResult`. -/
def afterWait (s : WindowsIo) (c : Handle) (f : IoFrame) (overlapped : Except Nat Nat) :
    WindowsIo × IoReturn :=
  match f.result with
  | some (.success n) => s.transferred c f n
  | some .pending =>
    match s.memory f.impl, overlapped with
    | some _, .ok n => s.transferred c f n
    | some _, .error e => (s.setFrame c none, some (.error (.errno e)))
    | none, _ => ({ s with stale := true }, none)
  | _ => (s, none)

/-! ## Files -/

/-- `bio_fdopen`, with the answers of `CreateIoCompletionPort` and
`SetFileCompletionNotificationModes`. -/
def fdopen (s : WindowsIo) (handle : Nat) (h : Handle) (port skips : Bool) : WindowsIo :=
  let mode := if port && !skips then .always else .skipOnSuccess
  let s := s.setObject handle ((s.objects handle).map fun o =>
    ⟨o.associated || port, o.skips || (port && skips), true⟩)
  { s.setImpl h (some ⟨.file, handle, mode, 0, .opened⟩) with sched := s.sched.perform (.issue h) }

/-- `bio_fread` and `bio_fwrite` up to their job. -/
def rw (s : WindowsIo) (c h signal : Handle) (size : Nat) : WindowsIo × IoReturn :=
  match s.resolve .file h with
  | some impl =>
    (s.prepareIoReq c
      ⟨s.calls, .file, h, impl.handle, min size maxDword, impl.offset, signal, none, false⟩, none)
  | none => (s, some (.error (.core .invalidArgument)))

def fread := rw
def fwrite := rw

/-- `bio_fs_read_file` and `bio_fs_write_file`, the jobs. -/
def rwFile (s : WindowsIo) (c : Handle) (f : IoFrame) (result : CallResult) : WindowsIo :=
  (s.setFrame c (some { f with result := some result })).kernelCall (c, f.call) f.handle result

/-- `ERROR_NOT_SUPPORTED`. -/
def errorNotSupported : Int := 50

/-- Where `bio_fseek` moves the offset. The third argument may be no origin at all (`none`). -/
def seekTo (impl : IoImpl) (offset : Int) : Option Whence → Option Nat
  | some .cur => some ((impl.offset + offset) % 2 ^ 64).toNat
  | some .set => some (offset % 2 ^ 64).toNat
  | some .fromEnd | none => none

/-- `bio_fseek`. -/
def fseek (s : WindowsIo) (h : Handle) (offset : Int) (origin : Option Whence) :
    WindowsIo × Option FileError :=
  match s.resolve .file h with
  | some impl =>
    match seekTo impl offset origin with
    | some position => (s.setImpl h (some { impl with offset := position }), none)
    | none =>
      (s, some (if origin = none then .core .invalidArgument else .errno errorNotSupported))
  | none => (s, some (.core .invalidArgument))

/-- `bio_fclose` up to its job. -/
def fclose (s : WindowsIo) (h : Handle) : WindowsIo × Option FileError :=
  match s.resolve .file h with
  | some impl => (s.setImpl h (some { impl with stage := .closing }), none)
  | none => (s, some (.errno errorInvalidHandle))

/-- `bio_fs_close_file`, the job of `bio_fclose`. -/
def closeFile (s : WindowsIo) (h : Handle) (impl : IoImpl) : WindowsIo :=
  (s.setImpl h (some { impl with stage := .closed })).setObject impl.handle none

/-! ## Sockets -/

/-- `bio_net_make_socket`, for a handle that has been associated with the completion port. `init`: the
completion mode has been initialized, with or without success. -/
def netMakeSocket (s : WindowsIo) (handle : Nat) (h : Handle) (init : Option Bool) : WindowsIo :=
  let mode := match init with
    | none => CompletionMode.unknown
    | some skips => if skips then .skipOnSuccess else .always
  let s := s.setObject handle ((s.objects handle).map fun o => ⟨true, o.skips || init = some true, true⟩)
  { s.setImpl h (some ⟨.socket, handle, mode, 0, .opened⟩) with sched := s.sched.perform (.issue h) }

/-- `bio_net_ws_init_completion_mode` and `bio_net_pipe_init_completion_mode`, when it is unknown.
`skips`: `SetFileCompletionNotificationModes` was called and succeeded. -/
def initCompletionMode (s : WindowsIo) (h : Handle) (impl : IoImpl) (skips : Bool) :
    WindowsIo × CompletionMode :=
  if impl.completionMode = .unknown then
    let mode := if skips then .skipOnSuccess else .always
    ((s.setImpl h (some { impl with completionMode := mode })).setObject impl.handle
      ((s.objects impl.handle).map fun o => { o with skips := o.skips || skips }), mode)
  else (s, impl.completionMode)

/-- `bio_net_send` and `bio_net_recv`, up to their wait or with what they return at once. -/
def netTransfer (s : WindowsIo) (c h signal : Handle) (size : Nat) (skips : Bool) (result : CallResult) :
    WindowsIo × IoReturn :=
  match s.resolve .socket h with
  | some impl =>
    let (s, mode) := s.initCompletionMode h impl skips
    let f := ⟨s.calls, .socket, h, impl.handle, min size maxDword, 0, signal, some result, false⟩
    let s := (s.prepareIoReq c f).kernelCall (c, f.call) impl.handle result
    match result with
    | .success n => s.maybeWaitAfterSuccess c f mode n
    | .pending => (s.waitForIo c f, none)
    | .error e => (s.setFrame c none, some (.error (.errno e)))
  | none => (s, some (.error (.errno errorInvalidHandle)))

def netSend := netTransfer
def netRecv := netTransfer

/-- `bio_net_close`. -/
def netClose (s : WindowsIo) (h : Handle) : WindowsIo × Option FileError :=
  match s.resolve .socket h with
  | some impl => ((s.setImpl h none).setObject impl.handle none, none)
  | none => (s, some (.errno errorInvalidHandle))

/-! ## The completion port -/

/-- `bio_platform_process_events`, for one packet of a request. -/
def dispatch (s : WindowsIo) (p : Handle × Nat) : WindowsIo :=
  match s.frame p with
  | some f => s.raise f.signal
  | none => { s with dangled := true }

/-- `bio_platform_update`, which takes `n` packets. -/
def platformUpdate (s : WindowsIo) (n : Nat) : WindowsIo :=
  { (s.port.take n).foldl dispatch s with port := s.port.drop n }

/-! ## The machine -/

/-- The coroutine that runs is in a call. -/
def busy (s : WindowsIo) : Bool := s.sched.phase.mcoRunning.any fun c => (s.frames c).isSome

/-- It is in the wait for its request. -/
def blocked (s : WindowsIo) : Bool :=
  s.sched.phase.mcoRunning.any fun c => (s.frames c).any IoFrame.waiting

/-- A live signal of a request. -/
def isLocal (s : WindowsIo) (h : Handle) : Bool :=
  (s.sched.ownerOf h).any fun c => (s.frames c).any fun f => f.signal = h

end WindowsIo

inductive WindowsAction
  /-- the rest of the program, and what `bio_run_async_and_wait` does -/
  | sched (a : Action)
  /-- the kernel gives out a handle -/
  | create (handle : Nat)
  | fdopen (handle : Nat) (h : Handle) (port skips : Bool)
  | makeSocket (handle : Nat) (h : Handle) (init : Option Bool)
  | fread (h signal : Handle) (size : Nat)
  | fwrite (h signal : Handle) (size : Nat)
  /-- the job of a call of `c` -/
  | rwFile (c : Handle) (result : CallResult)
  /-- the coroutine that runs goes on behind its job -/
  | afterJob
  | netSend (h signal : Handle) (size : Nat) (skips : Bool) (result : CallResult)
  | netRecv (h signal : Handle) (size : Nat) (skips : Bool) (result : CallResult)
  /-- the coroutine that runs goes on behind the wait for its request -/
  | afterWait (overlapped : Except Nat Nat)
  /-- an operation that was pending ends -/
  | complete (p : Handle × Nat)
  | fseek (h : Handle) (offset : Int) (origin : Option Whence)
  | fclose (h : Handle)
  | closeFile (h : Handle)
  /-- `bio_fclose` behind its job -/
  | free (h : Handle)
  | netClose (h : Handle)
  | platformUpdate (n : Nat)

namespace WindowsIo

/-- What the kernel may return for a handle. Only one with support for overlapped operations has some
that are pending, and it was associated with the completion port when it was wrapped. -/
def CanReturn (s : WindowsIo) (handle size : Nat) : CallResult → Prop
  | .success n => (s.objects handle).isSome ∧ n ≤ size
  | .pending => (s.objects handle).any FileObject.associated
  | .error _ => True

instance (s : WindowsIo) (handle size : Nat) : ∀ result, Decidable (s.CanReturn handle size result)
  | .success n => inferInstanceAs (Decidable ((s.objects handle).isSome ∧ n ≤ size))
  | .pending => inferInstanceAs (Decidable ((s.objects handle).any FileObject.associated = true))
  | .error _ => .isTrue trivial

/-- A coroutine that is in no call makes one. -/
def CanCall (s : WindowsIo) (signal : Handle) : Prop :=
  s.busy = false ∧ s.sched.Fresh signal ∧
    s.sched.phase.mcoRunning.any (fun c => s.sched.CanCount c) = true

instance (s : WindowsIo) (signal : Handle) : Decidable (s.CanCall signal) :=
  inferInstanceAs (Decidable (s.busy = false ∧ s.sched.Fresh signal ∧
    s.sched.phase.mcoRunning.any (fun c => s.sched.CanCount c) = true))

/-- A socket may be called, with these answers of the kernel. -/
def CanTransfer (s : WindowsIo) (h signal : Handle) (size : Nat) (skips : Bool) (result : CallResult) :
    Prop :=
  s.CanCall signal ∧ ∀ impl ∈ s.memory h,
    s.CanReturn impl.handle (min size maxDword) result ∧ (skips = true → (s.objects impl.handle).isSome)

instance (s : WindowsIo) (h signal : Handle) (size : Nat) (skips : Bool) (result : CallResult) :
    Decidable (s.CanTransfer h signal size skips result) :=
  inferInstanceAs (Decidable (s.CanCall signal ∧ ∀ impl ∈ s.memory h,
    s.CanReturn impl.handle (min size maxDword) result ∧
      (skips = true → (s.objects impl.handle).isSome)))

/-- No object has been made for the handle. -/
def unwrapped (s : WindowsIo) (handle : Nat) : Bool := (s.objects handle).any fun o => !o.wrapped

/-- The handle is not associated with the completion port. -/
def unassociated (s : WindowsIo) (handle : Nat) : Bool := (s.objects handle).any fun o => !o.associated

def enabled (s : WindowsIo) : WindowsAction → Prop
  | .sched a => s.stale = false ∧ s.sched.enabled a ∧ s.blocked = false ∧
      (a = .finish → s.busy = false) ∧ ∀ h ∈ a.signals, s.isLocal h = false
  | .create handle => s.stale = false ∧ s.objects handle = none
  | .fdopen handle h port _ => s.stale = false ∧ s.sched.phase.userCode = true ∧ s.busy = false ∧
      s.sched.Fresh h ∧ (port = true → s.unassociated handle = true)
  | .makeSocket handle h _ => s.stale = false ∧ s.sched.phase.userCode = true ∧ s.busy = false ∧
      s.sched.Fresh h ∧ s.unassociated handle = true
  | .fread _ signal _ | .fwrite _ signal _ => s.stale = false ∧ s.CanCall signal
  | .rwFile c result => s.stale = false ∧ ∃ f ∈ s.frames c, f.result = none ∧
      s.CanReturn f.handle f.size result
  | .afterJob => s.stale = false ∧ ∃ c ∈ s.sched.phase.mcoRunning, ∃ f ∈ s.frames c,
      f.waiting = false ∧ f.result ≠ none ∧ s.sched.CanCount c
  | .netSend h signal size skips result | .netRecv h signal size skips result => s.stale = false ∧
      s.CanTransfer h signal size skips result
  | .afterWait overlapped => s.stale = false ∧ ∃ c ∈ s.sched.phase.mcoRunning, ∃ f ∈ s.frames c,
      f.waiting = true ∧ ∀ n ∈ overlapped.toOption, n ≤ f.size
  | .complete p => s.stale = false ∧ p ∈ s.inFlight
  | .fseek _ _ _ | .fclose _ | .netClose _ => s.stale = false ∧ s.sched.phase.userCode = true ∧
      s.busy = false
  | .closeFile h => s.stale = false ∧ ∃ impl ∈ s.memory h, impl.stage = .closing
  | .free h => s.stale = false ∧ ∃ impl ∈ s.memory h, impl.stage = .closed
  | .platformUpdate _ => s.stale = false ∧ s.sched.phase = .polling

/-- The effect of a call by the coroutine that runs. -/
def inCoro (s : WindowsIo) (g : Handle → WindowsIo) : WindowsIo :=
  match s.sched.phase.mcoRunning with
  | some c => g c
  | none => s

def perform (s : WindowsIo) : WindowsAction → WindowsIo
  | .sched a => { s with sched := s.sched.perform a }
  | .create handle => s.setObject handle (some ⟨false, false, false⟩)
  | .fdopen handle h port skips => s.fdopen handle h port skips
  | .makeSocket handle h init => s.netMakeSocket handle h init
  | .fread h signal size => s.inCoro fun c => (s.fread c h signal size).1
  | .fwrite h signal size => s.inCoro fun c => (s.fwrite c h signal size).1
  | .rwFile c result =>
    match s.frames c with
    | some f => s.rwFile c f result
    | none => s
  | .afterJob => s.inCoro fun c =>
    match s.frames c with
    | some f => (s.afterJob c f).1
    | none => s
  | .netSend h signal size skips result =>
    s.inCoro fun c => (s.netSend c h signal size skips result).1
  | .netRecv h signal size skips result =>
    s.inCoro fun c => (s.netRecv c h signal size skips result).1
  | .afterWait overlapped => s.inCoro fun c =>
    match s.frames c with
    | some f => (s.afterWait c f overlapped).1
    | none => s
  | .complete p => { s with inFlight := s.inFlight.erase p, port := s.port ++ [p] }
  | .fseek h offset origin => (s.fseek h offset origin).1
  | .fclose h => (s.fclose h).1
  | .closeFile h =>
    match s.memory h with
    | some impl => s.closeFile h impl
    | none => s
  | .free h => s.setImpl h none
  | .netClose h => (s.netClose h).1
  | .platformUpdate n => s.platformUpdate n

def init : WindowsIo :=
  ⟨Sched.init, fun _ => none, fun _ => none, fun _ => none, 0, [], [], false, false⟩

/-- All interleavings of any number of coroutines on any number of files and sockets, with the thread
pool and the kernel. -/
def machine : Machine WindowsIo WindowsAction where
  init := fun s => s = init
  enabled := enabled
  perform := perform

instance (s : WindowsIo) : ∀ a, Decidable (machine.enabled s a)
  | .sched a => inferInstanceAs (Decidable (s.stale = false ∧ s.sched.enabled a ∧ s.blocked = false ∧
      (a = .finish → s.busy = false) ∧ ∀ h ∈ a.signals, s.isLocal h = false))
  | .create handle => inferInstanceAs (Decidable (s.stale = false ∧ s.objects handle = none))
  | .fdopen handle h port _ => inferInstanceAs (Decidable (s.stale = false ∧
      s.sched.phase.userCode = true ∧ s.busy = false ∧ s.sched.Fresh h ∧
      (port = true → s.unassociated handle = true)))
  | .makeSocket handle h _ => inferInstanceAs (Decidable (s.stale = false ∧
      s.sched.phase.userCode = true ∧ s.busy = false ∧ s.sched.Fresh h ∧
      s.unassociated handle = true))
  | .fread _ signal _ | .fwrite _ signal _ =>
    inferInstanceAs (Decidable (s.stale = false ∧ s.CanCall signal))
  | .rwFile c result => inferInstanceAs (Decidable (s.stale = false ∧ ∃ f ∈ s.frames c,
      f.result = none ∧ s.CanReturn f.handle f.size result))
  | .afterJob => inferInstanceAs (Decidable (s.stale = false ∧ ∃ c ∈ s.sched.phase.mcoRunning,
      ∃ f ∈ s.frames c, f.waiting = false ∧ f.result ≠ none ∧ s.sched.CanCount c))
  | .netSend h signal size skips result | .netRecv h signal size skips result =>
    inferInstanceAs (Decidable (s.stale = false ∧ s.CanTransfer h signal size skips result))
  | .afterWait overlapped => inferInstanceAs (Decidable (s.stale = false ∧
      ∃ c ∈ s.sched.phase.mcoRunning, ∃ f ∈ s.frames c,
        f.waiting = true ∧ ∀ n ∈ overlapped.toOption, n ≤ f.size))
  | .complete p => inferInstanceAs (Decidable (s.stale = false ∧ p ∈ s.inFlight))
  | .fseek _ _ _ | .fclose _ | .netClose _ => inferInstanceAs (Decidable (s.stale = false ∧
      s.sched.phase.userCode = true ∧ s.busy = false))
  | .closeFile h => inferInstanceAs (Decidable (s.stale = false ∧ ∃ impl ∈ s.memory h,
      impl.stage = .closing))
  | .free h => inferInstanceAs (Decidable (s.stale = false ∧ ∃ impl ∈ s.memory h,
      impl.stage = .closed))
  | .platformUpdate _ => inferInstanceAs (Decidable (s.stale = false ∧ s.sched.phase = .polling))

end WindowsIo

end Bio
