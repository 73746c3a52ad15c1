import Bio.File
import Bio.SchedulerLocal
import Mathlib.Data.Finset.Basic

/-!
# Sockets on FreeBSD

`src/freebsd/net.c` and the requests of `src/freebsd/platform.c`, on top of the scheduler. An operation
finds the socket by its handle and tries its system call. If that would block, it puts an event into
`in_events` and waits for the signal of its request. `bio_platform_update` hands the events to the kernel
and raises the signals of those that are ready.

* `sockets` is the part of the handle table with the tag of sockets, together with the memory behind it.
* `event` and `req` are local variables of a wait. `impl->read` and `impl->write` point to them: the
  coroutine and the number of the wait. Nothing in the definitions checks that the wait is still there,
  but for the number.
* The kernel's part of an event is kept with the request (`registered`): a wait is left only after its
  event was delivered, which disables it, or after the socket was closed, which removes it.
* `fds` are the descriptors of sockets that are open. The kernel returns none of these for a new one, but
  any other.
* `syscalls` and `returns` are ghosts: the calls of `accept`, `recv` and `send`, and what the operations
  that had waited returned. `crashed`: the program has dereferenced a null pointer.
-/

namespace Bio

open FreebsdErrno (ebadf ebusy ewouldblock)

/-- The filters of `struct kevent` that are used for sockets. -/
inductive NetFilter
  | read | write
deriving DecidableEq, Repr

inductive NetOp
  | accept | recv | send
deriving DecidableEq, Repr

/-- What an operation waits for. -/
def NetOp.filter : NetOp → NetFilter
  | .accept | .recv => .read
  | .send => .write

/-- The error that a call sets. -/
inductive NetError
  | core (error : CoreError)
  | errno (code : Nat)
deriving DecidableEq, Repr

/-- `bio_socket_impl_t`. -/
structure Socket where
  fd : Nat
  read : Option (Handle × Nat)
  write : Option (Handle × Nat)
deriving DecidableEq, Repr

/-- The field for a filter. -/
def Socket.slot (impl : Socket) : NetFilter → Option (Handle × Nat)
  | .read => impl.read
  | .write => impl.write

def Socket.setSlot (impl : Socket) (p : Option (Handle × Nat)) : NetFilter → Socket
  | .read => { impl with read := p }
  | .write => { impl with write := p }

/-- Who waits: an operation on a socket, or `bio_net_connect`. -/
inductive NetCaller
  | op (op : NetOp) (socket : Handle)
  | connect
deriving DecidableEq, Repr

/-- The locals of a wait: `error` is the data of the event when it has the flag `EV_ERROR`, and else zero.
It is what `bio_net_wait_for_read` and `bio_net_wait_for_write` return. -/
structure NetFrame where
  call : Nat
  caller : NetCaller
  fd : Nat
  signal : Handle
  cancelled : Bool
  registered : Bool
  error : Nat
deriving DecidableEq, Repr

/-- A call of `accept`, `recv` or `send`. `closed`: the socket had been closed by then. -/
structure Syscall where
  socket : Handle
  fd : Nat
  closed : Bool
deriving DecidableEq, Repr

/-- What an operation that had waited returned, and whether its request was cancelled. -/
structure NetReturn where
  socket : Handle
  cancelled : Bool
  result : Except NetError Nat
deriving DecidableEq

structure NetState where
  sched : Sched
  sockets : Handle → Option Socket
  /-- the coroutines in a wait -/
  frames : Handle → Option NetFrame
  inEvents : List (Handle × Nat)
  fds : Finset Nat
  calls : Nat
  crashed : Bool
  syscalls : List Syscall
  returns : List NetReturn

namespace NetState

def setSocket (q : NetState) (h : Handle) (impl : Option Socket) : NetState :=
  { q with sockets := Function.update q.sockets h impl }

def setFrame (q : NetState) (c : Handle) (f : Option NetFrame) : NetState :=
  { q with frames := Function.update q.frames c f }

/-- The locals behind a pointer to a wait. -/
def frame (q : NetState) (p : Handle × Nat) : Option NetFrame :=
  (q.frames p.1).filter fun f => f.call = p.2

/-! ## Requests -/

/-- `bio_cancel_io`. -/
def cancelIo (q : NetState) (p : Handle × Nat) : NetState :=
  match q.frame p with
  | some f =>
    { q.setFrame p.1 (some { f with cancelled := true }) with
      sched := (q.sched.raiseSignal f.signal).1 }
  | none => q

/-- `bio_platform_dispatch_events`, for one event. `bio_net_connect` has no place for it. -/
def dispatchEvent (q : NetState) (p : Handle × Nat) (error : Nat) : NetState :=
  match q.frame p with
  | some f =>
    { q.setFrame p.1 (some { f with
        registered := false
        error := if f.caller = .connect then f.error else error }) with
      sched := (q.sched.raiseSignal f.signal).1 }
  | none => q

/-- One entry of `in_events`: it is dropped when it was cancelled, and else handed to the kernel, which
may answer with an error. -/
def submitEvent (errors : Handle → Nat) (q : NetState) (p : Handle × Nat) : NetState :=
  match q.frame p with
  | some f =>
    let error := if f.fd ∈ q.fds then errors p.1 else ebadf
    if f.cancelled then q
    else if error = 0 then q.setFrame p.1 (some { f with registered := true })
    else q.dispatchEvent p error
  | none => q

/-- An event that is ready. -/
def fireEvent (q : NetState) (p : Handle × Nat) : NetState :=
  if (q.frame p).any NetFrame.registered then q.dispatchEvent p 0 else q

/-- `bio_platform_update`, with the events that are not accepted and those that are ready. -/
def platformUpdate (q : NetState) (errors : Handle → Nat) (ready : List (Handle × Nat)) :
    NetState :=
  ready.foldl fireEvent { q.inEvents.foldl (submitEvent errors) q with inEvents := [] }

/-- The wait of `bio_wait_for_io`, with a new request. -/
def waitForIo (q : NetState) (c : Handle) (caller : NetCaller) (fd : Nat) (signal : Handle) :
    NetState :=
  { q.setFrame c (some ⟨q.calls, caller, fd, signal, false, false, 0⟩) with
    sched := (q.sched.makeSignal c signal).waitForSignals c [signal] true
    inEvents := q.inEvents ++ [(c, q.calls)]
    calls := q.calls + 1 }

/-! ## Operations -/

/-- `bio_socket_from_fd`. -/
def socketFromFd (q : NetState) (fd : Nat) (handle : Handle) : NetState :=
  { q.setSocket handle (some ⟨fd, none, none⟩) with sched := q.sched.perform (.issue handle) }

def logSyscall (q : NetState) (socket : Handle) (fd : Nat) : NetState :=
  { q with syscalls := q.syscalls ++ [⟨socket, fd, (q.sockets socket).isNone⟩] }

/-- A system call on the descriptor of a socket, with its result: for `accept` a descriptor, which gets a
socket, and else a number of bytes. -/
def syscall (q : NetState) (op : NetOp) (socket : Handle) (fd : Nat) (client : Handle)
    (result : Except Nat Nat) : NetState :=
  let q := q.logSyscall socket fd
  match op, result with
  | .accept, .ok clientFd =>
    { q.socketFromFd clientFd client with fds := insert clientFd q.fds }
  | _, _ => q

/-- `bio_net_wait_for_read` and `bio_net_wait_for_write` up to their wait, or with what they return at
once. -/
def waitForFilter (filter : NetFilter) (q : NetState) (c : Handle) (op : NetOp) (ref : Handle)
    (impl : Socket) (signal : Handle) : NetState × Option Nat :=
  match impl.slot filter with
  | none =>
    ((q.setSocket ref (some (impl.setSlot (some (c, q.calls)) filter))).waitForIo c (.op op ref)
      impl.fd signal, none)
  | some _ => (q, some ebusy)

def netWaitForRead := waitForFilter .read
def netWaitForWrite := waitForFilter .write

/-- An operation up to its wait, or with what it returns at once. -/
def netOp (op : NetOp) (wait : NetState → Handle → NetOp → Handle → Socket → Handle →
    NetState × Option Nat) (q : NetState) (c socket signal client : Handle)
    (result : Except Nat Nat) : NetState × Option (Except NetError Nat) :=
  match q.sockets socket with
  | some impl =>
    let q := q.syscall op socket impl.fd client result
    match result with
    | .ok n => (q, some (.ok n))
    | .error e =>
      if e = ewouldblock then
        let (q, waitResult) := wait q c op socket impl signal
        (q, waitResult.map fun e => .error (.errno e))
      else (q, some (.error (.errno e)))
  | none => (q, some (.error (.core .invalidArgument)))

def netAccept := netOp .accept netWaitForRead
def netRecv := netOp .recv netWaitForRead
def netSend := netOp .send netWaitForWrite

/-- The field is empty again when the socket is still there. -/
def clearSlot (q : NetState) (filter : NetFilter) (socket : Handle) : NetState :=
  match q.sockets socket with
  | some impl => q.setSocket socket (some (impl.setSlot none filter))
  | none => q

/-- An operation behind its wait. The system call is tried again when the event has no error. -/
def finishOp (q : NetState) (c : Handle) (f : NetFrame) (op : NetOp) (socket client : Handle)
    (result : Except Nat Nat) : NetState × Except NetError Nat :=
  let q := (q.setFrame c none).clearSlot op.filter socket
  if f.error = 0 then (q.syscall op socket f.fd client result, result.mapError .errno)
  else (q, .error (.errno f.error))

/-- `bio_net_listen`, when it succeeds. -/
def netListen (q : NetState) (fd : Nat) (socket : Handle) : NetState :=
  { q.socketFromFd fd socket with fds := insert fd q.fds }

/-- `bio_net_connect` with the error of `connect`. `EINPROGRESS` makes it wait, any other one closes the
descriptor. -/
def netConnect (q : NetState) (c : Handle) (fd : Nat) (signal : Handle) : NetState :=
  { q with fds := insert fd q.fds }.waitForIo c .connect fd signal

/-- `bio_net_connect` behind its wait. Its request has no result, so its event has no error. -/
def finishConnect (q : NetState) (c : Handle) (f : NetFrame) (socket : Handle) : NetState :=
  (q.setFrame c none).socketFromFd f.fd socket

/-- The descriptor is closed, and the events of it go with it. -/
def closeFd (q : NetState) (fd : Nat) : NetState :=
  { q with
    fds := q.fds.erase fd
    frames := fun c => (q.frames c).map fun f =>
      if f.fd = fd then { f with registered := false } else f }

/-- What `bio_net_close` returns. -/
def closeResult : Option Nat → Except NetError Unit
  | none => .ok ()
  | some e => .error (.errno e)

/-- `bio_net_close`, with the error of `close`. It dereferences `impl->read` for a waiting writer. -/
def netClose (q : NetState) (socket : Handle) (errno : Option Nat) : NetState × Except NetError Unit :=
  match q.sockets socket with
  | some impl =>
    let q := q.setSocket socket none
    let q := match impl.read with
      | some p => q.cancelIo p
      | none => q
    match impl.write, impl.read with
    | some _, none => ({ q with crashed := true }, .ok ())
    | some _, some p => ((q.cancelIo p).closeFd impl.fd, closeResult errno)
    | none, _ => (q.closeFd impl.fd, closeResult errno)
  | none => (q, .error (.core .invalidArgument))

/-- The coroutine that runs is in a wait. -/
def busy (q : NetState) : Bool := q.sched.phase.mcoRunning.any fun c => (q.frames c).isSome

/-- A live signal of a wait. -/
def isLocal (q : NetState) (h : Handle) : Bool :=
  (q.sched.ownerOf h).any fun c => (q.frames c).any fun f => f.signal = h

end NetState

inductive NetAction
  /-- the rest of the program -/
  | sched (a : Action)
  | listen (fd : Nat) (socket : Handle)
  /-- `bio_net_connect`, which succeeds at once -/
  | connected (fd : Nat) (socket : Handle)
  /-- `bio_net_connect`, which waits -/
  | connect (fd : Nat) (signal : Handle)
  | accept (socket signal client : Handle) (result : Except Nat Nat)
  | recv (socket signal : Handle) (result : Except Nat Nat)
  | send (socket signal : Handle) (result : Except Nat Nat)
  /-- the coroutine that runs goes on behind its wait -/
  | finish (client : Handle) (result : Except Nat Nat)
  | close (socket : Handle) (errno : Option Nat)
  | platformUpdate (errors : Handle → Nat) (ready : List (Handle × Nat))

namespace NetState

/-- What a system call on a descriptor may return. -/
def CanReturn (q : NetState) (op : NetOp) (fd : Nat) (client : Handle) : Except Nat Nat → Prop
  | .ok n => fd ∈ q.fds ∧ (op = .accept → n ∉ q.fds ∧ q.sched.Fresh client)
  | .error e => fd ∉ q.fds → e = ebadf

instance (q : NetState) (op : NetOp) (fd : Nat) (client : Handle) :
    ∀ result, Decidable (q.CanReturn op fd client result)
  | .ok n => inferInstanceAs (Decidable (fd ∈ q.fds ∧ (op = .accept → n ∉ q.fds ∧
      q.sched.Fresh client)))
  | .error e => inferInstanceAs (Decidable (fd ∉ q.fds → e = ebadf))

/-- A coroutine that is in no wait calls `op`. -/
def CanOp (q : NetState) (op : NetOp) (socket signal client : Handle) (result : Except Nat Nat) :
    Prop :=
  q.busy = false ∧ q.sched.Fresh signal ∧
    q.sched.phase.mcoRunning.any (fun c => q.sched.CanCount c) = true ∧
    ∀ impl ∈ q.sockets socket, q.CanReturn op impl.fd client result

instance (q : NetState) (op : NetOp) (socket signal client : Handle) (result : Except Nat Nat) :
    Decidable (q.CanOp op socket signal client result) :=
  inferInstanceAs (Decidable (q.busy = false ∧ q.sched.Fresh signal ∧
    q.sched.phase.mcoRunning.any (fun c => q.sched.CanCount c) = true ∧
    ∀ impl ∈ q.sockets socket, q.CanReturn op impl.fd client result))

/-- What the coroutine with these locals may go on with. -/
def CanFinish (q : NetState) (client : Handle) (f : NetFrame) (result : Except Nat Nat) : Prop :=
  match f.caller with
  | .op op _ => f.error = 0 → q.CanReturn op f.fd client result
  | .connect => q.sched.Fresh client

instance (q : NetState) (client : Handle) (f : NetFrame) (result : Except Nat Nat) :
    Decidable (q.CanFinish client f result) := by
  unfold CanFinish
  split <;> infer_instance

def enabled (q : NetState) : NetAction → Prop
  | .sched a => q.crashed = false ∧ q.sched.enabled a ∧ q.busy = false ∧
      ∀ h ∈ a.signals, q.isLocal h = false
  | .listen fd socket | .connected fd socket => q.crashed = false ∧ q.sched.phase.userCode = true ∧
      q.busy = false ∧ fd ∉ q.fds ∧ q.sched.Fresh socket
  | .connect fd signal => q.crashed = false ∧ q.busy = false ∧ fd ∉ q.fds ∧ q.sched.Fresh signal ∧
      q.sched.phase.mcoRunning.any (fun c => q.sched.CanCount c) = true
  | .accept socket signal client result => q.crashed = false ∧
      q.CanOp .accept socket signal client result
  | .recv socket signal result => q.crashed = false ∧
      q.CanOp .recv socket signal Handle.invalid result
  | .send socket signal result => q.crashed = false ∧
      q.CanOp .send socket signal Handle.invalid result
  | .finish client result => q.crashed = false ∧
      ∃ c ∈ q.sched.phase.mcoRunning, ∃ f ∈ q.frames c, q.CanFinish client f result
  | .close _ _ => q.crashed = false ∧ q.sched.phase.userCode = true ∧ q.busy = false
  | .platformUpdate _ _ => q.crashed = false ∧ q.sched.phase = .polling

/-- The effect of an operation that the running coroutine calls. -/
def inCoro (q : NetState) (f : Handle → NetState) : NetState :=
  match q.sched.phase.mcoRunning with
  | some c => f c
  | none => q

/-- The coroutine `c` goes on behind its wait. -/
def finish (q : NetState) (c client : Handle) (result : Except Nat Nat) : NetState :=
  match q.frames c with
  | some f =>
    match f.caller with
    | .op op socket =>
      let (q, returned) := q.finishOp c f op socket client result
      { q with returns := q.returns ++ [⟨socket, f.cancelled, returned⟩] }
    | .connect => q.finishConnect c f client
  | none => q

def perform (q : NetState) : NetAction → NetState
  | .sched a => { q with sched := q.sched.perform a }
  | .listen fd socket | .connected fd socket => q.netListen fd socket
  | .connect fd signal => q.inCoro fun c => q.netConnect c fd signal
  | .accept socket signal client result =>
    q.inCoro fun c => (q.netAccept c socket signal client result).1
  | .recv socket signal result =>
    q.inCoro fun c => (q.netRecv c socket signal Handle.invalid result).1
  | .send socket signal result =>
    q.inCoro fun c => (q.netSend c socket signal Handle.invalid result).1
  | .finish client result => q.inCoro fun c => q.finish c client result
  | .close socket errno => (q.netClose socket errno).1
  | .platformUpdate errors ready => q.platformUpdate errors ready

def init : NetState := ⟨Sched.init, fun _ => none, fun _ => none, [], ∅, 0, false, [], []⟩

/-- All interleavings of any number of coroutines on any number of sockets. A coroutine in a wait does
nothing else. -/
def machine : Machine NetState NetAction where
  init := fun q => q = init
  enabled := enabled
  perform := perform

instance (q : NetState) : ∀ a, Decidable (machine.enabled q a)
  | .sched a => inferInstanceAs (Decidable (q.crashed = false ∧ q.sched.enabled a ∧
      q.busy = false ∧ ∀ h ∈ a.signals, q.isLocal h = false))
  | .listen fd socket | .connected fd socket => inferInstanceAs (Decidable (q.crashed = false ∧
      q.sched.phase.userCode = true ∧ q.busy = false ∧ fd ∉ q.fds ∧ q.sched.Fresh socket))
  | .connect fd signal => inferInstanceAs (Decidable (q.crashed = false ∧ q.busy = false ∧
      fd ∉ q.fds ∧ q.sched.Fresh signal ∧
      q.sched.phase.mcoRunning.any (fun c => q.sched.CanCount c) = true))
  | .accept socket signal client result => inferInstanceAs (Decidable (q.crashed = false ∧
      q.CanOp .accept socket signal client result))
  | .recv socket signal result => inferInstanceAs (Decidable (q.crashed = false ∧
      q.CanOp .recv socket signal Handle.invalid result))
  | .send socket signal result => inferInstanceAs (Decidable (q.crashed = false ∧
      q.CanOp .send socket signal Handle.invalid result))
  | .finish client result => inferInstanceAs (Decidable (q.crashed = false ∧
      ∃ c ∈ q.sched.phase.mcoRunning, ∃ f ∈ q.frames c, q.CanFinish client f result))
  | .close _ _ => inferInstanceAs (Decidable (q.crashed = false ∧
      q.sched.phase.userCode = true ∧ q.busy = false))
  | .platformUpdate _ _ => inferInstanceAs (Decidable (q.crashed = false ∧
      q.sched.phase = .polling))

end NetState

end Bio
