import Bio.NetAddress
import Bio.Lib.Ownership
import Mathlib.Data.Finset.Basic

/-!
# Sockets on Linux

`src/linux/net.c`. A call prepares a request for io_uring and suspends in `bio_submit_io_req`. Other
coroutines run until the request completes, in any order, and the call goes on with its result. The calls
of `bind` and `listen` that are made when io_uring has no such operation do not suspend.

* `sockets` is the part of the handle table with the tag of sockets, together with the memory behind it.
* `fds` are the descriptors that the kernel has given out for sockets and that are open. It may give a
  descriptor out again as soon as it is closed.
* What a synchronous call returns, and the handle of a new socket, are part of the action with which the
  call goes on.
* The fields `closing` and `misused` are ghosts: the descriptors for which a close is prepared, and those
  for which anything was done after that or when they were not open.

The type of a socket and the bytes that are sent play no role.
-/

namespace Bio

/-- `bio_socket_impl_t` of `src/linux/net.c`. -/
structure LinuxSocket where
  fd : Int
deriving DecidableEq, Repr

/-- The caller of `bio_make_socket`. -/
inductive SocketUse
  | listen | connect
deriving DecidableEq, Repr

/-- What a call returns, with the error that it sets. -/
abbrev SocketReturn := FileReturn × Option FileError

/-- The requests that a call waits for. -/
inductive SocketRequest
  | socket (use : SocketUse) (shouldBind : Bool)
  | bind (fd : Int) (use : SocketUse)
  | listen (fd : Int)
  | connect (fd : Int)
  | accept (fd : Int)
  | shutdown (fd : Int)
  | send (fd : Int) (size : Nat)
  | recv (fd : Int) (size : Nat)
  /-- with what the call returns behind it -/
  | close (fd : Int) (returns : SocketReturn)
deriving DecidableEq, Repr

namespace SocketRequest

/-- The descriptor that a request is about. -/
def descriptor : SocketRequest → Option Int
  | .socket _ _ => none
  | .bind fd _ | .listen fd | .connect fd | .accept fd | .shutdown fd | .send fd _ | .recv fd _
  | .close fd _ => some fd

def isAccept : SocketRequest → Bool
  | .accept _ => true
  | _ => false

/-- The result is a new descriptor. -/
def opens : SocketRequest → Bool
  | .socket _ _ | .accept _ => true
  | _ => false

/-- The kernel transfers at most as many bytes as it was asked for. -/
def allows (result : Int) : SocketRequest → Prop
  | .send _ size | .recv _ size => result ≤ size
  | _ => True

instance (result : Int) : ∀ request : SocketRequest, Decidable (request.allows result)
  | .send _ size | .recv _ size => inferInstanceAs (Decidable (result ≤ size))
  | .socket _ _ | .bind _ _ | .listen _ | .connect _ | .accept _ | .shutdown _ | .close _ _ =>
    inferInstanceAs (Decidable True)

end SocketRequest

/-- A call that is suspended in `bio_submit_io_req`. `result` is set when the request has completed. -/
structure SocketFrame where
  request : SocketRequest
  result : Option Int
deriving DecidableEq, Repr

/-- The operations that io_uring has. -/
structure NetSupport where
  hasOpBind : Bool
  hasOpListen : Bool

structure LinuxNetState where
  sockets : Handle → Option LinuxSocket
  /-- the coroutines inside a call -/
  frames : Handle → Option SocketFrame
  issued : List Handle
  fds : Finset Int
  closing : Finset Int
  misused : List Int

/-- What the rest of a call may need: the results of `bind` and `listen`, the error as a negative number,
and the handle of a new socket. -/
structure Continuation where
  bound : Int
  listened : Int
  handle : Handle
deriving DecidableEq, Repr

namespace LinuxNetState

variable (support : NetSupport)

def setSocket (s : LinuxNetState) (h : Handle) (impl : Option LinuxSocket) : LinuxNetState :=
  { s with sockets := Function.update s.sockets h impl }

def setFrame (s : LinuxNetState) (c : Handle) (f : Option SocketFrame) : LinuxNetState :=
  { s with frames := Function.update s.frames c f }

/-- Something is done with a descriptor. -/
def use (s : LinuxNetState) (fd : Int) : LinuxNetState :=
  if fd ∈ s.fds ∧ fd ∉ s.closing then s else { s with misused := fd :: s.misused }

/-- `bio_submit_io_req` up to its suspension. -/
def submitIoReq (s : LinuxNetState) (c : Handle) (request : SocketRequest) : LinuxNetState :=
  let s := match request.descriptor with
    | some fd => s.use fd
    | none => s
  s.setFrame c (some ⟨request, none⟩)

/-- `bio_io_close` up to its suspension. -/
def ioClose (s : LinuxNetState) (c : Handle) (fd : Int) (returns : SocketReturn) : LinuxNetState :=
  let s := s.submitIoReq c (.close fd returns)
  { s with closing := insert fd s.closing }

/-- `bio_socket_from_fd`, with the handle that the socket gets. -/
def socketFromFd (s : LinuxNetState) (fd : Int) (handle : Handle) : LinuxNetState :=
  { s.setSocket handle (some ⟨fd⟩) with issued := handle :: s.issued }

/-- `bio_make_socket` up to its suspension. -/
def makeSocket (s : LinuxNetState) (c : Handle) (use : SocketUse) (addr : Addr) (port : UInt16) :
    LinuxNetState × Option SocketReturn :=
  match linuxTranslateAddress addr port with
  | .ok translation => (s.submitIoReq c (.socket use translation.shouldBind), none)
  | .error e => (s, some (.success false, some e))

/-- `bio_net_listen` up to its suspension. -/
def netListen (s : LinuxNetState) (c : Handle) (addr : Addr) (port : UInt16) :
    LinuxNetState × Option SocketReturn :=
  s.makeSocket c .listen addr port

/-- `bio_net_connect` up to its suspension. The socket is made for a zeroed address. -/
def netConnect (s : LinuxNetState) (c : Handle) (addr : Addr) (port : UInt16) :
    LinuxNetState × Option SocketReturn :=
  match linuxTranslateAddress addr port with
  | .ok _ => s.makeSocket c .connect addr.zeroed portAny
  | .error e => (s, some (.success false, some e))

/-- An operation on a socket up to its suspension. It fails when the handle does not resolve. -/
def submit (s : LinuxNetState) (c socket : Handle) (request : Int → SocketRequest) (failed : FileReturn) :
    LinuxNetState × Option SocketReturn :=
  match s.sockets socket with
  | some impl => (s.submitIoReq c (request impl.fd), none)
  | none => (s, some (failed, some (.core .invalidArgument)))

/-- `bio_net_accept` up to its suspension. -/
def netAccept (s : LinuxNetState) (c socket : Handle) : LinuxNetState × Option SocketReturn :=
  s.submit c socket .accept (.success false)

/-- `bio_net_send` up to its suspension. -/
def netSend (s : LinuxNetState) (c socket : Handle) (size : Nat) :
    LinuxNetState × Option SocketReturn :=
  s.submit c socket (.send · size) (.size 0)

/-- `bio_net_recv` up to its suspension. -/
def netRecv (s : LinuxNetState) (c socket : Handle) (size : Nat) :
    LinuxNetState × Option SocketReturn :=
  s.submit c socket (.recv · size) (.size 0)

/-- `bio_net_close` up to its suspension: the object is freed before the request is submitted. -/
def netClose (s : LinuxNetState) (c socket : Handle) : LinuxNetState × Option SocketReturn :=
  match s.sockets socket with
  | some impl => ((s.setSocket socket none).submitIoReq c (.shutdown impl.fd), none)
  | none => (s, some (.success false, some (.core .invalidArgument)))

/-- What `bio_net_listen` and `bio_net_connect` do with the socket that they got from
`bio_make_socket`. -/
def useSocket (s : LinuxNetState) (c : Handle) (fd : Int) (use : SocketUse) (k : Continuation) :
    LinuxNetState × Option SocketReturn :=
  match use with
  | .listen =>
    if support.hasOpListen then (s.submitIoReq c (.listen fd), none)
    else if k.listened < 0 then
      ((s.use fd).ioClose c fd (.success false, some (.errno (-k.listened))), none)
    else ((s.use fd).socketFromFd fd k.handle, some (.success true, none))
  | .connect => (s.submitIoReq c (.connect fd), none)

/-- The end of `bio_net_listen` and `bio_net_connect`. -/
def made (s : LinuxNetState) (c : Handle) (fd result : Int) (k : Continuation) :
    LinuxNetState × Option SocketReturn :=
  if result < 0 then (s.ioClose c fd (.success false, some (.errno (-result))), none)
  else (s.socketFromFd fd k.handle, some (.success true, none))

/-- A call behind `bio_submit_io_req`. -/
def finish (s : LinuxNetState) (c : Handle) (request : SocketRequest) (result : Int) (k : Continuation) :
    LinuxNetState × Option SocketReturn :=
  match request with
  | .socket use shouldBind =>
    if result < 0 then (s, some (.success false, some (.errno (-result))))
    else if shouldBind then
      if support.hasOpBind then (s.submitIoReq c (.bind result use), none)
      else if k.bound < 0 then
        ((s.use result).ioClose c result (.success false, some (.errno (-k.bound))), none)
      else (s.use result).useSocket support c result use k
    else s.useSocket support c result use k
  | .bind fd use =>
    if result < 0 then (s.ioClose c fd (.success false, some (.errno (-result))), none)
    else s.useSocket support c fd use k
  | .listen fd | .connect fd => s.made c fd result k
  | .accept _ =>
    if result > 0 then (s.socketFromFd result k.handle, some (.success true, none))
    else (s, some (.success false, some (.errno (-result))))
  | .shutdown fd =>
    let (done, error) := resultToBool result
    (s.ioClose c fd (.success done, error), none)
  | .send _ _ | .recv _ _ =>
    let (size, error) := resultToSize result
    (s, some (.size size, error))
  | .close _ returns => (s, some returns)

/-- The coroutine goes on behind `bio_submit_io_req`, with the result of its request. -/
def resume (s : LinuxNetState) (c : Handle) (k : Continuation) : LinuxNetState × Option SocketReturn :=
  match s.frames c with
  | some f =>
    match f.result with
    | some result => (s.setFrame c none).finish support c f.request result k
    | none => (s, none)
  | none => (s, none)

/-- The kernel opens or closes a descriptor with the completion of a request. -/
def effect (s : LinuxNetState) (request : SocketRequest) (result : Int) : LinuxNetState :=
  match request with
  | .socket _ _ | .accept _ => if 0 ≤ result then { s with fds := insert result s.fds } else s
  | .close fd _ => { s with fds := s.fds.erase fd, closing := s.closing.erase fd }
  | _ => s

/-- The request of a suspended call completes. -/
def complete (s : LinuxNetState) (c : Handle) (result : Int) : LinuxNetState :=
  match s.frames c with
  | some f => (s.setFrame c (some { f with result := some result })).effect f.request result
  | none => s

end LinuxNetState

inductive SocketAction
  | listen (c : Handle) (addr : Addr) (port : UInt16)
  | connect (c : Handle) (addr : Addr) (port : UInt16)
  | accept (c socket : Handle)
  | send (c socket : Handle) (size : Nat)
  | recv (c socket : Handle) (size : Nat)
  | close (c socket : Handle)
  | complete (c : Handle) (result : Int)
  | resume (c : Handle) (k : Continuation)

namespace LinuxNetState

variable (support : NetSupport)

def init : LinuxNetState where
  sockets := fun _ => none
  frames := fun _ => none
  issued := []
  fds := ∅
  closing := ∅
  misused := []

/-- A coroutine inside a call does nothing else. The kernel gives out a descriptor that is not open. -/
def enabled (s : LinuxNetState) : SocketAction → Prop
  | .listen c _ _ | .connect c _ _ | .accept c _ | .send c _ _ | .recv c _ _ | .close c _ =>
    s.frames c = none
  | .complete c result => ∃ f ∈ s.frames c, f.result = none ∧ f.request.allows result ∧
      (f.request.opens = true → result ∉ s.fds)
  | .resume c k => (∃ f ∈ s.frames c, f.result ≠ none) ∧ k.handle ∉ s.issued

def perform (s : LinuxNetState) : SocketAction → LinuxNetState
  | .listen c addr port => (s.netListen c addr port).1
  | .connect c addr port => (s.netConnect c addr port).1
  | .accept c socket => (s.netAccept c socket).1
  | .send c socket size => (s.netSend c socket size).1
  | .recv c socket size => (s.netRecv c socket size).1
  | .close c socket => (s.netClose c socket).1
  | .complete c result => s.complete c result
  | .resume c k => (s.resume support c k).1

/-- All interleavings of the calls of any number of coroutines on any number of sockets. -/
def machine : Machine LinuxNetState SocketAction where
  init := fun s => s = init
  enabled := enabled
  perform := perform support

instance (s : LinuxNetState) : ∀ a, Decidable ((machine support).enabled s a)
  | .listen c _ _ | .connect c _ _ | .accept c _ | .send c _ _ | .recv c _ _ | .close c _ =>
    inferInstanceAs (Decidable (s.frames c = none))
  | .complete c result => inferInstanceAs (Decidable (∃ f ∈ s.frames c,
      f.result = none ∧ f.request.allows result ∧ (f.request.opens = true → result ∉ s.fds)))
  | .resume c k => inferInstanceAs (Decidable
      ((∃ f ∈ s.frames c, f.result ≠ none) ∧ k.handle ∉ s.issued))

end LinuxNetState

/-! ## Owners -/

/-- The descriptor that a call has to close or to hand over. -/
def SocketFrame.holds (f : SocketFrame) : Option Int :=
  match f.request with
  | .socket _ _ | .accept _ => f.result.filter (0 ≤ ·)
  | .bind fd _ | .listen fd | .connect fd | .shutdown fd => some fd
  | .close fd _ => if f.result = none then some fd else none
  | .send _ _ | .recv _ _ => none

namespace LinuxNetState

/-- Who holds a descriptor: the object behind a handle, or a coroutine inside a call. -/
inductive Owner
  | socket (h : Handle)
  | call (c : Handle)
deriving DecidableEq

def holds (s : LinuxNetState) : Owner → Option Int
  | .socket h => (s.sockets h).map LinuxSocket.fd
  | .call c => (s.frames c).bind SocketFrame.holds

/-- No descriptor is lost. -/
def AllOwned (s : LinuxNetState) : Prop := Ownership.Complete s.holds ↑s.fds

/-- The call of `bio_net_accept` that goes on has not got the descriptor zero. -/
def NoZero (s : LinuxNetState) : SocketAction → Prop
  | .resume c _ => ∀ f ∈ s.frames c, f.request.isAccept = true → f.result ≠ some 0
  | _ => True

end LinuxNetState

end Bio
