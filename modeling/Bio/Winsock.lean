import Bio.WindowsIo
import Bio.Lib.Ownership
import Mathlib.Data.Finset.Basic
import Mathlib.Data.Sum.Basic

/-!
# Sockets of Winsock

`src/windows/net/ws.c` under `src/windows/net.c`: who closes a `SOCKET`, and who frees the memory that a
listening socket gets with its first `bio_net_accept`. A call suspends in `bio_net_maybe_wait_for_io`. Other
coroutines run until its packet is taken, and the call goes on with what it has in its locals.

* `sockets` is the part of the handle table with the tag of sockets, together with the memory behind it.
  `bio_net_close` frees that at once. `stale`: a call went back to a socket that was freed.
* `opened` are the `SOCKET`s that the kernel has given out and that are open, `blocks` the memory for
  listen data. Both may be given out again as soon as they are not in use.
* The answers of the kernel and of the allocator are part of the action with which a call goes on.
* The ghost `misused` has the `SOCKET`s that were closed, or passed to a request, when they were not open.
  `WSAGetOverlappedResult` is left out of it: it may be asked for a `SOCKET` that another coroutine has
  closed, and then returns an error.

Sends and receives hold no `SOCKET` (`WindowsIo`), and named pipes are in `PipeState`.
-/

namespace Bio

/-- `bio_net_ws_socket_t`. The address of the listen data stands for them. -/
structure WsSocket where
  handle : Nat
  completionMode : CompletionMode
  listenData : Option Nat
deriving DecidableEq, Repr

/-- Where a call waits, with the locals that it goes on with. -/
inductive WsRequest
  /-- `WSAIoctl` of `bio_net_ws_accept` -/
  | acceptFn (socket : Handle)
  /-- `AcceptEx` -/
  | accept (socket : Handle) (client : Nat)
  /-- `WSAIoctl` of `bio_net_ws_connect` -/
  | connectFn (handle : Nat) (mode : CompletionMode)
  /-- `ConnectEx` -/
  | connect (handle : Nat) (mode : CompletionMode)
deriving DecidableEq, Repr

/-- The handle of the socket that the call goes back to. -/
def WsRequest.socket : WsRequest → Option Handle
  | .acceptFn socket | .accept socket _ => some socket
  | .connectFn _ _ | .connect _ _ => none

/-- The socket that the call gets listen data for. -/
def WsRequest.listener : WsRequest → Option Handle
  | .acceptFn socket => some socket
  | .accept _ _ | .connectFn _ _ | .connect _ _ => none

/-- A call in `bio_net_maybe_wait_for_io`. -/
structure WsFrame where
  request : WsRequest
  /-- and not only its packet -/
  pending : Bool
deriving DecidableEq, Repr

/-- What a call is answered until it waits or returns: the error of a function that failed, and the handle
of a new socket. -/
structure WsAnswers where
  /-- `bio_net_ws_init_completion_mode`, which skips packets if it can -/
  skips : Bool
  created : Except Nat Nat
  bound : Option Nat
  listened : Option Nat
  /-- `CreateIoCompletionPort` -/
  associated : Option Nat
  /-- `WSAGetOverlappedResult` -/
  overlapped : Option Nat
  /-- `WSAIoctl` -/
  extension : CallResult
  /-- `getsockname` -/
  named : Option Nat
  /-- `getsockopt` -/
  typed : Option Nat
  /-- `AcceptEx` or `ConnectEx` -/
  request : CallResult
  /-- `setsockopt` -/
  updated : Option Nat
  block : Nat
  handle : Handle
deriving DecidableEq, Repr

structure Winsock where
  sockets : Handle → Option WsSocket
  /-- the coroutines inside a call -/
  frames : Handle → Option WsFrame
  issued : List Handle
  opened : Finset Nat
  blocks : Finset Nat
  misused : List Nat
  stale : Bool

/-- What a call returns, if it does not wait. -/
abbrev WsReturn := Option (Except FileError Unit)

namespace Winsock

def setSocket (s : Winsock) (h : Handle) (impl : Option WsSocket) : Winsock :=
  { s with sockets := Function.update s.sockets h impl }

def setFrame (s : Winsock) (c : Handle) (f : Option WsFrame) : Winsock :=
  { s with frames := Function.update s.frames c f }

/-- The kernel gives out a `SOCKET`. -/
def opens (s : Winsock) (handle : Nat) : Winsock := { s with opened := insert handle s.opened }

/-- A `SOCKET` is passed to the kernel. -/
def use (s : Winsock) (handle : Nat) : Winsock :=
  if handle ∈ s.opened then s else { s with misused := handle :: s.misused }

/-- `closesocket`. -/
def closeSocket (s : Winsock) (handle : Nat) : Winsock :=
  { s.use handle with opened := s.opened.erase handle }

/-- `bio_net_make_socket`, with the handle that the socket gets. -/
def makeSocket (s : Winsock) (h : Handle) (impl : WsSocket) : Winsock :=
  { s.setSocket h (some impl) with issued := h :: s.issued }

/-- The end of a call for which a function of the kernel has failed. -/
def fail (s : Winsock) (e : Nat) : Winsock × WsReturn := (s, some (.error (.errno e)))

/-! ## Calls that do not wait -/

/-- `bio_net_listen` and `bio_net_ws_listen`. -/
def netListen (s : Winsock) (k : WsAnswers) : Winsock × WsReturn :=
  match k.created with
  | .ok handle =>
    match k.bound <|> k.listened <|> k.associated with
    | none => ((s.opens handle).makeSocket k.handle ⟨handle, .unknown, none⟩, some (.ok ()))
    | some e => ((s.opens handle).closeSocket handle).fail e
  | .error e => s.fail e

/-- `bio_net_wrap`, for a `SOCKET` that the program has opened. -/
def netWrap (s : Winsock) (handle : Nat) (k : WsAnswers) : Winsock × WsReturn :=
  match k.associated with
  | none => ((s.opens handle).makeSocket k.handle ⟨handle, .unknown, none⟩, some (.ok ()))
  | some e => s.fail e

/-- `bio_net_close` and `bio_net_ws_close`. -/
def netClose (s : Winsock) (h : Handle) : Winsock × WsReturn :=
  match s.sockets h with
  | some impl =>
    ({ (s.setSocket h none).closeSocket impl.handle with
      blocks := impl.listenData.elim s.blocks s.blocks.erase }, some (.ok ()))
  | none => s.fail errorInvalidHandle

/-! ## Calls that wait -/

/-- What a call does when its request has failed. -/
def failed (s : Winsock) (request : WsRequest) (e : Nat) : Winsock × WsReturn :=
  match request with
  | .acceptFn _ => s.fail e
  | .accept _ handle | .connectFn handle _ | .connect handle _ => (s.closeSocket handle).fail e

/-- `bio_net_maybe_wait_for_io` up to its suspension, and `next` when it does not wait. -/
def maybeWaitForIo (s : Winsock) (c : Handle) (request : WsRequest) (mode : CompletionMode)
    (result : CallResult) (next : Winsock → Winsock × WsReturn) : Winsock × WsReturn :=
  match result with
  | .success _ =>
    if mode = .skipOnSuccess then next s else (s.setFrame c (some ⟨request, false⟩), none)
  | .pending => (s.setFrame c (some ⟨request, true⟩), none)
  | .error e => s.failed request e

/-- `bio_net_ws_accept` behind `AcceptEx`. -/
def accepted (s : Winsock) (socket : Handle) (client : Nat) (k : WsAnswers) : Winsock × WsReturn :=
  match s.sockets socket with
  | some impl =>
    match k.updated <|> k.associated with
    | none => ((s.use impl.handle).makeSocket k.handle ⟨client, .unknown, none⟩, some (.ok ()))
    | some e => ((s.use impl.handle).closeSocket client).fail e
  | none => ({ s with stale := true }, none)

/-- `bio_net_ws_accept` for a socket that has its listen data. -/
def acceptClient (s : Winsock) (c socket : Handle) (impl : WsSocket) (k : WsAnswers) :
    Winsock × WsReturn :=
  match k.created with
  | .ok client =>
    ((s.opens client).use impl.handle).maybeWaitForIo c (.accept socket client) impl.completionMode
      k.request fun s => s.accepted socket client k
  | .error e => s.fail e

/-- `bio_net_ws_accept` behind `WSAIoctl`. -/
def acceptListen (s : Winsock) (c socket : Handle) (k : WsAnswers) : Winsock × WsReturn :=
  match s.sockets socket with
  | some impl =>
    let s := s.use impl.handle
    match k.named <|> k.typed with
    | none =>
      let impl := { impl with listenData := some k.block }
      { s.setSocket socket (some impl) with blocks := insert k.block s.blocks }.acceptClient c socket
        impl k
    | some e => s.fail e
  | none => ({ s with stale := true }, none)

/-- The completion mode is initialized lazily. -/
def initCompletionMode (impl : WsSocket) (skips : Bool) : WsSocket :=
  if impl.completionMode = .unknown then
    { impl with completionMode := if skips then .skipOnSuccess else .always }
  else impl

/-- `bio_net_accept` and `bio_net_ws_accept`. -/
def netAccept (s : Winsock) (c h : Handle) (k : WsAnswers) : Winsock × WsReturn :=
  match s.sockets h with
  | some impl =>
    let impl := initCompletionMode impl k.skips
    let s := s.setSocket h (some impl)
    match impl.listenData with
    | some _ => s.acceptClient c h impl k
    | none =>
      (s.use impl.handle).maybeWaitForIo c (.acceptFn h) impl.completionMode k.extension
        fun s => s.acceptListen c h k
  | none => s.fail errorInvalidHandle

/-- `bio_net_ws_connect` behind `ConnectEx`. -/
def connected (s : Winsock) (handle : Nat) (mode : CompletionMode) (k : WsAnswers) :
    Winsock × WsReturn :=
  (s.makeSocket k.handle ⟨handle, mode, none⟩, some (.ok ()))

/-- `bio_net_ws_connect` behind `WSAIoctl`. -/
def connectEx (s : Winsock) (c : Handle) (handle : Nat) (mode : CompletionMode) (k : WsAnswers) :
    Winsock × WsReturn :=
  (s.use handle).maybeWaitForIo c (.connect handle mode) mode k.request
    fun s => s.connected handle mode k

/-- `bio_net_connect` and `bio_net_ws_connect`. -/
def netConnect (s : Winsock) (c : Handle) (k : WsAnswers) : Winsock × WsReturn :=
  match k.created with
  | .ok handle =>
    let s := s.opens handle
    let mode := if k.skips then .skipOnSuccess else .always
    match k.bound <|> k.associated with
    | none =>
      (s.use handle).maybeWaitForIo c (.connectFn handle mode) mode k.extension
        fun s => s.connectEx c handle mode k
    | some e => (s.closeSocket handle).fail e
  | .error e => s.fail e

/-- What a call does when its request has succeeded. -/
def succeeded (s : Winsock) (c : Handle) (request : WsRequest) (k : WsAnswers) : Winsock × WsReturn :=
  match request with
  | .acceptFn socket => s.acceptListen c socket k
  | .accept socket client => s.accepted socket client k
  | .connectFn handle mode => s.connectEx c handle mode k
  | .connect handle mode => s.connected handle mode k

/-- The coroutine goes on behind `bio_wait_for_io` or `bio_maybe_wait_after_success`. -/
def resume (s : Winsock) (c : Handle) (k : WsAnswers) : Winsock × WsReturn :=
  match s.frames c with
  | some f =>
    match k.overlapped.filter fun _ => f.pending with
    | none => (s.setFrame c none).succeeded c f.request k
    | some e => (s.setFrame c none).failed f.request e
  | none => (s, none)

end Winsock

inductive WsAction
  | listen (k : WsAnswers)
  | wrap (handle : Nat) (k : WsAnswers)
  | connect (c : Handle) (k : WsAnswers)
  | accept (c socket : Handle) (k : WsAnswers)
  | close (socket : Handle)
  | resume (c : Handle) (k : WsAnswers)

namespace Winsock

def init : Winsock where
  sockets := fun _ => none
  frames := fun _ => none
  issued := []
  opened := ∅
  blocks := ∅
  misused := []
  stale := false

/-- What is given out is not in use. -/
def Fresh (s : Winsock) (k : WsAnswers) : Prop :=
  k.handle ∉ s.issued ∧ k.block ∉ s.blocks ∧ ∀ handle ∈ k.created.toOption, handle ∉ s.opened

/-- A coroutine inside a call does nothing else. -/
def enabled (s : Winsock) : WsAction → Prop
  | .listen k => s.stale = false ∧ s.Fresh k
  | .wrap handle k => s.stale = false ∧ s.Fresh k ∧ handle ∉ s.opened
  | .connect c k | .accept c _ k => s.stale = false ∧ s.Fresh k ∧ s.frames c = none
  | .close _ => s.stale = false
  | .resume c k => s.stale = false ∧ s.Fresh k ∧ s.frames c ≠ none

def perform (s : Winsock) : WsAction → Winsock
  | .listen k => (s.netListen k).1
  | .wrap handle k => (s.netWrap handle k).1
  | .connect c k => (s.netConnect c k).1
  | .accept c socket k => (s.netAccept c socket k).1
  | .close socket => (s.netClose socket).1
  | .resume c k => (s.resume c k).1

/-- All interleavings of the calls of any number of coroutines on any number of sockets, with any answers
of the kernel. -/
def machine : Machine Winsock WsAction where
  init := fun s => s = init
  enabled := enabled
  perform := perform

instance (s : Winsock) (k : WsAnswers) : Decidable (s.Fresh k) :=
  inferInstanceAs (Decidable (_ ∧ _ ∧ _))

instance (s : Winsock) : ∀ a, Decidable (machine.enabled s a)
  | .listen k => inferInstanceAs (Decidable (s.stale = false ∧ s.Fresh k))
  | .wrap handle k => inferInstanceAs (Decidable (s.stale = false ∧ s.Fresh k ∧ handle ∉ s.opened))
  | .connect c k | .accept c _ k =>
    inferInstanceAs (Decidable (s.stale = false ∧ s.Fresh k ∧ s.frames c = none))
  | .close _ => inferInstanceAs (Decidable (s.stale = false))
  | .resume c k => inferInstanceAs (Decidable (s.stale = false ∧ s.Fresh k ∧ s.frames c ≠ none))

end Winsock

/-! ## Owners -/

/-- The `SOCKET` that a call has to close or to hand over. -/
def WsFrame.holds (f : WsFrame) : Option Nat :=
  match f.request with
  | .acceptFn _ => none
  | .accept _ handle | .connectFn handle _ | .connect handle _ => some handle

namespace Winsock

/-- Who holds a `SOCKET`: the memory behind a handle, or a coroutine inside a call. -/
def holds (s : Winsock) : Handle ⊕ Handle → Option Nat :=
  Sum.elim (Option.map WsSocket.handle ∘ s.sockets) ((·.bind WsFrame.holds) ∘ s.frames)

/-- The listen data of the sockets. -/
def listenData (s : Winsock) : Handle → Option Nat := (·.bind WsSocket.listenData) ∘ s.sockets

end Winsock

end Bio
