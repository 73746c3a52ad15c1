import Bio.Handle
import Bio.Lib.Links

/-!
# Named pipes on Windows

`bio_net_pipe_accept` and `bio_net_pipe_close` of `src/windows/net/pipe.c`, for one listening pipe. A call
of `bio_net_pipe_accept` takes the handle of the pipe for its client and leaves a new instance in its place.
Its acceptor record is a local variable, linked into the list of the socket while the call waits for the
client.

* A handle of the kernel has the number of its creation.
* The records stay what they were when their calls have returned: this is what the code reads in the
  stack when it follows a link to one of them.
* The answers of the kernel are parameters. A call that waits goes on when its signal was raised, which
  the completion port does.
* `error` is the parameter of that name: null, or a `bio_error_t` that has an error or has none.
* `closed` and `returned` are ghosts: the handles that were passed to `CloseHandle`, and those that
  `bio_net_pipe_accept` left in `*client`.
-/

namespace Bio

/-- `ERROR_SUCCESS`, `ERROR_INVALID_HANDLE`, `ERROR_PIPE_CONNECTED`, `ERROR_IO_PENDING` and
`ERROR_CANCELLED`. -/
def errorSuccess : Nat := 0
def errorInvalidHandle : Nat := 6
def errorPipeConnected : Nat := 535
def errorIoPending : Nat := 997
def errorCancelled : Nat := 1223

/-- `bio_completion_mode_t`. -/
inductive CompletionMode
  | unknown | always | skipOnSuccess
deriving DecidableEq, Repr

/-- `bio_net_pipe_listen_data_t`. -/
structure PipeListenData where
  datagram : Bool
  name : List Char
deriving DecidableEq, Repr

/-- `bio_net_pipe_socket_t` without its list. -/
structure PipeSocket where
  handle : Nat
  completionMode : CompletionMode
  listenData : Option PipeListenData
deriving DecidableEq, Repr

/-- The links of a socket, and those of the acceptor record of a call. -/
inductive PipeNode
  | acceptors
  | record (call : Nat)
deriving DecidableEq, Repr

/-- `bio_net_pipe_acceptor_t` without its link. -/
structure PipeAcceptor where
  handle : Nat
  cancelled : Bool
deriving DecidableEq, Repr

/-- Where a call of `bio_net_pipe_accept` waits. -/
inductive AcceptStage
  /-- in `bio_wait_for_io` -/
  | pending
  /-- in `bio_maybe_wait_after_success` -/
  | connected
deriving DecidableEq, Repr

/-- The locals of a call that waits. -/
structure AcceptFrame where
  call : Nat
  completionMode : CompletionMode
  error : Option Bool
  stage : AcceptStage
  raised : Bool
deriving DecidableEq, Repr

/-- What the kernel answers to a call up to its wait: to the questions about the pipe, to
`CreateNamedPipeA`, `SetFileCompletionNotificationModes`, `CreateIoCompletionPort` and
`ConnectNamedPipe`. -/
structure AcceptAnswers where
  listenData : Except Nat PipeListenData
  newInstance : Except Nat Unit
  skips : Bool
  port : Except Nat Unit
  connect : Except Nat Unit

structure PipeState where
  /-- the listening socket, until it is closed -/
  socket : Option PipeSocket
  links : Links PipeNode
  acceptors : Nat → PipeAcceptor
  frames : Handle → Option AcceptFrame
  calls : Nat
  handles : Nat
  closed : List Nat
  returned : List Nat

namespace PipeState

def setFrame (s : PipeState) (c : Handle) (f : Option AcceptFrame) : PipeState :=
  { s with frames := Function.update s.frames c f }

def register (s : PipeState) (n : Nat) : PipeState :=
  { s with links := s.links.append .acceptors (.record n) }

def unregister (s : PipeState) (n : Nat) : PipeState := { s with links := s.links.remove (.record n) }

def closeClient (s : PipeState) (n : Nat) : PipeState :=
  { s with closed := s.closed ++ [(s.acceptors n).handle] }

def returnClient (s : PipeState) (n : Nat) : PipeState :=
  { s with returned := s.returned ++ [(s.acceptors n).handle] }

/-- `bio_has_error`. -/
def hasError (error : Option Bool) : Bool := error.getD false

/-- `bio_net_pipe_accept` from its label `end` on. -/
def acceptEnd (s : PipeState) (n : Nat) (result : Except Nat Unit) : PipeState × Except Nat Nat :=
  match result with
  | .ok () => (s.returnClient n, .ok (s.acceptors n).handle)
  | .error e => (if (s.acceptors n).cancelled then s else s.closeClient n, .error e)

/-- `bio_net_pipe_accept` from `BIO_LIST_REMOVE` on. -/
def acceptRegistered (s : PipeState) (n : Nat) (error : Option Bool) : PipeState × Except Nat Nat :=
  let s := s.unregister n
  if !hasError error && (s.acceptors n).cancelled then s.acceptEnd n (.error errorCancelled)
  else s.acceptEnd n (.ok ())

/-- `bio_net_pipe_accept` from the check of `error_code` on. -/
def acceptChecked (s : PipeState) (n : Nat) (error : Option Bool) (errorCode : Nat) :
    PipeState × Except Nat Nat :=
  if errorCode ≠ errorPipeConnected ∧ errorCode ≠ errorSuccess then s.acceptEnd n (.error errorCode)
  else s.acceptRegistered n error

/-- `bio_net_pipe_accept` from `ConnectNamedPipe` on, up to its wait or with what it returns at once. -/
def acceptConnect (s : PipeState) (c : Handle) (n : Nat) (completionMode : CompletionMode)
    (error : Option Bool) (connect : Except Nat Unit) : PipeState × Option (Except Nat Nat) :=
  match connect with
  | .error errorCode =>
    if errorCode = errorIoPending then
      (s.setFrame c (some ⟨n, completionMode, error, .pending, false⟩), none)
    else
      let (s, result) := s.acceptChecked n error errorCode
      (s, some result)
  | .ok () =>
    if completionMode = .skipOnSuccess then
      let (s, result) := s.acceptRegistered n error
      (s, some result)
    else (s.setFrame c (some ⟨n, completionMode, error, .connected, false⟩), none)

/-- The first call finds out what kind of pipe it is. -/
def initListen (s : PipeState) (socket : PipeSocket) (data : PipeListenData) : PipeState :=
  { s with
    socket := some { socket with listenData := some data }
    links := s.links.init .acceptors }

/-- The new instance replaces the handle of the socket, which becomes that of the client. -/
def takeInstance (s : PipeState) (socket : PipeSocket) (data : PipeListenData) : PipeState :=
  { s with
    socket := some ⟨s.handles, .unknown, some data⟩
    handles := s.handles + 1
    acceptors := Function.update s.acceptors s.calls ⟨socket.handle, false⟩
    calls := s.calls + 1 }

/-- `bio_net_pipe_accept` behind the lazy initialization. -/
def acceptListening (s : PipeState) (c : Handle) (error : Option Bool) (socket : PipeSocket)
    (data : PipeListenData) (answers : AcceptAnswers) : PipeState × Option (Except Nat Nat) :=
  match answers.newInstance with
  | .error e => (s, some (.error e))
  | .ok () =>
    let n := s.calls
    let s := s.takeInstance socket data
    let completionMode :=
      if socket.completionMode = .unknown then
        if answers.skips then .skipOnSuccess else .always
      else socket.completionMode
    match answers.port with
    | .error e =>
      let (s, result) := s.acceptEnd n (.error e)
      (s, some result)
    | .ok () => (s.register n).acceptConnect c n completionMode error answers.connect

/-- `bio_net_accept` and `bio_net_pipe_accept` up to its wait, or with what it returns at once. -/
def netPipeAccept (s : PipeState) (c : Handle) (error : Option Bool) (answers : AcceptAnswers) :
    PipeState × Option (Except Nat Nat) :=
  match s.socket with
  | some socket =>
    match socket.listenData with
    | some data => s.acceptListening c error socket data answers
    | none =>
      match answers.listenData with
      | .error e => (s, some (.error e))
      | .ok data =>
        (s.initListen socket data).acceptListening c error { socket with listenData := some data } data
          answers
  | none => (s, some (.error errorInvalidHandle))

/-- `bio_net_pipe_accept` behind its wait, with the answer of `GetOverlappedResult`. -/
def resumeAccept (s : PipeState) (c : Handle) (f : AcceptFrame) (overlapped : Except Nat Unit) :
    PipeState × Except Nat Nat :=
  let s := s.setFrame c none
  match f.stage with
  | .pending =>
    match overlapped with
    | .ok () => s.acceptChecked f.call f.error errorSuccess
    | .error errorCode => s.acceptChecked f.call f.error errorCode
  | .connected => s.acceptRegistered f.call f.error

/-- The loop of `bio_net_pipe_close`, with a bound on its rounds. That it does not need more is
`closeAcceptors_ring`. -/
def closeAcceptors : Nat → PipeState → PipeState
  | 0, s => s
  | fuel + 1, s =>
    if s.links.isEmpty .acceptors then s
    else
      match s.links.next .acceptors with
      | some (.record n) =>
        let s := s.unregister n
        closeAcceptors fuel ({ s with
          acceptors := Function.update s.acceptors n { s.acceptors n with cancelled := true } }.closeClient n)
      | _ => s

/-- `bio_net_close` and `bio_net_pipe_close`. -/
def netPipeClose (s : PipeState) : PipeState :=
  match s.socket with
  | some socket =>
    let s := s.closeAcceptors s.calls
    { s with socket := none, closed := s.closed ++ [socket.handle] }
  | none => s

end PipeState

inductive PipeAction
  | accept (c : Handle) (error : Option Bool) (answers : AcceptAnswers)
  /-- the signal of the request of a call is raised -/
  | complete (c : Handle)
  | resume (c : Handle) (overlapped : Except Nat Unit)
  | close

namespace PipeState

def enabled (s : PipeState) : PipeAction → Prop
  | .accept c _ _ => s.frames c = none
  | .complete c => s.frames c ≠ none
  | .resume c _ => (s.frames c).any AcceptFrame.raised = true
  | .close => True

def perform (s : PipeState) : PipeAction → PipeState
  | .accept c error answers => (s.netPipeAccept c error answers).1
  | .complete c => s.setFrame c ((s.frames c).map fun f => { f with raised := true })
  | .resume c overlapped =>
    match s.frames c with
    | some f => (s.resumeAccept c f overlapped).1
    | none => s
  | .close => s.netPipeClose

/-- A pipe that `bio_net_pipe_listen` or `bio_net_wrap` has made. -/
def init : PipeState where
  socket := some ⟨0, .unknown, none⟩
  links := ⟨fun _ => none, fun _ => none⟩
  acceptors := fun _ => ⟨0, false⟩
  frames := fun _ => none
  calls := 0
  handles := 1
  closed := []
  returned := []

/-- All interleavings of any number of calls of `bio_net_pipe_accept` with `bio_net_pipe_close`. -/
def machine : Machine PipeState PipeAction where
  init := fun s => s = init
  enabled := enabled
  perform := perform

instance (s : PipeState) : ∀ a, Decidable (machine.enabled s a)
  | .accept c _ _ => inferInstanceAs (Decidable (s.frames c = none))
  | .complete c => inferInstanceAs (Decidable (s.frames c ≠ none))
  | .resume c _ => inferInstanceAs (Decidable ((s.frames c).any AcceptFrame.raised = true))
  | .close => .isTrue trivial

end PipeState

end Bio
