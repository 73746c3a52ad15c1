import Bio.MailboxReceive
import Bio.Service

/-!
# Logging

`src/logging.c`, with the parts of `src/service.c` that a logger uses. A logger is a service: a daemon
coroutine calls `log_fn` for each message of its mailbox until it gets the message `NULL`, which
`bio_remove_logger` sends.

Calls go in small steps. A step of `bio_vlog` is one visit of a logger or one attempt to send, a step
of `bio_remove_logger` is one attempt to send, a step of the service is what it does up to the next
call of `bio_recv_message` or of `log_fn`. A coroutine that is inside one of these functions does
nothing else, and `log_fn` is any code of the program.

* A logger is found by its handle. `resolves` is the part of the handle table with the tag of loggers,
  `impls` the memory: `bio_remove_logger` closes the handle first and frees the memory last. A read
  of a logger that was freed returns anything.
* `mail` has the mailboxes of loggers. Those of the rest of the program, whose messages have other
  types, are part of its scheduler actions.
* A message is a value of any type, which stands for the context and the copy of the text, or `none`,
  which is `NULL`.
* The signals that `bio__mailbox_recv` and `bio__service_start` make are local to them.
* `bio_add_logger` and `bio_vlog` are called by coroutines: outside of them `bio__service_start` does
  not wait for the service, and there is no local storage to format a message in.

The fields `serviceOf`, `calls`, `returned` and `removals` are ghosts.
-/

namespace Bio

/-- `bio_log_level_t`. -/
inductive LogLevel
  | trace | debug | info | warn | error | fatal
deriving DecidableEq, Repr

/-- The value of the enumerator. -/
def LogLevel.value : LogLevel → Nat
  | .trace => 0
  | .debug => 1
  | .info => 2
  | .warn => 3
  | .error => 4
  | .fatal => 5

/-- `bio_logger_impl_t`. The handle is the name of the logger, the link its place in the list. -/
structure LoggerImpl where
  minLevel : LogLevel
  service : Service
deriving DecidableEq, Repr

/-- Where a call of `bio_vlog` is. The list head is `none`. -/
inductive VlogStage (α : Type*)
  /-- at the head of the loop -/
  | visiting (itr : Option Handle)
  /-- in `bio_notify_service`, with the copy of the message -/
  | notifying (message : α) (itr : Handle) (next : Option Handle)

/-- The locals of a call of `bio_vlog`. -/
structure VlogFrame (α : Type*) where
  level : LogLevel
  /-- what `bio_vfmt` makes of the arguments, if it does not fail -/
  text : Option α
  stage : VlogStage α
  /-- a ghost: the loggers that were registered when the call began and whose `min_level` was not
  above the level of the message since then -/
  wanted : List Handle
  /-- a ghost: the call has not read a logger that was freed -/
  clean : Bool

/-- Where the coroutine of a logger is. -/
inductive LogStage (α : Type*)
  /-- before its first run -/
  | starting
  /-- at the head of `bio_foreach_message` -/
  | looping
  /-- suspended in `bio_recv_message` -/
  | receiving
  /-- in `log_fn` -/
  | calling (message : Option α)
  /-- behind the loop -/
  | closing
  /-- its mailbox is closed -/
  | done

/-- The coroutine of a logger, with what it reads of `bio_service_data_t`. -/
structure LogService (α : Type*) where
  mailbox : Handle
  readySignal : Handle
  stage : LogStage α

/-- A call of `bio_add_logger` that waits in `bio__service_start`. -/
structure AddFrame where
  minLevel : LogLevel
  service : Service
  readySignal : Handle
deriving DecidableEq, Repr

/-- A call of `bio_vlog` that returned, with the loggers of `wanted` whose removal had not begun and
all those whose removal had begun. -/
structure LogCall (α : Type*) where
  message : α
  wanted : List Handle
  clean : Bool
  removals : List Handle
deriving DecidableEq

structure LogState (α : Type*) where
  mail : MailboxState (Option α)
  impls : Handle → Option LoggerImpl
  resolves : Handle → Bool
  /-- `bio_ctx.loggers` -/
  loggers : List Handle
  services : Handle → Option (LogService α)
  adding : Handle → Option AddFrame
  /-- the loggers that are being removed, by the coroutine, if any -/
  removing : Option Handle → Option Handle
  vlogs : Handle → Option (VlogFrame α)
  /-- the service that a logger was added with -/
  serviceOf : Handle → Option Service
  /-- the messages that `log_fn` was called with, by the mailbox of the logger -/
  calls : Handle → List (Option α)
  returned : List (LogCall α)
  /-- the loggers whose removal has begun -/
  removals : List Handle

/-- The links behind one of them. -/
def linksAfter : List Handle → Handle → List Handle
  | [], _ => []
  | link :: links, h => if link = h then links else linksAfter links h

namespace VlogFrame

variable {α : Type*}

/-- The loggers that the next step of the call reads and that it moves to after it. -/
def pointers (f : VlogFrame α) : List Handle :=
  match f.stage with
  | .visiting itr => itr.toList
  | .notifying _ itr next => itr :: next.toList

/-- The ghost of the call when it reads a logger that is there or was freed. -/
def read (f : VlogFrame α) (live : Bool) : VlogFrame α := { f with clean := f.clean && live }

/-- The ghost of the call when the `min_level` of a logger is set. -/
def setMinLevel (f : VlogFrame α) (logger : Handle) (level : LogLevel) : VlogFrame α :=
  if level.value ≤ f.level.value then f else { f with wanted := f.wanted.filter (· ≠ logger) }

end VlogFrame

namespace LogState

variable {α : Type*}

abbrev sched (m : LogState α) : Sched := m.mail.sched

def setSched (m : LogState α) (s : Sched) : LogState α := { m with mail := { m.mail with sched := s } }

def setVlog (m : LogState α) (c : Handle) (f : Option (VlogFrame α)) : LogState α :=
  { m with vlogs := Function.update m.vlogs c f }

def setStage (m : LogState α) (c : Handle) (svc : LogService α) (stage : LogStage α) : LogState α :=
  { m with services := Function.update m.services c (some { svc with stage := stage }) }

/-- `bio_yield`. -/
def yield (s : Sched) : Option Handle → Sched
  | some c => s.suspend c
  | none => s

/-- The condition of the loop of `bio_notify_service`. -/
def canNotify (m : LogState α) (service : Service) : Bool :=
  m.mail.isOpen service.mailbox && m.sched.coroState service.coro ≠ .dead

/-! ## Adding and removing -/

/-- `bio_add_logger` in the coroutine `c` up to the wait of `bio__service_start`. -/
def addLogger (m : LogState α) (c : Handle) (minLevel : LogLevel)
    (mailbox readySignal coro : Handle) : LogState α :=
  let mail := m.mail.open' 16#32 mailbox
  let s := (mail.sched.makeSignal c readySignal).spawnEx true coro
  { m with
    mail := { mail with sched := s.waitForSignals c [readySignal] true }
    services := Function.update m.services coro (some ⟨mailbox, readySignal, .starting⟩)
    adding := Function.update m.adding c (some ⟨minLevel, ⟨coro, mailbox⟩, readySignal⟩) }

/-- `bio_add_logger` after the wait, with the handle that the logger gets. -/
def finishAdd (m : LogState α) (c handle : Handle) : LogState α :=
  match m.adding c with
  | some f =>
    { m.setSched (m.sched.perform (.issue handle)) with
      impls := Function.update m.impls handle (some ⟨f.minLevel, f.service⟩)
      resolves := Function.update m.resolves handle true
      loggers := m.loggers ++ [handle]
      adding := Function.update m.adding c none
      serviceOf := Function.update m.serviceOf handle (some f.service) }
  | none => m

/-- `bio_remove_logger` up to `bio_notify_service`, in the coroutine `k` or outside of coroutines. -/
def removeLogger (m : LogState α) (k : Option Handle) (logger : Handle) : LogState α :=
  if m.resolves logger then
    { m with
      resolves := Function.update m.resolves logger false
      removing := Function.update m.removing k (some logger)
      removals := m.removals ++ [logger] }
  else m

/-- `bio_remove_logger` from `BIO_LIST_REMOVE` on. -/
def unlink (m : LogState α) (k : Option Handle) (logger : Handle) : LogState α :=
  { m with
    impls := Function.update m.impls logger none
    loggers := m.loggers.erase logger
    removing := Function.update m.removing k none }

/-- The next round of the loop of `bio_notify_service` in `bio_remove_logger`. -/
def removeStep (m : LogState α) (k : Option Handle) : LogState α :=
  match m.removing k with
  | some logger =>
    match m.impls logger with
    | some impl =>
      if m.canNotify impl.service then
        let (mail, sent) := m.mail.send impl.service.mailbox none
        let m := { m with mail := mail }
        if sent then m.unlink k logger else m.setSched (yield m.sched k)
      else m.unlink k logger
    | none => m
  | none => m

/-- `bio_set_min_log_level`. -/
def setMinLogLevel (m : LogState α) (logger : Handle) (level : LogLevel) : LogState α :=
  if m.resolves logger then
    { m with
      impls := Function.update m.impls logger
        ((m.impls logger).map fun impl => { impl with minLevel := level })
      vlogs := fun c => (m.vlogs c).map fun f => f.setMinLevel logger level }
  else m

/-! ## Logging -/

/-- `bio_vlog` in the coroutine `c` up to its loop. -/
def vlog (m : LogState α) (c : Handle) (level : LogLevel) (text : Option α) : LogState α :=
  m.setVlog c (some
    { level := level
      text := text
      stage := .visiting m.loggers.head?
      wanted := m.loggers.filter fun h => m.resolves h &&
        (m.impls h).any fun impl => impl.minLevel.value ≤ level.value
      clean := true })

/-- The logger behind a link. -/
def readLogger (m : LogState α) (h : Handle) (garbage : LoggerImpl) : LoggerImpl :=
  (m.impls h).getD garbage

/-- `itr->next`. -/
def readNext (m : LogState α) (h : Handle) (garbage : Option Handle) : Option Handle :=
  if (m.impls h).isSome then (linksAfter m.loggers h).head? else garbage

/-- The next step of a call of `bio_vlog`, with what it reads if the logger was freed. -/
def vlogStep (m : LogState α) (c : Handle) (f : VlogFrame α) (garbage : LoggerImpl)
    (garbageNext : Option Handle) : LogState α :=
  match f.stage with
  | .visiting none =>
    { m.setVlog c none with
      returned := m.returned ++
        f.text.toList.map fun message =>
          ⟨message, f.wanted.filter m.resolves, f.clean, m.removals⟩ }
  | .visiting (some h) =>
    let next := m.readNext h garbageNext
    let impl := m.readLogger h garbage
    let f := f.read (m.impls h).isSome
    if impl.minLevel.value ≤ f.level.value then
      match f.text with
      | none => m.setVlog c none
      | some message =>
        if m.sched.coroState impl.service.coro ≠ .dead then
          m.setVlog c (some { f with stage := .notifying message h next })
        else m.setVlog c (some { f with stage := .visiting next })
    else m.setVlog c (some { f with stage := .visiting next })
  | .notifying message h next =>
    let impl := m.readLogger h garbage
    let f := f.read (m.impls h).isSome
    if m.canNotify impl.service then
      let (mail, sent) := m.mail.send impl.service.mailbox (some message)
      let m := { m with mail := mail }
      if sent then m.setVlog c (some { f with stage := .visiting next })
      else (m.setSched (m.sched.suspend c)).setVlog c (some f)
    else m.setVlog c (some { f with stage := .visiting next })

/-! ## The coroutine of a logger -/

/-- `bio_recv_message` returned: `log_fn` is called, or the loop ends. -/
def dispatch (m : LogState α) (c : Handle) (svc : LogService α) :
    Option (Option (Option α)) → LogState α
  | some data =>
    { m.setStage c svc (.calling data.join) with
      calls := Function.update m.calls svc.mailbox (m.calls svc.mailbox ++ [data.join]) }
  | none => m.setStage c svc .closing

/-- The next step of `bio_service_wrapper` and `bio_log_service_entry`, with the handle of the signal
that `bio__mailbox_recv` makes. -/
def serviceStep (m : LogState α) (c : Handle) (svc : LogService α) (signal : Handle) : LogState α :=
  match svc.stage with
  | .starting =>
    (m.setSched (m.sched.raiseSignal svc.readySignal).1).setStage c svc .looping
  | .looping =>
    match m.mail.recv svc.mailbox signal with
    | (mail, .suspended) => { m with mail := mail }.setStage c svc .receiving
    | (mail, .returned message) => { m with mail := mail }.dispatch c svc message
  | .receiving =>
    { m with mail := m.mail.resumeRecv }.dispatch c svc (m.mail.take svc.mailbox).2
  | .calling message =>
    m.setStage c svc (if message.isSome then .looping else .closing)
  | .closing => { m with mail := m.mail.close svc.mailbox }.setStage c svc .done
  | .done => m

/-! ## Who may do what -/

/-- The running code is inside a function of this file. -/
def inCall (m : LogState α) : Bool :=
  (m.removing m.sched.phase.mcoRunning).isSome ||
    m.sched.phase.mcoRunning.any fun c => (m.vlogs c).isSome || (m.adding c).isSome

/-- The stage of the coroutine that runs, if it is that of a logger. -/
def stage (m : LogState α) : Option (LogStage α) :=
  m.sched.phase.mcoRunning.bind fun c => (m.services c).map LogService.stage

/-- The code that runs belongs to the rest of the program. -/
def inProgram (m : LogState α) : Bool :=
  !m.inCall &&
    match m.stage with
    | none | some (.calling _) => true
    | some _ => false

/-- An action of the rest of the program, or the coroutine of a logger ends. -/
def permits (m : LogState α) (a : Action) : Bool :=
  !m.inCall &&
    match m.stage with
    | none => true
    | some (.calling _) => a ≠ .finish
    | some .done => a = .finish
    | some _ => false

/-- A live signal of a receiver or of a call of `bio__service_start`. -/
def isLocal (m : LogState α) (h : Handle) : Bool :=
  (m.sched.ownerOf h).any fun c =>
    (m.mail.receiving c).any (fun f => f.signal = h) || (m.adding c).any (fun f => f.readySignal = h)

end LogState

inductive LogAction (α : Type*)
  /-- the rest of the program -/
  | sched (a : Action)
  | addLogger (minLevel : LogLevel) (mailbox readySignal coro : Handle)
  | finishAdd (handle : Handle)
  | removeLogger (logger : Handle)
  | removeStep
  | setMinLogLevel (logger : Handle) (level : LogLevel)
  | vlog (level : LogLevel) (text : Option α)
  | vlogStep (garbage : LoggerImpl) (garbageNext : Option Handle)
  | serviceStep (signal : Handle)

namespace LogState

variable {α : Type*}

def enabled (m : LogState α) : LogAction α → Prop
  | .sched a => m.sched.enabled a ∧ m.permits a = true ∧ ∀ h ∈ a.signals, m.isLocal h = false
  | .addLogger _ mailbox readySignal coro =>
    m.sched.phase.mcoRunning.any (fun c => m.sched.CanCount c) = true ∧ m.inProgram = true ∧
      m.sched.Fresh mailbox ∧ m.sched.Fresh readySignal ∧ m.sched.Fresh coro ∧
      [mailbox, readySignal, coro].Nodup
  | .finishAdd handle =>
    m.sched.phase.mcoRunning.any (fun c => (m.adding c).isSome) = true ∧ m.sched.Fresh handle
  | .removeLogger _ | .setMinLogLevel _ _ => m.sched.phase.userCode = true ∧ m.inProgram = true
  | .removeStep =>
    m.sched.phase.userCode = true ∧ (m.removing m.sched.phase.mcoRunning).isSome = true
  | .vlog _ _ => m.sched.phase.mcoRunning.isSome = true ∧ m.inProgram = true
  | .vlogStep _ _ => m.sched.phase.mcoRunning.any (fun c => (m.vlogs c).isSome) = true
  | .serviceStep signal =>
    m.sched.phase.mcoRunning.any (fun c => m.sched.CanCount c && (m.services c).isSome) = true ∧
      m.inCall = false ∧ m.sched.Fresh signal

/-- The effect of an action of the coroutine that runs. -/
def inCoro (m : LogState α) (f : Handle → LogState α) : LogState α :=
  match m.sched.phase.mcoRunning with
  | some c => f c
  | none => m

def perform (m : LogState α) : LogAction α → LogState α
  | .sched a => m.setSched (m.sched.perform a)
  | .addLogger minLevel mailbox readySignal coro =>
    m.inCoro fun c => m.addLogger c minLevel mailbox readySignal coro
  | .finishAdd handle => m.inCoro fun c => m.finishAdd c handle
  | .removeLogger logger => m.removeLogger m.sched.phase.mcoRunning logger
  | .removeStep => m.removeStep m.sched.phase.mcoRunning
  | .setMinLogLevel logger level => m.setMinLogLevel logger level
  | .vlog level text => m.inCoro fun c => m.vlog c level text
  | .vlogStep garbage garbageNext =>
    m.inCoro fun c =>
      match m.vlogs c with
      | some f => m.vlogStep c f garbage garbageNext
      | none => m
  | .serviceStep signal =>
    m.inCoro fun c =>
      match m.services c with
      | some svc => m.serviceStep c svc signal
      | none => m

def init : LogState α where
  mail := MailboxState.init
  impls := fun _ => none
  resolves := fun _ => false
  loggers := []
  services := fun _ => none
  adding := fun _ => none
  removing := fun _ => none
  vlogs := fun _ => none
  serviceOf := fun _ => none
  calls := fun _ => []
  returned := []
  removals := []

/-- All interleavings of loggers, their callers and the rest of the program. -/
def machine (α : Type*) : Machine (LogState α) (LogAction α) where
  init := fun m => m = init
  enabled := enabled
  perform := perform

instance (m : LogState α) : ∀ a, Decidable ((machine α).enabled m a)
  | .sched a => inferInstanceAs (Decidable
      (m.sched.enabled a ∧ m.permits a = true ∧ ∀ h ∈ a.signals, m.isLocal h = false))
  | .addLogger _ mailbox readySignal coro => inferInstanceAs (Decidable
      (m.sched.phase.mcoRunning.any (fun c => m.sched.CanCount c) = true ∧ m.inProgram = true ∧
      m.sched.Fresh mailbox ∧ m.sched.Fresh readySignal ∧ m.sched.Fresh coro ∧
      [mailbox, readySignal, coro].Nodup))
  | .finishAdd handle => inferInstanceAs (Decidable
      (m.sched.phase.mcoRunning.any (fun c => (m.adding c).isSome) = true ∧ m.sched.Fresh handle))
  | .removeLogger _ | .setMinLogLevel _ _ => inferInstanceAs (Decidable
      (m.sched.phase.userCode = true ∧ m.inProgram = true))
  | .removeStep => inferInstanceAs (Decidable
      (m.sched.phase.userCode = true ∧ (m.removing m.sched.phase.mcoRunning).isSome = true))
  | .vlog _ _ => inferInstanceAs (Decidable
      (m.sched.phase.mcoRunning.isSome = true ∧ m.inProgram = true))
  | .vlogStep _ _ => inferInstanceAs (Decidable
      (m.sched.phase.mcoRunning.any (fun c => (m.vlogs c).isSome) = true))
  | .serviceStep signal => inferInstanceAs (Decidable
      (m.sched.phase.mcoRunning.any
        (fun c => m.sched.CanCount c && (m.services c).isSome) = true ∧
      m.inCall = false ∧ m.sched.Fresh signal))

/-! ## Shutdown -/

/-- The next step of `bio_logging_cleanup` outside of coroutines. -/
def cleanupStep (m : LogState α) : LogState α :=
  match m.removing none with
  | some _ => m.removeStep none
  | none =>
    match m.loggers with
    | logger :: _ => m.removeLogger none logger
    | [] => m

end LogState

/-! ## A logger that writes to a file -/

/-- What `bio_log_to_file` works on: the lines written to the file and whether its
`bio_file_logger_data_t` has not been freed. -/
structure FileLog (α : Type*) where
  lines : List α
  live : Bool

namespace FileLog

variable {α : Type*}

/-- `bio_add_file_logger` before it adds the logger. -/
def new : FileLog α := ⟨[], true⟩

/-- `bio_log_to_file`. There is no result if it uses its data after it freed it. -/
def logToFile (data : FileLog α) (message : Option α) : Option (FileLog α) :=
  if data.live then
    match message with
    | some message => some { data with lines := data.lines ++ [message] }
    | none => some { data with live := false }
  else none

end FileLog

end Bio
