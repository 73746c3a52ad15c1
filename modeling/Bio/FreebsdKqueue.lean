import Bio.FreebsdNetClose
import Bio.SchedulerPass

/-!
# The kernel's pointers to requests on FreeBSD

The requests of `src/freebsd/net.c` are local variables of the calls that wait. Pointers to them are in
`in_events` until `bio_platform_update` hands them to `kevent`, and from then on in the kernel: an event
is registered for a descriptor and a filter, with the pointer as `udata`. Here the sockets of
`NetState` run together with the registrations of the kernel.

* `KqueueState.net` is the machine of the sockets. There an event is kept with its request; here the
  kernel keeps it, and `bio_platform_dispatch_events` gets the pointer from the kernel.
* `EV_ADD` replaces the registration for the same descriptor and filter, `EV_DISPATCH` disables it when
  its event is delivered, and `close` removes those of the descriptor.
* `dangled`: a pointer was read after the call with the request had returned.
* `bio_loop` calls `bio_platform_update` once in each round, before it swaps the ready lists.

Result: `requests_alive`.
-/

namespace Bio

open FreebsdErrno (ebadf ewouldblock)

/-- An event that the kernel has registered. -/
structure Knote where
  udata : Handle × Nat
  enabled : Bool
deriving DecidableEq, Repr

/-- The filter of a wait. -/
def NetFrame.filter (f : NetFrame) : NetFilter :=
  match f.caller with
  | .op op _ => op.filter
  | .connect => .write

structure KqueueState where
  net : NetState
  /-- by `ident` and `filter` -/
  knotes : Nat × NetFilter → Option Knote
  /-- `bio_platform_update` of this round has returned -/
  updated : Bool
  dangled : Bool

inductive KqueueAction
  /-- anything but `bio_platform_update` -/
  | net (a : NetAction)
  /-- with the errors of the changes, and the events in the order in which `kevent` returns them -/
  | platformUpdate (errors : Handle → Nat) (ready : List (Nat × NetFilter))

namespace KqueueState

/-! ## The functions of `platform.c` -/

/-- `bio_platform_dispatch_events`, for one event. -/
def dispatchEvent (k : KqueueState) (p : Handle × Nat) (error : Nat) : KqueueState :=
  match k.net.frame p with
  | some _ => { k with net := k.net.dispatchEvent p error }
  | none => { k with dangled := true }

/-- One entry of `in_events`. The filter of the cancelled ones reads the request. -/
def submitEvent (errors : Handle → Nat) (k : KqueueState) (p : Handle × Nat) : KqueueState :=
  match k.net.frame p with
  | some f =>
    let error := if f.fd ∈ k.net.fds then errors p.1 else ebadf
    if f.cancelled then k
    else if error = 0 then
      { k with
        net := k.net.setFrame p.1 (some { f with registered := true })
        knotes := Function.update k.knotes (f.fd, f.filter) (some ⟨p, true⟩) }
    else k.dispatchEvent p error
  | none => { k with dangled := true }

/-- The kernel delivers an event. -/
def fireEvent (k : KqueueState) (key : Nat × NetFilter) : KqueueState :=
  match k.knotes key with
  | some ⟨p, true⟩ =>
    { k with knotes := Function.update k.knotes key (some ⟨p, false⟩) }.dispatchEvent p 0
  | _ => k

def clearEvents (k : KqueueState) : KqueueState := { k with net := { k.net with inEvents := [] } }

/-- `bio_platform_update`. -/
def platformUpdate (k : KqueueState) (errors : Handle → Nat) (ready : List (Nat × NetFilter)) :
    KqueueState :=
  { ready.foldl fireEvent (k.net.inEvents.foldl (submitEvent errors) k).clearEvents with
    updated := true }

/-! ## The machine -/

/-- The descriptor that an action closes. -/
def closedFd (q : NetState) : NetAction → Option Nat
  | .close socket _ => (q.sockets socket).map Socket.fd
  | _ => none

/-- The registrations that a close leaves. -/
def removeKnotes (knotes : Nat × NetFilter → Option Knote) (fd : Option Nat) :
    Nat × NetFilter → Option Knote :=
  fun key => if fd = some key.1 then none else knotes key

def isSwap : NetAction → Bool
  | .sched .swap => true
  | _ => false

def isUpdate : NetAction → Bool
  | .platformUpdate _ _ => true
  | _ => false

def enabled (k : KqueueState) : KqueueAction → Prop
  | .net a => NetState.machine.enabled k.net a ∧ isUpdate a = false ∧
      (isSwap a = true → k.updated = true)
  | .platformUpdate _ _ =>
    k.net.crashed = false ∧ k.net.sched.phase = .polling ∧ k.updated = false

def perform (k : KqueueState) : KqueueAction → KqueueState
  | .net a =>
    { k with
      net := NetState.machine.perform k.net a
      knotes := removeKnotes k.knotes (closedFd k.net a)
      updated := !isSwap a && k.updated }
  | .platformUpdate errors ready => k.platformUpdate errors ready

def init : KqueueState := ⟨NetState.init, fun _ => none, false, false⟩

def machine : Machine KqueueState KqueueAction where
  init := fun k => k = init
  enabled := enabled
  perform := perform

instance (k : KqueueState) : ∀ a, Decidable (machine.enabled k a)
  | .net a => inferInstanceAs (Decidable (NetState.machine.enabled k.net a ∧
      isUpdate a = false ∧ (isSwap a = true → k.updated = true)))
  | .platformUpdate _ _ => inferInstanceAs (Decidable
      (k.net.crashed = false ∧ k.net.sched.phase = .polling ∧ k.updated = false))

/-! ## The invariant -/

section Requests

variable {q q' : NetState} {knotes : Nat × NetFilter → Option Knote} {c h : Handle}
  {f : NetFrame} {closing : Option Nat}

/-- What holds of the requests and the pointers to them, while the descriptor `closing` is being
closed. -/
structure RequestsOk (q : NetState) (knotes : Nat × NetFilter → Option Knote)
    (closing : Option Nat) : Prop where
  /-- an entry of `in_events` is for a wait that does not return before `bio_platform_update` -/
  submitted : ∀ p ∈ q.inEvents, ∃ f, q.frame p = some f ∧ f.registered = false ∧
    q.sched.SitsOut p.1 ∧ (f.cancelled = false → q.sched.ownerOf f.signal = some p.1)
  nodup : (q.inEvents.map Prod.fst).Nodup
  registered : ∀ c f, q.frames c = some f → f.registered = true → closing ≠ some f.fd →
    q.sched.ownerOf f.signal = some c
  knotes : ∀ key p, knotes key = some ⟨p, true⟩ →
    ∃ f, q.frame p = some f ∧ f.registered = true ∧ (f.fd, f.filter) = key
  fds : ∀ c f op h impl, q.frames c = some f → f.caller = .op op h → q.sockets h = some impl →
    f.fd = impl.fd

theorem frame_eq_some {p : Handle × Nat} :
    q.frame p = some f ↔ q.frames p.1 = some f ∧ f.call = p.2 := by
  simp [NetState.frame, Option.filter_eq_some_iff]

/-- The waits stay as they are. -/
theorem RequestsOk.keep (hok : RequestsOk q knotes closing) (hframes : q'.frames = q.frames)
    (hevents : q'.inEvents = q.inEvents)
    (hlive : ∀ c f, q.frames c = some f → q.sched.ownerOf f.signal = some c →
      q'.sched.ownerOf f.signal = some c)
    (hsits : ∀ p ∈ q.inEvents, q.sched.SitsOut p.1 → q'.sched.SitsOut p.1)
    (hsockets : ∀ c f op h impl', q.frames c = some f → f.caller = .op op h →
      q'.sockets h = some impl' → ∃ impl, q.sockets h = some impl ∧ impl.fd = impl'.fd) :
    RequestsOk q' knotes closing := by
  have hframe : ∀ p, q'.frame p = q.frame p := fun p => by
    rw [NetState.frame, hframes, NetState.frame]
  refine ⟨fun p hp => ?_, hevents ▸ hok.nodup, fun c f hf hreg hne => ?_, fun key p hkey => ?_,
    fun c f op h impl' hf hop himpl' => ?_⟩
  · rw [hevents] at hp
    obtain ⟨f, hf, hreg, hsit, hcancel⟩ := hok.submitted p hp
    exact ⟨f, (hframe p).trans hf, hreg, hsits p hp hsit,
      fun hnot => hlive p.1 f (frame_eq_some.mp hf).1 (hcancel hnot)⟩
  · rw [hframes] at hf
    exact hlive c f hf (hok.registered c f hf hreg hne)
  · obtain ⟨f, hf, hreg, heq⟩ := hok.knotes key p hkey
    exact ⟨f, (hframe p).trans hf, hreg, heq⟩
  · rw [hframes] at hf
    obtain ⟨impl, himpl, heq⟩ := hsockets c f op h impl' hf hop himpl'
    exact (hok.fds c f op h impl hf hop himpl).trans heq

theorem RequestsOk.same (hok : RequestsOk q knotes closing) (hsched : q'.sched = q.sched)
    (hframes : q'.frames = q.frames) (hevents : q'.inEvents = q.inEvents)
    (hsockets : q'.sockets = q.sockets) : RequestsOk q' knotes closing :=
  hok.keep hframes hevents (fun _ _ _ h => hsched ▸ h) (fun _ _ h => hsched ▸ h)
    fun _ _ _ _ impl _ _ h => ⟨impl, hsockets ▸ h, rfl⟩

/-- An action of the scheduler outside of the waits. -/
theorem RequestsOk.schedStep (hok : RequestsOk q knotes closing) (hi : q.Inv) {a : Action}
    (he : Sched.machine.enabled q.sched a) (hidle : q.Idle)
    (hnames : ∀ c f, q.frames c = some f → a.names f.signal = true →
      q.sched.ownerOf f.signal ≠ some c)
    (hswap : a = .swap → q.inEvents = []) :
    RequestsOk { q with sched := Sched.machine.perform q.sched a } knotes closing := by
  refine hok.keep rfl rfl (fun c f hf => ?_) (fun p hp hsit => ?_)
    fun _ _ _ _ impl _ _ h => ⟨impl, h, rfl⟩
  · exact ((hi.frames c f hf).waits.step hi.sched he (hidle c f hf) (hnames c f hf)).2.mpr
  · refine hsit.effect (.of_step he) (Sched.inv_of_reachable hi.sched).2 fun ha => ?_
    rw [hswap ha] at hp
    cases hp

/-- A new socket. -/
theorem RequestsOk.socketFromFd (hok : RequestsOk q knotes closing) (hi : q.Inv) (hidle : q.Idle)
    (huser : q.sched.phase.userCode = true) (fd : Nat) (hfresh : q.sched.Fresh h) :
    RequestsOk (q.socketFromFd fd h) knotes closing := by
  have hissue : Sched.machine.enabled q.sched (.issue h) := ⟨huser, hfresh⟩
  refine (hok.schedStep hi hissue hidle (fun _ _ _ => by simp [Action.names]) nofun).keep rfl rfl
    (fun _ _ _ h => h) (fun _ _ h => h) fun c f op x impl' hf hop himpl' => ?_
  refine ⟨impl', ?_, rfl⟩
  rcases Table.insert_some himpl' with ⟨rfl, _⟩ | ⟨_, hold⟩
  · exact absurd ((hi.frames c f hf).issued op _ hop) hfresh.2
  · exact hold

theorem RequestsOk.syscall (hok : RequestsOk q knotes closing) (hi : q.Inv) (hidle : q.Idle)
    (huser : q.sched.phase.userCode = true) {op : NetOp} {fd : Nat} {client : Handle}
    {result : Except Nat Nat} (hreturn : q.CanReturn op fd client result) (socket : Handle) :
    RequestsOk (q.syscall op socket fd client result) knotes closing := by
  rcases NetState.syscall_cases q op socket fd client result with
    heq | ⟨clientFd, rfl, rfl, heq⟩ <;> rw [heq]
  · exact hok.same rfl rfl rfl rfl
  · exact (hok.socketFromFd hi hidle huser clientFd (hreturn.2 rfl).2).same rfl rfl rfl rfl

theorem frame_update {v : Option NetFrame} {p : Handle × Nat}
    (hframes : q'.frames = Function.update q.frames c v) (hne : p.1 ≠ c) :
    q'.frame p = q.frame p := by
  rw [NetState.frame, hframes, Function.update_of_ne hne, NetState.frame]

/-- A new wait. -/
theorem RequestsOk.push (hok : RequestsOk q knotes none) (hnone : q.frames c = none)
    (hlive : q.sched.ownerOf f.signal = some c) (hsit : q.sched.SitsOut c)
    (hreg : f.registered = false) (hsched : q'.sched = q.sched)
    (hframes : q'.frames = Function.update q.frames c (some f))
    (hevents : q'.inEvents = q.inEvents ++ [(c, f.call)])
    (hsockets : ∀ h impl', q'.sockets h = some impl' →
      ∃ impl, q.sockets h = some impl ∧ impl.fd = impl'.fd)
    (hfd : ∀ op h impl, f.caller = .op op h → q.sockets h = some impl → f.fd = impl.fd) :
    RequestsOk q' knotes none := by
  have hne : ∀ {p f'}, q.frame p = some f' → p.1 ≠ c := by
    rintro p f' hf rfl
    rw [(frame_eq_some.mp hf).1] at hnone
    cases hnone
  have hold : ∀ {p f'}, q.frame p = some f' → q'.frame p = some f' :=
    fun hf => (frame_update hframes (hne hf)).trans hf
  refine ⟨fun p hp => ?_, ?_, fun d g hg hgreg _ => ?_, fun key p hkey => ?_,
    fun d g op h impl' hg hop himpl' => ?_⟩
  · rw [hevents] at hp
    rcases List.mem_append.mp hp with hp | hp
    · obtain ⟨f', hf', hreg', hsit', hcancel⟩ := hok.submitted p hp
      exact ⟨f', hold hf', hreg', hsched ▸ hsit', hsched ▸ hcancel⟩
    · obtain rfl := List.mem_singleton.mp hp
      refine ⟨f, frame_eq_some.mpr ⟨?_, rfl⟩, hreg, hsched ▸ hsit, fun _ => hsched ▸ hlive⟩
      rw [hframes, Function.update_self]
  · rw [hevents, List.map_append, List.nodup_append]
    refine ⟨hok.nodup, List.nodup_singleton _, fun d hd d' hd' => ?_⟩
    obtain ⟨p, hp, rfl⟩ := List.mem_map.mp hd
    obtain rfl := List.mem_singleton.mp hd'
    obtain ⟨f', hf', _⟩ := hok.submitted p hp
    exact hne hf'
  · rw [hframes] at hg
    rcases Table.insert_some hg with ⟨_, rfl⟩ | ⟨_, hg⟩
    · rw [hreg] at hgreg
      cases hgreg
    · exact hsched ▸ hok.registered d g hg hgreg nofun
  · obtain ⟨f', hf', hreg', heq⟩ := hok.knotes key p hkey
    exact ⟨f', hold hf', hreg', heq⟩
  · obtain ⟨impl, himpl, heq⟩ := hsockets h impl' himpl'
    rw [hframes] at hg
    rcases Table.insert_some hg with ⟨_, rfl⟩ | ⟨_, hg⟩
    · exact (hfd op h impl hop himpl).trans heq
    · exact (hok.fds d g op h impl hg hop himpl).trans heq

/-- A wait returns: its request is not registered any more. -/
theorem RequestsOk.pop (hok : RequestsOk q knotes none) (hi : q.Inv)
    (hp : q.sched.phase = .running c) (hf : q.frames c = some f) (hsched : q'.sched = q.sched)
    (hframes : q'.frames = Function.update q.frames c none) (hevents : q'.inEvents = q.inEvents)
    (hsockets : ∀ h impl', q'.sockets h = some impl' →
      ∃ impl, q.sockets h = some impl ∧ impl.fd = impl'.fd) : RequestsOk q' knotes none := by
  refine ⟨fun p hmem => ?_, hevents ▸ hok.nodup, fun d g hg hgreg hne => ?_, fun key p hkey => ?_,
    fun d g op h impl' hg hop himpl' => ?_⟩
  · rw [hevents] at hmem
    obtain ⟨g, hg, hreg, hsit, hcancel⟩ := hok.submitted p hmem
    have hne : p.1 ≠ c := fun heq => hsit.idle (heq ▸ hp)
    exact ⟨g, (frame_update hframes hne).trans hg, hreg, hsched ▸ hsit, hsched ▸ hcancel⟩
  · rw [hframes] at hg
    exact hsched ▸ hok.registered d g (Table.erase_some hg).2 hgreg hne
  · obtain ⟨g, hg, hgreg, heq⟩ := hok.knotes key p hkey
    refine ⟨g, (frame_update hframes fun hpc => ?_).trans hg, hgreg, heq⟩
    -- The wait that returns has no live signal.
    obtain rfl : g = f := Option.some.inj ((frame_eq_some.mp hg).1.symm.trans (hpc ▸ hf))
    exact (hi.frames c g hf).waits.closed hi.sched hp (hok.registered c g hf hgreg nofun)
  · rw [hframes] at hg
    obtain ⟨impl, himpl, heq⟩ := hsockets h impl' himpl'
    exact (hok.fds d g op h impl (Table.erase_some hg).2 hop himpl).trans heq

/-- The scheduler's part of a wait. -/
theorem RequestsOk.awaits (hok : RequestsOk q knotes none) (hi : q.Inv)
    (hp : q.sched.phase = .running c) (hbusy : q.busy = false) {signal : Handle}
    (hfresh : q.sched.Fresh signal) (hcount : q.sched.CanCount c) :
    let s := (q.sched.makeSignal c signal).waitForSignals c [signal] true
    RequestsOk { q with sched := s } knotes none ∧ s.ownerOf signal = some c ∧ s.SitsOut c ∧
      q.frames c = none := by
  obtain ⟨hinv, hwaits, _, hnone⟩ := hi.awaits hp hbusy hfresh hcount
  have hidle : ∀ {t : Sched}, t.phase = .running c → NetState.Idle { q with sched := t } := by
    rintro t ht d g hd hd'
    obtain rfl := Phase.running.inj (ht.symm.trans hd')
    cases hnone.symm.trans hd
  have hmake : Sched.machine.enabled q.sched (.makeSignal signal) := ⟨by rw [hp]; rfl, hfresh⟩
  have hp₁ : (q.sched.makeSignal c signal).phase = .running c :=
    (Sched.makeSignal_phase ..).trans hp
  have hok₁ := hok.schedStep hi hmake (hidle hp) (fun _ _ _ => by simp [Action.names])
    (by simp)
  have hi₁ : NetState.Inv { q with sched := Sched.machine.perform q.sched (.makeSignal signal) } :=
    hi.schedStep hmake (hidle hp) (fun _ _ _ => by simp [Action.names]) rfl rfl rfl rfl
  rw [Sched.perform_makeSignal hp] at hok₁ hi₁
  have hok₂ := hok₁.schedStep hi₁ (Sched.wait_enabled hp₁ [signal] true) (hidle hp₁)
    (fun _ _ _ => by simp [Action.names])
    (by simp)
  have hperform : Sched.machine.perform (q.sched.makeSignal c signal) (.wait [signal] true) =
      (q.sched.makeSignal c signal).waitForSignals c [signal] true :=
    Sched.perform_wait hp₁ [signal] true
  have hlive : ((q.sched.makeSignal c signal).waitForSignals c [signal] true).ownerOf signal =
      some c := by
    rw [Sched.ownerOf_waitForSignals]
    exact Sched.makeSignal_owner (Sched.Inside.of_running hi.sched hp).live
  refine ⟨hperform ▸ hok₂, hlive, ?_, hnone⟩
  exact Sched.sitsOut_of_waiting (Sched.inv_of_reachable hinv.sched).1
    (hwaits.waiting hinv.sched hlive)

theorem RequestsOk.netOp (hok : RequestsOk q knotes none) (hi : q.Inv)
    (hp : q.sched.phase = .running c) {op : NetOp} {signal client : Handle}
    {result : Except Nat Nat} (hop : q.CanOp op h signal client result) :
    RequestsOk (NetState.netOp op (NetState.waitForFilter op.filter) q c h signal client result).1
      knotes none := by
  obtain ⟨hbusy, hfresh, hcount, hreturn⟩ := hop
  have hcount' : q.sched.CanCount c := by simpa [hp, Phase.mcoRunning] using hcount
  rcases NetState.netOp_cases op q c h signal client result with ⟨_, heq⟩ | ⟨impl, himpl, heq⟩ |
    ⟨impl, himpl, _, heq⟩ <;> rw [heq]
  · exact hok
  · exact hok.syscall hi (NetState.idle_of_busy hbusy) (by rw [hp]; rfl) (hreturn impl himpl) h
  · obtain ⟨hwait, hlive, hsit, hnone⟩ := hok.awaits hi hp hbusy hfresh hcount'
    refine hwait.push (f := ⟨q.calls, .op op h, impl.fd, signal, false, false, 0⟩) hnone hlive hsit
      rfl rfl rfl rfl (fun x impl' himpl' => ?_) fun op' x impl' hcaller himpl' => ?_
    · rcases Table.insert_some himpl' with ⟨rfl, rfl⟩ | ⟨_, hold⟩
      · exact ⟨impl, himpl, by cases op <;> rfl⟩
      · exact ⟨impl', hold, rfl⟩
    · cases hcaller
      rw [Option.some.inj (himpl.symm.trans himpl')]

theorem RequestsOk.netConnect (hok : RequestsOk q knotes none) (hi : q.Inv)
    (hp : q.sched.phase = .running c) (hbusy : q.busy = false) (fd : Nat) {signal : Handle}
    (hfresh : q.sched.Fresh signal) (hcount : q.sched.CanCount c) :
    RequestsOk (q.netConnect c fd signal) knotes none := by
  obtain ⟨hwait, hlive, hsit, hnone⟩ := hok.awaits hi hp hbusy hfresh hcount
  exact hwait.push (f := ⟨q.calls, .connect, fd, signal, false, false, 0⟩) hnone hlive hsit rfl rfl
    rfl rfl (fun _ impl himpl => ⟨impl, himpl, rfl⟩) nofun

theorem RequestsOk.finish (hok : RequestsOk q knotes none) (hi : q.Inv)
    (hp : q.sched.phase = .running c) (hf : q.frames c = some f) {client : Handle}
    {result : Except Nat Nat} (hcan : q.CanFinish client f result) :
    RequestsOk (q.finish c client result) knotes none := by
  have huser : q.sched.phase.userCode = true := by rw [hp]; rfl
  have hresume : ∀ {op socket}, f.caller = .op op socket →
      RequestsOk (q.resumeOp c op socket) knotes none := by
    intro op socket hcaller
    obtain ⟨hsched, hframes, hsockets, _⟩ := NetState.resumeOp_frame q c op socket
    refine hok.pop hi hp hf hsched hframes ?_ fun h impl' himpl' => ?_
    · unfold NetState.resumeOp NetState.clearSlot
      split <;> rfl
    · rw [hsockets] at himpl'
      rcases Table.update_some himpl' with ⟨rfl, hnew⟩ | ⟨_, hold⟩
      · obtain ⟨impl, himpl, rfl⟩ := Option.map_eq_some_iff.mp hnew
        exact ⟨impl, himpl, by cases op <;> rfl⟩
      · exact ⟨impl', hold, rfl⟩
  rcases NetState.finish_cases hf client result with ⟨op, socket, hcaller, herror, heq⟩ |
    ⟨op, socket, hcaller, _, heq⟩ | ⟨hcaller, heq⟩ <;> rw [heq]
  · obtain ⟨hsched, hframes, _, _, hfds⟩ := NetState.resumeOp_frame q c op socket
    exact ((hresume hcaller).syscall (hi.resumeOp hf hcaller)
      (NetState.resume_idle hp hsched hframes) (hsched ▸ huser)
      ((hcan.canReturn hcaller herror).congr hfds hsched) socket).same rfl rfl rfl rfl
  · exact (hresume hcaller).same rfl rfl rfl rfl
  · have hpop : RequestsOk (q.setFrame c none) knotes none :=
      hok.pop hi hp hf rfl rfl rfl fun _ impl himpl => ⟨impl, himpl, rfl⟩
    exact hpop.socketFromFd (hi.popConnect hf hcaller rfl rfl rfl rfl)
      (NetState.resume_idle hp rfl rfl) huser f.fd (hcan.fresh hcaller)

/-- The signal of one wait is raised. Those of the others stay live. -/
theorem live_raise (hi : q.Inv) (hidle : q.Idle) (hp : q.sched.phase ≠ .pass) {d : Handle}
    {g : NetFrame} (hf : q.frames c = some f) (hg : q.frames d = some g) (hne : d ≠ c)
    (hlive : q.sched.ownerOf g.signal = some d) :
    (q.sched.raiseSignal f.signal).1.ownerOf g.signal = some d := by
  have hwaits := (hi.frames d g hg).waits
  refine (hwaits.step (a := .raise f.signal) hi.sched hp (hidle d g hg) fun hn => ?_).2.mpr hlive
  have hsame : f.signal = g.signal := by simpa [Action.names] using hn
  have hmade := (hi.frames c f hf).waits.held.made
  rw [hsame] at hmade
  exact absurd ((Sched.accounted_of_reachable hi.sched).made_unique d c g.signal hwaits.held.made
    hmade) hne

/-- One wait is woken. -/
theorem RequestsOk.wake (hok : RequestsOk q knotes closing) (hi : q.Inv) (hidle : q.Idle)
    (hp : q.sched.phase ≠ .pass) {p : Handle × Nat} {f' : NetFrame} (hf : q.frame p = some f)
    (hkey : f'.key = f.key) (hfd : f'.fd = f.fd)
    (hcancel : p ∈ q.inEvents → f'.cancelled = true ∧ f'.registered = f.registered)
    (hreg : f'.registered = true → closing = some f.fd)
    (hknotes : ∀ key, knotes key = some ⟨p, true⟩ → f'.registered = true) :
    RequestsOk { q.setFrame p.1 (some f') with sched := (q.sched.raiseSignal f.signal).1 } knotes
      closing := by
  obtain ⟨hframe, hcall⟩ := frame_eq_some.mp hf
  obtain ⟨hcall', hcaller', _⟩ := NetState.key_eq hkey
  have hself : ∀ {p' g}, q.frame p' = some g → p'.1 = p.1 → p' = p ∧ g = f := by
    intro p' g hg heq
    obtain ⟨hg, hc⟩ := frame_eq_some.mp hg
    obtain rfl : g = f := Option.some.inj (hg.symm.trans (heq ▸ hframe))
    exact ⟨Prod.ext heq (hc.symm.trans hcall), rfl⟩
  have hnew : NetState.frame
      { q.setFrame p.1 (some f') with sched := (q.sched.raiseSignal f.signal).1 } p = some f' :=
    frame_eq_some.mpr ⟨Function.update_self .., hcall'.trans hcall⟩
  refine ⟨fun p' hmem => ?_, hok.nodup, fun d g hg hgreg hne => ?_, fun key p' hk => ?_,
    fun d g op h impl hg hop himpl => ?_⟩
  · obtain ⟨g, hg, hgreg, hsit, hcancelled⟩ := hok.submitted p' hmem
    by_cases heq : p'.1 = p.1
    · obtain ⟨rfl, rfl⟩ := hself hg heq
      obtain ⟨htrue, hsame⟩ := hcancel hmem
      exact ⟨f', hnew, hsame.trans hgreg, hsit.raise _, fun hnot =>
        absurd htrue (by simp [hnot])⟩
    · exact ⟨g, (frame_update rfl heq).trans hg, hgreg, hsit.raise _, fun hnot =>
        live_raise hi hidle hp hframe (frame_eq_some.mp hg).1 heq (hcancelled hnot)⟩
  · rcases Table.insert_some hg with ⟨_, rfl⟩ | ⟨hdp, hg⟩
    · exact absurd ((hreg hgreg).trans (by rw [hfd])) hne
    · exact live_raise hi hidle hp hframe hg hdp (hok.registered d g hg hgreg hne)
  · obtain ⟨g, hg, hgreg, hkeys⟩ := hok.knotes key p' hk
    by_cases heq : p'.1 = p.1
    · obtain ⟨rfl, rfl⟩ := hself hg heq
      refine ⟨f', hnew, hknotes key hk, hkeys ▸ ?_⟩
      rw [hfd, NetFrame.filter, hcaller', ← NetFrame.filter]
    · exact ⟨g, (frame_update rfl heq).trans hg, hgreg, hkeys⟩
  · rcases Table.insert_some hg with ⟨_, rfl⟩ | ⟨_, hg⟩
    · exact hfd.trans (hok.fds p.1 f op h impl hframe (hcaller' ▸ hop) himpl)
    · exact hok.fds d g op h impl hg hop himpl

/-- A request on the descriptor that is being closed is cancelled. -/
theorem RequestsOk.cancelIo {fd : Nat} (hok : RequestsOk q knotes (some fd)) (hi : q.Inv)
    (hidle : q.Idle) (hp : q.sched.phase ≠ .pass) {p : Handle × Nat}
    (hfd : ∀ f, q.frame p = some f → f.fd = fd) : RequestsOk (q.cancelIo p) knotes (some fd) := by
  unfold NetState.cancelIo
  split
  · next f hf =>
    refine hok.wake hi hidle hp hf rfl rfl (fun _ => ⟨rfl, rfl⟩) (fun _ => by rw [hfd f hf])
      fun key hkey => ?_
    obtain ⟨g, hg, hgreg, _⟩ := hok.knotes key p hkey
    rwa [Option.some.inj (hf.symm.trans hg)]
  · exact hok

/-- The kernel forgets what is registered for a descriptor. -/
theorem RequestsOk.closeFd {fd : Nat} (hok : RequestsOk q knotes (some fd))
    (hgone : ∀ key p, knotes key = some ⟨p, true⟩ → key.1 ≠ fd) :
    RequestsOk (q.closeFd fd) knotes none := by
  have hforth : ∀ {p f}, q.frame p = some f → (q.closeFd fd).frame p =
      some (if f.fd = fd then { f with registered := false } else f) := by
    intro p f hf
    obtain ⟨hf, hcall⟩ := frame_eq_some.mp hf
    refine frame_eq_some.mpr ⟨?_, ?_⟩
    · show (q.frames p.1).map _ = _
      rw [hf]
      rfl
    · split <;> exact hcall
  have hback : ∀ {c f'}, (q.closeFd fd).frames c = some f' →
      ∃ f, q.frames c = some f ∧ f' = if f.fd = fd then { f with registered := false } else f := by
    intro c f' hf'
    obtain ⟨f, hf, heq⟩ := Option.map_eq_some_iff.mp hf'
    exact ⟨f, hf, heq.symm⟩
  refine ⟨fun p hp => ?_, hok.nodup, fun c f' hf' hreg _ => ?_, fun key p hkey => ?_,
    fun c f' op h impl hf' hop himpl => ?_⟩
  · obtain ⟨f, hf, hreg, hsit, hcancel⟩ := hok.submitted p hp
    refine ⟨_, hforth hf, ?_, hsit, ?_⟩
    · split
      · rfl
      · exact hreg
    · split <;> exact hcancel
  · obtain ⟨f, hf, rfl⟩ := hback hf'
    split at hreg
    · cases hreg
    · next hne =>
      rw [if_neg hne]
      exact hok.registered c f hf hreg fun heq => hne (Option.some.inj heq).symm
  · obtain ⟨f, hf, hreg, heq⟩ := hok.knotes key p hkey
    have hne : f.fd ≠ fd := fun hfd => hgone key p hkey (heq ▸ hfd)
    exact ⟨f, (hforth hf).trans (by rw [if_neg hne]), hreg, heq⟩
  · obtain ⟨f, hf, rfl⟩ := hback hf'
    split at hop
    · next hfd =>
      rw [if_pos hfd]
      exact hok.fds c f op h impl hf hop himpl
    · next hne =>
      rw [if_neg hne]
      exact hok.fds c f op h impl hf hop himpl

theorem idle_raises (hr : NetState.Raises q q') (hidle : q.Idle) : q'.Idle := by
  intro c f' hf'
  obtain ⟨f, hf, _⟩ := hr.waits.back hf'
  rw [hr.phase]
  exact hidle c f hf

theorem cancelIo_fd {p : Handle × Nat} {fd : Nat} (hfd : ∀ f, q.frame p = some f → f.fd = fd) :
    ∀ f, (q.cancelIo p).frame p = some f → f.fd = fd := by
  intro f' hf'
  unfold NetState.cancelIo at hf'
  split at hf'
  · next f hf =>
    have hnew : Function.update q.frames p.1 (some { f with cancelled := true }) p.1 = some f' :=
      (frame_eq_some.mp hf').1
    rw [Function.update_self] at hnew
    rw [← Option.some.inj hnew]
    exact hfd f hf
  · next hnone =>
    rw [hnone] at hf'
    cases hf'

/-- A socket is closed. -/
theorem RequestsOk.netClose (hok : RequestsOk q knotes none) (hi : q.Inv)
    (huser : q.sched.phase.userCode = true) (hbusy : q.busy = false) (socket : Handle)
    (errno : Option Nat) :
    RequestsOk (q.netClose socket errno).1
      (removeKnotes knotes ((q.sockets socket).map Socket.fd)) none := by
  have hidle := NetState.idle_of_busy hbusy
  have hpass := NetState.userCode_not_pass huser
  -- The registrations go first, and with them the promise about the requests on the descriptor.
  have hremove : ∀ fd closing, RequestsOk q (removeKnotes knotes fd) closing := by
    refine fun fd closing => ⟨hok.submitted, hok.nodup,
      fun c f hf hreg _ => hok.registered c f hf hreg nofun, fun key p hkey => ?_, hok.fds⟩
    unfold removeKnotes at hkey
    split at hkey
    · cases hkey
    · exact hok.knotes key p hkey
  unfold NetState.netClose
  cases himpl : q.sockets socket with
  | none => exact hremove _ none
  | some impl =>
    have hclosed : ∀ closing, RequestsOk (q.setSocket socket none)
        (removeKnotes knotes (some impl.fd)) closing := fun closing =>
      (hremove _ closing).keep rfl rfl (fun _ _ _ h => h) (fun _ _ h => h)
        fun _ _ _ _ impl' _ _ h => ⟨impl', (Table.erase_some h).2, rfl⟩
    have hgone : ∀ key p, removeKnotes knotes (some impl.fd) key = some ⟨p, true⟩ →
        key.1 ≠ impl.fd := by
      intro key p hkey heq
      simp [removeKnotes, heq] at hkey
    have hi₀ : (q.setSocket socket none).Inv := hi.closeHandle socket
    dsimp only
    cases hread : impl.read with
    | none =>
      cases impl.write with
      | none => exact (hclosed _).closeFd hgone
      | some _ => exact (hclosed none).same rfl rfl rfl rfl
    | some p =>
      have hfd : ∀ f, (q.setSocket socket none).frame p = some f → f.fd = impl.fd := by
        intro f hf
        obtain ⟨g, op, hg, _, hop, _⟩ := hi.slots socket impl .read p himpl hread
        obtain rfl := Option.some.inj ((frame_eq_some.mp hf).1.symm.trans hg)
        exact hok.fds p.1 f op socket impl hg hop himpl
      have hraises := NetState.raises_cancelIo (q.setSocket socket none) p
      have hok₁ := (hclosed (some impl.fd)).cancelIo hi₀ hidle hpass hfd
      cases impl.write with
      | none => exact hok₁.closeFd hgone
      | some _ =>
        refine (hok₁.cancelIo (hraises.inv hpass hi₀) (idle_raises hraises hidle) ?_
          (cancelIo_fd hfd)).closeFd hgone
        rw [hraises.phase]
        exact hpass

/-- The step lemma, for every action but `bio_platform_update`. -/
theorem RequestsOk.effect {a : NetAction} (hok : RequestsOk q knotes none) (hi : q.Inv)
    (he : q.Effect a q') (hupdate : isUpdate a = false)
    (hswap : isSwap a = true → q.inEvents = []) :
    RequestsOk q' (removeKnotes knotes (closedFd q a)) none := by
  have hnone : removeKnotes knotes none = knotes := funext fun key => if_neg nofun
  cases he with
  | @sched a hen hbusy hlocal =>
    refine hnone ▸ hok.schedStep hi hen (NetState.idle_of_busy hbusy)
      (fun c f hf hn hown => ?_) fun ha => hswap (ha ▸ rfl)
    have hnot := hlocal f.signal (Action.mem_signals.mpr hn)
    simp [NetState.isLocal, hown, hf] at hnot
  | listen huser hbusy hfresh | connected huser hbusy hfresh =>
    exact hnone ▸ (hok.socketFromFd hi (NetState.idle_of_busy hbusy) huser _ hfresh).same rfl rfl
      rfl rfl
  | connect hp hbusy hfresh hcount => exact hnone ▸ hok.netConnect hi hp hbusy _ hfresh hcount
  | accept hp hop | recv hp hop | send hp hop => exact hnone ▸ hok.netOp hi hp hop
  | finish hp hf hcan => exact hnone ▸ hok.finish hi hp hf hcan
  | close huser hbusy => exact hok.netClose hi huser hbusy _ _
  | platformUpdate _ => cases hupdate

/-! ### `bio_platform_update` -/

theorem RequestsOk.drop {p : Handle × Nat} {l : List (Handle × Nat)}
    (hok : RequestsOk { q with inEvents := p :: l } knotes closing) :
    RequestsOk { q with inEvents := l } knotes closing :=
  ⟨fun p' hp => hok.submitted p' (List.mem_cons_of_mem _ hp), hok.nodup.tail, hok.registered,
    hok.knotes, hok.fds⟩

/-- The kernel takes an event. -/
theorem RequestsOk.register (hok : RequestsOk q knotes none) {p : Handle × Nat}
    (hf : q.frame p = some f) (hmem : p.1 ∉ q.inEvents.map Prod.fst)
    (hlive : q.sched.ownerOf f.signal = some p.1) :
    RequestsOk (q.setFrame p.1 (some { f with registered := true }))
      (Function.update knotes (f.fd, f.filter) (some ⟨p, true⟩)) none := by
  obtain ⟨hframe, hcall⟩ := frame_eq_some.mp hf
  have hnew : (q.setFrame p.1 (some { f with registered := true })).frame p =
      some { f with registered := true } :=
    frame_eq_some.mpr ⟨Function.update_self .., hcall⟩
  refine ⟨fun p' hp => ?_, hok.nodup, fun d g hg hgreg _ => ?_, fun key p' hk => ?_,
    fun d g op h impl hg hop himpl => ?_⟩
  · obtain ⟨g, hg, hrest⟩ := hok.submitted p' hp
    have hne : p'.1 ≠ p.1 := fun heq => hmem (heq ▸ List.mem_map_of_mem hp)
    exact ⟨g, (frame_update rfl hne).trans hg, hrest⟩
  · rcases Table.insert_some hg with ⟨rfl, rfl⟩ | ⟨_, hg⟩
    · exact hlive
    · exact hok.registered d g hg hgreg nofun
  · rcases Table.insert_some hk with ⟨rfl, heq⟩ | ⟨_, hk⟩
    · obtain rfl := (Knote.mk.inj heq).1
      exact ⟨_, hnew, rfl, rfl⟩
    · obtain ⟨g, hg, hgreg, hkeys⟩ := hok.knotes key p' hk
      by_cases heq : p'.1 = p.1
      · obtain ⟨hg', hc⟩ := frame_eq_some.mp hg
        obtain rfl : g = f := Option.some.inj (hg'.symm.trans (heq ▸ hframe))
        obtain rfl : p' = p := Prod.ext heq (hc.symm.trans hcall)
        exact ⟨_, hnew, rfl, hkeys⟩
      · exact ⟨g, (frame_update rfl heq).trans hg, hgreg, hkeys⟩
  · rcases Table.insert_some hg with ⟨_, rfl⟩ | ⟨_, hg⟩
    · exact hok.fds p.1 f op h impl hframe hop himpl
    · exact hok.fds d g op h impl hg hop himpl

/-- An event is delivered, and no registration points to its request any more. -/
theorem RequestsOk.dispatchEvent (hok : RequestsOk q knotes none) (hi : q.Inv)
    (hp : q.sched.phase = .polling) {p : Handle × Nat} (hf : q.frame p = some f) (error : Nat)
    (hmem : p ∉ q.inEvents) (hgone : ∀ key, knotes key ≠ some ⟨p, true⟩) :
    RequestsOk (q.dispatchEvent p error) knotes none := by
  have hidle : q.Idle := fun _ _ _ hrun => nomatch hp.symm.trans hrun
  unfold NetState.dispatchEvent
  rw [hf]
  exact hok.wake hi hidle (by rw [hp]; nofun) hf rfl rfl (fun h => absurd h hmem) nofun
    fun key hkey => absurd hkey (hgone key)

end Requests

section Update

variable {k : KqueueState} {p : Handle × Nat} {l : List (Handle × Nat)}

/-- What holds in `bio_platform_update`, with what is left of `in_events`. -/
structure Updating (k : KqueueState) (l : List (Handle × Nat)) : Prop where
  net : k.net.Inv
  polling : k.net.sched.phase = .polling
  requests : RequestsOk { k.net with inEvents := l } k.knotes none
  alive : k.dangled = false

theorem Updating.raises {k' : KqueueState} {l' : List (Handle × Nat)} (h : Updating k l)
    (hr : NetState.Raises k.net k'.net) (hok : RequestsOk { k'.net with inEvents := l' } k'.knotes none)
    (halive : k'.dangled = k.dangled) : Updating k' l' :=
  ⟨hr.inv (by rw [h.polling]; nofun) h.net, hr.phase.trans h.polling, hok, halive.trans h.alive⟩

theorem Updating.dispatchEvent (h : Updating k l) {f : NetFrame} (hf : k.net.frame p = some f)
    (error : Nat) (hmem : p ∉ l) (hgone : ∀ key, k.knotes key ≠ some ⟨p, true⟩) :
    (k.dispatchEvent p error).net = k.net.dispatchEvent p error ∧
      Updating (k.dispatchEvent p error) l := by
  have heq : k.dispatchEvent p error = { k with net := k.net.dispatchEvent p error } := by
    rw [KqueueState.dispatchEvent, hf]
  rw [heq]
  refine ⟨rfl, h.raises (NetState.raises_dispatchEvent ..) ?_ rfl⟩
  have hi : NetState.Inv { k.net with inEvents := l } := h.net.same rfl (.refl _) rfl rfl
  have hok := h.requests.dispatchEvent hi h.polling (p := p) hf error hmem hgone
  have hnet : { k.net.dispatchEvent p error with inEvents := l } =
      NetState.dispatchEvent { k.net with inEvents := l } p error := by
    have hf' : NetState.frame { k.net with inEvents := l } p = some f := hf
    rw [NetState.dispatchEvent, NetState.dispatchEvent, hf, hf']
    rfl
  rw [hnet]
  exact hok

/-- The request of an entry of `in_events` is alive, and no registration points to it. -/
theorem Updating.submitEvent (h : Updating k (p :: l)) (errors : Handle → Nat) :
    (k.submitEvent errors p).net = k.net.submitEvent errors p ∧
      Updating (k.submitEvent errors p) l := by
  obtain ⟨f, hf, hreg, _, hlive⟩ := h.requests.submitted p List.mem_cons_self
  replace hf : k.net.frame p = some f := hf
  have hrest : Updating k l := ⟨h.net, h.polling, h.requests.drop, h.alive⟩
  have hmem : p.1 ∉ l.map Prod.fst := (List.nodup_cons.mp h.requests.nodup).1
  have hgone : ∀ key, k.knotes key ≠ some ⟨p, true⟩ := by
    intro key hkey
    obtain ⟨g, hg, hgreg, _⟩ := h.requests.knotes key p hkey
    obtain rfl : f = g := Option.some.inj (hf.symm.trans hg)
    rw [hreg] at hgreg
    cases hgreg
  rw [KqueueState.submitEvent, NetState.submitEvent, hf]
  dsimp only
  generalize (if f.fd ∈ k.net.fds then errors p.1 else ebadf) = error
  split
  · exact ⟨rfl, hrest⟩
  · next hcancelled =>
    split
    · have hok := hrest.requests.register hf hmem (hlive (Bool.eq_false_iff.mpr hcancelled))
      refine ⟨rfl, hrest.raises ?_ hok rfl⟩
      exact .of_same (.setFrame (frame_eq_some.mp hf).1 rfl) rfl ⟨rfl, rfl, rfl, rfl, rfl⟩
    · exact hrest.dispatchEvent hf error (fun hp => hmem (List.mem_map_of_mem hp)) hgone

/-- `kevent` takes the changes. -/
theorem Updating.submitEvents (h : Updating k l) (errors : Handle → Nat) :
    (l.foldl (KqueueState.submitEvent errors) k).net =
        l.foldl (NetState.submitEvent errors) k.net ∧
      Updating (l.foldl (KqueueState.submitEvent errors) k) [] := by
  induction l generalizing k with
  | nil => exact ⟨rfl, h⟩
  | cons p l ih =>
    obtain ⟨hnet, hnext⟩ := h.submitEvent errors
    obtain ⟨hnets, hlast⟩ := ih hnext
    exact ⟨hnets.trans (by rw [hnet, List.foldl_cons]), hlast⟩

/-- The request of an event that the kernel delivers is alive. -/
theorem Updating.fireEvent (h : Updating k []) (key : Nat × NetFilter) :
    ∃ ready : List (Handle × Nat), (k.fireEvent key).net = ready.foldl NetState.fireEvent k.net ∧
      Updating (k.fireEvent key) [] := by
  unfold KqueueState.fireEvent
  split
  · next p hkey =>
    obtain ⟨f, hf, hreg, hkeys⟩ := h.requests.knotes key p hkey
    replace hf : k.net.frame p = some f := hf
    -- The pointer is registered once only, for the descriptor and the filter of its wait.
    have hgone : ∀ key', Function.update k.knotes key (some ⟨p, false⟩) key' ≠ some ⟨p, true⟩ := by
      intro key' hkey'
      rcases Table.insert_some hkey' with ⟨_, heq⟩ | ⟨hne, hold⟩
      · exact absurd (Knote.mk.inj heq).2 nofun
      · obtain ⟨g, hg, _, hkeys'⟩ := h.requests.knotes key' p hold
        obtain rfl : f = g := Option.some.inj (hf.symm.trans hg)
        exact hne (hkeys'.symm.trans hkeys)
    have hdisabled : Updating
        { k with knotes := Function.update k.knotes key (some ⟨p, false⟩) } [] := by
      refine ⟨h.net, h.polling, ⟨nofun, .nil, h.requests.registered, fun key' p' hk => ?_,
        h.requests.fds⟩, h.alive⟩
      rcases Table.insert_some hk with ⟨_, heq⟩ | ⟨_, hold⟩
      · exact absurd (Knote.mk.inj heq).2 nofun
      · exact h.requests.knotes key' p' hold
    obtain ⟨hnet, hnext⟩ := hdisabled.dispatchEvent hf 0 List.not_mem_nil hgone
    refine ⟨[p], hnet.trans ?_, hnext⟩
    simp [NetState.fireEvent, hf, hreg]
  · exact ⟨[], rfl, h⟩

theorem Updating.fireEvents (h : Updating k []) (keys : List (Nat × NetFilter)) :
    ∃ ready : List (Handle × Nat),
      (keys.foldl KqueueState.fireEvent k).net = ready.foldl NetState.fireEvent k.net ∧
      Updating (keys.foldl KqueueState.fireEvent k) [] := by
  induction keys generalizing k with
  | nil => exact ⟨[], rfl, h⟩
  | cons key keys ih =>
    obtain ⟨first, hnet, hnext⟩ := h.fireEvent key
    obtain ⟨rest, hnets, hlast⟩ := ih hnext
    refine ⟨first ++ rest, ?_, hlast⟩
    rw [List.foldl_cons, hnets, hnet, List.foldl_append]

theorem fireEvents_inEvents (q : NetState) (ready : List (Handle × Nat)) :
    (ready.foldl NetState.fireEvent q).inEvents = q.inEvents := by
  induction ready generalizing q with
  | nil => rfl
  | cons p ready ih =>
    rw [List.foldl_cons, ih, NetState.fireEvent]
    split
    · unfold NetState.dispatchEvent
      split <;> rfl
    · rfl

/-- The kernel's `bio_platform_update` is one of the sockets. -/
theorem Updating.platformUpdate (h : Updating k k.net.inEvents) (errors : Handle → Nat)
    (keys : List (Nat × NetFilter)) :
    ∃ ready, (k.platformUpdate errors keys).net = k.net.platformUpdate errors ready ∧
      (k.platformUpdate errors keys).net.inEvents = [] ∧
      Updating (k.platformUpdate errors keys) [] := by
  obtain ⟨hnet, hnext⟩ := h.submitEvents errors
  have hclear : Updating (k.net.inEvents.foldl (KqueueState.submitEvent errors) k).clearEvents [] :=
    hnext.raises (.of_same (.refl _) rfl ⟨rfl, rfl, rfl, rfl, rfl⟩) hnext.requests rfl
  obtain ⟨ready, hfired, hlast⟩ := hclear.fireEvents keys
  have hready : (k.platformUpdate errors keys).net = k.net.platformUpdate errors ready := by
    refine hfired.trans ?_
    rw [NetState.platformUpdate, ← hnet]
    rfl
  refine ⟨ready, hready, ?_, hlast.net, hlast.polling, hlast.requests, hlast.alive⟩
  rw [hready, NetState.platformUpdate, fireEvents_inEvents]

end Update

/-! ## Runs -/

variable {k k' : KqueueState}

structure Inv (k : KqueueState) : Prop where
  net : NetState.machine.Reachable k.net
  requests : RequestsOk k.net k.knotes none
  updated : k.updated = true → k.net.sched.phase = .polling ∧ k.net.inEvents = []
  alive : k.dangled = false

theorem inv_init : init.Inv := by
  refine ⟨.init rfl, ⟨fun p hp => ?_, .nil, fun c f hf => ?_, fun key p hkey => ?_,
    fun c f op h impl hf => ?_⟩, fun hupdated => ?_, rfl⟩
  · exact absurd hp List.not_mem_nil
  · cases hf
  · cases hkey
  · cases hf
  · cases hupdated

/-- While the loop polls, no coroutine runs. -/
theorem polling_keeps {q : NetState} {a : NetAction} (he : NetState.machine.enabled q a)
    (hp : q.sched.phase = .polling) (hupdate : isUpdate a = false) (hswap : isSwap a = false) :
    (NetState.machine.perform q a).sched.phase = .polling ∧
      (NetState.machine.perform q a).inEvents = q.inEvents := by
  have huser : q.sched.phase.userCode ≠ true := by simp [hp, Phase.userCode]
  have hrunning : ∀ c, q.sched.phase ≠ .running c := by simp [hp]
  have hany : ∀ f : Handle → Bool, q.sched.phase.mcoRunning.any f ≠ true := by
    simp [hp, Phase.mcoRunning]
  cases a with
  | sched a =>
    obtain ⟨_, hen, _, _⟩ := he
    rcases Sched.polling_action hen hp with ⟨ref, rfl⟩ | rfl
    · exact ⟨(Sched.raiseSignal_frame q.sched ref).2.1.trans hp, rfl⟩
    · cases hswap
  | listen _ _ | connected _ _ | close _ _ => exact absurd he.2.1 huser
  | connect _ _ => exact absurd he.2.2.2.2 (hany _)
  | accept _ _ _ _ | recv _ _ _ | send _ _ _ => exact absurd he.2.2.2.1 (hany _)
  | finish _ _ =>
    obtain ⟨_, c, hc, _⟩ := he
    exact absurd (Phase.eq_running hc) (hrunning c)
  | platformUpdate _ _ => cases hupdate

theorem Inv.step (hi : k.Inv) {a : KqueueAction} (he : machine.enabled k a) :
    (machine.perform k a).Inv := by
  cases a with
  | net a =>
    obtain ⟨hen, hupdate, hswap⟩ := he
    have hempty : isSwap a = true → k.net.inEvents = [] := fun h => (hi.updated (hswap h)).2
    refine ⟨hi.net.step hen, hi.requests.effect (NetState.inv_of_reachable hi.net) (.of_step hen)
      hupdate hempty, fun hupdated => ?_, hi.alive⟩
    obtain ⟨hnot, hold⟩ := Bool.and_eq_true_iff.mp hupdated
    obtain ⟨hp, hevents⟩ := hi.updated hold
    obtain ⟨hphase, hsame⟩ := polling_keeps hen hp hupdate (by simpa using hnot)
    exact ⟨hphase, hsame.trans hevents⟩
  | platformUpdate errors keys =>
    obtain ⟨hcrashed, hp, _⟩ := he
    have hstart : Updating k k.net.inEvents :=
      ⟨NetState.inv_of_reachable hi.net, hp, hi.requests, hi.alive⟩
    obtain ⟨ready, hnet, hevents, hend⟩ := hstart.platformUpdate errors keys
    have hstep : NetState.machine.enabled k.net (.platformUpdate errors ready) := ⟨hcrashed, hp⟩
    refine ⟨hnet ▸ hi.net.step hstep, ?_, fun _ => ⟨hend.polling, hevents⟩, hend.alive⟩
    have hok := hend.requests
    rw [← hevents] at hok
    exact hok

theorem inv_of_reachable (hr : machine.Reachable k) : k.Inv :=
  Machine.invariant (fun _ h => h ▸ inv_init) (fun _ _ _ hi he => hi.step he) hr

/-- The kernel points to requests of calls that wait, `bio_platform_update` reads no others, and the
sockets behave as in `NetState`. -/
theorem requests_alive (hr : machine.Reachable k) :
    k.dangled = false ∧
      (∀ key p, k.knotes key = some ⟨p, true⟩ →
        ∃ f, k.net.frame p = some f ∧ (f.fd, f.filter) = key ∧ f.registered = true) ∧
      NetState.machine.Reachable k.net := by
  have hi := inv_of_reachable hr
  refine ⟨hi.alive, fun key p hkey => ?_, hi.net⟩
  obtain ⟨f, hf, hreg, heq⟩ := hi.requests.knotes key p hkey
  exact ⟨f, hf, heq, hreg⟩

/-- The first coroutine waits for data of a socket. Its event is registered when the second one closes
the socket, listens on a new one with the same descriptor, and waits there. -/
def reuseRegistered : List KqueueAction :=
  [.net (.sched (.spawn false ⟨1, 1⟩)), .net (.sched (.spawn false ⟨2, 1⟩)),
    .net (.sched (.spawn false ⟨3, 1⟩)), .net (.sched .enterLoop), .net (.sched .endPass),
    .platformUpdate (fun _ => 0) [], .net (.sched .swap), .net (.sched .resume), .net (.listen 3 ⟨4, 1⟩),
    .net (.recv ⟨4, 1⟩ ⟨5, 1⟩ (.error ewouldblock)), .net (.sched .resume), .net (.sched .yield),
    .net (.sched .resume), .net (.sched .yield), .net (.sched .endPass),
    .platformUpdate (fun _ => 0) [], .net (.sched .swap), .net (.sched .resume),
    .net (.close ⟨4, 1⟩ none), .net (.listen 3 ⟨6, 1⟩),
    .net (.accept ⟨6, 1⟩ ⟨7, 1⟩ Handle.invalid (.error ewouldblock)), .net (.sched .resume),
    .net (.sched .yield), .net (.sched .endPass), .platformUpdate (fun _ => 0) []]

theorem requests_alive_reuse :
    let k := machine.run init reuseRegistered
    machine.Legal init reuseRegistered ∧ k.knotes (3, .read) = some ⟨(⟨2, 1⟩, 1), true⟩ ∧
      k.dangled = false ∧
      (∀ key p, k.knotes key = some ⟨p, true⟩ →
        ∃ f, k.net.frame p = some f ∧ (f.fd, f.filter) = key ∧ f.registered = true) ∧
      NetState.machine.Reachable k.net := by
  have hlegal : machine.Legal init reuseRegistered := by decide +kernel
  exact ⟨hlegal, by decide +kernel, requests_alive ((Machine.Reachable.init rfl).run hlegal)⟩

end KqueueState

end Bio
