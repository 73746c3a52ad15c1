import Bio.FreebsdNetDescriptor

/-!
# Events of waits on FreeBSD sockets

`bio_platform_dispatch_events` hands each event to the request that its `udata` points to. The waits of
`bio_net_accept`, `bio_net_recv` and `bio_net_send` give their request a place for it, the local event that
they look at afterwards. `bio_net_connect` looks at its local event too, but gives its request no place.

* The kernel delivers events one by one, in any order, to the waits that were handed to it, each with any
  error or none. The error of an event is its data when it has the flag `EV_ERROR`, and else zero.
* `own` is a ghost: the error of the event that was delivered to a wait. `connects`: what the calls of
  `bio_net_connect` that had waited returned.

Result: `events_reported_iff`. The errors of `bio_net_connect`, and no others, get lost.
-/

namespace Bio

open FreebsdErrno (ewouldblock)

/-- A call, rather than what happens to a wait. -/
def NetAction.isCall : NetAction → Bool
  | .finish _ _ | .platformUpdate _ _ => false
  | _ => true

namespace NetState

/-- One entry of `in_events`: it is handed to the kernel unless it was cancelled. -/
def registerEvent (q : NetState) (p : Handle × Nat) : NetState :=
  match q.frame p with
  | some f => if f.cancelled then q else q.setFrame p.1 (some { f with registered := true })
  | none => q

/-- `bio_platform_update` up to its events. -/
def submitEvents (q : NetState) : NetState :=
  { q.inEvents.foldl registerEvent q with inEvents := [] }

/-- `bio_net_connect` behind its wait, with the check of its event. -/
def resumeConnect (q : NetState) (c : Handle) (f : NetFrame) (socket : Handle) :
    NetState × Except NetError Handle :=
  let q := q.setFrame c none
  if f.error ≠ 0 then (q.closeFd f.fd, .error (.errno f.error))
  else (q.socketFromFd f.fd socket, .ok socket)

end NetState

structure EventState where
  net : NetState
  own : Handle × Nat → Nat
  connects : List (Except NetError Handle)

inductive EventAction
  /-- a call, or the rest of the program -/
  | call (a : NetAction)
  | submit
  | deliver (p : Handle × Nat) (error : Nat)
  /-- the coroutine that runs goes on behind its wait -/
  | finish (client : Handle) (result : Except Nat Nat)

namespace EventState

def enabled (s : EventState) : EventAction → Prop
  | .call a => s.net.enabled a ∧ a.isCall = true
  | .submit => s.net.crashed = false ∧ s.net.sched.phase = .polling
  | .deliver p _ => s.net.crashed = false ∧ s.net.sched.phase = .polling ∧
      (s.net.frame p).any NetFrame.registered = true
  | .finish client result => s.net.enabled (.finish client result)

/-- The coroutine `c` goes on behind its wait. -/
def resume (s : EventState) (c client : Handle) (result : Except Nat Nat) : EventState :=
  match s.net.frames c with
  | some f =>
    match f.caller with
    | .op _ _ => { s with net := s.net.finish c client result }
    | .connect =>
      let (net, returned) := s.net.resumeConnect c f client
      { s with net := net, connects := s.connects ++ [returned] }
  | none => s

def perform (s : EventState) : EventAction → EventState
  | .call a => { s with net := s.net.perform a }
  | .submit => { s with net := s.net.submitEvents }
  | .deliver p error =>
    { s with net := s.net.dispatchEvent p error, own := Function.update s.own p error }
  | .finish client result =>
    match s.net.sched.phase.mcoRunning with
    | some c => s.resume c client result
    | none => s

def init : EventState := ⟨NetState.init, fun _ => 0, []⟩

/-- All interleavings of calls and events. -/
def machine : Machine EventState EventAction where
  init := fun s => s = init
  enabled := enabled
  perform := perform

instance (s : EventState) : ∀ a, Decidable (machine.enabled s a)
  | .call a => inferInstanceAs (Decidable (NetState.machine.enabled s.net a ∧ a.isCall = true))
  | .submit => inferInstanceAs (Decidable (s.net.crashed = false ∧ s.net.sched.phase = .polling))
  | .deliver p _ => inferInstanceAs (Decidable (s.net.crashed = false ∧
      s.net.sched.phase = .polling ∧ (s.net.frame p).any NetFrame.registered = true))
  | .finish client result =>
    inferInstanceAs (Decidable (NetState.machine.enabled s.net (.finish client result)))

/-! ## What is reported -/

/-- What an operation returns behind its wait, with the error of its own event and the result of its own
system call. -/
def outcome (own : Nat) (result : Except Nat Nat) : Except NetError Nat :=
  if own = 0 then result.mapError .errno else .error (.errno own)

/-- The wait of `c` ends as its own event says. -/
def Reports (s s' : EventState) (c : Handle) (f : NetFrame) (client : Handle)
    (result : Except Nat Nat) : Prop :=
  let own := s.own (c, f.call)
  match f.caller with
  | .op _ socket =>
    s'.net.returns = s.net.returns ++ [⟨socket, f.cancelled, outcome own result⟩] ∧
      (own ≠ 0 → s'.net.syscalls = s.net.syscalls)
  | .connect =>
    (own = 0 → s'.net.sockets client = some ⟨f.fd, none, none⟩ ∧
      s'.connects = s.connects ++ [.ok client]) ∧
    (own ≠ 0 → s'.net.sockets = s.net.sockets ∧ f.fd ∉ s'.net.fds ∧
      s'.connects = s.connects ++ [.error (.errno own)])

/-- No coroutine but `c` notices anything: all other waits are what they were, none of them is woken, and
no call returns. -/
structure Isolated (s s' : EventState) (c : Handle) : Prop where
  frames : ∀ d ≠ c, s'.net.frames d = s.net.frames d
  asleep : ∀ d ≠ c, s.net.frames d ≠ none → Sched.SameFor d s.net.sched s'.net.sched
  sockets : s'.net.sockets = s.net.sockets
  fds : s'.net.fds = s.net.fds
  logs : s'.net.syscalls = s.net.syscalls ∧ s'.net.returns = s.net.returns ∧
    s'.connects = s.connects

/-- An event concerns its own wait only, and a wait ends as its event says. -/
def ReportsErrors (s : EventState) : EventAction → Prop
  | .deliver p error => Isolated s (s.perform (.deliver p error)) p.1
  | .finish client result => ∀ c ∈ s.net.sched.phase.mcoRunning, ∀ f ∈ s.net.frames c,
      Reports s (s.perform (.finish client result)) c f client result
  | _ => True

/-- The guard: `bio_net_connect` goes on only when its event had no error. -/
def ConnectOk (s : EventState) : EventAction → Prop
  | .finish _ _ => ∀ c ∈ s.net.sched.phase.mcoRunning, ∀ f ∈ s.net.frames c,
      f.caller = .connect → s.own (c, f.call) = 0
  | _ => True

end EventState

/-! ## Calls -/

namespace NetState

variable {q q' q'' : NetState} {c : Handle} {f : NetFrame}

/-- Every wait was there before, with the same event, or is new. -/
structure Quiet (q q' : NetState) : Prop where
  calls : q.calls ≤ q'.calls
  frames : ∀ c f', q'.frames c = some f' →
    (∃ f, q.frames c = some f ∧ f'.key = f.key ∧ f'.error = f.error) ∨
      (q.calls ≤ f'.call ∧ f'.error = 0)

theorem Quiet.of_frames (hframes : ∀ c f', q'.frames c = some f' →
    ∃ f, q.frames c = some f ∧ f'.key = f.key ∧ f'.error = f.error)
    (hcalls : q'.calls = q.calls) : Quiet q q' :=
  ⟨Nat.le_of_eq hcalls.symm, fun c f' hf => .inl (hframes c f' hf)⟩

theorem Quiet.same (hframes : q'.frames = q.frames) (hcalls : q'.calls = q.calls) : Quiet q q' :=
  .of_frames (fun _ f' hf => ⟨f', hframes ▸ hf, rfl, rfl⟩) hcalls

theorem Quiet.trans (h : Quiet q q') (h' : Quiet q' q'') : Quiet q q'' := by
  refine ⟨Nat.le_trans h.calls h'.calls, fun c f'' hf'' => ?_⟩
  rcases h'.frames c f'' hf'' with ⟨f', hf', hkey', herror'⟩ | ⟨hcall, herror⟩
  · rcases h.frames c f' hf' with ⟨f, hf, hkey, herror⟩ | ⟨hcall, herror⟩
    · exact .inl ⟨f, hf, hkey'.trans hkey, herror'.trans herror⟩
    · exact .inr ⟨(key_eq hkey').1 ▸ hcall, herror'.trans herror⟩
  · exact .inr ⟨Nat.le_trans h.calls hcall, herror⟩

/-- One wait changes, but not its event. -/
theorem Quiet.setFrame {f' : NetFrame} (hf : q.frames c = some f) (hkey : f'.key = f.key)
    (herror : f'.error = f.error) : Quiet q (q.setFrame c (some f')) := by
  refine .of_frames (fun d g hg => ?_) rfl
  rcases Table.insert_some hg with ⟨rfl, rfl⟩ | ⟨_, hold⟩
  · exact ⟨f, hf, hkey, herror⟩
  · exact ⟨g, hold, rfl, rfl⟩

/-- A wait ends. -/
theorem Quiet.clear (q : NetState) (c : Handle) : Quiet q (q.setFrame c none) :=
  .of_frames (fun _ g hg => ⟨g, (Table.erase_some hg).2, rfl, rfl⟩) rfl

theorem quiet_waitForIo (hframes : q'.frames = q.frames) (hcalls : q'.calls = q.calls) (c : Handle)
    (caller : NetCaller) (fd : Nat) (signal : Handle) :
    Quiet q (q'.waitForIo c caller fd signal) := by
  refine (Quiet.same hframes hcalls).trans ⟨Nat.le_succ _, fun d g hg => ?_⟩
  rcases Table.insert_some hg with ⟨_, rfl⟩ | ⟨_, hold⟩
  · exact .inr ⟨Nat.le_refl _, rfl⟩
  · exact .inl ⟨g, hold, rfl, rfl⟩

theorem quiet_cancelIo (q : NetState) (p : Handle × Nat) : Quiet q (q.cancelIo p) := by
  unfold cancelIo
  split
  · next f hf =>
    have hset : Quiet q (q.setFrame p.1 (some { f with cancelled := true })) :=
      .setFrame (Option.filter_eq_some_iff.mp hf).1 rfl rfl
    exact hset.trans (.same rfl rfl)
  · exact .same rfl rfl

theorem quiet_closeFd (q : NetState) (fd : Nat) : Quiet q (q.closeFd fd) := by
  refine .of_frames (fun c f' hf' => ?_) rfl
  obtain ⟨f, hf, rfl⟩ := Option.map_eq_some_iff.mp hf'
  refine ⟨f, hf, ?_⟩
  split <;> exact ⟨rfl, rfl⟩

theorem quiet_syscall (q : NetState) (op : NetOp) (socket : Handle) (fd : Nat) (client : Handle)
    (result : Except Nat Nat) : Quiet q (q.syscall op socket fd client result) := by
  rcases syscall_cases q op socket fd client result with heq | ⟨_, _, _, heq⟩ <;> rw [heq]
  · exact .same rfl rfl
  · exact .same rfl rfl

theorem quiet_netOp (op : NetOp) (q : NetState) (c socket signal client : Handle)
    (result : Except Nat Nat) :
    Quiet q (netOp op (waitForFilter op.filter) q c socket signal client result).1 := by
  rcases netOp_cases op q c socket signal client result with ⟨_, heq⟩ | ⟨impl, _, heq⟩ |
    ⟨impl, _, _, heq⟩ <;> rw [heq]
  · exact .same rfl rfl
  · exact quiet_syscall q op socket impl.fd client result
  · refine quiet_waitForIo ?_ ?_ c _ impl.fd signal <;> rfl

theorem quiet_netClose (q : NetState) (socket : Handle) (errno : Option Nat) :
    Quiet q (q.netClose socket errno).1 := by
  unfold netClose
  cases q.sockets socket with
  | none => exact .same rfl rfl
  | some impl =>
    have hset : Quiet q (q.setSocket socket none) := .same rfl rfl
    obtain ⟨fd, read, write⟩ := impl
    cases read with
    | none =>
      dsimp only
      split
      · exact hset.trans (.same rfl rfl)
      · exact hset.trans ((quiet_cancelIo _ _).trans (quiet_closeFd _ _))
      · exact hset.trans (quiet_closeFd _ _)
    | some p =>
      have hafter := hset.trans (quiet_cancelIo _ p)
      dsimp only
      split
      · exact hafter.trans (.same rfl rfl)
      · exact hafter.trans ((quiet_cancelIo _ _).trans (quiet_closeFd _ _))
      · exact hafter.trans (quiet_closeFd _ _)

theorem quiet_of_effect {a : NetAction} (he : q.Effect a q') (hcall : a.isCall = true) : Quiet q q' := by
  cases he with
  | sched | listen | connected => exact .same rfl rfl
  | connect => refine quiet_waitForIo ?_ ?_ _ _ _ _ <;> rfl
  | accept _ _ => exact quiet_netOp .accept q _ _ _ _ _
  | recv _ _ => exact quiet_netOp .recv q _ _ _ _ _
  | send _ _ => exact quiet_netOp .send q _ _ _ _ _
  | close _ _ => exact quiet_netClose q _ _
  | finish _ _ _ => cases hcall
  | platformUpdate _ => cases hcall

theorem quiet_registerEvent (q : NetState) (p : Handle × Nat) : Quiet q (q.registerEvent p) := by
  unfold registerEvent
  split
  · next f hf =>
    split
    · exact .same rfl rfl
    · exact .setFrame (Option.filter_eq_some_iff.mp hf).1 rfl rfl
  · exact .same rfl rfl

theorem raises_registerEvent (q : NetState) (p : Handle × Nat) : Raises q (q.registerEvent p) := by
  unfold registerEvent
  split
  · next f hf =>
    split
    · exact .refl q
    · exact .of_same (.setFrame (Option.filter_eq_some_iff.mp hf).1 rfl) rfl ⟨rfl, rfl, rfl, rfl, rfl⟩
  · exact .refl q

theorem quiet_submitEvents (q : NetState) : Quiet q q.submitEvents := by
  have hall : Quiet q (q.inEvents.foldl registerEvent q) :=
    List.foldlRecOn (motive := Quiet q) q.inEvents registerEvent (.same rfl rfl)
      fun t ht p _ => ht.trans (quiet_registerEvent t p)
  exact hall.trans (.same rfl rfl)

theorem raises_submitEvents (q : NetState) : Raises q q.submitEvents :=
  (raises_foldl raises_registerEvent q.inEvents q).trans (.of_same (.refl _) rfl ⟨rfl, rfl, rfl, rfl, rfl⟩)

theorem quiet_finish (q : NetState) (c client : Handle) (result : Except Nat Nat) :
    Quiet q (q.finish c client result) := by
  cases hf : q.frames c with
  | none =>
    unfold NetState.finish
    rw [hf]
    exact .same rfl rfl
  | some f =>
    have hresume : ∀ op socket, Quiet q (q.resumeOp c op socket) := fun op socket => by
      obtain ⟨_, hframes, _, hcalls, _⟩ := resumeOp_frame q c op socket
      exact (Quiet.clear q c).trans (.same hframes hcalls)
    rcases finish_cases hf client result with ⟨op, socket, _, _, heq⟩ | ⟨op, socket, _, _, heq⟩ |
      ⟨_, heq⟩ <;> rw [heq]
    · exact ((hresume op socket).trans (quiet_syscall _ op socket f.fd client result)).trans
        (.same rfl rfl)
    · exact (hresume op socket).trans (.same rfl rfl)
    · exact (Quiet.clear q c).trans (.same rfl rfl)

end NetState

namespace EventState

variable {s : EventState} {a : EventAction} {c : Handle} {f : NetFrame}

/-- The locals of a wait have the error of its own event, if they have a place for it. -/
structure Inv (s : EventState) : Prop where
  net : s.net.Inv
  known : ∀ p, s.own p ≠ 0 → p.2 < s.net.calls
  error : ∀ c f, s.net.frames c = some f →
    f.error = if f.caller = .connect then 0 else s.own (c, f.call)

/-- The events of the waits stay as they are. -/
theorem Inv.quiet (hi : s.Inv) {q : NetState} (hq : NetState.Quiet s.net q) (hinv : q.Inv)
    (connects : List (Except NetError Handle)) : Inv ⟨q, s.own, connects⟩ := by
  refine ⟨hinv, fun p hp => Nat.lt_of_lt_of_le (hi.known p hp) hq.calls, fun c f' hf' => ?_⟩
  rcases hq.frames c f' hf' with ⟨f, hf, hkey, herror⟩ | ⟨hcall, herror⟩
  · obtain ⟨hcall, hcaller, _⟩ := NetState.key_eq hkey
    rw [herror, hcaller, hcall]
    exact hi.error c f hf
  · -- No event was delivered to a wait that is new.
    have hown : s.own (c, f'.call) = 0 := by
      by_contra hne
      exact absurd (hi.known _ hne) (Nat.not_lt_of_le hcall)
    rw [herror, hown, ite_self]

theorem Inv.deliver (hi : s.Inv) (hp : s.net.sched.phase = .polling) {p : Handle × Nat}
    (hf : s.net.frame p = some f) (error : Nat) : (s.perform (.deliver p error)).Inv := by
  obtain ⟨hframe, hcall⟩ := Option.filter_eq_some_iff.mp hf
  have hraises := NetState.raises_dispatchEvent s.net p error
  refine ⟨hraises.inv (fun hpass => absurd (hpass.symm.trans hp) nofun) hi.net, fun p' hp' => ?_,
    fun d g hg => ?_⟩
  · show p'.2 < (s.net.dispatchEvent p error).calls
    rw [hraises.calls]
    by_cases heq : p' = p
    · rw [heq, ← of_decide_eq_true hcall]
      exact (hi.net.frames p.1 f hframe).known
    · exact hi.known p' ((Function.update_of_ne heq ..).symm.trans_ne hp')
  · have hg' : (s.net.dispatchEvent p error).frames d = some g := hg
    unfold NetState.dispatchEvent at hg'
    rw [hf] at hg'
    rcases Table.insert_some hg' with ⟨rfl, rfl⟩ | ⟨hne, hold⟩
    · have hown : Function.update s.own p error (p.1, f.call) = error := by
        rw [show (p.1, f.call) = p from Prod.ext rfl (of_decide_eq_true hcall)]
        exact Function.update_self ..
      have hbefore := hi.error p.1 f hframe
      dsimp only
      show (if f.caller = .connect then f.error else error) =
        if f.caller = .connect then 0 else Function.update s.own p error (p.1, f.call)
      rw [hown]
      split at hbefore
      · next hconnect => rw [if_pos hconnect, if_pos hconnect, hbefore]
      · next hop => rw [if_neg hop, if_neg hop]
    · have hother : (d, g.call) ≠ p := fun heq => hne (congrArg Prod.fst heq)
      show g.error = if g.caller = .connect then 0 else Function.update s.own p error (d, g.call)
      rw [Function.update_of_ne hother]
      exact hi.error d g hold

/-- What a coroutine does behind its wait. -/
theorem resume_net (hi : s.Inv) (hf : s.net.frames c = some f) (client : Handle)
    (result : Except Nat Nat) : (s.resume c client result).net = s.net.finish c client result := by
  unfold resume
  rw [hf]
  cases hcaller : f.caller with
  | op op socket => simp only [hcaller]
  | connect =>
    have herror : f.error = 0 := (hi.error c f hf).trans (if_pos hcaller)
    simp only [NetState.finish, hf, hcaller, NetState.resumeConnect, herror]
    rfl

theorem perform_finish (hp : s.net.sched.phase = .running c) (client : Handle)
    (result : Except Nat Nat) : s.perform (.finish client result) = s.resume c client result := by
  show (match s.net.sched.phase.mcoRunning with | some c => s.resume c client result | none => s) = _
  rw [hp]
  rfl

/-- The call of a wait that goes on. -/
theorem finish_enabled {client : Handle} {result : Except Nat Nat}
    (he : machine.enabled s (.finish client result)) :
    ∃ c f, s.net.sched.phase = .running c ∧ s.net.frames c = some f ∧
      s.net.CanFinish client f result := by
  obtain ⟨_, c, hc, f, hf, hcan⟩ := he
  exact ⟨c, f, Phase.eq_running hc, hf, hcan⟩

theorem deliver_enabled {p : Handle × Nat} {error : Nat} (he : machine.enabled s (.deliver p error)) :
    s.net.sched.phase = .polling ∧ ∃ f, s.net.frame p = some f := by
  obtain ⟨_, hp, hregistered⟩ := he
  obtain ⟨f, hf, _⟩ := (Option.any_eq_true ..).mp hregistered
  exact ⟨hp, f, hf⟩

theorem Inv.step (hi : s.Inv) (he : machine.enabled s a) : (machine.perform s a).Inv := by
  cases a with
  | call a =>
    have heffect := NetState.Effect.of_step (a := a) he.1
    exact hi.quiet (NetState.quiet_of_effect heffect he.2) (hi.net.effect heffect) s.connects
  | submit =>
    have hraises := NetState.raises_submitEvents s.net
    exact hi.quiet (NetState.quiet_submitEvents s.net)
      (hraises.inv (fun hpass => absurd (hpass.symm.trans he.2) nofun) hi.net) s.connects
  | deliver p error =>
    obtain ⟨hp, f, hf⟩ := deliver_enabled he
    exact hi.deliver hp hf error
  | finish client result =>
    obtain ⟨c, f, hp, hf, hcan⟩ := finish_enabled he
    show (s.perform (.finish client result)).Inv
    rw [perform_finish hp]
    have hown : (s.resume c client result).own = s.own := by
      unfold resume
      rw [hf]
      dsimp only
      split <;> rfl
    have hnet := hi.quiet (NetState.quiet_finish s.net c client result)
      (hi.net.finish hp hf hcan) (s.resume c client result).connects
    rwa [← resume_net hi hf, ← hown] at hnet

theorem inv_of_reachable (hr : machine.Reachable s) : s.Inv := by
  refine Machine.invariant (P := Inv) ?_ (fun s a _ hi he => hi.step he) hr
  rintro _ rfl
  exact ⟨NetState.inv_of_reachable (.init rfl), fun _ h => absurd rfl h, nofun⟩

/-! ## The contract -/

/-- A delivery wakes the wait of its event and no other. -/
theorem isolated_deliver (hi : s.Inv) {p : Handle × Nat} (hf : s.net.frame p = some f) (error : Nat) :
    Isolated s (s.perform (.deliver p error)) p.1 := by
  have heq : s.net.dispatchEvent p error =
      { s.net.setFrame p.1 (some { f with
          registered := false
          error := if f.caller = .connect then f.error else error }) with
        sched := (s.net.sched.raiseSignal f.signal).1 } := by
    rw [NetState.dispatchEvent, hf]
  have hframe := (Option.filter_eq_some_iff.mp hf).1
  refine ⟨fun d hd => ?_, fun d hd hwaits => ?_, ?_, ?_, ?_⟩
  · show (s.net.dispatchEvent p error).frames d = _
    rw [heq]
    exact Function.update_of_ne hd ..
  · show Sched.SameFor d s.net.sched (s.net.dispatchEvent p error).sched
    rw [heq]
    -- The signal is that of the wait, and no other coroutine has made it.
    refine Sched.sameFor_raiseSignal (Sched.stampOf_isNone.mpr fun howner => hd ?_)
    have hacc := Sched.accounted_of_reachable hi.net.sched
    exact hacc.made_unique d p.1 f.signal (hacc.own d f.signal howner).1
      (hi.net.frames p.1 f hframe).waits.held.made
  · exact (NetState.raises_dispatchEvent s.net p error).sockets
  · show (s.net.dispatchEvent p error).fds = _
    rw [heq]
    rfl
  · have hraises := NetState.raises_dispatchEvent s.net p error
    exact ⟨hraises.syscalls, hraises.returns, rfl⟩

/-- An operation that had waited returns what its own event says. -/
theorem reports_op (hi : s.Inv) (hf : s.net.frames c = some f) {op : NetOp} {socket : Handle}
    (hcaller : f.caller = .op op socket) (client : Handle) (result : Except Nat Nat) :
    Reports s (s.resume c client result) c f client result := by
  have herror : f.error = s.own (c, f.call) := by
    rw [hi.error c f hf, if_neg]
    rw [hcaller]
    nofun
  unfold Reports
  rw [hcaller]
  dsimp only
  rw [resume_net hi hf, ← herror, NetState.finish, hf]
  simp only [hcaller]
  have hlogs := NetState.resumeOp_logs s.net c op socket
  unfold NetState.finishOp outcome
  dsimp only
  split
  · next hzero =>
    have hreturns := (NetState.syscall_logs (s.net.resumeOp c op socket) op socket f.fd client result).2
    rw [hlogs.2] at hreturns
    exact ⟨congrArg (· ++ _) hreturns, fun hne => absurd hzero hne⟩
  · exact ⟨congrArg (· ++ _) hlogs.2, fun _ => hlogs.1⟩

/-- `bio_net_connect` behind its wait returns a socket. -/
theorem connects_resume (hi : s.Inv) (hf : s.net.frames c = some f) (hcaller : f.caller = .connect)
    (client : Handle) (result : Except Nat Nat) :
    (s.resume c client result).net.sockets client = some ⟨f.fd, none, none⟩ ∧
      (s.resume c client result).connects = s.connects ++ [.ok client] := by
  have herror : f.error = 0 := (hi.error c f hf).trans (if_pos hcaller)
  simp only [resume, hf, hcaller, NetState.resumeConnect, herror]
  exact ⟨Function.update_self .., rfl⟩

theorem reportsErrors_iff (hr : machine.Reachable s) (he : machine.enabled s a) :
    s.ReportsErrors a ↔ s.ConnectOk a := by
  have hi := inv_of_reachable hr
  cases a with
  | deliver p error =>
    obtain ⟨_, f, hf⟩ := deliver_enabled he
    exact iff_of_true (isolated_deliver hi hf error) trivial
  | finish client result =>
    obtain ⟨c, f, hp, hf, _⟩ := finish_enabled he
    have hrunning : ∀ c' ∈ s.net.sched.phase.mcoRunning, c' = c := by
      intro c' hc'
      rw [hp] at hc'
      exact (Option.some.inj hc').symm
    have hframe : ∀ f' ∈ s.net.frames c, f' = f := fun f' hf' => Option.some.inj (hf'.symm.trans hf)
    have hc : c ∈ s.net.sched.phase.mcoRunning := by
      rw [hp]
      rfl
    show (∀ c' ∈ s.net.sched.phase.mcoRunning, ∀ f' ∈ s.net.frames c',
        Reports s (s.perform (.finish client result)) c' f' client result) ↔
      ∀ c' ∈ s.net.sched.phase.mcoRunning, ∀ f' ∈ s.net.frames c',
        f'.caller = .connect → s.own (c', f'.call) = 0
    rw [perform_finish hp]
    cases hcaller : f.caller with
    | op op socket =>
      refine iff_of_true (fun c' hc' f' hf' => ?_) fun c' hc' f' hf' hconnect => ?_
      · obtain rfl := hrunning c' hc'
        obtain rfl := hframe f' hf'
        exact reports_op hi hf hcaller client result
      · obtain rfl := hrunning c' hc'
        obtain rfl := hframe f' hf'
        exact absurd (hcaller.symm.trans hconnect) nofun
    | connect =>
      obtain ⟨hsocket, hconnects⟩ := connects_resume hi hf hcaller client result
      constructor
      · intro h c' hc' f' hf' _
        obtain rfl := hrunning c' hc'
        obtain rfl := hframe f' hf'
        have hreports := h c' hc' f' hf'
        simp only [Reports, hcaller] at hreports
        by_contra hne
        -- It returned the socket, and should have returned the error.
        have hfailed := (hreports.2 hne).2.2
        rw [hconnects] at hfailed
        exact nomatch List.singleton_inj.mp (List.append_cancel_left hfailed)
      · intro h c' hc' f' hf'
        obtain rfl := hrunning c' hc'
        obtain rfl := hframe f' hf'
        have hzero := h c' hc' f' hf' hcaller
        simp only [Reports, hcaller]
        exact ⟨fun _ => ⟨hsocket, hconnects⟩, fun hne => absurd hzero hne⟩
  | _ => exact Iff.rfl

/-- In every run, an event concerns its own wait only, and every wait ends as its own event says, exactly
when `bio_net_connect` never goes on behind an event with an error. -/
theorem events_reported_iff {as : List EventAction} (hl : machine.Legal init as) :
    (∀ bs a, bs ++ [a] <+: as → (machine.run init bs).ReportsErrors a) ↔
      (machine.restrict ConnectOk).Legal init as :=
  Machine.steps_iff rfl (fun _ _ => reportsErrors_iff) hl

instance (s : EventState) : ∀ a, Decidable (s.ConnectOk a)
  | .finish _ _ => inferInstanceAs (Decidable (∀ c ∈ s.net.sched.phase.mcoRunning,
      ∀ f ∈ s.net.frames c, f.caller = .connect → s.own (c, f.call) = 0))
  | .call _ | .submit | .deliver _ _ => .isTrue trivial

instance (s : EventState) (a : EventAction) : Decidable ((machine.restrict ConnectOk).enabled s a) :=
  inferInstanceAs (Decidable (machine.enabled s a ∧ s.ConnectOk a))

/-- A coroutine receives from a socket, waits, and goes on behind an event with the error. -/
def receiveOne (error : Nat) : List EventAction :=
  NetState.listenOne.map .call ++
  [.call (.recv ⟨4, 1⟩ ⟨5, 1⟩ (.error ewouldblock)), .call (.sched .resume), .call (.sched .yield),
    .call (.sched .resume), .call (.sched .yield), .call (.sched .endPass), .submit,
    .deliver (⟨1, 1⟩, 0) error, .call (.sched .swap), .call (.sched .resume), .call (.sched .yield),
    .call (.sched .resume), .call (.sched .yield), .call (.sched .resume),
    .finish Handle.invalid (.ok 5)]

/-- The kernel is out of memory. -/
theorem events_reported_iff_receive :
    (machine.run init (receiveOne 12)).net.returns = [⟨⟨4, 1⟩, false, .error (.errno 12)⟩] ∧
    ((∀ bs a, bs ++ [a] <+: receiveOne 12 → (machine.run init bs).ReportsErrors a) ↔
      (machine.restrict ConnectOk).Legal init (receiveOne 12)) ∧
    (machine.restrict ConnectOk).Legal init (receiveOne 12) :=
  ⟨by decide +kernel, events_reported_iff (by decide +kernel), by decide +kernel⟩

/-- A coroutine connects, waits, and goes on behind an event with the error. -/
def connectOne (error : Nat) : List EventAction :=
  [.call (.sched (.spawn false ⟨1, 1⟩)), .call (.sched .enterLoop), .call (.sched .endPass),
    .call (.sched .swap), .call (.sched .resume), .call (.connect 3 ⟨4, 1⟩),
    .call (.sched .endPass), .submit, .deliver (⟨1, 1⟩, 0) error, .call (.sched .swap),
    .call (.sched .resume), .finish ⟨5, 1⟩ (.ok 0)]

/-- `bio_net_connect` returns a socket although the kernel refused its event. -/
theorem connect_drops_error :
    machine.Legal init (connectOne 12) ∧
    (machine.run init (connectOne 12)).own (⟨1, 1⟩, 0) = 12 ∧
    (machine.run init (connectOne 12)).connects = [.ok ⟨5, 1⟩] ∧
    3 ∈ (machine.run init (connectOne 12)).net.fds ∧
    ¬∀ bs a, bs ++ [a] <+: connectOne 12 → (machine.run init bs).ReportsErrors a := by
  have hconnects : (machine.run init (connectOne 12)).connects = [.ok ⟨5, 1⟩] := by decide +kernel
  refine ⟨by decide +kernel, by decide +kernel, hconnects, by decide +kernel, fun h => ?_⟩
  have hlast := h (connectOne 12).dropLast (.finish ⟨5, 1⟩ (.ok 0)) (by exact List.prefix_rfl)
  have hreports := hlast ⟨1, 1⟩ (by decide +kernel) ⟨0, .connect, 3, ⟨4, 1⟩, false, false, 0⟩
    (by decide +kernel)
  have hfailed := (hreports.2 (by decide +kernel)).2.2
  exact absurd hfailed (by decide +kernel)

end EventState

end Bio
