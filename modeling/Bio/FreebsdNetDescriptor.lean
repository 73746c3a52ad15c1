import Bio.FreebsdNetClose

/-!
# System calls on a closed FreeBSD socket

An operation keeps the descriptor in a local variable over its wait, and the kernel gives the number of a
closed descriptor to the next socket.

* `NetState.cancelled_of_reachable`: `bio_net_close` cancels only waits on the socket that it closes.
* `NetState.finish_spec`: what an operation does behind its wait.

Results: `closed_descriptor_iff` and, for programs that close a socket only while no operation waits on
it, `descriptors_of_idle`.
-/

namespace Bio

open FreebsdErrno (ewouldblock)

/-- The socket of the operation that waits. -/
def NetFrame.socket (f : NetFrame) : Option Handle :=
  match f.caller with
  | .op _ socket => some socket
  | .connect => none

namespace NetState

variable {q q' : NetState} {c h : Handle} {f : NetFrame} {op : NetOp} {a : NetAction}

theorem socket_eq (hsocket : f.socket = some h) : ∃ op, f.caller = .op op h := by
  unfold NetFrame.socket at hsocket
  split at hsocket
  · next op x hcaller => exact ⟨op, hcaller.trans (by rw [Option.some.inj hsocket])⟩
  · cases hsocket

/-- A request on a socket is cancelled only by the close of the socket. -/
def Cancelled (q : NetState) : Prop :=
  ∀ c f op h, q.frames c = some f → f.caller = .op op h → f.cancelled = true → q.sockets h = none

theorem netClose_cancels (q : NetState) {socket : Handle} {impl : Socket}
    (himpl : q.sockets socket = some impl) (errno : Option Nat) :
    Cancels impl.read q (q.netClose socket errno).1 ∧
      (q.netClose socket errno).1.sockets = Function.update q.sockets socket none := by
  have hset : Cancels impl.read q (q.setSocket socket none) := .refl q
  unfold netClose
  rw [himpl]
  dsimp only
  cases hread : impl.read with
  | none =>
    rw [hread] at hset
    cases impl.write with
    | none => exact ⟨hset.trans (cancels_closeFd _ _), rfl⟩
    | some w => exact ⟨hset, rfl⟩
  | some p =>
    rw [hread] at hset
    have hfirst := hset.trans (cancels_cancelIo (q.setSocket socket none) p)
    have hsockets := (raises_cancelIo (q.setSocket socket none) p).sockets
    cases impl.write with
    | none => exact ⟨hfirst.trans (cancels_closeFd _ _), hsockets⟩
    | some w =>
      exact ⟨(hfirst.trans (cancels_cancelIo _ p)).trans (cancels_closeFd _ _),
        (raises_cancelIo _ p).sockets.trans hsockets⟩

theorem Cancelled.netClose (h : q.Cancelled) (hi : q.Inv) (socket : Handle) (errno : Option Nat) :
    (q.netClose socket errno).1.Cancelled := by
  cases himpl : q.sockets socket with
  | none =>
    unfold NetState.netClose
    rw [himpl]
    exact h
  | some impl =>
    obtain ⟨hcancels, hsockets⟩ := netClose_cancels q himpl errno
    intro c f' op x hf' hop htrue
    obtain ⟨f, hf, hkey, hcancel⟩ := hcancels c f' hf'
    have hcaller : f.caller = .op op x := (key_eq hkey).2.1 ▸ hop
    rw [hsockets, Function.update_apply]
    split
    · rfl
    · next hne =>
      rcases hcancel htrue with hold | hread
      · exact h c f op x hf hcaller hold
      · obtain ⟨g, op', hg, _, hop', _⟩ := hi.slots socket impl .read _ himpl hread
        obtain rfl := Option.some.inj (hf.symm.trans hg)
        rw [hcaller] at hop'
        cases hop'
        exact absurd rfl hne

theorem Cancelled.carries (h : q.Cancelled) (hc : Carries q q') : q'.Cancelled := by
  intro c f' op x hf' hop htrue
  rcases hc.waits c f' op x hf' hop with ⟨_, hfalse⟩ | ⟨f, hf, hkey, hcancel, hsame⟩
  · exact absurd (hfalse.symm.trans htrue) nofun
  · exact hsame.mpr (h c f op x hf ((key_eq hkey).2.1 ▸ hop) (hcancel htrue))

theorem cancelled_of_reachable (hr : machine.Reachable q) : q.Cancelled := by
  refine Machine.invariant (fun t ht => ?_) (fun t a hrt h he => ?_) hr
  · obtain rfl : t = init := ht
    exact fun _ _ _ _ hf => nomatch hf
  · have hi := inv_of_reachable hrt
    have heff := Effect.of_step he
    cases a with
    | close socket errno => exact h.netClose hi socket errno
    | _ => exact h.carries (.of_effect hi heff nofun)

/-! ## What the steps log -/

/-- What is promised of the system calls: none on the descriptor of a socket that had been closed, and an
operation that was cancelled fails. -/
structure Descriptors (q : NetState) : Prop where
  syscalls : ∀ s ∈ q.syscalls, s.closed = false
  returns : ∀ r ∈ q.returns, r.cancelled = true → ∃ e, r.result = .error e

theorem Descriptors.same (h : q.Descriptors) (hsyscalls : q'.syscalls = q.syscalls)
    (hreturns : q'.returns = q.returns) : q'.Descriptors :=
  ⟨hsyscalls ▸ h.syscalls, hreturns ▸ h.returns⟩

theorem resumeOp_logs (q : NetState) (c : Handle) (op : NetOp) (socket : Handle) :
    (q.resumeOp c op socket).syscalls = q.syscalls ∧ (q.resumeOp c op socket).returns = q.returns := by
  unfold resumeOp clearSlot
  split <;> exact ⟨rfl, rfl⟩

theorem syscall_logs (q : NetState) (op : NetOp) (socket : Handle) (fd : Nat) (client : Handle)
    (result : Except Nat Nat) :
    (q.syscall op socket fd client result).syscalls =
      q.syscalls ++ [⟨socket, fd, (q.sockets socket).isNone⟩] ∧
    (q.syscall op socket fd client result).returns = q.returns := by
  rcases syscall_cases q op socket fd client result with heq | ⟨_, _, _, heq⟩ <;> rw [heq]
  · exact ⟨rfl, rfl⟩
  · exact ⟨rfl, rfl⟩

/-- The first system call of an operation is made with a socket that is open. -/
theorem Descriptors.netOp (h : q.Descriptors) (c x signal client : Handle)
    (result : Except Nat Nat) :
    (NetState.netOp op (waitForFilter op.filter) q c x signal client result).1.Descriptors := by
  have hlog : ∀ {impl t}, q.sockets x = some impl →
      t.syscalls = q.syscalls ++ [⟨x, impl.fd, (q.sockets x).isNone⟩] → t.returns = q.returns →
      Descriptors t := by
    intro impl t himpl hsyscalls hreturns
    refine ⟨fun s hs => ?_, hreturns ▸ h.returns⟩
    rw [hsyscalls, himpl] at hs
    rcases List.mem_append.mp hs with hold | hnew
    · exact h.syscalls s hold
    · rw [List.mem_singleton.mp hnew]
      rfl
  rcases netOp_cases op q c x signal client result with ⟨_, heq⟩ | ⟨impl, himpl, heq⟩ |
    ⟨impl, himpl, _, heq⟩ <;> rw [heq]
  · exact h
  · obtain ⟨hsyscalls, hreturns⟩ := syscall_logs q op x impl.fd client result
    exact hlog himpl hsyscalls hreturns
  · exact hlog himpl rfl rfl

/-- An operation behind its wait: without an error it makes its system call again, and otherwise it
fails. -/
theorem finish_spec (hf : q.frames c = some f) (client : Handle) (result : Except Nat Nat) :
    (∃ socket, f.socket = some socket ∧ f.error = 0 ∧
      (q.finish c client result).syscalls =
        q.syscalls ++ [⟨socket, f.fd, (q.sockets socket).isNone⟩] ∧
      ∃ r, (q.finish c client result).returns = q.returns ++ [⟨socket, f.cancelled, r⟩]) ∨
    (∃ socket, f.error ≠ 0 ∧ (q.finish c client result).syscalls = q.syscalls ∧
      (q.finish c client result).returns =
        q.returns ++ [⟨socket, f.cancelled, .error (.errno f.error)⟩]) ∨
    (f.socket = none ∧ (q.finish c client result).syscalls = q.syscalls ∧
      (q.finish c client result).returns = q.returns) := by
  rcases finish_cases hf client result with ⟨op, socket, hcaller, herror, heq⟩ |
    ⟨op, socket, _, herror, heq⟩ | ⟨hcaller, heq⟩ <;> rw [heq]
  · obtain ⟨_, _, hsockets, _⟩ := resumeOp_frame q c op socket
    obtain ⟨hsyscalls, hreturns⟩ := syscall_logs (q.resumeOp c op socket) op socket f.fd client result
    have hopen : ((q.resumeOp c op socket).sockets socket).isNone = (q.sockets socket).isNone := by
      rw [hsockets, Function.update_self, Option.isNone_map]
    rw [(resumeOp_logs q c op socket).1, hopen] at hsyscalls
    rw [(resumeOp_logs q c op socket).2] at hreturns
    exact .inl ⟨socket, by rw [NetFrame.socket, hcaller], herror, hsyscalls, _,
      congrArg (· ++ _) hreturns⟩
  · obtain ⟨hsyscalls, hreturns⟩ := resumeOp_logs q c op socket
    exact .inr (.inl ⟨socket, herror, hsyscalls, congrArg (· ++ _) hreturns⟩)
  · exact .inr (.inr ⟨by rw [NetFrame.socket, hcaller], rfl, rfl⟩)

/-! ## The guard -/

/-- When an operation goes on behind its wait, its socket is open or its event had an error. -/
def ResumeOk (q : NetState) : NetAction → Prop
  | .finish _ _ => ∀ c ∈ q.sched.phase.mcoRunning, ∀ f ∈ q.frames c, ∀ socket ∈ f.socket,
      f.error = 0 → q.sockets socket ≠ none
  | _ => True

theorem Descriptors.finish (h : q.Descriptors) (hcancelled : q.Cancelled) (hf : q.frames c = some f)
    (hok : ∀ socket ∈ f.socket, f.error = 0 → q.sockets socket ≠ none) (client : Handle)
    (result : Except Nat Nat) : (q.finish c client result).Descriptors := by
  rcases finish_spec hf client result with ⟨socket, hsocket, herror, hsyscalls, r, hreturns⟩ |
    ⟨socket, _, hsyscalls, hreturns⟩ | ⟨_, hsyscalls, hreturns⟩
  · have hopen := hok socket hsocket herror
    refine ⟨fun s hs => ?_, fun r hr htrue => ?_⟩
    · rcases List.mem_append.mp (hsyscalls ▸ hs) with hold | hnew
      · exact h.syscalls s hold
      · rw [List.mem_singleton.mp hnew]
        exact Option.isNone_eq_false_iff.mpr (Option.isSome_iff_ne_none.mpr hopen)
    · rcases List.mem_append.mp (hreturns ▸ hr) with hold | hnew
      · exact h.returns r hold htrue
      · -- A cancelled request means that the socket is closed.
        rw [List.mem_singleton.mp hnew] at htrue
        obtain ⟨op, hcaller⟩ := socket_eq hsocket
        exact absurd (hcancelled c f op socket hf hcaller htrue) hopen
  · refine ⟨hsyscalls ▸ h.syscalls, fun r hr htrue => ?_⟩
    rcases List.mem_append.mp (hreturns ▸ hr) with hold | hnew
    · exact h.returns r hold htrue
    · rw [List.mem_singleton.mp hnew]
      exact ⟨_, rfl⟩
  · exact h.same hsyscalls hreturns

theorem Descriptors.netClose (h : q.Descriptors) (socket : Handle) (errno : Option Nat) :
    (q.netClose socket errno).1.Descriptors := by
  rcases netClose_cases q socket errno with ⟨_, heq⟩ | ⟨impl, _, ⟨_, _, heq⟩ | ⟨_, hraises⟩⟩
  · rw [heq]
    exact h
  · rw [heq]
    exact h.same rfl rfl
  · have hall := (raises_afterRead q socket impl).trans hraises
    exact h.same hall.syscalls hall.returns

/-- The step lemma. -/
theorem Descriptors.effect (h : q.Descriptors) (hcancelled : q.Cancelled) (he : q.Effect a q')
    (hok : q.ResumeOk a) : q'.Descriptors := by
  cases he with
  | sched | listen | connected | connect => exact h.same rfl rfl
  | accept _ _ | recv _ _ | send _ _ => exact h.netOp _ _ _ _ _
  | finish hp hf _ =>
    exact h.finish hcancelled hf (hok _ (by rw [hp]; rfl) _ hf) _ _
  | close _ _ => exact h.netClose _ _
  | @platformUpdate errors ready _ =>
    have hraises := raises_platformUpdate q errors ready
    exact h.same hraises.syscalls hraises.returns

theorem descriptors_of_restrict (hr : (machine.restrict ResumeOk).Reachable q) : q.Descriptors := by
  refine Machine.invariant (fun t ht => ?_) (fun t a hrt h he => ?_) hr
  · obtain rfl : t = init := ht
    exact ⟨nofun, nofun⟩
  · exact h.effect (cancelled_of_reachable hrt.of_restrict) (.of_step he.1) he.2

theorem resumeOk_of_descriptors (he : machine.enabled q a) (h : (machine.perform q a).Descriptors) :
    q.ResumeOk a := by
  cases a with
  | finish client result =>
    intro c hc f hf socket hsocket herror hnone
    have hsyscalls := h.syscalls
    have hperform : machine.perform q (.finish client result) = q.finish c client result :=
      inCoro_running (Phase.eq_running hc) _
    rw [hperform] at hsyscalls
    rcases finish_spec hf client result with ⟨x, hx, _, hlog, _⟩ | ⟨_, hne, _⟩ | ⟨hx, _⟩
    · obtain rfl := Option.some.inj (hsocket.symm.trans hx)
      have hclosed := hsyscalls _ (hlog ▸ List.mem_append_right _ (List.mem_singleton_self _))
      rw [hnone] at hclosed
      cases hclosed
    · exact hne herror
    · exact absurd (hsocket.symm.trans hx) nofun
  | _ => trivial

/-- In every run, whatever descriptors the kernel returns, no system call is made on the descriptor of a
closed socket exactly when an operation goes on only while its socket is open or with an error. -/
theorem closed_descriptor_iff {as : List NetAction} (hl : machine.Legal init as) :
    (∀ bs, bs <+: as → (machine.run init bs).Descriptors) ↔
      (machine.restrict ResumeOk).Legal init as :=
  Machine.always_iff (fun _ => descriptors_of_restrict) (fun _ _ _ he => resumeOk_of_descriptors he)
    rfl hl

instance (q : NetState) : ∀ a, Decidable (q.ResumeOk a)
  | .finish _ _ => inferInstanceAs (Decidable (∀ c ∈ q.sched.phase.mcoRunning, ∀ f ∈ q.frames c,
      ∀ socket ∈ f.socket, f.error = 0 → q.sockets socket ≠ none))
  | .sched _ | .listen _ _ | .connected _ _ | .connect _ _ | .accept _ _ _ _ | .recv _ _ _
  | .send _ _ _ | .close _ _ | .platformUpdate _ _ => .isTrue trivial

instance (q : NetState) (a : NetAction) : Decidable ((machine.restrict ResumeOk).enabled q a) :=
  inferInstanceAs (Decidable (machine.enabled q a ∧ q.ResumeOk a))

/-- A coroutine waits for data, gets it and closes the socket. -/
theorem closed_descriptor_iff_received :
    let as := listenOne ++ [.recv ⟨4, 1⟩ ⟨5, 1⟩ (.error ewouldblock), .sched .resume, .sched .yield,
      .sched .resume, .sched .yield, .sched .endPass, .platformUpdate (fun _ => 0) [(⟨1, 1⟩, 0)],
      .sched .swap, .sched .resume, .sched .yield, .sched .resume, .sched .yield, .sched .resume,
      .finish Handle.invalid (.ok 5), .close ⟨4, 1⟩ none]
    machine.Legal init as ∧
      ((∀ bs, bs <+: as → (machine.run init bs).Descriptors) ↔
        (machine.restrict ResumeOk).Legal init as) ∧
      (machine.restrict ResumeOk).Legal init as :=
  ⟨by decide +kernel, closed_descriptor_iff (by decide +kernel), by decide +kernel⟩

/-- The first coroutine waits for data. The second one closes the socket and listens on a new one, which
gets the same descriptor. -/
def reuseDescriptor : List NetAction :=
  listenOne ++ [.recv ⟨4, 1⟩ ⟨5, 1⟩ (.error ewouldblock), .sched .resume, .close ⟨4, 1⟩ none,
    .listen 3 ⟨6, 1⟩, .sched .yield, .sched .resume, .sched .yield, .sched .endPass,
    .platformUpdate (fun _ => 0) [], .sched .swap, .sched .resume, .finish Handle.invalid (.ok 5)]

/-- The operation that was cancelled receives from the new socket, and succeeds. -/
theorem receives_from_other_socket :
    machine.Legal init reuseDescriptor ∧
    (machine.run init reuseDescriptor).sockets ⟨6, 1⟩ = some ⟨3, none, none⟩ ∧
    ⟨⟨4, 1⟩, 3, true⟩ ∈ (machine.run init reuseDescriptor).syscalls ∧
    ⟨⟨4, 1⟩, true, .ok 5⟩ ∈ (machine.run init reuseDescriptor).returns ∧
    ¬(machine.run init reuseDescriptor).Descriptors := by
  have hcall : ⟨⟨4, 1⟩, 3, true⟩ ∈ (machine.run init reuseDescriptor).syscalls := by decide +kernel
  exact ⟨by decide +kernel, by decide +kernel, hcall, by decide +kernel,
    fun h => absurd (h.syscalls _ hcall) nofun⟩

/-! ## Closing idle sockets -/

/-- No operation waits on a socket that is closed. -/
def CloseIdle (q : NetState) : NetAction → Prop
  | .close socket _ => ∀ c f, q.frames c = some f → f.socket ≠ some socket
  | _ => True

/-- The sockets of the operations that wait are open. -/
def Attached (q : NetState) : Prop :=
  ∀ c f socket, q.frames c = some f → f.socket = some socket → q.sockets socket ≠ none

theorem Attached.carries (h : q.Attached) (hc : Carries q q') : q'.Attached := by
  intro c f' socket hf' hsocket
  obtain ⟨op, hop⟩ := socket_eq hsocket
  rcases hc.waits c f' op socket hf' hop with ⟨hopen, _⟩ | ⟨f, hf, hkey, _, hsame⟩
  · exact hopen
  · have hcaller : f.caller = .op op socket := (key_eq hkey).2.1 ▸ hop
    exact mt hsame.mp (h c f socket hf (by rw [NetFrame.socket, hcaller]))

theorem Attached.netClose (h : q.Attached) {socket : Handle} {errno : Option Nat}
    (hidle : q.CloseIdle (.close socket errno)) : (q.netClose socket errno).1.Attached := by
  cases himpl : q.sockets socket with
  | none =>
    unfold NetState.netClose
    rw [himpl]
    exact h
  | some impl =>
    obtain ⟨hcancels, hsockets⟩ := netClose_cancels q himpl errno
    intro c f' x hf' hx
    obtain ⟨f, hf, hkey, _⟩ := hcancels c f' hf'
    have hsame : f.socket = some x := by
      rw [← hx, NetFrame.socket, NetFrame.socket, (key_eq hkey).2.1]
    rw [hsockets, Function.update_of_ne]
    · exact h c f x hf hsame
    · rintro rfl
      exact hidle c f hf hsame

/-- No stale system call is made when `bio_net_close` is called only while no operation waits on the
socket. -/
theorem descriptors_of_idle (hr : (machine.restrict CloseIdle).Reachable q) : q.Descriptors := by
  have h : q.Attached ∧ q.Descriptors := by
    refine Machine.invariant (P := fun t : NetState => t.Attached ∧ t.Descriptors) (fun t ht => ?_)
      (fun t a hrt ⟨hattached, h⟩ he => ?_) hr
    · obtain rfl : t = init := ht
      refine ⟨fun c f socket hf => ?_, ⟨fun s hs => ?_, fun r hr => ?_⟩⟩
      · cases hf
      · cases hs
      · cases hr
    · have heff := Effect.of_step he.1
      refine ⟨?_, h.effect (cancelled_of_reachable hrt.of_restrict) heff ?_⟩
      · cases a with
        | close socket errno => exact hattached.netClose he.2
        | _ => exact hattached.carries (.of_effect (inv_of_reachable hrt.of_restrict) heff nofun)
      · cases a with
        | finish client result =>
          exact fun c _ f hf socket hsocket _ => hattached c f socket hf hsocket
        | _ => trivial
  exact h.2

end NetState

end Bio
