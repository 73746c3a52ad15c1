import Bio.LinuxNet

/-!
# Descriptors of Linux sockets

* `LinuxNetState.Inv`: each open descriptor is held by at most one owner, the object of a socket or a call
  in progress, and a descriptor whose close is prepared is held by the call that closes it.
* `LinuxNetState.Carries`: the same behind `bio_submit_io_req`, where the coroutine carries a descriptor.
  Each of the things that it may do with it has a lemma.

Results: `socket_requests_valid`, `sockets_owned_iff` and `sockets_of_idle`.
-/

namespace Bio

open Ownership

namespace LinuxNetState

variable {support : NetSupport} {whole : Prop} {s : LinuxNetState} {c h : Handle} {fd : Int}

/-! ## Holds -/

theorem socket_ne_call : Owner.socket h ≠ .call c := nofun

theorem call_ne_socket : Owner.call c ≠ .socket h := nofun

theorem holds_setSocket (s : LinuxNetState) (h : Handle) (impl : Option LinuxSocket) :
    (s.setSocket h impl).holds = Function.update s.holds (.socket h) (impl.map LinuxSocket.fd) := by
  funext o
  cases o with
  | socket h' =>
    show (Function.update s.sockets h impl h').map LinuxSocket.fd = _
    by_cases heq : h' = h
    · subst heq
      rw [Function.update_self, Function.update_self]
    · rw [Function.update_of_ne heq, Function.update_of_ne fun hsame => heq (Owner.socket.inj hsame)]
      rfl
  | call c =>
    rw [Function.update_of_ne call_ne_socket]
    rfl

theorem holds_setFrame (s : LinuxNetState) (c : Handle) (f : Option SocketFrame) :
    (s.setFrame c f).holds = Function.update s.holds (.call c) (f.bind SocketFrame.holds) := by
  funext o
  cases o with
  | socket h =>
    rw [Function.update_of_ne socket_ne_call]
    rfl
  | call c' =>
    show (Function.update s.frames c f c').bind SocketFrame.holds = _
    by_cases heq : c' = c
    · subst heq
      rw [Function.update_self, Function.update_self]
    · rw [Function.update_of_ne heq, Function.update_of_ne fun hsame => heq (Owner.call.inj hsame)]
      rfl

/-- The invariant. In the runs that are `whole` no descriptor is lost. -/
structure Inv (whole : Prop) (s : LinuxNetState) : Prop where
  exclusive : Exclusive s.holds ↑s.fds
  complete : whole → Complete s.holds ↑s.fds
  issued : ∀ h, s.sockets h ≠ none → h ∈ s.issued
  closing : ∀ fd ∈ s.closing, ∃ c returns, s.frames c = some ⟨.close fd returns, none⟩
  misused : s.misused = []

/-- The coroutine is outside of its request and carries a descriptor, or none. -/
structure Carries (whole : Prop) (s : LinuxNetState) (c : Handle) (v : Option Int) : Prop where
  exclusive : Exclusive (Function.update s.holds (.call c) v) ↑s.fds
  complete : whole → Complete (Function.update s.holds (.call c) v) ↑s.fds
  issued : ∀ h, s.sockets h ≠ none → h ∈ s.issued
  closing : ∀ fd ∈ s.closing, ∃ c returns, s.frames c = some ⟨.close fd returns, none⟩
  misused : s.misused = []
  frame : s.frames c = none

theorem update_holds_none (hframe : s.frames c = none) :
    Function.update s.holds (.call c) none = s.holds := by
  rw [Function.update_eq_self_iff]
  simp [holds, hframe]

/-- A coroutine outside of its request carries nothing when the call begins. -/
theorem Inv.carries (hi : s.Inv whole) (hframe : s.frames c = none) : s.Carries whole c none := by
  obtain ⟨hexclusive, hcomplete, hissued, hclosing, hmisused⟩ := hi
  rw [← update_holds_none hframe] at hexclusive hcomplete
  exact ⟨hexclusive, hcomplete, hissued, hclosing, hmisused, hframe⟩

namespace Carries

variable {v : Option Int}

/-- A call that carries nothing may return. -/
theorem done (hk : s.Carries whole c none) : s.Inv whole := by
  obtain ⟨hexclusive, hcomplete, hissued, hclosing, hmisused, hframe⟩ := hk
  rw [update_holds_none hframe] at hexclusive hcomplete
  exact ⟨hexclusive, hcomplete, hissued, hclosing, hmisused⟩

/-- A descriptor is usable for its holder, unless the holder waits for its close. -/
theorem usable (hk : s.Carries whole c v) {o : Owner}
    (ho : Function.update s.holds (.call c) v o = some fd)
    (hnot : ∀ c' returns, o = .call c' → s.frames c' ≠ some ⟨.close fd returns, none⟩) :
    s.use fd = s := by
  refine if_pos ⟨by simpa using hk.exclusive.live o fd ho, fun hclosing => ?_⟩
  obtain ⟨c', returns, hf⟩ := hk.closing fd hclosing
  have hne : c' ≠ c := by
    rintro rfl
    rw [hk.frame] at hf
    cases hf
  have hholds : Function.update s.holds (.call c) v (.call c') = some fd := by
    rw [Function.update_of_ne fun hsame => hne (Owner.call.inj hsame)]
    simp [holds, hf, SocketFrame.holds]
  exact hnot c' returns (hk.exclusive.unique _ _ fd ho hholds) hf

theorem use_carried (hk : s.Carries whole c (some fd)) : s.use fd = s := by
  refine hk.usable (o := .call c) (Function.update_self ..) fun c' returns heq => ?_
  rw [← Owner.call.inj heq, hk.frame]
  nofun

theorem use_socket (hk : s.Carries whole c v) {impl : LinuxSocket} (himpl : s.sockets h = some impl) :
    s.use impl.fd = s := by
  refine hk.usable (o := .socket h) ?_ nofun
  rw [Function.update_of_ne socket_ne_call]
  simp [holds, himpl]

/-- The coroutine waits for a request that holds what it has carried. -/
theorem setFrame (hk : s.Carries whole c v) {f : SocketFrame} (hf : f.holds = v) :
    (s.setFrame c (some f)).Inv whole := by
  have hholds : (s.setFrame c (some f)).holds = Function.update s.holds (.call c) v := by
    rw [holds_setFrame, Option.bind_some, hf]
  refine ⟨by rw [hholds]; exact hk.exclusive, by rw [hholds]; exact hk.complete, hk.issued,
    fun fd hfd => ?_, hk.misused⟩
  obtain ⟨c', returns, hf'⟩ := hk.closing fd hfd
  refine ⟨c', returns, ?_⟩
  show Function.update s.frames c (some f) c' = _
  rw [Function.update_of_ne fun heq => ?_, hf']
  rw [heq, hk.frame] at hf'
  cases hf'

/-- `bio_submit_io_req` on the descriptor that the coroutine carries. -/
theorem submitIoReq (hk : s.Carries whole c (some fd)) (request : SocketRequest)
    (hdescriptor : request.descriptor = some fd)
    (hholds : SocketFrame.holds ⟨request, none⟩ = some fd) :
    (s.submitIoReq c request).Inv whole := by
  unfold LinuxNetState.submitIoReq
  rw [hdescriptor]
  dsimp only
  rw [hk.use_carried]
  exact hk.setFrame hholds

theorem ioClose (hk : s.Carries whole c (some fd)) (returns : SocketReturn) :
    (s.ioClose c fd returns).Inv whole := by
  have hi : (s.submitIoReq c (.close fd returns)).Inv whole :=
    hk.submitIoReq (.close fd returns) rfl rfl
  have hframe : (s.submitIoReq c (.close fd returns)).frames c = some ⟨.close fd returns, none⟩ :=
    Function.update_self ..
  refine ⟨hi.exclusive, hi.complete, hi.issued, fun fd' hfd' => ?_, hi.misused⟩
  rcases Finset.mem_insert.mp hfd' with rfl | hold
  · exact ⟨c, returns, hframe⟩
  · exact hi.closing fd' hold

/-- The descriptor goes to a new socket. -/
theorem socketFromFd (hk : s.Carries whole c (some fd)) (hfresh : h ∉ s.issued) :
    (s.socketFromFd fd h).Inv whole := by
  have hnone : s.sockets h = none := by
    by_contra hne
    exact hfresh (hk.issued h hne)
  -- The descriptor is handed over by the coroutine.
  have hmoved : Function.update s.holds (.socket h) (some fd) =
      Function.update (Function.update (Function.update s.holds (.call c) (some fd)) (.call c) none)
        (.socket h) (some fd) := by
    rw [Function.update_idem, update_holds_none hk.frame]
  have hholds : (s.socketFromFd fd h).holds = Function.update s.holds (.socket h) (some fd) :=
    holds_setSocket s h (some ⟨fd⟩)
  have hcarried : Function.update s.holds (.call c) (some fd) (.call c) = some fd :=
    Function.update_self ..
  refine ⟨?_, fun hwhole => ?_, fun h' hne => ?_, hk.closing, hk.misused⟩
  · rw [hholds, hmoved]
    exact hk.exclusive.transfer hcarried
  · rw [hholds, hmoved]
    refine (hk.complete hwhole).transfer hcarried fun _ => ?_
    rw [Function.update_of_ne socket_ne_call]
    simp [holds, hnone]
  · have hne' : Function.update s.sockets h (some ⟨fd⟩) h' ≠ none := hne
    rw [Function.update_apply] at hne'
    split at hne'
    · next heq => exact heq ▸ List.mem_cons_self
    · exact List.mem_cons_of_mem _ (hk.issued h' hne')

/-- The end of `bio_net_listen` and `bio_net_connect`. -/
theorem made (hk : s.Carries whole c (some fd)) (result : Int) {k : Continuation}
    (hfresh : k.handle ∉ s.issued) : (s.made c fd result k).1.Inv whole := by
  unfold LinuxNetState.made
  split
  · exact hk.ioClose _
  · exact hk.socketFromFd hfresh

theorem useSocket (hk : s.Carries whole c (some fd)) (use : SocketUse) {k : Continuation}
    (hfresh : k.handle ∉ s.issued) : (s.useSocket support c fd use k).1.Inv whole := by
  unfold LinuxNetState.useSocket
  cases use with
  | listen =>
    dsimp only
    rw [hk.use_carried]
    split
    · exact hk.submitIoReq (.listen fd) rfl rfl
    · split
      · exact hk.ioClose _
      · exact hk.socketFromFd hfresh
  | connect => exact hk.submitIoReq (.connect fd) rfl rfl

end Carries

/-! ## The calls up to their suspension -/

theorem Inv.makeSocket (hi : s.Inv whole) (hframe : s.frames c = none) (use : SocketUse) (addr : Addr)
    (port : UInt16) : (s.makeSocket c use addr port).1.Inv whole := by
  unfold LinuxNetState.makeSocket
  split
  · exact (hi.carries hframe).setFrame rfl
  · exact hi

/-- A request on the descriptor of a socket that is held by the socket. -/
theorem Inv.submit (hi : s.Inv whole) (hframe : s.frames c = none) (socket : Handle)
    {request : Int → SocketRequest} (failed : FileReturn)
    (hdescriptor : ∀ fd, (request fd).descriptor = some fd)
    (hholds : ∀ fd, SocketFrame.holds ⟨request fd, none⟩ = none) :
    (s.submit c socket request failed).1.Inv whole := by
  unfold LinuxNetState.submit
  split
  · next impl himpl =>
    have hk := hi.carries hframe
    unfold LinuxNetState.submitIoReq
    rw [hdescriptor]
    dsimp only
    rw [hk.use_socket himpl]
    exact hk.setFrame (hholds _)
  · exact hi

/-- `bio_net_close` takes the descriptor from the object. -/
theorem Inv.netClose (hi : s.Inv whole) (hframe : s.frames c = none) (socket : Handle) :
    (s.netClose c socket).1.Inv whole := by
  unfold LinuxNetState.netClose
  split
  · next impl himpl =>
    have hholds : s.holds (.socket socket) = some impl.fd := by simp [holds, himpl]
    have hmoved : Function.update (s.setSocket socket none).holds (.call c) (some impl.fd) =
        Function.update (Function.update s.holds (.socket socket) none) (.call c) (some impl.fd) := by
      rw [holds_setSocket]
      rfl
    have hk : (s.setSocket socket none).Carries whole c (some impl.fd) := by
      refine ⟨?_, fun hwhole => ?_, fun h hne => ?_, hi.closing, hi.misused, hframe⟩
      · rw [hmoved]
        exact hi.exclusive.transfer hholds
      · rw [hmoved]
        exact (hi.complete hwhole).transfer hholds fun _ => by simp [holds, hframe]
      · have hne' : Function.update s.sockets socket none h ≠ none := hne
        rw [Function.update_apply] at hne'
        split at hne'
        · exact absurd rfl hne'
        · exact hi.issued h hne'
    exact hk.submitIoReq (.shutdown impl.fd) rfl rfl
  · exact hi

/-! ## Behind the request -/

/-- The coroutine carries what its request held. -/
theorem Inv.resumed (hi : s.Inv whole) {f : SocketFrame} (hf : s.frames c = some f)
    (hresult : f.result ≠ none) : (s.setFrame c none).Carries whole c f.holds := by
  have hholds : Function.update (s.setFrame c none).holds (.call c) f.holds = s.holds := by
    rw [holds_setFrame, Function.update_idem, Function.update_eq_self_iff]
    simp [holds, hf]
  refine ⟨by rw [hholds]; exact hi.exclusive, by rw [hholds]; exact hi.complete, hi.issued,
    fun fd hfd => ?_, hi.misused, Function.update_self ..⟩
  obtain ⟨c', returns, hf'⟩ := hi.closing fd hfd
  refine ⟨c', returns, ?_⟩
  show Function.update s.frames c none c' = _
  rw [Function.update_of_ne fun heq => ?_, hf']
  rw [heq, hf] at hf'
  cases hf'
  exact hresult rfl

/-- The step lemma behind `bio_submit_io_req`. -/
theorem Carries.finish {request : SocketRequest} {result : Int} {k : Continuation}
    (hk : s.Carries whole c (SocketFrame.holds ⟨request, some result⟩)) (hfresh : k.handle ∉ s.issued)
    (hzero : whole → request.isAccept = true → result ≠ 0) :
    (s.finish support c request result k).1.Inv whole := by
  unfold LinuxNetState.finish
  cases request with
  | socket use shouldBind =>
    dsimp only
    split
    · next hneg =>
      have hnone : SocketFrame.holds ⟨.socket use shouldBind, some result⟩ = none := by
        simp [SocketFrame.holds, hneg]
      rw [hnone] at hk
      exact hk.done
    · next hneg =>
      have hsome : SocketFrame.holds ⟨.socket use shouldBind, some result⟩ = some result := by
        simpa [SocketFrame.holds] using hneg
      rw [hsome] at hk
      rw [hk.use_carried]
      split
      · split
        · exact hk.submitIoReq (.bind result use) rfl rfl
        · split
          · exact hk.ioClose _
          · exact hk.useSocket use hfresh
      · exact hk.useSocket use hfresh
  | bind fd use =>
    dsimp only
    split
    · exact Carries.ioClose hk _
    · exact Carries.useSocket hk use hfresh
  | listen fd => exact Carries.made hk result hfresh
  | connect fd => exact Carries.made hk result hfresh
  | accept fd =>
    dsimp only
    split
    · next hpos =>
      have hsome : SocketFrame.holds ⟨.accept fd, some result⟩ = some result := by
        simpa [SocketFrame.holds] using le_of_lt hpos
      rw [hsome] at hk
      exact hk.socketFromFd hfresh
    · next hpos =>
      rcases eq_or_ne result 0 with rfl | hne
      · -- The descriptor zero is forgotten.
        have hsame : s.holds = Function.update
            (Function.update s.holds (.call c) (SocketFrame.holds ⟨.accept fd, some 0⟩))
            (.call c) none := by
          rw [Function.update_idem, update_holds_none hk.frame]
        refine ⟨by rw [hsame]; exact hk.exclusive.drop, fun hwhole => ?_, hk.issued, hk.closing,
          hk.misused⟩
        exact absurd rfl (hzero hwhole rfl)
      · have hnone : SocketFrame.holds ⟨.accept fd, some result⟩ = none := by
          have hneg : ¬0 ≤ result := fun hle => hpos (lt_of_le_of_ne hle hne.symm)
          simpa [SocketFrame.holds] using not_le.mp hneg
        rw [hnone] at hk
        exact hk.done
  | shutdown fd => exact Carries.ioClose hk _
  | send fd size => exact Carries.done hk
  | recv fd size => exact Carries.done hk
  | close fd returns => exact Carries.done hk

theorem Inv.resume (hi : s.Inv whole) {k : Continuation} (hfresh : k.handle ∉ s.issued)
    (hzero : whole → s.NoZero (.resume c k)) : (s.resume support c k).1.Inv whole := by
  unfold LinuxNetState.resume
  split
  · next f hf =>
    split
    · next result hresult =>
      obtain ⟨request, r⟩ := f
      obtain rfl : r = some result := hresult
      refine (hi.resumed hf nofun).finish hfresh fun hwhole haccept hresult => ?_
      exact hzero hwhole _ hf haccept (congrArg some hresult)
    · exact hi
  · exact hi

/-! ## Completions -/

/-- The frame of a request that completes and is no close. -/
theorem Inv.closing_setFrame (hi : s.Inv whole) {f g : SocketFrame} (hf : s.frames c = some f)
    (hnot : ∀ fd returns, f.request ≠ .close fd returns) :
    ∀ fd ∈ s.closing, ∃ c' returns,
      (s.setFrame c (some g)).frames c' = some ⟨.close fd returns, none⟩ := by
  intro fd hfd
  obtain ⟨c', returns, hf'⟩ := hi.closing fd hfd
  refine ⟨c', returns, ?_⟩
  show Function.update s.frames c (some g) c' = _
  rw [Function.update_of_ne fun heq => ?_, hf']
  rw [heq, hf] at hf'
  cases hf'
  exact hnot fd returns rfl

/-- A completion that neither opens nor closes a descriptor. -/
theorem Inv.completed (hi : s.Inv whole) {f g : SocketFrame} (hf : s.frames c = some f)
    (hnot : ∀ fd returns, f.request ≠ .close fd returns) (hholds : g.holds = f.holds) :
    (s.setFrame c (some g)).Inv whole := by
  have hsame : (s.setFrame c (some g)).holds = s.holds := by
    rw [holds_setFrame, Function.update_eq_self_iff]
    simp [holds, hf, hholds]
  exact ⟨by rw [hsame]; exact hi.exclusive, by rw [hsame]; exact hi.complete, hi.issued,
    hi.closing_setFrame hf hnot, hi.misused⟩

/-- A completion that opens a descriptor. -/
theorem Inv.opened (hi : s.Inv whole) {f g : SocketFrame} {result : Int} (hf : s.frames c = some f)
    (hnot : ∀ fd returns, f.request ≠ .close fd returns) (hbefore : f.holds = none)
    (hholds : g.holds = some result) (hfresh : result ∉ s.fds) :
    Inv whole { s.setFrame c (some g) with fds := insert result s.fds } := by
  have hnone : s.holds (.call c) = none := by simp [holds, hf, hbefore]
  have hnew : (s.setFrame c (some g)).holds = Function.update s.holds (.call c) (some result) := by
    rw [holds_setFrame, Option.bind_some, hholds]
  refine ⟨?_, fun hwhole => ?_, hi.issued, hi.closing_setFrame hf hnot, hi.misused⟩
  · show Exclusive (s.setFrame c (some g)).holds ↑(insert result s.fds)
    rw [hnew, Finset.coe_insert]
    exact hi.exclusive.acquire (by simpa using hfresh)
  · show Complete (s.setFrame c (some g)).holds ↑(insert result s.fds)
    rw [hnew, Finset.coe_insert]
    exact (hi.complete hwhole).acquire hnone

/-- The completion of a close. -/
theorem Inv.closed (hi : s.Inv whole) {returns : SocketReturn} (result : Int)
    (hf : s.frames c = some ⟨.close fd returns, none⟩) :
    Inv whole { s.setFrame c (some ⟨.close fd returns, some result⟩) with
      fds := s.fds.erase fd
      closing := s.closing.erase fd } := by
  have hheld : s.holds (.call c) = some fd := by simp [holds, hf, SocketFrame.holds]
  have hnew : (s.setFrame c (some ⟨.close fd returns, some result⟩)).holds =
      Function.update s.holds (.call c) none := holds_setFrame ..
  refine ⟨?_, fun hwhole => ?_, hi.issued, fun fd' hfd' => ?_, hi.misused⟩
  · show Exclusive (s.setFrame c _).holds ↑(s.fds.erase fd)
    rw [hnew, Finset.coe_erase]
    exact hi.exclusive.release hheld
  · show Complete (s.setFrame c _).holds ↑(s.fds.erase fd)
    rw [hnew, Finset.coe_erase]
    exact (hi.complete hwhole).release hheld
  · obtain ⟨hne, hmem⟩ := Finset.mem_erase.mp hfd'
    obtain ⟨c', returns', hf'⟩ := hi.closing fd' hmem
    refine ⟨c', returns', ?_⟩
    show Function.update s.frames c _ c' = _
    rw [Function.update_of_ne fun heq => ?_, hf']
    rw [heq, hf] at hf'
    cases hf'
    exact hne rfl

theorem Inv.completeRequest (hi : s.Inv whole) {result : Int}
    (he : (machine support).enabled s (.complete c result)) : (s.complete c result).Inv whole := by
  obtain ⟨f, hf, hnone, _, hfresh⟩ := he
  have hf' : s.frames c = some f := hf
  obtain ⟨request, r⟩ := f
  obtain rfl : r = none := hnone
  unfold LinuxNetState.complete
  rw [hf']
  dsimp only
  unfold LinuxNetState.effect
  cases request with
  | socket use shouldBind =>
    dsimp only
    split
    · next hpos =>
      exact hi.opened hf' nofun rfl (by simpa [SocketFrame.holds] using hpos) (hfresh rfl)
    · next hneg => exact hi.completed hf' nofun (by simpa [SocketFrame.holds] using hneg)
  | accept fd =>
    dsimp only
    split
    · next hpos =>
      exact hi.opened hf' nofun rfl (by simpa [SocketFrame.holds] using hpos) (hfresh rfl)
    · next hneg => exact hi.completed hf' nofun (by simpa [SocketFrame.holds] using hneg)
  | close fd returns => exact hi.closed result hf'
  | _ => exact hi.completed hf' nofun rfl

/-! ## Runs -/

theorem Inv.step (hi : s.Inv whole) {a : SocketAction} (he : (machine support).enabled s a)
    (hzero : whole → s.NoZero a) : ((machine support).perform s a).Inv whole := by
  cases a with
  | listen c addr port => exact hi.makeSocket he .listen addr port
  | connect c addr port =>
    show (s.netConnect c addr port).1.Inv whole
    unfold netConnect
    split
    · exact hi.makeSocket he .connect addr.zeroed portAny
    · exact hi
  | accept c socket => exact hi.submit he socket _ (fun _ => rfl) fun _ => rfl
  | send c socket size => exact hi.submit he socket _ (fun _ => rfl) fun _ => rfl
  | recv c socket size => exact hi.submit he socket _ (fun _ => rfl) fun _ => rfl
  | close c socket => exact hi.netClose he socket
  | complete c result => exact hi.completeRequest he
  | resume c k => exact hi.resume he.2 hzero

theorem inv_init (whole : Prop) : init.Inv whole := by
  have hholds : init.holds = fun _ => none := by
    funext o
    cases o <;> rfl
  refine ⟨?_, fun _ => ?_, fun h hne => absurd rfl hne, fun fd hfd => absurd hfd (by simp [init]), rfl⟩
  · rw [hholds, show ((init.fds : Finset Int) : Set Int) = ∅ from Finset.coe_empty]
    exact exclusive_empty
  · rw [show ((init.fds : Finset Int) : Set Int) = ∅ from Finset.coe_empty]
    exact complete_empty _

theorem inv_of_reachable (h : (machine support).Reachable s) : s.Inv False := by
  refine Machine.invariant (P := Inv False) ?_ (fun _ _ _ hi he => hi.step he nofun) h
  rintro s rfl
  exact inv_init False

theorem inv_of_restrict (h : ((machine support).restrict NoZero).Reachable s) : s.Inv True := by
  refine Machine.invariant (M := (machine support).restrict NoZero) (P := Inv True) ?_
    (fun _ _ _ hi he => hi.step he.1 fun _ => he.2) h
  rintro s rfl
  exact inv_init True

/-- No request is prepared for a descriptor that is not open, or for which a close is prepared, and no
`bind` or `listen` is called on one, whatever the calls of the coroutines and in whatever order their
requests complete. -/
theorem socket_requests_valid (h : (machine support).Reachable s) : s.misused = [] :=
  (inv_of_reachable h).misused

/-- The call that gets the descriptor zero loses it. -/
theorem lost_of_zero (h : (machine support).Reachable s) {k : Continuation}
    (hf : s.frames c = some ⟨.accept fd, some 0⟩) : ¬AllOwned (s.resume support c k).1 := by
  have hresume : (s.resume support c k).1 = s.setFrame c none := by
    rw [LinuxNetState.resume, hf]
    rfl
  have hheld : s.holds (.call c) = some 0 := by simp [holds, hf, SocketFrame.holds]
  have hnew : (s.setFrame c none).holds = Function.update s.holds (.call c) none := holds_setFrame ..
  rw [hresume, AllOwned, hnew]
  exact (inv_of_reachable h).exclusive.lost hheld

/-- No descriptor is lost in a run exactly when no call of `bio_net_accept` goes on with the descriptor
zero. -/
theorem sockets_owned_iff {as : List SocketAction} (hl : (machine support).Legal init as) :
    (∀ bs, bs <+: as → AllOwned ((machine support).run init bs)) ↔
      ((machine support).restrict NoZero).Legal init as := by
  refine Machine.always_iff (fun t ht => (inv_of_restrict ht).complete trivial)
    (fun t a hr _ hall => ?_) rfl hl
  cases a with
  | resume c k =>
    rintro ⟨request, result⟩ hf haccept rfl
    cases request with
    | accept fd => exact lost_of_zero hr hf hall
    | _ => cases haccept
  | _ => trivial

/-- In such a run, when no call is in progress, the open descriptors are those of the sockets whose handles
resolve, each of one socket. -/
theorem sockets_of_idle (h : ((machine support).restrict NoZero).Reachable s)
    (hidle : ∀ c, s.frames c = none) :
    (∀ fd, fd ∈ s.fds ↔ ∃ h, s.sockets h = some ⟨fd⟩) ∧
      ∀ h h' fd, s.sockets h = some ⟨fd⟩ → s.sockets h' = some ⟨fd⟩ → h = h' := by
  have hi := inv_of_restrict h
  have hholds : ∀ {h fd}, s.sockets h = some ⟨fd⟩ → s.holds (.socket h) = some fd := by
    intro h fd hsocket
    simp [holds, hsocket]
  refine ⟨fun fd => ⟨fun hmem => ?_, fun ⟨h, hsocket⟩ => ?_⟩, fun h h' fd hsocket hsocket' => ?_⟩
  · obtain ⟨o, ho⟩ := hi.complete trivial fd (by simpa using hmem)
    cases o with
    | socket h =>
      obtain ⟨impl, himpl, rfl⟩ := Option.map_eq_some_iff.mp ho
      exact ⟨h, himpl⟩
    | call c =>
      rw [holds, hidle c] at ho
      cases ho
  · simpa using hi.exclusive.live _ fd (hholds hsocket)
  · exact Owner.socket.inj (hi.exclusive.unique _ _ fd (hholds hsocket) (hholds hsocket'))

/-! ## A run -/

instance (s : LinuxNetState) : ∀ a, Decidable (s.NoZero a)
  | .resume c _ => inferInstanceAs (Decidable
      (∀ f ∈ s.frames c, f.request.isAccept = true → f.result ≠ some 0))
  | .listen _ _ _ | .connect _ _ _ | .accept _ _ | .send _ _ _ | .recv _ _ _ | .close _ _
  | .complete _ _ => inferInstanceAs (Decidable True)

instance (s : LinuxNetState) (a : SocketAction) :
    Decidable (((machine support).restrict NoZero).enabled s a) :=
  inferInstanceAs (Decidable ((machine support).enabled s a ∧ s.NoZero a))

/-- io_uring can listen and cannot bind. -/
def listenOnly : NetSupport := ⟨false, true⟩

/-- A server on the port 80, one client that gets the descriptor `client`, and the end of the server. -/
def serve (client : Int) : List SocketAction :=
  [.listen ⟨0, 1⟩ .ipv4Any 80, .complete ⟨0, 1⟩ 3, .resume ⟨0, 1⟩ ⟨0, 0, ⟨1, 1⟩⟩, .complete ⟨0, 1⟩ 0,
    .resume ⟨0, 1⟩ ⟨0, 0, ⟨1, 1⟩⟩, .accept ⟨0, 1⟩ ⟨1, 1⟩, .complete ⟨0, 1⟩ client,
    .resume ⟨0, 1⟩ ⟨0, 0, ⟨2, 1⟩⟩, .close ⟨0, 1⟩ ⟨1, 1⟩, .complete ⟨0, 1⟩ (-107),
    .resume ⟨0, 1⟩ ⟨0, 0, ⟨3, 1⟩⟩, .complete ⟨0, 1⟩ 0, .resume ⟨0, 1⟩ ⟨0, 0, ⟨3, 1⟩⟩]

theorem socket_requests_valid_serve :
    ((machine listenOnly).run init (serve 4)).misused = [] :=
  socket_requests_valid (Machine.Reachable.run (.init rfl) (by decide +kernel))

theorem sockets_owned_iff_zero :
    ¬∀ bs, bs <+: serve 0 → AllOwned ((machine listenOnly).run init bs) := by
  rw [sockets_owned_iff (by decide +kernel)]
  decide +kernel

end LinuxNetState

end Bio
