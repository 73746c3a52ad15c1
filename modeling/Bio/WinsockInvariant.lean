import Bio.Winsock

/-!
# Owners of Winsock sockets

* `Winsock.Inv`: each open `SOCKET` is held by the memory behind one handle or by one call, and nothing
  else is. The same holds of the listen data, which only a socket can hold.
* `Winsock.Carries`: the same inside a call, where the coroutine carries a `SOCKET`. Each of the things
  that it may do with it has a lemma.
* `Winsock.Attached`: each call of `bio_net_accept` that waits has the memory of its socket.

Results: `sockets_owned`, `listenData_freed_iff` and `accepts_attached_iff`.
-/

namespace Bio

open Ownership

namespace Winsock

variable {whole : Prop} {s : Winsock} {c h : Handle} {handle : Nat} {v : Option Nat} {k : WsAnswers}

/-! ## Holds -/

theorem holds_setSocket (s : Winsock) (h : Handle) (impl : Option WsSocket) :
    (s.setSocket h impl).holds = Function.update s.holds (.inl h) (impl.map WsSocket.handle) := by
  rw [holds, holds, Sum.update_elim_inl, setSocket, Function.comp_update]

theorem holds_setFrame (s : Winsock) (c : Handle) (f : Option WsFrame) :
    (s.setFrame c f).holds = Function.update s.holds (.inr c) (f.bind WsFrame.holds) := by
  rw [holds, holds, Sum.update_elim_inr, setFrame, Function.comp_update]

theorem listenData_setSocket (s : Winsock) (h : Handle) (impl : Option WsSocket) :
    (s.setSocket h impl).listenData =
      Function.update s.listenData h (impl.bind WsSocket.listenData) := by
  rw [listenData, listenData, setSocket, Function.comp_update]

theorem holds_socket {impl : WsSocket} (himpl : s.sockets h = some impl) :
    s.holds (.inl h) = some impl.handle := by
  simp [holds, himpl]

theorem listenData_socket {impl : WsSocket} (himpl : s.sockets h = some impl) :
    s.listenData h = impl.listenData := by
  simp [listenData, himpl]

theorem holds_setImpl {impl impl' : WsSocket} (himpl : s.sockets h = some impl)
    (hhandle : impl'.handle = impl.handle) : (s.setSocket h (some impl')).holds = s.holds := by
  rw [holds_setSocket, Function.update_eq_self_iff, holds_socket himpl, Option.map_some, hhandle]

theorem update_holds_none (hframe : s.frames c = none) :
    Function.update s.holds (.inr c) none = s.holds := by
  rw [Function.update_eq_self_iff]
  simp [holds, hframe]

/-- What holds of the memory. In the runs that are `whole` no listen data are lost. -/
structure Stored (whole : Prop) (s : Winsock) : Prop where
  issued : ∀ h, s.sockets h ≠ none → h ∈ s.issued
  data : Exclusive s.listenData ↑s.blocks
  freed : whole → Complete s.listenData ↑s.blocks
  misused : s.misused = []

structure Inv (whole : Prop) (s : Winsock) : Prop where
  exclusive : Exclusive s.holds ↑s.opened
  complete : s.stale = false → Complete s.holds ↑s.opened
  stored : s.Stored whole

/-- The coroutine is outside of its request and carries a `SOCKET`, or none. -/
structure Carries (whole : Prop) (s : Winsock) (c : Handle) (v : Option Nat) : Prop where
  exclusive : Exclusive (Function.update s.holds (.inr c) v) ↑s.opened
  complete : Complete (Function.update s.holds (.inr c) v) ↑s.opened
  frame : s.frames c = none
  stored : s.Stored whole

/-! ## Listen data -/

namespace Stored

theorem same (hs : s.Stored whole) (frames : Handle → Option WsFrame) (opened : Finset Nat)
    (stale : Bool) :
    Stored whole { s with
      frames := frames
      opened := opened
      stale := stale } :=
  ⟨hs.issued, hs.data, hs.freed, hs.misused⟩

theorem fresh (hs : s.Stored whole) (hfresh : h ∉ s.issued) : s.sockets h = none := by
  by_contra hne
  exact hfresh (hs.issued h hne)

theorem setSocket_issued (hs : s.Stored whole) {impl : WsSocket} (himpl : s.sockets h = some impl)
    (impl' : Option WsSocket) : ∀ x, (s.setSocket h impl').sockets x ≠ none → x ∈ s.issued := by
  intro x hx
  refine hs.issued x fun hnone => ?_
  have hne : x ≠ h := by
    rintro rfl
    cases himpl.symm.trans hnone
  exact hx ((Function.update_of_ne hne ..).trans hnone)

/-- The completion mode changes. -/
theorem setMode (hs : s.Stored whole) {impl impl' : WsSocket} (himpl : s.sockets h = some impl)
    (hdata : impl'.listenData = impl.listenData) : (s.setSocket h (some impl')).Stored whole := by
  have hsame : (s.setSocket h (some impl')).listenData = s.listenData := by
    rw [listenData_setSocket, Function.update_eq_self_iff, listenData_socket himpl]
    exact hdata
  exact ⟨hs.setSocket_issued himpl _, hsame ▸ hs.data, hsame ▸ hs.freed, hs.misused⟩

/-- A socket gets its listen data. In the runs that are `whole` it had none. -/
theorem store (hs : s.Stored whole) {impl : WsSocket} (himpl : s.sockets h = some impl) {block : Nat}
    (hblock : block ∉ s.blocks) (hnone : whole → impl.listenData = none) :
    Stored whole { s.setSocket h (some { impl with listenData := some block }) with
      blocks := insert block s.blocks } := by
  have hnew := listenData_setSocket s h (some { impl with listenData := some block })
  have hnot : block ∉ (↑s.blocks : Set Nat) := by simpa using hblock
  refine ⟨hs.setSocket_issued himpl _, ?_, fun hwhole => ?_, hs.misused⟩
  · show Exclusive (s.setSocket h _).listenData ↑(insert block s.blocks)
    have hacquire := (hs.data.drop (o := h)).acquire (o := h) hnot
    rw [Function.update_idem] at hacquire
    rw [hnew, Finset.coe_insert]
    exact hacquire
  · show Complete (s.setSocket h _).listenData ↑(insert block s.blocks)
    rw [hnew, Finset.coe_insert]
    exact (hs.freed hwhole).acquire ((listenData_socket himpl).trans (hnone hwhole))

/-- A new socket has none. -/
theorem makeSocket (hs : s.Stored whole) (hfresh : h ∉ s.issued) {impl : WsSocket}
    (hdata : impl.listenData = none) : (s.makeSocket h impl).Stored whole := by
  have hsame : (s.makeSocket h impl).listenData = s.listenData := by
    refine (listenData_setSocket s h (some impl)).trans ?_
    rw [Function.update_eq_self_iff, Option.bind_some, hdata]
    simp [listenData, hs.fresh hfresh]
  refine ⟨fun x hx => ?_, hsame ▸ hs.data, hsame ▸ hs.freed, hs.misused⟩
  rcases eq_or_ne x h with rfl | hne
  · exact List.mem_cons_self
  · exact List.mem_cons_of_mem _ (hs.issued x fun hnone =>
      hx ((Function.update_of_ne hne ..).trans hnone))

/-- `bio_net_ws_close` frees the listen data. -/
theorem free (hs : s.Stored whole) {impl : WsSocket} (himpl : s.sockets h = some impl) :
    Stored whole { s.setSocket h none with
      blocks := impl.listenData.elim s.blocks s.blocks.erase } := by
  have hnew : (s.setSocket h none).listenData = Function.update s.listenData h none :=
    listenData_setSocket s h none
  have hold := listenData_socket himpl
  refine ⟨hs.setSocket_issued himpl none, ?_, fun hwhole => ?_, hs.misused⟩
  · show Exclusive (s.setSocket h none).listenData ↑(impl.listenData.elim s.blocks s.blocks.erase)
    rw [hnew]
    cases hdata : impl.listenData with
    | none => exact hs.data.drop
    | some block =>
      rw [Option.elim_some, Finset.coe_erase]
      exact hs.data.release (hold.trans hdata)
  · show Complete (s.setSocket h none).listenData ↑(impl.listenData.elim s.blocks s.blocks.erase)
    rw [hnew]
    cases hdata : impl.listenData with
    | none =>
      rw [Function.update_eq_self_iff.mpr (hold.trans hdata).symm]
      exact hs.freed hwhole
    | some block =>
      rw [Option.elim_some, Finset.coe_erase]
      exact (hs.freed hwhole).release (hold.trans hdata)

end Stored

/-! ## What a coroutine does with its socket -/

/-- A coroutine outside of its request carries nothing when the call begins. -/
theorem Inv.carries (hi : s.Inv whole) (hstale : s.stale = false) (hframe : s.frames c = none) :
    s.Carries whole c none := by
  obtain ⟨hexclusive, hcomplete, hstored⟩ := hi
  rw [← update_holds_none hframe] at hexclusive hcomplete
  exact ⟨hexclusive, hcomplete hstale, hframe, hstored⟩

namespace Carries

/-- A call that carries nothing may return. -/
theorem done (hk : s.Carries whole c none) : s.Inv whole := by
  obtain ⟨hexclusive, hcomplete, hframe, hstored⟩ := hk
  rw [update_holds_none hframe] at hexclusive hcomplete
  exact ⟨hexclusive, fun _ => hcomplete, hstored⟩

/-- It goes back to a socket that was freed. -/
theorem stale (hk : s.Carries whole c v) : Inv whole { s with stale := true } := by
  have hdrop := hk.exclusive.drop (o := .inr c)
  rw [Function.update_idem, update_holds_none hk.frame] at hdrop
  exact ⟨hdrop, fun hstale => (by cases hstale), hk.stored.same ..⟩

theorem use_carried (hk : s.Carries whole c (some handle)) : s.use handle = s :=
  if_pos (Finset.mem_coe.mp (hk.exclusive.live (.inr c) handle (Function.update_self ..)))

theorem use_socket (hk : s.Carries whole c v) {impl : WsSocket} (himpl : s.sockets h = some impl) :
    s.use impl.handle = s := by
  refine if_pos (Finset.mem_coe.mp (hk.exclusive.live (.inl h) impl.handle ?_))
  rw [Function.update_of_ne Sum.inl_ne_inr]
  exact holds_socket himpl

/-- The coroutine gets a new `SOCKET`. -/
theorem opens (hk : s.Carries whole c none) (hnew : handle ∉ s.opened) :
    (s.opens handle).Carries whole c (some handle) := by
  have hset : (↑(insert handle s.opened) : Set Nat) = insert handle ↑s.opened := Finset.coe_insert ..
  have hexclusive := hk.exclusive.acquire (o := .inr c) (r := handle) (by simpa using hnew)
  have hcomplete := hk.complete.acquire (o := .inr c) (r := handle) (Function.update_self ..)
  rw [Function.update_idem, ← hset] at hexclusive hcomplete
  exact ⟨hexclusive, hcomplete, hk.frame, hk.stored.same ..⟩

theorem closeSocket (hk : s.Carries whole c (some handle)) :
    (s.closeSocket handle).Carries whole c none := by
  have hset : (↑(s.opened.erase handle) : Set Nat) = ↑s.opened \ {handle} := Finset.coe_erase ..
  have hcarried : Function.update s.holds (.inr c) (some handle) (.inr c) = some handle :=
    Function.update_self ..
  have hexclusive := hk.exclusive.release hcarried
  have hcomplete := hk.complete.release hcarried
  rw [Function.update_idem, ← hset] at hexclusive hcomplete
  unfold Winsock.closeSocket
  rw [hk.use_carried]
  exact ⟨hexclusive, hcomplete, hk.frame, hk.stored.same ..⟩

/-- The coroutine waits for a request that holds what it has carried. -/
theorem setFrame (hk : s.Carries whole c v) {f : WsFrame} (hf : f.holds = v) :
    (s.setFrame c (some f)).Inv whole := by
  have hholds : (s.setFrame c (some f)).holds = Function.update s.holds (.inr c) v := by
    rw [holds_setFrame, Option.bind_some, hf]
  refine ⟨?_, fun _ => ?_, hk.stored.same ..⟩
  · rw [hholds]
    exact hk.exclusive
  · rw [hholds]
    exact hk.complete

/-- The `SOCKET` goes to a new socket. -/
theorem makeSocket {impl : WsSocket} (hk : s.Carries whole c (some impl.handle))
    (hfresh : h ∉ s.issued) (hdata : impl.listenData = none) : (s.makeSocket h impl).Inv whole := by
  have hcarried : Function.update s.holds (.inr c) (some impl.handle) (.inr c) = some impl.handle :=
    Function.update_self ..
  have hnone : s.holds (.inl h) = none := by simp [holds, hk.stored.fresh hfresh]
  -- It is handed over by the coroutine.
  have hholds : (s.makeSocket h impl).holds = Function.update (Function.update
      (Function.update s.holds (.inr c) (some impl.handle)) (.inr c) none) (.inl h)
      (some impl.handle) := by
    rw [Function.update_idem, update_holds_none hk.frame]
    exact holds_setSocket s h (some impl)
  refine ⟨?_, fun _ => ?_, hk.stored.makeSocket hfresh hdata⟩
  · rw [hholds]
    exact hk.exclusive.transfer hcarried
  · rw [hholds]
    refine hk.complete.transfer hcarried fun _ => ?_
    rw [Function.update_of_ne Sum.inl_ne_inr, hnone]

theorem setMode (hk : s.Carries whole c v) {impl impl' : WsSocket} (himpl : s.sockets h = some impl)
    (hhandle : impl'.handle = impl.handle) (hdata : impl'.listenData = impl.listenData) :
    (s.setSocket h (some impl')).Carries whole c v := by
  have hsame := holds_setImpl himpl hhandle
  exact ⟨hsame ▸ hk.exclusive, hsame ▸ hk.complete, hk.frame, hk.stored.setMode himpl hdata⟩

theorem store (hk : s.Carries whole c v) {impl : WsSocket} (himpl : s.sockets h = some impl)
    {block : Nat} (hblock : block ∉ s.blocks) (hnone : whole → impl.listenData = none) :
    Carries whole { s.setSocket h (some { impl with listenData := some block }) with
      blocks := insert block s.blocks } c v := by
  have hsame : (s.setSocket h (some { impl with listenData := some block })).holds = s.holds :=
    holds_setImpl himpl rfl
  exact ⟨hsame ▸ hk.exclusive, hsame ▸ hk.complete, hk.frame, hk.stored.store himpl hblock hnone⟩

/-! ## Calls that wait -/

theorem failed {request : WsRequest} (hk : s.Carries whole c (WsFrame.holds ⟨request, false⟩)) (e : Nat) :
    (s.failed request e).1.Inv whole := by
  cases request with
  | acceptFn socket => exact done hk
  | accept socket client => exact (closeSocket hk).done
  | connectFn handle mode => exact (closeSocket hk).done
  | connect handle mode => exact (closeSocket hk).done

theorem maybeWaitForIo {request : WsRequest} (hk : s.Carries whole c (WsFrame.holds ⟨request, false⟩))
    (mode : CompletionMode) (result : CallResult) {next : Winsock → Winsock × WsReturn}
    (hnext : (next s).1.Inv whole) : (s.maybeWaitForIo c request mode result next).1.Inv whole := by
  unfold Winsock.maybeWaitForIo
  split
  · split
    · exact hnext
    · exact hk.setFrame rfl
  · exact hk.setFrame rfl
  · exact hk.failed _

theorem accepted {client : Nat} (hk : s.Carries whole c (some client)) (socket : Handle)
    (hfresh : k.handle ∉ s.issued) : (s.accepted socket client k).1.Inv whole := by
  unfold Winsock.accepted
  split
  · next impl himpl =>
    rw [hk.use_socket himpl]
    split
    · exact hk.makeSocket hfresh rfl
    · exact hk.closeSocket.done
  · exact hk.stale

theorem acceptClient (hk : s.Carries whole c none) {impl : WsSocket} (himpl : s.sockets h = some impl)
    (hfresh : k.handle ∉ s.issued) (hcreated : ∀ handle ∈ k.created.toOption, handle ∉ s.opened) :
    (s.acceptClient c h impl k).1.Inv whole := by
  unfold Winsock.acceptClient
  split
  · next client hclient =>
    have hk' := hk.opens (hcreated client (by rw [hclient]; rfl))
    rw [hk'.use_socket himpl]
    exact maybeWaitForIo hk' _ _ (hk'.accepted h hfresh)
  · exact hk.done

theorem acceptListen (hk : s.Carries whole c none) (hfresh : s.Fresh k)
    (hfirst : whole → ∀ impl ∈ s.sockets h, (k.named <|> k.typed) = none → impl.listenData = none) :
    (s.acceptListen c h k).1.Inv whole := by
  unfold Winsock.acceptListen
  split
  · next impl himpl =>
    rw [hk.use_socket himpl]
    dsimp only
    split
    · next hnone =>
      exact (hk.store himpl hfresh.2.1 fun hwhole => hfirst hwhole impl himpl hnone).acceptClient
        (Function.update_self ..) hfresh.1 hfresh.2.2
    · exact hk.done
  · exact hk.stale

theorem connected {mode : CompletionMode} (hk : s.Carries whole c (some handle))
    (hfresh : k.handle ∉ s.issued) : (s.connected handle mode k).1.Inv whole :=
  makeSocket hk hfresh rfl

theorem connectEx (hk : s.Carries whole c (some handle)) (mode : CompletionMode)
    (hfresh : k.handle ∉ s.issued) : (s.connectEx c handle mode k).1.Inv whole := by
  unfold Winsock.connectEx
  rw [hk.use_carried]
  exact maybeWaitForIo hk _ _ (hk.connected hfresh)

/-- The step lemma behind `bio_net_maybe_wait_for_io`. -/
theorem succeeded {request : WsRequest} (hk : s.Carries whole c (WsFrame.holds ⟨request, false⟩))
    (hfresh : s.Fresh k)
    (hfirst : whole → ∀ h ∈ request.listener, ∀ impl ∈ s.sockets h,
      (k.named <|> k.typed) = none → impl.listenData = none) :
    (s.succeeded c request k).1.Inv whole := by
  cases request with
  | acceptFn socket => exact acceptListen hk hfresh fun hwhole => hfirst hwhole socket rfl
  | accept socket client => exact accepted hk socket hfresh.1
  | connectFn handle mode => exact connectEx hk mode hfresh.1
  | connect handle mode => exact connected hk hfresh.1

end Carries

theorem initCompletionMode_handle (impl : WsSocket) (skips : Bool) :
    (initCompletionMode impl skips).handle = impl.handle := by
  unfold initCompletionMode
  split <;> rfl

theorem initCompletionMode_listenData (impl : WsSocket) (skips : Bool) :
    (initCompletionMode impl skips).listenData = impl.listenData := by
  unfold initCompletionMode
  split <;> rfl

theorem Inv.netAccept (hi : s.Inv whole) (hstale : s.stale = false) (hframe : s.frames c = none)
    (hfresh : s.Fresh k) (h : Handle) : (s.netAccept c h k).1.Inv whole := by
  unfold Winsock.netAccept
  split
  · next impl himpl =>
    have hk := (hi.carries hstale hframe).setMode himpl (initCompletionMode_handle impl k.skips)
      (initCompletionMode_listenData impl k.skips)
    have himpl' : (s.setSocket h (some (initCompletionMode impl k.skips))).sockets h =
        some (initCompletionMode impl k.skips) := Function.update_self ..
    dsimp only
    split
    · exact hk.acceptClient himpl' hfresh.1 hfresh.2.2
    · next hnone =>
      rw [hk.use_socket himpl']
      refine Carries.maybeWaitForIo hk _ _ (hk.acceptListen hfresh fun _ impl' hmem _ => ?_)
      rw [← Option.some.inj (himpl'.symm.trans hmem)]
      exact hnone
  · exact hi

theorem Inv.netConnect (hi : s.Inv whole) (hstale : s.stale = false) (hframe : s.frames c = none)
    (hfresh : s.Fresh k) : (s.netConnect c k).1.Inv whole := by
  unfold Winsock.netConnect
  split
  · next handle hcreated =>
    have hk := (hi.carries hstale hframe).opens (hfresh.2.2 handle (by rw [hcreated]; rfl))
    dsimp only
    split
    · rw [hk.use_carried]
      exact Carries.maybeWaitForIo hk _ _ (hk.connectEx _ hfresh.1)
    · exact hk.closeSocket.done
  · exact hi

/-- The coroutine carries what its request held. -/
theorem Inv.resumed (hi : s.Inv whole) (hstale : s.stale = false) {f : WsFrame}
    (hf : s.frames c = some f) : (s.setFrame c none).Carries whole c f.holds := by
  have hholds : Function.update (s.setFrame c none).holds (.inr c) f.holds = s.holds := by
    rw [holds_setFrame, Function.update_idem, Function.update_eq_self_iff]
    simp [holds, hf]
  refine ⟨?_, ?_, Function.update_self .., hi.stored.same ..⟩
  · rw [hholds]
    exact hi.exclusive
  · rw [hholds]
    exact hi.complete hstale

theorem Inv.resume (hi : s.Inv whole) (hstale : s.stale = false) (hfresh : s.Fresh k)
    (hfirst : whole → ∀ f ∈ s.frames c, ∀ h ∈ f.request.listener, ∀ impl ∈ s.sockets h,
      (k.overlapped.filter fun _ => f.pending) = none → (k.named <|> k.typed) = none →
        impl.listenData = none) : (s.resume c k).1.Inv whole := by
  unfold Winsock.resume
  split
  · next f hf =>
    have hk := hi.resumed hstale hf
    split
    · next hnone =>
      exact Carries.succeeded hk hfresh fun hwhole h hrequest impl himpl =>
        hfirst hwhole f hf h hrequest impl himpl hnone
    · exact Carries.failed hk _
  · exact hi

/-! ## Calls that do not wait -/

theorem closeSocket_opens (hnew : handle ∉ s.opened) : (s.opens handle).closeSocket handle = s := by
  have huse : (s.opens handle).use handle = s.opens handle :=
    if_pos (Finset.mem_insert_self handle s.opened)
  rw [closeSocket, huse, opens, Finset.erase_insert hnew]

/-- A new `SOCKET` goes to a new socket at once. -/
theorem Inv.made (hi : s.Inv whole) (hnew : handle ∉ s.opened) (hfresh : h ∉ s.issued) :
    ((s.opens handle).makeSocket h ⟨handle, .unknown, none⟩).Inv whole := by
  have hnone : s.holds (.inl h) = none := by simp [holds, hi.stored.fresh hfresh]
  have hholds : ((s.opens handle).makeSocket h ⟨handle, .unknown, none⟩).holds =
      Function.update s.holds (.inl h) (some handle) := holds_setSocket (s.opens handle) h _
  have hset : (↑(insert handle s.opened) : Set Nat) = insert handle ↑s.opened := Finset.coe_insert ..
  have hs : (s.opens handle).Stored whole := hi.stored.same ..
  have hexclusive := hi.exclusive.acquire (o := .inl h) (r := handle) (by simpa using hnew)
  have hcomplete := fun hstale => (hi.complete hstale).acquire (r := handle) hnone
  rw [← hset, ← hholds] at hexclusive
  simp only [← hset, ← hholds] at hcomplete
  exact ⟨hexclusive, hcomplete, hs.makeSocket hfresh rfl⟩

theorem Inv.netListen (hi : s.Inv whole) (hfresh : s.Fresh k) : (s.netListen k).1.Inv whole := by
  unfold Winsock.netListen
  split
  · next handle hcreated =>
    have hnew := hfresh.2.2 handle (by rw [hcreated]; rfl)
    split
    · exact hi.made hnew hfresh.1
    · rw [closeSocket_opens hnew]
      exact hi
  · exact hi

theorem Inv.netWrap (hi : s.Inv whole) (hnew : handle ∉ s.opened) (hfresh : s.Fresh k) :
    (s.netWrap handle k).1.Inv whole := by
  unfold Winsock.netWrap
  split
  · exact hi.made hnew hfresh.1
  · exact hi

theorem Inv.netClose (hi : s.Inv whole) (h : Handle) : (s.netClose h).1.Inv whole := by
  unfold Winsock.netClose
  split
  · next impl himpl =>
    have hheld := holds_socket himpl
    have huse : (s.setSocket h none).use impl.handle = s.setSocket h none :=
      if_pos (Finset.mem_coe.mp (hi.exclusive.live _ _ hheld))
    have hset : (↑(s.opened.erase impl.handle) : Set Nat) = ↑s.opened \ {impl.handle} :=
      Finset.coe_erase ..
    have hholds : (s.setSocket h none).holds = Function.update s.holds (.inl h) none :=
      holds_setSocket s h none
    unfold Winsock.closeSocket
    rw [huse]
    refine ⟨?_, fun hstale => ?_, (hi.stored.free himpl).same ..⟩
    · show Exclusive (s.setSocket h none).holds ↑(s.opened.erase impl.handle)
      rw [hholds, hset]
      exact hi.exclusive.release hheld
    · show Complete (s.setSocket h none).holds ↑(s.opened.erase impl.handle)
      rw [hholds, hset]
      exact (hi.complete hstale).release hheld
  · exact hi

/-! ## Runs -/

/-- No call of `bio_net_accept` gets the listen data of a socket when another call has stored them. -/
def FirstListen (s : Winsock) : WsAction → Prop
  | .resume c k => ∀ f ∈ s.frames c, ∀ h ∈ f.request.listener, ∀ impl ∈ s.sockets h,
      (k.overlapped.filter fun _ => f.pending) = none → (k.named <|> k.typed) = none →
        impl.listenData = none
  | _ => True

/-- The step lemma. -/
theorem Inv.step (hi : s.Inv whole) {a : WsAction} (he : machine.enabled s a)
    (hfirst : whole → s.FirstListen a) : (machine.perform s a).Inv whole := by
  cases a with
  | listen k => exact hi.netListen he.2
  | wrap handle k => exact hi.netWrap he.2.2 he.2.1
  | connect c k => exact hi.netConnect he.1 he.2.2 he.2.1
  | accept c socket k => exact hi.netAccept he.1 he.2.2 he.2.1 socket
  | close socket => exact hi.netClose socket
  | resume c k => exact hi.resume he.1 he.2.1 hfirst

theorem inv_init (whole : Prop) : init.Inv whole := by
  have hholds : init.holds = fun _ => none := by
    funext o
    cases o <;> rfl
  have hopened : (↑init.opened : Set Nat) = ∅ := Finset.coe_empty
  have hblocks : (↑init.blocks : Set Nat) = ∅ := Finset.coe_empty
  refine ⟨?_, fun _ => ?_, fun h hne => absurd rfl hne, ?_, fun _ => ?_, rfl⟩
  · rw [hholds, hopened]
    exact exclusive_empty
  · rw [hopened]
    exact complete_empty _
  · rw [hblocks]
    exact exclusive_empty
  · rw [hblocks]
    exact complete_empty _

theorem inv_of_reachable (h : machine.Reachable s) : s.Inv False :=
  Machine.invariant (fun _ h => h ▸ inv_init False) (fun _ _ _ hi he => hi.step he False.elim) h

theorem inv_of_restrict (h : (machine.restrict FirstListen).Reachable s) : s.Inv True :=
  Machine.invariant (M := machine.restrict FirstListen) (fun _ h => h ▸ inv_init True)
    (fun _ _ _ hi he => hi.step he.1 fun _ => he.2) h

theorem use_sockets (s : Winsock) (handle : Nat) : (s.use handle).sockets = s.sockets := by
  unfold use
  split <;> rfl

theorem use_blocks (s : Winsock) (handle : Nat) : (s.use handle).blocks = s.blocks := by
  unfold use
  split <;> rfl

/-- The step leaves the listen data alone. -/
structure SameData (s t : Winsock) : Prop where
  listenData : t.listenData = s.listenData
  blocks : t.blocks = s.blocks

namespace SameData

variable {t u : Winsock}

theorem trans (h : SameData s t) (h' : SameData t u) : SameData s u :=
  ⟨h'.listenData.trans h.listenData, h'.blocks.trans h.blocks⟩

theorem use (s : Winsock) (handle : Nat) : SameData s (s.use handle) :=
  ⟨by rw [Winsock.listenData, Winsock.listenData, use_sockets], use_blocks s handle⟩

theorem makeSocket (hnew : s.sockets h = none) (handle : Nat) (mode : CompletionMode) :
    SameData s (s.makeSocket h ⟨handle, mode, none⟩) := by
  refine ⟨?_, rfl⟩
  refine (listenData_setSocket s h _).trans (Function.update_eq_self_iff.mpr ?_)
  simp [Winsock.listenData, hnew]

theorem closeSocket (s : Winsock) (handle : Nat) : SameData s (s.closeSocket handle) :=
  ⟨(use s handle).listenData, (use s handle).blocks⟩

theorem accepted (hnew : s.sockets k.handle = none) (h : Handle) (client : Nat) :
    SameData s (s.accepted h client k).1 := by
  unfold Winsock.accepted
  split
  · next impl himpl =>
    have huse := use s impl.handle
    split
    · exact huse.trans (makeSocket (by rw [use_sockets, hnew]) client .unknown)
    · exact huse.trans (closeSocket _ client)
  · exact ⟨rfl, rfl⟩

theorem acceptClient (hnew : s.sockets k.handle = none) (c h : Handle) (impl : WsSocket) :
    SameData s (s.acceptClient c h impl k).1 := by
  unfold Winsock.acceptClient
  split
  · next client hclient =>
    have hopens : SameData s (s.opens client) := ⟨rfl, rfl⟩
    have huse := hopens.trans (use _ impl.handle)
    unfold Winsock.maybeWaitForIo
    split
    · split
      · exact huse.trans (accepted (by rw [use_sockets]; exact hnew) h client)
      · exact huse.trans ⟨rfl, rfl⟩
    · exact huse.trans ⟨rfl, rfl⟩
    · exact huse.trans (closeSocket _ client)
  · exact ⟨rfl, rfl⟩

end SameData

/-- Each call of `bio_net_accept` that waits has the memory of its socket. -/
structure Attached (s : Winsock) : Prop where
  stale : s.stale = false
  sockets : ∀ c f h, s.frames c = some f → f.request.socket = some h → s.sockets h ≠ none

theorem setSocket_some (s : Winsock) (h : Handle) (impl : WsSocket) :
    (s.setSocket h (some impl)).sockets h ≠ none := by
  simp [setSocket]

namespace Attached

theorem keep (ha : s.Attached) {t : Winsock} (hstale : t.stale = s.stale) (hframes : t.frames = s.frames)
    (hsockets : ∀ h, s.sockets h ≠ none → t.sockets h ≠ none) : t.Attached :=
  ⟨hstale.trans ha.stale, fun c f h hf hrequest =>
    hsockets h (ha.sockets c f h (hframes ▸ hf) hrequest)⟩

theorem setSocket (ha : s.Attached) (h : Handle) (impl : WsSocket) :
    (s.setSocket h (some impl)).Attached := by
  refine ha.keep rfl rfl fun x hx => ?_
  rcases eq_or_ne x h with rfl | hne
  · exact setSocket_some s x impl
  · exact fun hnone => hx ((Function.update_of_ne hne ..).symm.trans hnone)

theorem store (ha : s.Attached) (h : Handle) (impl : WsSocket) (block : Nat) :
    Attached { s.setSocket h (some impl) with blocks := insert block s.blocks } :=
  (ha.setSocket h impl).keep rfl rfl fun _ hx => hx

theorem makeSocket (ha : s.Attached) (h : Handle) (impl : WsSocket) : (s.makeSocket h impl).Attached :=
  (ha.setSocket h impl).keep rfl rfl fun _ hx => hx

theorem opens (ha : s.Attached) (handle : Nat) : (s.opens handle).Attached :=
  ha.keep rfl rfl fun _ hx => hx

theorem use (ha : s.Attached) (handle : Nat) : (s.use handle).Attached := by
  unfold Winsock.use
  split
  · exact ha
  · exact ha.keep rfl rfl fun _ hx => hx

theorem closeSocket (ha : s.Attached) (handle : Nat) : (s.closeSocket handle).Attached :=
  (ha.use handle).keep rfl rfl fun _ hx => hx

theorem setFrame (ha : s.Attached) (c : Handle) {f : WsFrame}
    (hf : ∀ h, f.request.socket = some h → s.sockets h ≠ none) : (s.setFrame c (some f)).Attached := by
  refine ⟨ha.stale, fun d g h hg hrequest => ?_⟩
  rcases Table.insert_some hg with ⟨_, rfl⟩ | ⟨_, hold⟩
  · exact hf h hrequest
  · exact ha.sockets d g h hold hrequest

theorem clearFrame (ha : s.Attached) (c : Handle) : (s.setFrame c none).Attached :=
  ⟨ha.stale, fun d g h hg => ha.sockets d g h (Table.erase_some hg).2⟩

theorem failed (ha : s.Attached) (request : WsRequest) (e : Nat) : (s.failed request e).1.Attached := by
  cases request with
  | acceptFn socket => exact ha
  | accept socket handle | connectFn handle mode | connect handle mode => exact ha.closeSocket handle

theorem maybeWaitForIo (ha : s.Attached) (c : Handle) {request : WsRequest} (mode : CompletionMode)
    (result : CallResult) {next : Winsock → Winsock × WsReturn}
    (hrequest : ∀ h, request.socket = some h → s.sockets h ≠ none) (hnext : (next s).1.Attached) :
    (s.maybeWaitForIo c request mode result next).1.Attached := by
  unfold Winsock.maybeWaitForIo
  split
  · split
    · exact hnext
    · exact ha.setFrame c hrequest
  · exact ha.setFrame c hrequest
  · exact ha.failed request _

theorem accepted (ha : s.Attached) (hsocket : s.sockets h ≠ none) (client : Nat) (k : WsAnswers) :
    (s.accepted h client k).1.Attached := by
  unfold Winsock.accepted
  split
  · next impl himpl =>
    split
    · exact (ha.use impl.handle).makeSocket k.handle _
    · exact (ha.use impl.handle).closeSocket client
  · next hnone => exact absurd hnone hsocket

theorem acceptClient (ha : s.Attached) (hsocket : s.sockets h ≠ none) (c : Handle) (impl : WsSocket)
    (k : WsAnswers) : (s.acceptClient c h impl k).1.Attached := by
  unfold Winsock.acceptClient
  split
  · next client hclient =>
    have ha' := (ha.opens client).use impl.handle
    have hsocket' : ((s.opens client).use impl.handle).sockets h ≠ none := by
      rw [use_sockets]
      exact hsocket
    refine ha'.maybeWaitForIo c _ _ (fun x hx => ?_) (ha'.accepted hsocket' client k)
    rw [← Option.some.inj hx]
    exact hsocket'
  · exact ha

theorem acceptListen (ha : s.Attached) (hsocket : s.sockets h ≠ none) (c : Handle) (k : WsAnswers) :
    (s.acceptListen c h k).1.Attached := by
  unfold Winsock.acceptListen
  split
  · next impl himpl =>
    dsimp only
    split
    · exact ((ha.use impl.handle).store h _ k.block).acceptClient (setSocket_some _ _ _) c _ k
    · exact ha.use impl.handle
  · next hnone => exact absurd hnone hsocket

theorem connectEx (ha : s.Attached) (c : Handle) (handle : Nat) (mode : CompletionMode) (k : WsAnswers) :
    (s.connectEx c handle mode k).1.Attached :=
  (ha.use handle).maybeWaitForIo c mode _ (fun _ hx => by cases hx) ((ha.use handle).makeSocket k.handle _)

theorem netAccept (ha : s.Attached) (c h : Handle) (k : WsAnswers) : (s.netAccept c h k).1.Attached := by
  unfold Winsock.netAccept
  split
  · next impl himpl =>
    have ha' := ha.setSocket h (initCompletionMode impl k.skips)
    have hsocket := setSocket_some s h (initCompletionMode impl k.skips)
    dsimp only
    split
    · exact ha'.acceptClient hsocket c _ k
    · have hsocket' : ((s.setSocket h (some (initCompletionMode impl k.skips))).use
          (initCompletionMode impl k.skips).handle).sockets h ≠ none := by
        rw [use_sockets]
        exact hsocket
      refine (ha'.use _).maybeWaitForIo c _ _ (fun x hx => ?_) ((ha'.use _).acceptListen hsocket' c k)
      rw [← Option.some.inj hx]
      exact hsocket'
  · exact ha

theorem netConnect (ha : s.Attached) (c : Handle) (k : WsAnswers) : (s.netConnect c k).1.Attached := by
  unfold Winsock.netConnect
  split
  · next handle hcreated =>
    dsimp only
    split
    · have ha' := (ha.opens handle).use handle
      exact ha'.maybeWaitForIo c _ _ (fun _ hx => by cases hx) (ha'.connectEx c handle _ k)
    · exact (ha.opens handle).closeSocket handle
  · exact ha

theorem succeeded (ha : s.Attached) (c : Handle) {request : WsRequest} (k : WsAnswers)
    (hrequest : ∀ h, request.socket = some h → s.sockets h ≠ none) :
    (s.succeeded c request k).1.Attached := by
  cases request with
  | acceptFn socket => exact ha.acceptListen (hrequest socket rfl) c k
  | accept socket client => exact ha.accepted (hrequest socket rfl) client k
  | connectFn handle mode => exact ha.connectEx c handle mode k
  | connect handle mode => exact ha.makeSocket k.handle _

theorem resume (ha : s.Attached) (c : Handle) (k : WsAnswers) : (s.resume c k).1.Attached := by
  unfold Winsock.resume
  split
  · next f hf =>
    split
    · exact (ha.clearFrame c).succeeded c k fun h => ha.sockets c f h hf
    · exact (ha.clearFrame c).failed f.request _
  · exact ha

end Attached

/-- No socket is closed while a call of `bio_net_accept` waits that goes back to it. -/
def ClosedIdle (s : Winsock) : WsAction → Prop
  | .close h => ∀ c f, s.frames c = some f → f.request.socket ≠ some h
  | _ => True

/-- The step lemma. -/
theorem Attached.step (ha : s.Attached) {a : WsAction} (hclosed : s.ClosedIdle a) :
    (machine.perform s a).Attached := by
  cases a with
  | listen k =>
    show (s.netListen k).1.Attached
    unfold netListen
    split
    · next handle hcreated =>
      split
      · exact (ha.opens handle).makeSocket k.handle _
      · exact (ha.opens handle).closeSocket handle
    · exact ha
  | wrap handle k =>
    show (s.netWrap handle k).1.Attached
    unfold netWrap
    split
    · exact (ha.opens handle).makeSocket k.handle _
    · exact ha
  | connect c k => exact ha.netConnect c k
  | accept c socket k => exact ha.netAccept c socket k
  | close socket =>
    show (s.netClose socket).1.Attached
    unfold netClose
    split
    · next impl himpl =>
      have hclear : (s.setSocket socket none).Attached := by
        refine ⟨ha.stale, fun c f h hf hrequest => ?_⟩
        have hne : h ≠ socket := fun heq => hclosed c f hf (heq ▸ hrequest)
        exact fun hnone =>
          ha.sockets c f h hf hrequest ((Function.update_of_ne hne ..).symm.trans hnone)
      exact (hclear.closeSocket impl.handle).keep rfl rfl fun _ hx => hx
    · exact ha
  | resume c k => exact ha.resume c k

instance (s : Winsock) : ∀ a, Decidable (s.FirstListen a)
  | .resume c k => inferInstanceAs (Decidable (∀ f ∈ s.frames c, ∀ h ∈ f.request.listener,
      ∀ impl ∈ s.sockets h, (k.overlapped.filter fun _ => f.pending) = none →
        (k.named <|> k.typed) = none → impl.listenData = none))
  | .listen _ | .wrap _ _ | .connect _ _ | .accept _ _ _ | .close _ => .isTrue trivial

instance (s : Winsock) (a : WsAction) : Decidable ((machine.restrict FirstListen).enabled s a) :=
  inferInstanceAs (Decidable (machine.enabled s a ∧ s.FirstListen a))

end Winsock

end Bio
