import Bio.LinuxIoInvariant

/-!
# The storage of I/O requests

A request in the submission ring or in the kernel points to a variable of a function that has not
returned.

* `IoState.Owned`: the call of `bio_submit_io_req` that the request is a variable of is there, and its
  signal has not been raised. So its coroutine is still in the wait.
* `IoRing.Stored`: this holds of every request that has not been dispatched, completed ones included.
  No request is there twice, and neither is the read of the signalfd.
* A drain that finds room for the exit signals keeps `Stored` (`Stored.drain`).

Result: `requests_stored`.
-/

namespace Bio

namespace IoState

variable {i : IoState} {calls call : Nat} {c coro : Handle} {cqe : Cqe}

/-- The request of the call is there and its signal is live. -/
def Owned (i : IoState) (c : Handle) (call : Nat) : Prop :=
  ∃ req, i.requests c = some req ∧ req.call = call ∧ i.sched.ownerOf req.signal = some c

/-- What holds of a call of `bio_submit_io_req`. -/
structure RequestOk (i : IoState) (calls : Nat) (c : Handle) (req : IoReq) : Prop where
  inside : i.sched.Inside c
  held : i.sched.Held c req.signal
  awaiting : i.sched.Awaiting c [req.signal]
  known : req.call < calls
  apart : req.signal ∉ i.exitHandlers

structure Ok (i : IoState) (calls : Nat) : Prop where
  sched : Sched.machine.Reachable i.sched
  requests : ∀ c req, i.requests c = some req → i.RequestOk calls c req
  exits : ∀ x ∈ i.exitHandlers, x ∈ i.sched.issued

/-- An action of the scheduler that does not name the signals of requests. -/
theorem Ok.sched_step (h : i.Ok calls) {a : Action} (he : Sched.machine.enabled i.sched a)
    (hinside : ∀ c req, i.requests c = some req → (Sched.machine.perform i.sched a).Inside c)
    (hnames : ∀ c req, i.requests c = some req → a.names req.signal = true →
      i.sched.ownerOf req.signal ≠ some c) :
    Ok { i with sched := Sched.machine.perform i.sched a } calls ∧
      ∀ c call, i.Owned c call →
        Owned { i with sched := Sched.machine.perform i.sched a } c call := by
  refine ⟨⟨h.sched.step he, fun c req hreq => ?_, fun x hx => ?_⟩, ?_⟩
  · have hok := h.requests c req hreq
    exact ⟨hinside c req hreq, hok.held.step h.sched he (hnames c req hreq),
      hok.awaiting.step h.sched he, hok.known, hok.apart⟩
  · exact (Sched.Effect.of_step he).stays_closed.issued x (h.exits x hx)
  · rintro c _ ⟨req, hreq, rfl, hown⟩
    exact ⟨req, hreq, rfl, ((h.requests c req hreq).held.owner_iff h.sched he
      (hinside c req hreq).live (hnames c req hreq)).mpr hown⟩

theorem Ok.raise (h : i.Ok calls) (hp : i.sched.phase ≠ .pass) (ref : Handle) :
    Ok { i with sched := (i.sched.raiseSignal ref).1 } calls := by
  have he : Sched.machine.enabled i.sched (.raise ref) := hp
  refine ⟨h.sched.step he, fun c req hreq => ?_, fun x hx => ?_⟩
  · have hok := h.requests c req hreq
    exact ⟨hok.inside.raise ref, hok.held.raise ref, hok.awaiting.step h.sched he, hok.known,
      hok.apart⟩
  · exact (Sched.Effect.of_step he).stays_closed.issued x (h.exits x hx)

/-- The raise of another signal. -/
theorem Owned.raise (ho : i.Owned c call) (h : i.Ok calls) (hp : i.sched.phase ≠ .pass)
    {ref : Handle} (hne : ∀ req, i.requests c = some req → req.signal ≠ ref) :
    Owned { i with sched := (i.sched.raiseSignal ref).1 } c call := by
  have he : Sched.machine.enabled i.sched (.raise ref) := hp
  obtain ⟨req, hreq, rfl, hown⟩ := ho
  have hok := h.requests c req hreq
  refine ⟨req, hreq, rfl, (hok.held.owner_iff h.sched he (hok.inside.raise ref).live ?_).mpr hown⟩
  intro hnames
  exact absurd (by simpa [Action.names] using hnames) (hne req hreq).symm

theorem Ok.setRequest (h : i.Ok calls) (c : Handle) {new : Option IoReq}
    (hnew : ∀ req, new = some req → i.RequestOk calls c req) :
    Ok { i with requests := Function.update i.requests c new } calls := by
  refine ⟨h.sched, fun d req hreq => ?_, h.exits⟩
  have hreq' : Function.update i.requests c new d = some req := hreq
  have hok : i.RequestOk calls d req := by
    rw [Function.update_apply] at hreq'
    split at hreq'
    · next heq => exact heq ▸ hnew req hreq'
    · exact h.requests d req hreq'
  exact ⟨hok.inside, hok.held, hok.awaiting, hok.known, hok.apart⟩

/-- The completion of a request raises its signal. -/
theorem Ok.complete (h : i.Ok calls) (hp : i.sched.phase ≠ .pass) (coro : Handle) (call : Nat)
    (cqe : Cqe) : (i.complete coro call cqe).Ok calls := by
  unfold IoState.complete
  split
  · next req hreq =>
    split
    · refine (h.raise hp req.signal).setRequest coro fun req' hreq' => ?_
      cases hreq'
      have hok := (h.raise hp req.signal).requests coro req hreq
      exact ⟨hok.inside, hok.held, hok.awaiting, hok.known, hok.apart⟩
    · exact h
  · exact h

/-- The other requests keep their signals. -/
theorem Owned.complete (ho : i.Owned c call) (h : i.Ok calls) (hp : i.sched.phase ≠ .pass)
    {coro : Handle} {done : Nat} (hne : ¬(c = coro ∧ call = done)) (cqe : Cqe) :
    (i.complete coro done cqe).Owned c call := by
  unfold IoState.complete
  split
  · next req hreq =>
    split
    · next hcall =>
      have hc : c ≠ coro := by
        rintro rfl
        obtain ⟨req', hreq', rfl, _⟩ := ho
        obtain rfl := Option.some.inj (hreq.symm.trans hreq')
        exact hne ⟨rfl, hcall⟩
      have hsignal : ∀ req', i.requests c = some req' → req'.signal ≠ req.signal := by
        intro req' hreq' heq
        obtain ⟨own, hown', rfl, hown⟩ := ho
        obtain rfl := Option.some.inj (hreq'.symm.trans hown')
        have ha := Sched.accounted_of_reachable h.sched
        have hmade := (h.requests coro req hreq).held.made
        rw [← heq] at hmade
        have hcoro := Sched.ownerOf_of_made ha hmade (by rw [hown]; nofun)
        exact hc (Option.some.inj (hown.symm.trans hcoro))
      obtain ⟨req', hreq', hcall', hown⟩ := ho.raise h hp hsignal
      refine ⟨req', ?_, hcall', hown⟩
      show Function.update i.requests coro _ c = some req'
      rw [Function.update_of_ne hc]
      exact hreq'
    · exact ho
  · exact ho

/-- `bio_dispatch_exit_signal` raises no signal of a request. -/
theorem Ok.dispatchExitSignal (h : i.Ok calls) (hp : i.sched.phase ≠ .pass) :
    i.dispatchExitSignal.Ok calls ∧
      ∀ c call, i.Owned c call → i.dispatchExitSignal.Owned c call := by
  have hfoldl : ∀ (signals : List Handle) (j : IoState), j.Ok calls → j.sched.phase ≠ .pass →
      (∀ c req, j.requests c = some req → req.signal ∉ signals) →
      Ok { j with sched := signals.foldl (fun s x => (s.raiseSignal x).1) j.sched } calls ∧
        ∀ c call, j.Owned c call →
          Owned { j with sched := signals.foldl (fun s x => (s.raiseSignal x).1) j.sched } c call := by
    intro signals
    induction signals with
    | nil => exact fun j hj _ _ => ⟨hj, fun _ _ ho => ho⟩
    | cons x signals ih =>
      intro j hj hjp hapart
      obtain ⟨hok, howned⟩ := ih { j with sched := (j.sched.raiseSignal x).1 } (hj.raise hjp x)
        (by rw [LinuxIo.raiseSignal_phase]; exact hjp)
        fun c req hreq hmem => hapart c req hreq (List.mem_cons_of_mem _ hmem)
      refine ⟨hok, fun c call ho => howned c call (ho.raise hj hjp fun req hreq heq => ?_)⟩
      exact hapart c req hreq (heq ▸ List.mem_cons_self)
  obtain ⟨hok, howned⟩ := hfoldl i.exitHandlers i h hp fun c req hreq =>
    (h.requests c req hreq).apart
  refine ⟨⟨hok.sched, fun c req hreq => ?_, nofun⟩, howned⟩
  obtain ⟨hinside, hheld, hawaiting, hknown, _⟩ := hok.requests c req hreq
  exact ⟨hinside, hheld, hawaiting, hknown, List.not_mem_nil⟩

end IoState

namespace IoRing

variable {r r' : IoRing IoState} {calls p : Nat} {pending : List Cqe} {cqe : Cqe}

/-- The entries that have not been dispatched: queued, in the kernel, or completed. -/
def outstanding (r : IoRing IoState) (pending : List Cqe) : List IoEntry :=
  r.sq ++ r.inFlight ++ pending.map Cqe.entry

/-- What holds while the completions `pending` are still to be dispatched. -/
structure Stored (r : IoRing IoState) (calls p : Nat) (pending : List Cqe) : Prop where
  ok : r.rest.Ok calls
  owned : ∀ c call, .request c call ∈ r.outstanding pending → r.rest.Owned c call
  once : ∀ c call, (r.outstanding pending).count (.request c call) ≤ 1
  polls : (r.outstanding pending).count .signalPoll = p
  polls_le : p ≤ 1
  unpolled : r.signalPolled = false → p = 0
  room : 0 < r.sqEntries

/-- The same entries in other places. -/
theorem Stored.of_perm {pending' : List Cqe} (h : r.Stored calls p pending)
    (hperm : (r'.outstanding pending').Perm (r.outstanding pending)) (hrest : r'.rest = r.rest)
    (hpolled : r'.signalPolled = r.signalPolled) (hentries : r'.sqEntries = r.sqEntries) :
    r'.Stored calls p pending' where
  ok := hrest ▸ h.ok
  owned := fun c call hmem => hrest ▸ h.owned c call (hperm.mem_iff.mp hmem)
  once := fun c call => hperm.count_eq _ ▸ h.once c call
  polls := (hperm.count_eq _).trans h.polls
  polls_le := h.polls_le
  unpolled := fun hfalse => h.unpolled (hpolled ▸ hfalse)
  room := hentries ▸ h.room

theorem Stored.submit (h : r.Stored calls p pending) : r.submit.Stored calls p pending := by
  have hperm : (r.inFlight ++ r.sq).Perm (r.sq ++ r.inFlight) := List.perm_append_comm
  exact h.of_perm (hperm.append_right _) rfl rfl rfl

theorem Stored.post (h : r.Stored calls p r.available) (cqe : Cqe) :
    (r.post cqe).Stored calls p (r.post cqe).available := by
  rcases r.post_cases cqe with heq | hposted
  · exact heq.symm ▸ h
  · refine h.of_perm ?_ hposted.rest hposted.signalPolled hposted.sqEntries
    rw [outstanding, outstanding, hposted.sq, hposted.erased, hposted.available, List.map_append,
      List.append_assoc, List.append_assoc]
    refine List.Perm.append_left _ (List.perm_iff_count.mpr fun e => ?_)
    simp only [List.count_append, List.map_cons, List.map_nil, List.count_erase, List.count_cons,
      List.count_nil]
    have hpos := List.count_pos_iff.mpr hposted.inFlight
    by_cases he : cqe.entry = e
    · subst he
      simp
      omega
    · simp [he]

theorem Stored.getEvents (h : r.Stored calls p r.available) :
    r.getEvents.Stored calls p r.getEvents.available := by
  have hfoldl : ∀ (events : List Cqe) (r : IoRing IoState), r.Stored calls p r.available →
      (events.foldl IoRing.post r).Stored calls p (events.foldl IoRing.post r).available := by
    intro events
    induction events with
    | nil => exact fun _ hr => hr
    | cons cqe events ih => exact fun r hr => ih _ (hr.post cqe)
  unfold IoRing.getEvents
  split
  · exact h
  · next events upcoming _ =>
    refine hfoldl events _ (h.of_perm ?_ rfl rfl rfl)
    rw [available_congr (s := r) (t := { r with upcoming := upcoming }) rfl rfl rfl rfl]
    exact List.Perm.refl _

theorem Stored.submitAndGetEvents (h : r.Stored calls p r.available) :
    r.submitAndGetEvents.Stored calls p r.submitAndGetEvents.available := by
  refine Stored.getEvents ?_
  rw [available_submit]
  exact h.submit

/-- The step lemma for drains: the next completion is dispatched. -/
theorem Stored.handle (h : r.Stored calls p (cqe :: pending))
    (hp : r.rest.sched.phase ≠ .pass) :
    (r.handle IoState.handlers cqe).Stored calls p pending := by
  obtain ⟨hok, howned, honce, hpolls, hle, hunpolled, hroom⟩ := h
  have hcount : ∀ e, (r.outstanding (cqe :: pending)).count e =
      (r.outstanding pending).count e + if cqe.entry = e then 1 else 0 := by
    intro e
    simp only [outstanding, List.map_cons, List.count_append, List.count_cons, beq_iff_eq]
    omega
  have hmem : ∀ e, e ∈ r.outstanding pending → e ∈ r.outstanding (cqe :: pending) := by
    intro e he
    refine List.count_pos_iff.mp ?_
    have hpos := List.count_pos_iff.mpr he
    rw [hcount]
    omega
  have honce' : ∀ c call, (r.outstanding pending).count (.request c call) ≤ 1 := by
    intro c call
    have hone := honce c call
    rw [hcount] at hone
    exact Nat.le_trans (Nat.le_add_right _ _) hone
  have hpolls' : cqe.entry ≠ .signalPoll → (r.outstanding pending).count .signalPoll = p := by
    intro hne
    rw [hcount, if_neg hne] at hpolls
    exact hpolls
  unfold IoRing.handle
  cases hentry : cqe.entry with
  | signalPoll =>
    -- The read of the signalfd is queued again.
    obtain ⟨hok', howned'⟩ := hok.dispatchExitSignal hp
    have hsame : ∀ e, (r.outstanding (cqe :: pending)).count e =
        (((r.sq ++ [IoEntry.signalPoll]) ++ r.inFlight) ++ pending.map Cqe.entry).count e := by
      intro e
      rw [hcount, hentry]
      simp only [outstanding, List.count_append, List.count_cons, List.count_nil, beq_iff_eq]
      omega
    have hperm := (List.perm_iff_count.mpr hsame).symm
    exact ⟨hok', fun c call hc => howned' c call (howned c call (hperm.mem_iff.mp hc)),
      fun c call => hperm.count_eq _ ▸ honce c call, (hperm.count_eq _).trans hpolls, hle, nofun,
      hroom⟩
  | request coro done =>
    refine ⟨hok.complete hp coro done cqe, fun c call hc => ?_, honce', hpolls' (by simp [hentry]),
      hle, hunpolled, hroom⟩
    refine (howned c call (hmem _ hc)).complete hok hp (fun heq => ?_) cqe
    -- The request was there once.
    have hone := honce c call
    have hpos : 0 < (r.outstanding pending).count (.request c call) := List.count_pos_iff.mpr hc
    rw [hcount, hentry, heq.1, heq.2, if_pos rfl] at hone
    rw [heq.1, heq.2] at hpos
    omega
  | futexWait =>
    exact ⟨hok, fun c call hc => howned c call (hmem _ hc), honce', hpolls' (by simp [hentry]), hle,
      hunpolled, hroom⟩
  | eventfdRead update =>
    exact ⟨hok, fun c call hc => howned c call (hmem _ hc), honce', hpolls' (by simp [hentry]), hle,
      hunpolled, hroom⟩

theorem handle_phase (r : IoRing IoState) (cqe : Cqe) :
    (r.handle IoState.handlers cqe).rest.sched.phase = r.rest.sched.phase := by
  unfold IoRing.handle
  cases cqe.entry with
  | signalPoll => exact LinuxIo.dispatchExitSignal_phase r.rest
  | request coro call => exact LinuxIo.complete_phase r.rest coro call cqe
  | futexWait => rfl
  | eventfdRead update => rfl

theorem Stored.foldl_handle (h : r.Stored calls p pending) (hp : r.rest.sched.phase ≠ .pass) :
    (pending.foldl (IoRing.handle IoState.handlers) r).Stored calls p [] := by
  induction pending generalizing r with
  | nil => exact h
  | cons cqe pending ih =>
    refine ih (h.handle hp) ?_
    rw [handle_phase]
    exact hp

/-- The entries after a step are those before it and reads of the signalfd. -/
def OnlyPolls (r r' : IoRing IoState) : Prop :=
  ∀ e, e ∈ r'.sq ++ r'.inFlight → e = .signalPoll ∨ e ∈ r.sq ++ r.inFlight

theorem OnlyPolls.refl (r : IoRing IoState) : OnlyPolls r r := fun _ he => .inr he

theorem OnlyPolls.trans {r'' : IoRing IoState} (h : OnlyPolls r r') (h' : OnlyPolls r' r'') :
    OnlyPolls r r'' := fun e he => (h' e he).elim .inl (h e)

theorem onlyPolls_submitAndGetEvents (r : IoRing IoState) : OnlyPolls r r.submitAndGetEvents := by
  have hfoldl : ∀ (events : List Cqe) (r : IoRing IoState),
      OnlyPolls r (events.foldl IoRing.post r) := by
    intro events
    induction events with
    | nil => exact OnlyPolls.refl
    | cons cqe events ih =>
      refine fun r => OnlyPolls.trans (fun e he => ?_) (ih (r.post cqe))
      rcases r.post_cases cqe with heq | hposted
      · exact .inr (heq ▸ he)
      · rw [hposted.sq, hposted.erased] at he
        rcases List.mem_append.mp he with hsq | hflight
        · exact .inr (List.mem_append_left _ hsq)
        · exact .inr (List.mem_append_right _ (List.mem_of_mem_erase hflight))
  have hsubmit : OnlyPolls r r.submit := fun e he => by
    rcases List.mem_append.mp he with hsq | hflight
    · cases hsq
    · exact .inr (List.mem_append.mpr (List.mem_append.mp hflight).symm)
  refine hsubmit.trans ?_
  unfold IoRing.submitAndGetEvents IoRing.getEvents
  split
  · exact OnlyPolls.refl _
  · next events upcoming _ => exact hfoldl events { r.submit with upcoming := upcoming }

theorem submitAndGetEvents_sq (r : IoRing IoState) :
    r.submitAndGetEvents.sq = [] ∧ r.submitAndGetEvents.sqEntries = r.sqEntries := by
  refine IoRing.submit_induction (P := fun t => t.sq = [] ∧ t.sqEntries = r.sqEntries)
    (fun t cqe ht => ?_) fun _ => ⟨rfl, rfl⟩
  rcases t.post_cases cqe with heq | hposted
  · rw [heq]
    exact ht
  · exact ⟨hposted.sq.trans ht.1, hposted.sqEntries.trans ht.2⟩

theorem onlyPolls_foldl (cqes : List Cqe) (r : IoRing IoState) :
    OnlyPolls r (cqes.foldl (IoRing.handle IoState.handlers) r) := by
  induction cqes generalizing r with
  | nil => exact OnlyPolls.refl r
  | cons cqe cqes ih =>
    refine OnlyPolls.trans (fun e he => ?_) (ih _)
    rw [handle_sq, (sameRing_handle _ r cqe).inFlight, List.append_assoc] at he
    rcases List.mem_append.mp he with hsq | he
    · exact .inr (List.mem_append_left _ hsq)
    · rcases List.mem_append.mp he with hpoll | hflight
      · exact .inl (List.eq_of_mem_replicate hpoll)
      · exact .inr (List.mem_append_right _ hflight)

theorem exitSignals_eq_count (cqes : List Cqe) :
    exitSignals cqes = (cqes.map Cqe.entry).count .signalPoll := by
  rw [exitSignals, List.count, List.countP_map]
  congr

/-- A drain, when an exit signal finds room. -/
theorem Stored.drain (h : r.Stored calls p r.available) (hp : r.rest.sched.phase ≠ .pass)
    (hroom : 0 < exitSignals r.available → r.hasRoom = true) {fuel : Nat}
    (ht : r.drainIoCompletions IoState.handlers fuel = some r') :
    r'.Stored calls p r'.available ∧ OnlyPolls r r' ∧ r'.available = [] := by
  have hone : exitSignals r.available ≤ 1 := by
    have hpolls := h.polls
    rw [outstanding, List.count_append, ← exitSignals_eq_count] at hpolls
    have := h.polls_le
    omega
  have hfits : 0 < exitSignals r.available →
      r.sq.length + exitSignals r.available ≤ r.sqEntries := by
    intro hpos
    have hlt : r.sq.length < r.sqEntries := by simpa [hasRoom] using hroom hpos
    omega
  rw [drain_room hfits] at ht
  split at ht
  · obtain rfl := Option.some.inj ht
    have hempty := available_advance (sameRing_foldl IoState.handlers r.available r)
    refine ⟨?_, onlyPolls_foldl r.available r, hempty⟩
    rw [hempty]
    exact (h.foldl_handle hp).of_perm (List.Perm.refl _) rfl rfl rfl
  · cases ht

/-- Acquiring an entry submits before it drains, so it always finds room. -/
theorem Stored.acquire (h : r.Stored calls p r.available) (hp : r.rest.sched.phase ≠ .pass)
    {fuel : Nat} (ht : r.acquireIoReq IoState.handlers fuel = some r') :
    r'.Stored calls p r'.available ∧ OnlyPolls r r' := by
  induction fuel generalizing r with
  | zero =>
    rw [acquireIoReq] at ht
    split at ht
    · cases ht
      exact ⟨h, OnlyPolls.refl _⟩
    · cases ht
  | succ fuel ih =>
    rw [acquireIoReq] at ht
    split at ht
    · cases ht
      exact ⟨h, OnlyPolls.refl _⟩
    · split at ht
      · next u hu =>
        obtain ⟨hsq, hentries⟩ := submitAndGetEvents_sq r
        have hp' : r.submitAndGetEvents.rest.sched.phase ≠ .pass := by
          rw [submit_rest]
          exact hp
        have hroom : r.submitAndGetEvents.hasRoom = true := by
          simp [hasRoom, hsq, hentries, h.room]
        obtain ⟨hstored, honly, _⟩ := h.submitAndGetEvents.drain hp' (fun _ => hroom) hu
        have hphase := (LinuxIo.ring_phase fuel).1 _ u _ _ hu
        obtain ⟨hstored', honly'⟩ := ih hstored (hphase ▸ hp') ht
        exact ⟨hstored', ((onlyPolls_submitAndGetEvents r).trans honly).trans honly'⟩
      · cases ht

end IoRing

namespace IoState

variable {i : IoState} {calls : Nat} {c signal : Handle}

/-- The coroutine `c` runs, is not inside `bio_submit_io_req` and is going to make a signal and wait for
it. -/
structure Calling (i : IoState) (c signal : Handle) : Prop where
  running : i.sched.phase = .running c
  outside : i.requests c = none
  fresh : i.sched.Fresh signal
  count : i.sched.CanCount c

theorem Calling.raise (h : i.Calling c signal) (ref : Handle) :
    Calling { i with sched := (i.sched.raiseSignal ref).1 } c signal := by
  refine ⟨(LinuxIo.raiseSignal_phase _ _).trans h.running, h.outside, ⟨h.fresh.1, ?_⟩,
    h.count.raise ref⟩
  rw [(Sched.raiseSignal_frame i.sched ref).2.2.1]
  exact h.fresh.2

theorem Calling.complete (h : i.Calling c signal) (coro : Handle) (call : Nat) (cqe : Cqe) :
    (i.complete coro call cqe).Calling c signal := by
  unfold IoState.complete
  split
  · next req hreq =>
    split
    · obtain ⟨hrunning, houtside, hfresh, hcount⟩ := h.raise req.signal
      refine ⟨hrunning, ?_, hfresh, hcount⟩
      have hne : c ≠ coro := by
        rintro rfl
        rw [hreq] at houtside
        cases houtside
      exact (Function.update_of_ne hne ..).trans houtside
    · exact h
  · exact h

theorem Calling.dispatchExitSignal (h : i.Calling c signal) :
    i.dispatchExitSignal.Calling c signal := by
  have hfoldl : ∀ (signals : List Handle) (j : IoState), j.Calling c signal →
      Calling { j with sched := signals.foldl (fun s x => (s.raiseSignal x).1) j.sched } c signal := by
    intro signals
    induction signals with
    | nil => exact fun _ hj => hj
    | cons x signals ih => exact fun j hj => ih _ (hj.raise x)
  obtain ⟨hrunning, houtside, hfresh, hcount⟩ := hfoldl i.exitHandlers i h
  exact ⟨hrunning, houtside, hfresh, hcount⟩

theorem Ok.mono (h : i.Ok calls) {calls' : Nat} (hle : calls ≤ calls') : i.Ok calls' :=
  ⟨h.sched, fun c req hreq => { h.requests c req hreq with
    known := Nat.lt_of_lt_of_le (h.requests c req hreq).known hle }, h.exits⟩

/-- An action of a coroutine outside of `bio_submit_io_req`, which names no signal. -/
theorem Ok.own_step (h : i.Ok calls) (hp : i.sched.phase = .running c) (hout : i.requests c = none)
    {a : Action} (he : Sched.machine.enabled i.sched a) (hnames : ∀ x, a.names x = false) :
    Ok { i with sched := Sched.machine.perform i.sched a } calls ∧
      ∀ d call, i.Owned d call →
        Owned { i with sched := Sched.machine.perform i.sched a } d call := by
  refine h.sched_step he (fun d req hreq => ?_) fun d req _ hn => ?_
  · refine (h.requests d req hreq).inside.step h.sched he fun hd => ?_
    obtain rfl := Phase.running.inj (hp.symm.trans hd)
    rw [hout] at hreq
    cases hreq
  · rw [hnames] at hn
    cases hn

/-- A coroutine makes a signal. -/
theorem Ok.makeSignal (h : i.Ok calls) (hc : i.Calling c signal) :
    (i.sched.makeSignal c signal).phase = .running c ∧
      Ok { i with sched := i.sched.makeSignal c signal } calls ∧
      ∀ d call, i.Owned d call → Owned { i with sched := i.sched.makeSignal c signal } d call := by
  have hmake : Sched.machine.enabled i.sched (.makeSignal signal) :=
    ⟨by rw [hc.running]; rfl, hc.fresh⟩
  have hmade := h.own_step hc.running hc.outside hmake fun _ => rfl
  rw [Sched.perform_makeSignal hc.running] at hmade
  exact ⟨(Sched.makeSignal_phase ..).trans hc.running, hmade⟩

/-- A coroutine makes a signal and waits for it. -/
theorem Ok.makeAndWait (h : i.Ok calls) (hc : i.Calling c signal) :
    Ok { i with sched := (i.sched.makeSignal c signal).waitForSignals c [signal] true } calls ∧
      ∀ d call, i.Owned d call →
        Owned { i with sched := (i.sched.makeSignal c signal).waitForSignals c [signal] true } d call := by
  obtain ⟨hp₁, hok₁, howned₁⟩ := h.makeSignal hc
  obtain ⟨hok₂, howned₂⟩ := hok₁.own_step hp₁ hc.outside (Sched.wait_enabled hp₁ [signal] true)
    fun _ => rfl
  rw [Sched.perform_wait hp₁] at hok₂ howned₂
  exact ⟨hok₂, fun d call ho => howned₂ d call (howned₁ d call ho)⟩

/-- The call of `bio_submit_io_req` begins: it waits for the signal that it made. -/
theorem Ok.submit (h : i.Ok calls) (hc : i.Calling c signal) :
    Ok { i with
      sched := (i.sched.makeSignal c signal).waitForSignals c [signal] true
      requests := Function.update i.requests c (some ⟨calls, signal, 0, 0⟩) } (calls + 1) ∧
    ((i.sched.makeSignal c signal).waitForSignals c [signal] true).ownerOf signal = some c := by
  obtain ⟨⟨hinside, hheld, hawait⟩, hown⟩ := Sched.waits_of_new h.sched hc.running hc.count hc.fresh
  refine ⟨?_, hown⟩
  refine ((h.makeAndWait hc).1.mono (Nat.le_succ calls)).setRequest c fun req hreq => ?_
  cases hreq
  exact ⟨hinside, hheld, hawait, Nat.lt_succ_self calls, fun hmem => hc.fresh.2 (h.exits _ hmem)⟩

/-- `bio_submit_io_req` goes on only after the signal was raised. -/
theorem Ok.not_owned (h : i.Ok calls) (hp : i.sched.phase = .running c) (call : Nat) :
    ¬i.Owned c call := by
  rintro ⟨req, hreq, _, hown⟩
  have hok := h.requests c req hreq
  exact Sched.raisedAmong_one (Sched.accounted_of_reachable h.sched) hok.held.made
    (hok.awaiting.due (Sched.inv_of_reachable h.sched).1 hp) hown

/-- Another coroutine keeps its request. -/
theorem Owned.setRequest {d : Handle} {call : Nat} (ho : i.Owned d call) (hne : d ≠ c)
    (new : Option IoReq) :
    Owned { i with requests := Function.update i.requests c new } d call := by
  obtain ⟨req, hreq, hcall, hown⟩ := ho
  exact ⟨req, (Function.update_of_ne hne ..).trans hreq, hcall, hown⟩

/-- An exit handler is added, with a signal that no request has. -/
theorem Ok.addExitHandler (h : i.Ok calls) (hissued : signal ∈ i.sched.issued)
    (hne : ∀ d req, i.requests d = some req → req.signal ≠ signal) :
    Ok { i with exitHandlers := i.exitHandlers ++ [signal] } calls := by
  refine ⟨h.sched, fun d req hreq => ?_, fun x hx => ?_⟩
  · obtain ⟨hinside, hheld, hawaiting, hknown, hapart⟩ := h.requests d req hreq
    refine ⟨hinside, hheld, hawaiting, hknown, fun hmem => ?_⟩
    rcases List.mem_append.mp hmem with hold | hnew
    · exact hapart hold
    · exact hne d req hreq (List.mem_singleton.mp hnew)
  · rcases List.mem_append.mp hx with hold | hnew
    · exact h.exits x hold
    · exact List.mem_singleton.mp hnew ▸ hissued

/-- The rest of `bio_wait_for_exit`. -/
theorem Ok.waitForExit (h : i.Ok calls) (hc : i.Calling c signal) :
    Ok { i with
      sched := ((i.sched.makeSignal c signal).daemonize c).waitForSignals c [signal] true
      exitHandlers := i.exitHandlers ++ [signal] } calls ∧
    ∀ d call, i.Owned d call →
      Owned { i with
        sched := ((i.sched.makeSignal c signal).daemonize c).waitForSignals c [signal] true
        exitHandlers := i.exitHandlers ++ [signal] } d call := by
  obtain ⟨hp₁, hok₁, howned₁⟩ := h.makeSignal hc
  have hdaemon : Sched.machine.enabled (i.sched.makeSignal c signal) .daemonize := by
    show Option.isSome _ = true
    rw [hp₁]
    rfl
  obtain ⟨hok₂, howned₂⟩ := hok₁.own_step hp₁ hc.outside hdaemon fun _ => rfl
  have hperform : Sched.machine.perform (i.sched.makeSignal c signal) .daemonize =
      (i.sched.makeSignal c signal).daemonize c := Sched.inCoro_eq hp₁
  rw [hperform] at hok₂ howned₂
  have hp₂ : ((i.sched.makeSignal c signal).daemonize c).phase = .running c := by
    refine Eq.trans ?_ hp₁
    unfold Sched.daemonize
    split
    · split <;> rfl
    · rfl
  have hwait := Sched.wait_enabled hp₂ [signal] true
  obtain ⟨hok₃, howned₃⟩ := hok₂.own_step hp₂ hc.outside hwait fun _ => rfl
  rw [Sched.perform_wait hp₂] at hok₃ howned₃
  refine ⟨hok₃.addExitHandler ?_ fun d req hreq heq => ?_,
    fun d call ho => howned₃ d call (howned₂ d call (howned₁ d call ho))⟩
  · have hissued := (Sched.Held.of_makeSignal h.sched hc.running hc.fresh).issued
      (Sched.accounted_of_reachable hok₁.sched)
    have hissued₂ := (Sched.Effect.of_step hdaemon).stays_closed.issued _ hissued
    have hissued₃ := (Sched.Effect.of_step (s := Sched.machine.perform _ .daemonize)
      (by rw [hperform]; exact hwait)).stays_closed.issued _ hissued₂
    rw [hperform, Sched.perform_wait hp₂] at hissued₃
    exact hissued₃
  · exact hc.fresh.2 (heq ▸ (h.requests d req hreq).held.issued
      (Sched.accounted_of_reachable h.sched))

end IoState

namespace LinuxIo

variable {hasOpFutexWait : Bool} {s t u : LinuxIo} {c signal : Handle} {k : Enter}

/-- What an entry points to is there: the variable of a call of `bio_submit_io_req` whose coroutine is
suspended in it, an object of `bio_ctx`, or the variable of the call of `bio_platform_update` that is in
progress. -/
def Live (s : LinuxIo) : IoEntry → Prop
  | .request c call => (∃ req, s.ring.rest.requests c = some req ∧ req.call = call) ∧
      s.sched.coros c ≠ none ∧ s.sched.phase ≠ .running c
  | .signalPoll | .futexWait => True
  | .eventfdRead update => s.stage.inKernel = true ∧ update = s.updates

/-- The step is the return of `bio_platform_update` from its wait. -/
def returnsFromWait (s : LinuxIo) : IoAction → Bool
  | .wake _ =>
    match s.stage with
    | .waiting timed numSubmitted => !timed || numSubmitted > 0
    | _ => false
  | .retried _ => true
  | _ => false

/-- `bio_platform_update` returns from its wait only when its read of the eventfd has completed. -/
def ReadsEventfd (s : LinuxIo) (a : IoAction) : Prop :=
  s.returnsFromWait a = true → ∀ update, .eventfdRead update ∉ s.ring.sq ++ s.ring.inFlight

/-- When the wait ends with an exit signal, there is room in the submission ring. -/
def WakesWithRoom (s : LinuxIo) : IoAction → Prop
  | .wake _ => 0 < IoRing.exitSignals s.ring.available → s.ring.hasRoom = true
  | _ => True

structure Inv (s : LinuxIo) : Prop where
  stored : ∃ p, s.ring.Stored s.calls p s.ring.available
  eventfd : ∀ update, .eventfdRead update ∈ s.ring.sq ++ s.ring.inFlight →
    s.stage.inKernel = true ∧ update = s.updates
  retrying : s.stage = .retrying → s.ring.sq = []

theorem Inv.live (h : s.Inv) : ∀ e ∈ s.ring.sq ++ s.ring.inFlight, s.Live e := by
  obtain ⟨p, hstored⟩ := h.stored
  intro e he
  cases e with
  | request c call =>
    have hown := hstored.owned c call (List.mem_append_left _ he)
    obtain ⟨req, hreq, hcall, _⟩ := hown
    exact ⟨⟨req, hreq, hcall⟩, (hstored.ok.requests c req hreq).inside.live,
      fun hp => hstored.ok.not_owned hp call ⟨req, hreq, hcall, by assumption⟩⟩
  | signalPoll => trivial
  | futexWait => trivial
  | eventfdRead update => exact h.eventfd update he

/-- A step that leaves the rings alone. -/
theorem Inv.keep (h : s.Inv) {i : IoState} {t : UpdateStage}
    (hstep : s.ring.rest.Ok s.calls → i.Ok s.calls ∧
      ∀ c call, .request c call ∈ s.ring.outstanding s.ring.available →
        s.ring.rest.Owned c call → i.Owned c call)
    (hkernel : s.stage.inKernel = true → t.inKernel = true)
    (hretrying : t = .retrying → s.stage = .retrying) :
    Inv { s.setRest i with stage := t } := by
  obtain ⟨p, hstored⟩ := h.stored
  refine ⟨⟨p, ?_⟩, fun update he => ?_, fun hs => h.retrying (hretrying hs)⟩
  · have havail : ({ s.ring with rest := i } : IoRing IoState).available = s.ring.available :=
      IoRing.available_congr rfl rfl rfl rfl
    obtain ⟨hok, howned⟩ := hstep hstored.ok
    show IoRing.Stored { s.ring with rest := i } s.calls p
      ({ s.ring with rest := i } : IoRing IoState).available
    rw [havail]
    exact ⟨hok, fun c call hc => howned c call hc (hstored.owned c call hc), hstored.once,
      hstored.polls, hstored.polls_le, hstored.unpolled, hstored.room⟩
  · obtain ⟨hin, hupdate⟩ := h.eventfd update he
    exact ⟨hkernel hin, hupdate⟩

theorem Inv.schedAction (h : s.Inv) {a : Action} (hguard : s.guard (.sched a)) :
    Inv { s.setSched (s.sched.perform a) with stage := if a = .swap then .idle else s.stage } := by
  obtain ⟨he, hbusy, hlocal, hturn⟩ := hguard
  refine h.keep (fun hok => ?_) (fun hin => ?_) fun hs => ?_
  · have hstep := hok.sched_step he (fun c req hreq => ?_) fun c req hreq hn hown => ?_
    · exact ⟨hstep.1, fun c call _ => hstep.2 c call⟩
    · refine (hok.requests c req hreq).inside.step hok.sched he fun hp => ?_
      have hp' : s.sched.phase = .running c := hp
      simp [busy, hp', Phase.mcoRunning, hreq] at hbusy
    · have hnot := hlocal req.signal (Action.mem_signals.mpr hn)
      have hown' : s.sched.ownerOf req.signal = some c := hown
      simp [isLocal, hown', hreq] at hnot
  · split
    · next hswap =>
      subst hswap
      simp only [inTurn, decide_eq_true_eq] at hturn
      rcases hturn with heq | heq <;> simp [heq, UpdateStage.inKernel] at hin
    · exact hin
  · split at hs
    · cases hs
    · exact hs

/-- The rings change, and the only new entry is that of the signalfd. -/
theorem Inv.of_ring (h : s.Inv) {ring : IoRing IoState}
    (hstored : ∃ p, ring.Stored s.calls p ring.available)
    (honly : IoRing.OnlyPolls s.ring ring) (hidle : s.stage ≠ .retrying) :
    Inv { s with ring := ring } := by
  refine ⟨hstored, fun update he => ?_, fun hs => absurd hs hidle⟩
  rcases honly _ he with heq | hold
  · cases heq
  · exact h.eventfd update hold

theorem Inv.enter (h : s.Inv) (k : Enter) :
    ∃ p, (s.enter k).Stored s.calls p (s.enter k).available := by
  obtain ⟨p, hstored⟩ := h.stored
  refine ⟨p, hstored.of_perm ?_ rfl rfl rfl⟩
  rw [IoRing.available_congr (s := s.ring) (t := s.enter k) rfl rfl rfl rfl]
  exact List.Perm.refl _

theorem Inv.acquireIoReq (h : s.Inv) (hp : s.sched.phase ≠ .pass) (hidle : s.stage ≠ .retrying)
    (ht : s.acquireIoReq k = some t) : t.Inv := by
  obtain ⟨ring, hring, rfl⟩ := Option.map_eq_some_iff.mp ht
  obtain ⟨p, hstored⟩ := h.enter k
  obtain ⟨hstored', honly⟩ := hstored.acquire hp hring
  exact h.of_ring ⟨p, hstored'⟩ honly hidle

/-- A drain, when an exit signal finds room. -/
theorem Inv.drain (h : s.Inv) (hp : s.sched.phase ≠ .pass)
    (hroom : 0 < IoRing.exitSignals s.ring.available → s.ring.hasRoom = true)
    (ht : s.drain k = some t) :
    ∃ ring, t = { s with ring := ring } ∧ (∃ p, ring.Stored s.calls p ring.available) ∧
      IoRing.OnlyPolls s.ring ring := by
  obtain ⟨ring, hring, rfl⟩ := Option.map_eq_some_iff.mp ht
  obtain ⟨p, hstored⟩ := h.enter k
  have havail : (s.enter k).available = s.ring.available :=
    IoRing.available_congr rfl rfl rfl rfl
  obtain ⟨hstored', honly, _⟩ := hstored.drain hp (fun hpos => hroom (havail ▸ hpos)) hring
  exact ⟨ring, rfl, ⟨p, hstored'⟩, honly⟩

/-- `bio_platform_update` returns without a read of the eventfd. -/
theorem inv_returnUpdate (hstored : ∃ p, s.ring.Stored s.calls p s.ring.available)
    (hnone : ∀ update, .eventfdRead update ∉ s.ring.sq ++ s.ring.inFlight)
    (shouldWaitForIo : Bool) : (s.returnUpdate shouldWaitForIo).Inv :=
  ⟨hstored, fun update he => absurd he (hnone update), nofun⟩

/-- `bio_platform_update` begins to wait. -/
theorem inv_updateWait (hstored : ∃ p, s.ring.Stored s.calls p s.ring.available)
    (heventfd : ∀ update, .eventfdRead update ∈ s.ring.sq ++ s.ring.inFlight → update = s.updates)
    (timed submitted : Bool) : (s.updateWait timed submitted).Inv := by
  obtain ⟨p, hstored⟩ := hstored
  unfold LinuxIo.updateWait
  split
  · refine ⟨⟨p, ?_⟩, fun update he => ⟨rfl, heventfd update ?_⟩, nofun⟩
    · rw [IoRing.available_submit]
      exact hstored.submit
    · have he' : .eventfdRead update ∈ s.ring.inFlight ++ s.ring.sq := he
      exact List.mem_append.mpr (List.mem_append.mp he').symm
  · exact ⟨⟨p, hstored⟩, fun update he => ⟨rfl, heventfd update he⟩, nofun⟩

theorem calling_acquire (hc : s.ring.rest.Calling c signal) (ht : s.acquireIoReq k = some t) :
    t.ring.rest.Calling c signal := by
  obtain ⟨ring, hring, rfl⟩ := Option.map_eq_some_iff.mp ht
  exact (IoRing.rest_invariant (h := IoState.handlers) (P := fun i => i.Calling c signal)
    (fun i coro call cqe hi => hi.complete coro call cqe)
    (fun i hi => hi.dispatchExitSignal) k.fuel).2 _ ring hring hc

/-- The coroutine of a call that begins. -/
theorem calling_of_guard (hcount : s.sched.phase.mcoRunning.any (fun c => s.sched.CanCount c) = true)
    (hbusy : s.busy = false) (hfresh : s.sched.Fresh signal) :
    ∃ c, s.sched.phase.mcoRunning = some c ∧ s.ring.rest.Calling c signal := by
  obtain ⟨c, hp, hc⟩ := Sched.running_of_any hcount
  have hrun : s.sched.phase.mcoRunning = some c := by rw [hp]; rfl
  refine ⟨c, hrun, hp, ?_, hfresh, hc⟩
  simpa [busy, hrun] using hbusy

/-- The request is queued, and its coroutine waits. -/
theorem Inv.submitIoReq (h : s.Inv) (hc : s.ring.rest.Calling c signal)
    (hidle : s.stage ≠ .retrying) : (s.submitIoReq c signal).Inv := by
  obtain ⟨p, hstored⟩ := h.stored
  obtain ⟨hok, hown⟩ := hstored.ok.submit hc
  obtain ⟨_, howned⟩ := hstored.ok.makeAndWait hc
  have havail : (s.submitIoReq c signal).ring.available = s.ring.available :=
    IoRing.available_congr rfl rfl rfl rfl
  -- The entries are those of before, and the new request.
  have hperm : ((s.submitIoReq c signal).ring.outstanding s.ring.available).Perm
      (.request c s.calls :: s.ring.outstanding s.ring.available) := by
    refine List.perm_iff_count.mpr fun e => ?_
    simp only [IoRing.outstanding, LinuxIo.submitIoReq, IoRing.pushSqe, List.count_append,
      List.count_cons, List.count_nil]
    omega
  have hold : ∀ d call, .request d call ∈ s.ring.outstanding s.ring.available → d ≠ c := by
    rintro d call hd rfl
    obtain ⟨req, hreq, _⟩ := hstored.owned d call hd
    rw [hc.outside] at hreq
    cases hreq
  refine ⟨⟨p, ?_⟩, fun update he => ?_, fun hs => absurd hs hidle⟩
  · rw [havail]
    refine ⟨hok, fun d call hd => ?_, fun d call => ?_, ?_, hstored.polls_le, hstored.unpolled,
      hstored.room⟩
    · rcases List.mem_cons.mp (hperm.mem_iff.mp hd) with heq | hd
      · cases heq
        exact ⟨_, Function.update_self .., rfl, hown⟩
      · exact (howned d call (hstored.owned d call hd)).setRequest (hold d call hd) _
    · rw [hperm.count_eq, List.count_cons]
      have hone := hstored.once d call
      split
      · next heq =>
        cases (beq_iff_eq.mp heq : IoEntry.request c s.calls = .request d call)
        have hzero := List.count_eq_zero.mpr fun hmem => hold c s.calls hmem rfl
        rw [hzero]
      · exact hone
    · rw [hperm.count_eq, List.count_cons]
      exact hstored.polls
  · refine h.eventfd update ?_
    simpa [LinuxIo.submitIoReq, IoRing.pushSqe] using he

theorem Inv.submitAction (h : s.Inv) (hguard : s.guard (.submit signal k)) (hidle : s.stage = .idle)
    (ht : s.step hasOpFutexWait (.submit signal k) = some t) : t.Inv := by
  obtain ⟨hcount, hbusy, hfresh⟩ := hguard
  obtain ⟨c, hrun, hc⟩ := calling_of_guard hcount hbusy hfresh
  simp only [LinuxIo.step, hrun] at ht
  obtain ⟨u, hu, rfl⟩ := Option.map_eq_some_iff.mp ht
  have hne : s.stage ≠ .retrying := by simp [hidle]
  have hp : s.sched.phase ≠ .pass := by
    rw [sched, hc.running]
    simp
  refine (h.acquireIoReq hp hne hu).submitIoReq (calling_acquire hc hu) ?_
  rw [acquireIoReq_stage hu]
  exact hne

/-- `bio_submit_io_req` returns: its request is not in the rings any more. -/
theorem Inv.returnIoReq (h : s.Inv) (hp : s.sched.phase = .running c) : (s.returnIoReq c).Inv := by
  refine h.keep (t := s.stage) (fun hok => ⟨hok.setRequest c nofun, fun d call _ ho => ?_⟩)
    (fun hin => hin) fun hs => hs
  refine ho.setRequest (fun hd => ?_) none
  subst hd
  exact hok.not_owned hp call ho

/-- `bio_platform_block_exit_signal` reads the signalfd, unless that is done already. -/
theorem Inv.blockExitSignal (h : s.Inv) (hc : s.ring.rest.Calling c signal)
    (hidle : s.stage ≠ .retrying) (ht : s.blockExitSignal k = some t) :
    t.Inv ∧ t.ring.rest.Calling c signal ∧ t.stage ≠ .retrying := by
  have hp : s.sched.phase ≠ .pass := by
    rw [sched, hc.running]
    simp
  unfold LinuxIo.blockExitSignal at ht
  split at ht
  · obtain ⟨ring, hring, rfl⟩ := Option.map_eq_some_iff.mp ht
    obtain ⟨p, hstored⟩ := h.enter k
    unfold IoRing.pollSignal at hring
    split at hring
    · cases hring
      exact ⟨h.of_ring ⟨p, hstored⟩ (IoRing.OnlyPolls.refl _) hidle, hc, hidle⟩
    · next hpolled =>
      obtain ⟨acquired, hacquired, rfl⟩ := Option.map_eq_some_iff.mp hring
      -- No such read is in the rings, and acquiring the entry brings none.
      obtain rfl : p = 0 := hstored.unpolled (by simpa using hpolled)
      obtain ⟨hstored', honly⟩ := hstored.acquire hp hacquired
      have hcalling := calling_acquire (t := { s with ring := acquired }) hc
        (by rw [LinuxIo.acquireIoReq, hacquired]; rfl)
      refine ⟨h.of_ring ⟨1, ?_⟩ (honly.trans fun e he => ?_) hidle, hcalling, hidle⟩
      · have havail : ({ acquired.pushSqe .signalPoll with signalPolled := true } :
            IoRing IoState).available = acquired.available := IoRing.available_congr rfl rfl rfl rfl
        rw [havail]
        have hcount : ∀ e, (IoRing.outstanding
            { acquired.pushSqe .signalPoll with signalPolled := true } acquired.available).count e =
            (acquired.outstanding acquired.available).count e +
              if IoEntry.signalPoll = e then 1 else 0 := by
          intro e
          simp only [IoRing.outstanding, IoRing.pushSqe, List.count_append, List.count_cons,
            List.count_nil, beq_iff_eq]
          omega
        refine ⟨hstored'.ok, fun d call hd => hstored'.owned d call ?_, fun d call => ?_, ?_, le_rfl,
          by simp, hstored'.room⟩
        · have hpos := List.count_pos_iff.mpr hd
          rw [hcount, if_neg (by simp)] at hpos
          exact List.count_pos_iff.mp hpos
        · rw [hcount, if_neg (by simp)]
          exact hstored'.once d call
        · rw [hcount, if_pos rfl, hstored'.polls]
      · have he' : e ∈ acquired.sq ++ [IoEntry.signalPoll] ++ acquired.inFlight := he
        simp only [List.mem_append, List.mem_singleton] at he' ⊢
        tauto
  · cases ht
    exact ⟨h, hc, hidle⟩

theorem Inv.waitForExitAction (h : s.Inv) (hguard : s.guard (.waitForExit signal k))
    (hidle : s.stage = .idle) (ht : s.step hasOpFutexWait (.waitForExit signal k) = some t) :
    t.Inv := by
  obtain ⟨hcount, hbusy, hfresh, _⟩ := hguard
  obtain ⟨c, hrun, hc⟩ := calling_of_guard hcount hbusy hfresh
  simp only [LinuxIo.step, hrun] at ht
  obtain ⟨u, hu, rfl⟩ := Option.map_eq_some_iff.mp ht
  obtain ⟨hinv, hcalling, hne⟩ := h.blockExitSignal hc (by simp [hidle]) hu
  exact hinv.keep (t := u.stage) (fun hok =>
    have hwait := hok.waitForExit hcalling
    ⟨hwait.1, fun d call _ => hwait.2 d call⟩) (fun hin => hin) fun hs => hs

/-- `bio_terminate` outside of the loop. -/
theorem Inv.terminateAction (h : s.Inv) (hp : s.sched.phase = .outside) :
    (s.setRest { s.ring.rest with
      sched := { s.sched with isTerminating := true } }.dispatchExitSignal).Inv := by
  have he : Sched.machine.enabled s.sched .terminate := hp
  refine h.keep (t := s.stage) (fun hok => ?_) (fun hin => hin) fun hs => hs
  have hinside : ∀ c req, s.ring.rest.requests c = some req →
      (Sched.machine.perform s.sched .terminate).Inside c := fun c req hreq =>
    (hok.requests c req hreq).inside.step hok.sched he fun hp' => absurd (hp.symm.trans hp') nofun
  obtain ⟨hok₁, howned₁⟩ := hok.sched_step he hinside nofun
  have hphase : s.sched.phase ≠ .pass := by
    rw [hp]
    nofun
  obtain ⟨hok₂, howned₂⟩ := hok₁.dispatchExitSignal hphase
  exact ⟨hok₂, fun c call _ ho => howned₂ c call (howned₁ c call ho)⟩

/-- An entry of a notification. -/
theorem stored_pushNotification {p : Nat} (h : s.ring.Stored s.calls p s.ring.available)
    (hasOpFutexWait : Bool) :
    (s.pushNotification hasOpFutexWait).ring.Stored s.calls p
      (s.pushNotification hasOpFutexWait).ring.available := by
  have havail : (s.pushNotification hasOpFutexWait).ring.available = s.ring.available :=
    IoRing.available_congr rfl rfl rfl rfl
  have hcount : ∀ e, e = .signalPoll ∨ (∃ c call, e = .request c call) →
      ((s.pushNotification hasOpFutexWait).ring.outstanding s.ring.available).count e =
        (s.ring.outstanding s.ring.available).count e := by
    intro e he
    have hne : (if hasOpFutexWait then IoEntry.futexWait else .eventfdRead s.updates) ≠ e := by
      rcases he with rfl | ⟨c, call, rfl⟩ <;> split <;> nofun
    simp [IoRing.outstanding, pushNotification, IoRing.pushSqe, hne]
  rw [havail]
  refine ⟨h.ok, fun c call hc => h.owned c call ?_, fun c call => ?_, ?_, h.polls_le, h.unpolled,
    h.room⟩
  · have hpos := List.count_pos_iff.mpr hc
    rw [hcount _ (.inr ⟨c, call, rfl⟩)] at hpos
    exact List.count_pos_iff.mp hpos
  · rw [hcount _ (.inr ⟨c, call, rfl⟩)]
    exact h.once c call
  · rw [hcount _ (.inl rfl)]
    exact h.polls

theorem Inv.no_eventfd (h : s.Inv) (hin : s.stage.inKernel = false) (update : Nat) :
    .eventfdRead update ∉ s.ring.sq ++ s.ring.inFlight := fun he =>
  absurd (h.eventfd update he).1 (by simp [hin])

theorem Inv.updateNoWait (h : s.Inv) (hp : s.sched.phase ≠ .pass) (hidle : s.stage = .idle)
    {shouldWaitForIo : Bool} (ht : s.updateNoWait shouldWaitForIo k = some t) : t.Inv := by
  obtain ⟨ring, hring, rfl⟩ := Option.map_eq_some_iff.mp ht
  obtain ⟨p, hstored⟩ := h.enter k
  obtain ⟨hsq, hentries⟩ := IoRing.submitAndGetEvents_sq (s.enter k)
  have hroom : (s.enter k).submitAndGetEvents.hasRoom = true := by
    have hpos : 0 < (s.enter k).sqEntries := hstored.room
    simp [IoRing.hasRoom, hsq, hentries, hpos]
  obtain ⟨hstored', honly, _⟩ := hstored.submitAndGetEvents.drain
    (by rw [IoRing.submit_rest]; exact hp) (fun _ => hroom) hring
  refine inv_returnUpdate (s := { s with ring := ring }) ⟨p, hstored'⟩ (fun update he => ?_) _
  rcases (IoRing.onlyPolls_submitAndGetEvents (s.enter k)).trans honly _ he with heq | hold
  · cases heq
  · exact h.no_eventfd (by rw [hidle]; rfl) update hold

theorem Inv.platformUpdate (h : s.Inv) (hp : s.sched.phase ≠ .pass) (hidle : s.stage = .idle)
    {timeUntilNextTimer : Int} {notifiable notified submitted : Bool}
    (ht : s.platformUpdate hasOpFutexWait timeUntilNextTimer notifiable notified submitted k =
      some t) : t.Inv := by
  have hin : s.stage.inKernel = false := by rw [hidle]; rfl
  rcases platformUpdate_cases ht with ⟨wait, hwait⟩ | ⟨_, _, ⟨_, _, u, hu, rfl⟩ | rfl⟩
  · exact h.updateNoWait hp hidle hwait
  · have hinv := h.acquireIoReq hp (by simp [hidle]) hu
    have hnone := hinv.no_eventfd (by rw [acquireIoReq_stage hu]; exact hin)
    obtain ⟨p, hstored⟩ := hinv.stored
    refine inv_updateWait ⟨p, stored_pushNotification hstored hasOpFutexWait⟩ (fun update he => ?_) _ _
    have he' : .eventfdRead update ∈ u.ring.sq ++
        [if hasOpFutexWait then IoEntry.futexWait else .eventfdRead u.updates] ++ u.ring.inFlight := he
    rcases List.mem_append.mp he' with hsq | hflight
    · rcases List.mem_append.mp hsq with hsq | hnew
      · exact absurd (List.mem_append_left _ hsq) (hnone update)
      · have heq := List.mem_singleton.mp hnew
        split at heq
        · cases heq
        · exact IoEntry.eventfdRead.inj heq
    · exact absurd (List.mem_append_right _ hflight) (hnone update)
  · exact inv_updateWait h.stored (fun update he => absurd he (h.no_eventfd hin update)) _ _

theorem Inv.post (h : s.Inv) (cqe : Cqe) : Inv { s with ring := s.ring.post cqe } := by
  obtain ⟨p, hstored⟩ := h.stored
  refine ⟨⟨p, hstored.post cqe⟩, fun update he => h.eventfd update ?_, fun hs => ?_⟩
  · rcases s.ring.post_cases cqe with heq | hposted
    · exact heq ▸ he
    · have he' : .eventfdRead update ∈ (s.ring.post cqe).sq ++ (s.ring.post cqe).inFlight := he
      rw [hposted.sq, hposted.erased] at he'
      rcases List.mem_append.mp he' with hsq | hflight
      · exact List.mem_append_left _ hsq
      · exact List.mem_append_right _ (List.mem_of_mem_erase hflight)
  · rcases s.ring.post_cases cqe with heq | hposted
    · exact heq.symm ▸ h.retrying hs
    · exact hposted.sq.trans (h.retrying hs)

theorem Inv.wakeAction (h : s.Inv) (hp : s.sched.phase ≠ .pass)
    (hreads : s.ReadsEventfd (.wake k)) (hroom : s.WakesWithRoom (.wake k))
    (ht : s.step hasOpFutexWait (.wake k) = some t) : t.Inv := by
  dsimp only [LinuxIo.step] at ht
  split at ht
  · next timed numSubmitted hstage =>
    obtain ⟨u, hu, hcases⟩ := wake_cases ht
    obtain ⟨ring, rfl, hstored, honly⟩ : ∃ ring, u = { s with ring := ring } ∧
        (∃ p, ring.Stored s.calls p ring.available) ∧ IoRing.OnlyPolls s.ring ring := by
      rcases hu with hu | rfl
      · exact h.drain hp hroom hu
      · exact ⟨u.ring, rfl, h.stored, IoRing.OnlyPolls.refl _⟩
    rcases hcases with rfl | ⟨hreturns, rfl⟩
    · -- Nothing was submitted. The entries are handed to the kernel in the same call.
      obtain ⟨p, hstored⟩ := hstored
      refine ⟨⟨p, ?_⟩, fun update he => ⟨rfl, ?_⟩, fun _ => rfl⟩
      · show ring.submit.Stored s.calls p ring.submit.available
        rw [IoRing.available_submit]
        exact hstored.submit
      · have he' : .eventfdRead update ∈ ring.inFlight ++ ring.sq := he
        rcases honly _ (List.mem_append.mpr (List.mem_append.mp he').symm) with heq | hold
        · cases heq
        · exact (h.eventfd update hold).2
    · have hnone := hreads (by
        simp only [returnsFromWait, hstage]
        rcases hreturns with rfl | hpos
        · rfl
        · simp [hpos])
      refine inv_returnUpdate (s := { s with ring := ring }) hstored (fun update he => ?_) true
      rcases honly _ he with heq | hold
      · cases heq
      · exact hnone update hold
  · cases ht

theorem Inv.retriedAction (h : s.Inv) (hp : s.sched.phase ≠ .pass) (hstage : s.stage = .retrying)
    (hreads : s.ReadsEventfd (.retried k))
    (ht : s.step hasOpFutexWait (.retried k) = some t) : t.Inv := by
  obtain ⟨u, hu, rfl⟩ := Option.map_eq_some_iff.mp ht
  obtain ⟨p, hstored⟩ := h.stored
  have hroom : s.ring.hasRoom = true := by
    simp [IoRing.hasRoom, h.retrying hstage, hstored.room]
  obtain ⟨ring, rfl, hstored', honly⟩ := h.drain hp (fun _ => hroom) hu
  refine inv_returnUpdate (s := { s with ring := ring }) hstored' (fun update he => ?_) true
  rcases honly _ he with heq | hold
  · cases heq
  · exact hreads rfl update hold

/-- The step lemma. -/
theorem Inv.step (h : s.Inv) (hin : s.InUpdates) {a : IoAction}
    (he : (machine hasOpFutexWait).enabled s a) (hreads : s.ReadsEventfd a)
    (hroom : s.WakesWithRoom a) : ((machine hasOpFutexWait).perform s a).Inv := by
  have ht := step_of_enabled he
  generalize (machine hasOpFutexWait).perform s a = t at ht
  obtain ⟨hguard, _⟩ := he
  -- A coroutine that runs is not in the updates, and the kernel is entered in the updates only.
  have hcoroutine : s.sched.phase.mcoRunning.isSome = true → s.stage = .idle := by
    intro hrun
    refine hin.idle fun hp => ?_
    rw [hp] at hrun
    cases hrun
  have hkernel : s.stage.inKernel = true → s.sched.phase ≠ .pass := by
    intro hin' hp
    have hne : s.stage ≠ .idle := fun heq => by simp [heq, UpdateStage.inKernel] at hin'
    exact absurd (hp.symm.trans (hin hne)) nofun
  cases a with
  | sched a =>
    cases ht
    exact h.schedAction hguard
  | submit signal k =>
    obtain ⟨c, hp, _⟩ := Sched.running_of_any hguard.1
    exact h.submitAction hguard (hcoroutine (by rw [hp]; rfl)) ht
  | returnIoReq =>
    obtain ⟨c, hc, rfl⟩ := Option.map_eq_some_iff.mp ht
    exact h.returnIoReq (Phase.eq_running hc)
  | waitForExit signal k =>
    obtain ⟨c, hp, _⟩ := Sched.running_of_any hguard.1
    exact h.waitForExitAction hguard (hcoroutine (by rw [hp]; rfl)) ht
  | terminate =>
    cases ht
    exact h.terminateAction hguard
  | platformUpdate timeUntilNextTimer notifiable notified submitted k =>
    exact h.platformUpdate (by rw [hguard.1]; nofun) hguard.2 ht
  | post cqe =>
    cases ht
    exact h.post cqe
  | wake k =>
    have hp : s.sched.phase ≠ .pass := by
      refine hkernel ?_
      dsimp only [LinuxIo.step] at ht
      split at ht
      · next hstage =>
        rw [hstage]
        rfl
      · cases ht
    exact h.wakeAction hp hreads hroom ht
  | retried k =>
    have hstage : s.stage = .retrying := hguard
    exact h.retriedAction (hkernel (by rw [hstage]; rfl)) hstage hreads ht

theorem Init.inv (h : s.Init) : s.Inv := by
  have havail : s.ring.available = [] := by
    rw [IoRing.available, IoRing.ready, h.ktail, BitVec.sub_self]
    rfl
  have hnone : s.ring.outstanding s.ring.available = [] := by
    rw [IoRing.outstanding, h.sq, h.inFlight, havail]
    rfl
  refine ⟨⟨0, ⟨⟨?_, ?_, ?_⟩, ?_, ?_, ?_, Nat.zero_le 1, fun _ => rfl, h.sqEntries⟩⟩, fun update he => ?_,
    fun _ => h.sq⟩
  · rw [h.rest]
    exact .init rfl
  · rw [h.rest]
    simp
  · rw [h.rest]
    simp
  · rw [hnone]
    simp
  · rw [hnone]
    exact fun _ _ => Nat.zero_le 1
  · rw [hnone]
    rfl
  · rw [h.sq, h.inFlight] at he
    cases he

/-- With and without futexes: when `bio_platform_update` returns from its waits only after its read of
the eventfd has completed, and no wait ends with an exit signal in front of a full submission ring, what
the queued and the submitted requests point to is there. -/
theorem requests_stored (hr : ((machine hasOpFutexWait).restrict fun s a =>
      s.ReadsEventfd a ∧ s.WakesWithRoom a).Reachable s) :
    ∀ e ∈ s.ring.sq ++ s.ring.inFlight, s.Live e :=
  (Machine.invariant (M := (machine hasOpFutexWait).restrict fun s a =>
      s.ReadsEventfd a ∧ s.WakesWithRoom a) (P := Inv) (fun _ hinit => hinit.inv)
    (fun _ _ hr h he => h.step (inUpdates hr.of_restrict) he.1 he.2.1 he.2.2) hr).live

/-- A request and a read of the eventfd complete during the wait. -/
theorem requests_stored_both :
    let s := (machine false).run (start 2) [.sched (.spawn false ⟨0, 1⟩), .sched .enterLoop,
      .sched .endPass, .platformUpdate 100 true false true ⟨1, []⟩, .sched .swap, .sched .resume,
      .submit ⟨1, 1⟩ ⟨0, []⟩, .sched .endPass, .platformUpdate 100 true false true ⟨0, []⟩,
      .post ⟨.eventfdRead 1, 8, 0⟩, .post ⟨.request ⟨0, 1⟩ 0, 5, 0⟩, .wake ⟨3, []⟩, .sched .swap,
      .sched .resume, .returnIoReq, .submit ⟨2, 1⟩ ⟨0, []⟩]
    s.ring.sq = [.request ⟨0, 1⟩ 1] ∧ ∀ e ∈ s.ring.sq ++ s.ring.inFlight, s.Live e := by
  intro s
  let waiting := (machine false).run (start 2) [.sched (.spawn false ⟨0, 1⟩), .sched .enterLoop,
    .sched .endPass, .platformUpdate 100 true false true ⟨1, []⟩, .sched .swap, .sched .resume,
    .submit ⟨1, 1⟩ ⟨0, []⟩, .sched .endPass, .platformUpdate 100 true false true ⟨0, []⟩,
    .post ⟨.eventfdRead 1, 8, 0⟩, .post ⟨.request ⟨0, 1⟩ 0, 5, 0⟩]
  have hempty : waiting.ring.sq ++ waiting.ring.inFlight = [] := by decide
  have hreads : waiting.ReadsEventfd (.wake ⟨3, []⟩) := fun _ update he => by
    rw [hempty] at he
    cases he
  have hlegal : ((machine false).restrict fun s a => s.ReadsEventfd a ∧ s.WakesWithRoom a).Legal
      (start 2) [.sched (.spawn false ⟨0, 1⟩), .sched .enterLoop, .sched .endPass,
      .platformUpdate 100 true false true ⟨1, []⟩, .sched .swap, .sched .resume,
      .submit ⟨1, 1⟩ ⟨0, []⟩, .sched .endPass, .platformUpdate 100 true false true ⟨0, []⟩,
      .post ⟨.eventfdRead 1, 8, 0⟩, .post ⟨.request ⟨0, 1⟩ 0, 5, 0⟩, .wake ⟨3, []⟩, .sched .swap,
      .sched .resume, .returnIoReq, .submit ⟨2, 1⟩ ⟨0, []⟩] :=
    ⟨⟨by decide, nofun, trivial⟩, ⟨by decide, nofun, trivial⟩, ⟨by decide, nofun, trivial⟩,
      ⟨by decide, nofun, trivial⟩, ⟨by decide, nofun, trivial⟩, ⟨by decide, nofun, trivial⟩,
      ⟨by decide, nofun, trivial⟩, ⟨by decide, nofun, trivial⟩, ⟨by decide, nofun, trivial⟩,
      ⟨by decide, nofun, trivial⟩, ⟨by decide, nofun, trivial⟩,
      ⟨by decide, hreads, fun _ => by decide⟩, ⟨by decide, nofun, trivial⟩,
      ⟨by decide, nofun, trivial⟩, ⟨by decide, nofun, trivial⟩, ⟨by decide, nofun, trivial⟩, trivial⟩
  have hr := Machine.Reachable.run
    (M := (machine false).restrict fun s a => s.ReadsEventfd a ∧ s.WakesWithRoom a)
    (.init (init_start (by decide))) hlegal
  exact ⟨by decide, requests_stored hr⟩

/-- Without futexes: a request completes during the wait and the read of the eventfd does not. The
kernel is left with the address of a variable of `bio_platform_update`, which has returned. -/
theorem eventfd_read_outlives_update :
    let s := (machine false).run (start 2) [.sched (.spawn false ⟨0, 1⟩), .sched .enterLoop,
      .sched .endPass, .platformUpdate 100 true false true ⟨1, []⟩, .sched .swap, .sched .resume,
      .submit ⟨1, 1⟩ ⟨0, []⟩, .sched .endPass, .platformUpdate 100 true false true ⟨0, []⟩,
      .post ⟨.request ⟨0, 1⟩ 0, 5, 0⟩, .wake ⟨3, []⟩]
    (machine false).Reachable s ∧ s.stage = .updated true ∧ s.ring.inFlight = [.eventfdRead 1] ∧
      ¬s.Live (.eventfdRead 1) := by
  intro s
  have hstage : s.stage = .updated true := by decide
  refine ⟨Machine.Reachable.run (.init (init_start (by decide))) (by decide), hstage, by decide,
    fun hlive => ?_⟩
  have hin : s.stage.inKernel = true := hlive.1
  rw [hstage] at hin
  cases hin

end LinuxIo

end Bio
