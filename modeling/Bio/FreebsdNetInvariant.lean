import Bio.FreebsdNet

/-!
# Waits on FreeBSD sockets

* `NetState.Inv`: the fields of a socket point to the waits on it, and a wait on a socket that is open is
  found through its field.
* `NetState.Inv.keep`: most functions change of a wait only what the kernel and the request tell.
* `NetState.Effect`: what an action does, with its guards.
-/

namespace Bio

open FreebsdErrno (ebadf)

theorem Socket.slot_setSlot (impl : Socket) (p : Option (Handle × Nat)) (filter filter' : NetFilter) :
    (impl.setSlot p filter).slot filter' = if filter' = filter then p else impl.slot filter' := by
  cases filter <;> cases filter' <;> rfl

/-- The locals of a wait that do not change. -/
def NetFrame.key (f : NetFrame) : Nat × NetCaller × Handle := (f.call, f.caller, f.signal)

namespace NetState

variable {q q' : NetState} {c h : Handle} {f : NetFrame} {op : NetOp}

theorem key_eq {f f' : NetFrame} (hkey : f'.key = f.key) :
    f'.call = f.call ∧ f'.caller = f.caller ∧ f'.signal = f.signal := by
  simp only [NetFrame.key, Prod.mk.injEq] at hkey
  exact hkey

/-- What holds of a wait. -/
structure FrameOk (q : NetState) (c : Handle) (f : NetFrame) : Prop where
  waits : q.sched.Waits c f.signal
  sleeps : q.sched.Sleeps c f.signal True
  known : f.call < q.calls
  issued : ∀ op h, f.caller = .op op h → h ∈ q.sched.issued
  slot : ∀ op h impl, f.caller = .op op h → q.sockets h = some impl →
    impl.slot op.filter = some (c, f.call)

structure Inv (q : NetState) : Prop where
  sched : Sched.machine.Reachable q.sched
  frames : ∀ c f, q.frames c = some f → q.FrameOk c f
  slots : ∀ h impl filter p, q.sockets h = some impl → impl.slot filter = some p →
    ∃ f op, q.frames p.1 = some f ∧ f.call = p.2 ∧ f.caller = .op op h ∧ op.filter = filter
  one : ∀ c d f g op op' h, q.frames c = some f → q.frames d = some g → f.caller = .op op h →
    g.caller = .op op' h → op.filter = op'.filter → c = d
  issued : ∀ h, q.sockets h ≠ none → h ∈ q.sched.issued

/-! ## What most functions keep -/

/-- The same waits, apart from what the kernel and the request tell. -/
def SameWaits (q q' : NetState) : Prop :=
  ∀ c, (q'.frames c).map NetFrame.key = (q.frames c).map NetFrame.key

theorem SameWaits.refl (q : NetState) : SameWaits q q := fun _ => rfl

theorem SameWaits.trans {q₁ q₂ q₃ : NetState} (h : SameWaits q₁ q₂) (h' : SameWaits q₂ q₃) :
    SameWaits q₁ q₃ := fun c => (h' c).trans (h c)

theorem SameWaits.of_frames (hframes : q'.frames = q.frames) : SameWaits q q' := fun c => by rw [hframes]

theorem SameWaits.back (hs : SameWaits q q') {f' : NetFrame} (hf : q'.frames c = some f') :
    ∃ f, q.frames c = some f ∧ f'.key = f.key := by
  have hc := hs c
  rw [hf] at hc
  obtain ⟨f, hf, hkey⟩ := Option.map_eq_some_iff.mp hc.symm
  exact ⟨f, hf, hkey.symm⟩

theorem SameWaits.forth (hs : SameWaits q q') (hf : q.frames c = some f) :
    ∃ f', q'.frames c = some f' ∧ f'.key = f.key := by
  have hc := hs c
  rw [hf] at hc
  exact Option.map_eq_some_iff.mp hc

/-- One wait changes. -/
theorem SameWaits.setFrame {f' : NetFrame} (hf : q.frames c = some f) (hkey : f'.key = f.key) :
    SameWaits q (q.setFrame c (some f')) := by
  intro d
  show (Function.update q.frames c (some f') d).map _ = _
  rw [Function.update_apply]
  split
  · next heq => rw [heq, hf, Option.map_some, Option.map_some, hkey]
  · rfl

theorem Inv.keep (hi : q.Inv) (hr : Sched.machine.Reachable q'.sched)
    (hwaits : ∀ c f, q.frames c = some f →
      q'.sched.Waits c f.signal ∧ q'.sched.Sleeps c f.signal True)
    (hissued : ∀ h ∈ q.sched.issued, h ∈ q'.sched.issued) (hsame : SameWaits q q')
    (hsockets : q'.sockets = q.sockets) (hcalls : q'.calls = q.calls) : q'.Inv := by
  refine ⟨hr, fun c f' hf' => ?_, fun h impl filter p himpl hslot => ?_,
    fun c d f' g' op op' h hf' hg' hop hop' => ?_, fun h hh => hissued h (hi.issued h (hsockets ▸ hh))⟩
  · obtain ⟨f, hf, hkey⟩ := hsame.back hf'
    obtain ⟨hcall, hcaller, hsignal⟩ := key_eq hkey
    obtain ⟨hw, hs⟩ := hwaits c f hf
    obtain ⟨_, _, hknown, hissue, hslot⟩ := hi.frames c f hf
    refine ⟨hsignal ▸ hw, hsignal ▸ hs, hcalls ▸ hcall ▸ hknown, fun op h hop => ?_,
      fun op h impl hop himpl => ?_⟩
    · exact hissued h (hissue op h (hcaller ▸ hop))
    · rw [hcall]
      exact hslot op h impl (hcaller ▸ hop) (hsockets ▸ himpl)
  · obtain ⟨f, op, hf, hcall, hcaller, hfilter⟩ := hi.slots h impl filter p (hsockets ▸ himpl) hslot
    obtain ⟨f', hf', hkey⟩ := hsame.forth hf
    obtain ⟨hcall', hcaller', _⟩ := key_eq hkey
    exact ⟨f', op, hf', hcall'.trans hcall, hcaller'.trans hcaller, hfilter⟩
  · obtain ⟨f, hf, hkey⟩ := hsame.back hf'
    obtain ⟨g, hg, hkey'⟩ := hsame.back hg'
    exact hi.one c d f g op op' h hf hg ((key_eq hkey).2.1 ▸ hop) ((key_eq hkey').2.1 ▸ hop')

/-- Only what is not in the invariant changes. -/
theorem Inv.same (hi : q.Inv) (hsched : q'.sched = q.sched) (hsame : SameWaits q q')
    (hsockets : q'.sockets = q.sockets) (hcalls : q'.calls = q.calls) : q'.Inv := by
  refine hi.keep (hsched ▸ hi.sched) (fun c f hf => ?_) (fun h hh => hsched ▸ hh) hsame hsockets
    hcalls
  rw [hsched]
  exact ⟨(hi.frames c f hf).waits, (hi.frames c f hf).sleeps⟩

/-- An action of the scheduler outside of the waits. -/
theorem Inv.schedStep (hi : q.Inv) {a : Action} (he : Sched.machine.enabled q.sched a)
    (hidle : ∀ c f, q.frames c = some f → q.sched.phase ≠ .running c)
    (hnames : ∀ c f, q.frames c = some f → a.names f.signal = true →
      q.sched.ownerOf f.signal ≠ some c)
    (hsched : q'.sched = Sched.machine.perform q.sched a) (hframes : q'.frames = q.frames)
    (hsockets : q'.sockets = q.sockets) (hcalls : q'.calls = q.calls) : q'.Inv := by
  refine hi.keep (hsched ▸ hi.sched.step he) (fun c f hf => ?_) (fun h hh => ?_) (.of_frames hframes)
    hsockets hcalls
  · have hok := hi.frames c f hf
    rw [hsched]
    exact ⟨(hok.waits.step hi.sched he (hidle c f hf) (hnames c f hf)).1,
      hok.sleeps.effect (Sched.Effect.of_step he) (Sched.inv_of_reachable hi.sched).1
        hok.waits.inside.within (hidle c f hf)⟩
  · rw [hsched]
    exact (Sched.Effect.of_step he).stays_closed.issued h hh

/-- A signal is raised. -/
theorem Inv.raise (hi : q.Inv) (hp : q.sched.phase ≠ .pass) {ref : Handle}
    (hsched : q'.sched = (q.sched.raiseSignal ref).1) (hsame : SameWaits q q')
    (hsockets : q'.sockets = q.sockets) (hcalls : q'.calls = q.calls) : q'.Inv := by
  have he : Sched.machine.enabled q.sched (.raise ref) := hp
  refine hi.keep (hsched ▸ hi.sched.step he) (fun c f hf => ?_) (fun h hh => ?_) hsame hsockets hcalls
  · rw [hsched]
    exact ⟨(hi.frames c f hf).waits.raise hi.sched hp ref,
      ((hi.frames c f hf).sleeps.raiseSignal ref).mono And.left⟩
  · rw [hsched]
    exact (Sched.Effect.of_step he).stays_closed.issued h hh

/-! ## Requests -/

/-- A function that only raises signals and changes what the kernel and the requests tell. -/
structure Raises (q q' : NetState) : Prop where
  phase : q'.sched.phase = q.sched.phase
  closed : Sched.StaysClosed q.sched q'.sched
  waits : SameWaits q q'
  sockets : q'.sockets = q.sockets
  calls : q'.calls = q.calls
  crashed : q'.crashed = q.crashed
  syscalls : q'.syscalls = q.syscalls
  returns : q'.returns = q.returns
  inv : q.sched.phase ≠ .pass → q.Inv → q'.Inv

theorem Raises.refl (q : NetState) : Raises q q :=
  ⟨rfl, (Sched.Shrinks.refl q.sched).staysClosed, .refl q, rfl, rfl, rfl, rfl, rfl, fun _ hi => hi⟩

theorem Raises.trans {q₁ q₂ q₃ : NetState} (h : Raises q₁ q₂) (h' : Raises q₂ q₃) : Raises q₁ q₃ :=
  ⟨h'.phase.trans h.phase, h.closed.trans h'.closed, h.waits.trans h'.waits,
    h'.sockets.trans h.sockets, h'.calls.trans h.calls, h'.crashed.trans h.crashed,
    h'.syscalls.trans h.syscalls, h'.returns.trans h.returns,
    fun hp hi => h'.inv (h.phase ▸ hp) (h.inv hp hi)⟩

/-- One wait changes, and its signal is raised. -/
theorem Raises.wake {p : Handle × Nat} {f' : NetFrame} (hf : q.frame p = some f)
    (hkey : f'.key = f.key) :
    Raises q { q.setFrame p.1 (some f') with sched := (q.sched.raiseSignal f.signal).1 } := by
  have hsame : SameWaits q (q.setFrame p.1 (some f')) :=
    .setFrame (Option.filter_eq_some_iff.mp hf).1 hkey
  exact ⟨(Sched.raiseSignal_frame q.sched f.signal).2.1,
    (Sched.shrinks_raiseSignal q.sched f.signal).staysClosed, hsame, rfl, rfl, rfl, rfl, rfl,
    fun hp hi => hi.raise hp rfl hsame rfl rfl⟩

/-- Only what the kernel knows of the waits changes. -/
theorem Raises.of_same (hsame : SameWaits q q') (hsched : q'.sched = q.sched)
    (hrest : q'.sockets = q.sockets ∧ q'.calls = q.calls ∧ q'.crashed = q.crashed ∧
      q'.syscalls = q.syscalls ∧ q'.returns = q.returns) : Raises q q' :=
  ⟨by rw [hsched], hsched ▸ (Sched.Shrinks.refl q.sched).staysClosed, hsame, hrest.1, hrest.2.1,
    hrest.2.2.1, hrest.2.2.2.1, hrest.2.2.2.2, fun _ hi => hi.same hsched hsame hrest.1 hrest.2.1⟩

theorem raises_cancelIo (q : NetState) (p : Handle × Nat) : Raises q (q.cancelIo p) := by
  unfold cancelIo
  split
  · next f hf => exact .wake hf rfl
  · exact .refl q

theorem raises_dispatchEvent (q : NetState) (p : Handle × Nat) (error : Nat) :
    Raises q (q.dispatchEvent p error) := by
  unfold dispatchEvent
  split
  · next f hf => exact .wake hf rfl
  · exact .refl q

theorem raises_submitEvent (errors : Handle → Nat) (q : NetState) (p : Handle × Nat) :
    Raises q (q.submitEvent errors p) := by
  unfold submitEvent
  split
  · next f hf =>
    dsimp only
    generalize (if f.fd ∈ q.fds then errors p.1 else ebadf) = error
    split
    · exact .refl q
    · split
      · exact .of_same (.setFrame (Option.filter_eq_some_iff.mp hf).1 rfl) rfl
          ⟨rfl, rfl, rfl, rfl, rfl⟩
      · exact raises_dispatchEvent q p _
  · exact .refl q

theorem raises_fireEvent (q : NetState) (p : Handle × Nat) : Raises q (q.fireEvent p) := by
  unfold fireEvent
  split
  · exact raises_dispatchEvent q p 0
  · exact .refl q

theorem raises_foldl {g : NetState → Handle × Nat → NetState} (hg : ∀ q p, Raises q (g q p))
    (l : List (Handle × Nat)) (q : NetState) : Raises q (l.foldl g q) := by
  induction l generalizing q with
  | nil => exact .refl q
  | cons p l ih => exact (hg q p).trans (ih (g q p))

theorem raises_platformUpdate (q : NetState) (errors : Handle → Nat) (ready : List (Handle × Nat)) :
    Raises q (q.platformUpdate errors ready) := by
  refine ((raises_foldl (raises_submitEvent errors) q.inEvents q).trans ?_).trans
    (raises_foldl raises_fireEvent ready _)
  exact .of_same (.refl _) rfl ⟨rfl, rfl, rfl, rfl, rfl⟩

theorem raises_closeFd (q : NetState) (fd : Nat) : Raises q (q.closeFd fd) := by
  refine .of_same (fun c => ?_) rfl ⟨rfl, rfl, rfl, rfl, rfl⟩
  show ((q.frames c).map _).map _ = _
  rw [Option.map_map]
  refine congrArg (Option.map · _) (funext fun f => ?_)
  show NetFrame.key (if f.fd = fd then _ else f) = _
  split <;> rfl

/-! ## Waiting -/

/-- The scheduler's part of a wait. -/
theorem Inv.awaits (hi : q.Inv) (hp : q.sched.phase = .running c) (hbusy : q.busy = false)
    {signal : Handle} (hfresh : q.sched.Fresh signal) (hcount : q.sched.CanCount c) :
    Inv { q with sched := (q.sched.makeSignal c signal).waitForSignals c [signal] true } ∧
      ((q.sched.makeSignal c signal).waitForSignals c [signal] true).Waits c signal ∧
      ((q.sched.makeSignal c signal).waitForSignals c [signal] true).Sleeps c signal True ∧
      q.frames c = none := by
  have hnone : q.frames c = none := by simpa [busy, hp, Phase.mcoRunning] using hbusy
  have hidle : ∀ {t : Sched}, t.phase = .running c → ∀ d g, q.frames d = some g →
      t.phase ≠ .running d := by
    intro t ht d g hd hd'
    obtain rfl := Phase.running.inj (ht.symm.trans hd')
    exact absurd (hnone.symm.trans hd) (by simp)
  have hmake : Sched.machine.enabled q.sched (.makeSignal signal) := ⟨by rw [hp]; rfl, hfresh⟩
  have hmade := Sched.perform_makeSignal hp signal
  have hp₁ : (q.sched.makeSignal c signal).phase = .running c := (Sched.makeSignal_phase ..).trans hp
  have h₁ : Inv { q with sched := q.sched.makeSignal c signal } :=
    hi.schedStep hmake (hidle hp) (fun _ _ _ => by simp [Action.names]) hmade.symm rfl rfl rfl
  have hwait := Sched.wait_enabled hp₁ [signal] true
  have hview : ((q.sched.makeSignal c signal).waitView c).isSome = true := by
    obtain ⟨coro, hcoro⟩ := Option.ne_none_iff_exists'.mp
      (Sched.Inside.of_running h₁.sched hp₁).live
    exact Option.isSome_map.trans (Option.isSome_iff_exists.mpr ⟨coro, hcoro⟩)
  have hown := Sched.makeSignal_owner (h := signal) (Sched.Inside.of_running hi.sched hp).live
  exact ⟨h₁.schedStep hwait (hidle hp₁) (fun _ _ _ => by simp [Action.names])
    (Sched.perform_wait hp₁ [signal] true).symm rfl rfl rfl,
    (Sched.waits_of_new hi.sched hp hcount hfresh).1, Sched.sleeps_wait hview hown trivial, hnone⟩

/-- A new wait on a socket, whose field was empty. -/
theorem Inv.pushOp (hi : q.Inv) {impl : Socket} {f : NetFrame} (hnone : q.frames c = none)
    (hwaits : q.sched.Waits c f.signal) (hsleeps : q.sched.Sleeps c f.signal True)
    (hcall : f.call = q.calls) (hcaller : f.caller = .op op h) (himpl : q.sockets h = some impl)
    (hslot : impl.slot op.filter = none) (hsched : q'.sched = q.sched)
    (hframes : q'.frames = Function.update q.frames c (some f))
    (hsockets : q'.sockets =
      Function.update q.sockets h (some (impl.setSlot (some (c, q.calls)) op.filter)))
    (hcalls : q'.calls = q.calls + 1) : q'.Inv := by
  have hlt : q.calls < q'.calls := hcalls ▸ Nat.lt_succ_self _
  have hown : ∀ {op' h'}, f.caller = .op op' h' → op' = op ∧ h' = h := by
    intro op' h' hop
    rw [hcaller] at hop
    cases hop
    exact ⟨rfl, rfl⟩
  -- The other waits on the socket are for the other filter.
  have hother : ∀ {d g op'}, q.frames d = some g → g.caller = .op op' h → op'.filter ≠ op.filter := by
    intro d g op' hg hop heq
    have := (hi.frames d g hg).slot op' h impl hop himpl
    rw [heq, hslot] at this
    cases this
  have hsocket : ∀ {h' impl'}, q'.sockets h' = some impl' →
      (h' = h ∧ impl' = impl.setSlot (some (c, q.calls)) op.filter) ∨
        (h' ≠ h ∧ q.sockets h' = some impl') := by
    intro h' impl' hh
    rw [hsockets] at hh
    exact Table.insert_some hh
  refine ⟨hsched ▸ hi.sched, fun d g hg => ?_, fun h' impl' filter p hh hp => ?_,
    fun d d' g g' op₁ op₂ h' hg hg' ho ho' heq => ?_, fun h' hh => ?_⟩
  · rw [hframes] at hg
    rcases Table.insert_some hg with ⟨rfl, rfl⟩ | ⟨hne, hg⟩
    · refine ⟨hsched ▸ hwaits, hsched ▸ hsleeps, hcall ▸ hlt, fun op' h' hop => ?_,
        fun op' h' impl' hop hh => ?_⟩
      · rw [hsched, (hown hop).2]
        exact hi.issued h (by rw [himpl]; nofun)
      · obtain ⟨rfl, rfl⟩ := hown hop
        obtain ⟨_, rfl⟩ := (hsocket hh).resolve_right fun hr => hr.1 rfl
        rw [Socket.slot_setSlot, if_pos rfl, hcall]
    · obtain ⟨hw, hs, hknown, hissued, hold⟩ := hi.frames d g hg
      refine ⟨hsched ▸ hw, hsched ▸ hs, hknown.trans hlt, fun op' h' hop => ?_,
        fun op' h' impl' hop hh => ?_⟩
      · rw [hsched]
        exact hissued op' h' hop
      · rcases hsocket hh with ⟨rfl, rfl⟩ | ⟨_, hh⟩
        · rw [Socket.slot_setSlot, if_neg (hother hg hop)]
          exact hold op' h' impl hop himpl
        · exact hold op' h' impl' hop hh
  · have hback : ∀ {p : Handle × Nat} {g op'}, q.frames p.1 = some g → g.caller = .op op' h' →
        q'.frames p.1 = some g := by
      intro p g op' hg hop
      have hne : p.1 ≠ c := by
        rintro heq
        rw [heq, hnone] at hg
        cases hg
      rw [hframes, Function.update_of_ne hne, hg]
    rcases hsocket hh with ⟨rfl, rfl⟩ | ⟨_, hh⟩
    · rw [Socket.slot_setSlot] at hp
      split at hp
      · next heq =>
        obtain rfl := Option.some.inj hp
        exact ⟨f, op, by rw [hframes, Function.update_self], hcall, hcaller, heq.symm⟩
      · obtain ⟨g, op', hg, hc, hop, hf⟩ := hi.slots _ impl filter p himpl hp
        exact ⟨g, op', hback hg hop, hc, hop, hf⟩
    · obtain ⟨g, op', hg, hc, hop, hf⟩ := hi.slots h' impl' filter p hh hp
      exact ⟨g, op', hback hg hop, hc, hop, hf⟩
  · rw [hframes] at hg hg'
    rcases Table.insert_some hg with ⟨rfl, hnew⟩ | ⟨_, hold⟩ <;>
      rcases Table.insert_some hg' with ⟨rfl, hnew'⟩ | ⟨_, hold'⟩
    · rfl
    · obtain ⟨rfl, rfl⟩ := hown (hnew ▸ ho)
      exact absurd heq.symm (hother hold' ho')
    · obtain ⟨rfl, rfl⟩ := hown (hnew' ▸ ho')
      exact absurd heq (hother hold ho)
    · exact hi.one d d' g g' op₁ op₂ h' hold hold' ho ho' heq
  · rw [hsched]
    by_cases heq : h' = h
    · exact heq ▸ hi.issued h (by rw [himpl]; nofun)
    · rw [hsockets, Function.update_of_ne heq] at hh
      exact hi.issued h' hh

/-- `bio_net_connect` waits: no socket is concerned. -/
theorem Inv.pushConnect (hi : q.Inv) {f : NetFrame} (hnone : q.frames c = none)
    (hwaits : q.sched.Waits c f.signal) (hsleeps : q.sched.Sleeps c f.signal True)
    (hcall : f.call = q.calls) (hcaller : f.caller = .connect) (hsched : q'.sched = q.sched)
    (hframes : q'.frames = Function.update q.frames c (some f)) (hsockets : q'.sockets = q.sockets)
    (hcalls : q'.calls = q.calls + 1) : q'.Inv := by
  have hlt : q.calls < q'.calls := hcalls ▸ Nat.lt_succ_self _
  have hold : ∀ {d g op' h'}, q'.frames d = some g → g.caller = .op op' h' → q.frames d = some g := by
    intro d g op' h' hg hop
    rw [hframes] at hg
    rcases Table.insert_some hg with ⟨_, rfl⟩ | ⟨_, hg⟩
    · rw [hcaller] at hop
      cases hop
    · exact hg
  refine ⟨hsched ▸ hi.sched, fun d g hg => ?_, fun h' impl' filter p hh hp => ?_,
    fun d d' g g' op₁ op₂ h' hg hg' ho ho' => ?_, fun h' hh => ?_⟩
  · rw [hframes] at hg
    rcases Table.insert_some hg with ⟨rfl, rfl⟩ | ⟨hne, hg⟩
    · exact ⟨hsched ▸ hwaits, hsched ▸ hsleeps, hcall ▸ hlt, fun _ _ hop => (nomatch hcaller.symm.trans hop),
        fun _ _ _ hop => (nomatch hcaller.symm.trans hop)⟩
    · obtain ⟨hw, hs, hknown, hissued, hslot⟩ := hi.frames d g hg
      exact ⟨hsched ▸ hw, hsched ▸ hs, hknown.trans hlt, hsched ▸ hissued, hsockets ▸ hslot⟩
  · obtain ⟨g, op', hg, hc, hop, hf⟩ := hi.slots h' impl' filter p (hsockets ▸ hh) hp
    have hne : p.1 ≠ c := by
      rintro heq
      rw [heq, hnone] at hg
      cases hg
    exact ⟨g, op', by rw [hframes, Function.update_of_ne hne, hg], hc, hop, hf⟩
  · exact hi.one d d' g g' op₁ op₂ h' (hold hg ho) (hold hg' ho') ho ho'
  · exact hsched ▸ hi.issued h' (hsockets ▸ hh)

/-! ## The other steps -/

/-- The operation goes on: the field is empty again when the socket is still there. -/
theorem Inv.popOp (hi : q.Inv) (hf : q.frames c = some f) (hcaller : f.caller = .op op h)
    (hsched : q'.sched = q.sched) (hframes : q'.frames = Function.update q.frames c none)
    (hsockets : q'.sockets =
      Function.update q.sockets h ((q.sockets h).map fun impl => impl.setSlot none op.filter))
    (hcalls : q'.calls = q.calls) : q'.Inv := by
  have hold : ∀ {d g}, q'.frames d = some g → d ≠ c ∧ q.frames d = some g := by
    intro d g hg
    rw [hframes] at hg
    exact Table.erase_some hg
  have hsocket : ∀ {h' impl'}, q'.sockets h' = some impl' → ∃ impl, q.sockets h' = some impl ∧
      ∀ filter, impl'.slot filter = if h' = h ∧ filter = op.filter then none else impl.slot filter := by
    intro h' impl' hh
    rw [hsockets] at hh
    rcases Table.update_some hh with ⟨rfl, hnew⟩ | ⟨hne, hh⟩
    · obtain ⟨impl, himpl, rfl⟩ := Option.map_eq_some_iff.mp hnew
      exact ⟨impl, himpl, fun filter => by simp [Socket.slot_setSlot]⟩
    · exact ⟨impl', hh, fun filter => by simp [hne]⟩
  refine ⟨hsched ▸ hi.sched, fun d g hg => ?_, fun h' impl' filter p hh hp => ?_,
    fun d d' g g' op₁ op₂ h' hg hg' => hi.one d d' g g' op₁ op₂ h' (hold hg).2 (hold hg').2,
    fun h' hh => hsched ▸ hi.issued h' ?_⟩
  · obtain ⟨hne, hg⟩ := hold hg
    obtain ⟨hw, hs, hknown, hissued, hslot⟩ := hi.frames d g hg
    refine ⟨hsched ▸ hw, hsched ▸ hs, hcalls ▸ hknown, hsched ▸ hissued, fun op' h' impl' hop hh => ?_⟩
    obtain ⟨impl, himpl, hslots⟩ := hsocket hh
    have hother : ¬(h' = h ∧ op'.filter = op.filter) := by
      rintro ⟨rfl, heq⟩
      exact hne (hi.one d c g f op' op h' hg hf hop hcaller heq)
    rw [hslots, if_neg hother]
    exact hslot op' h' impl hop himpl
  · obtain ⟨impl, himpl, hslots⟩ := hsocket hh
    rw [hslots] at hp
    split at hp
    · cases hp
    · next hother =>
      obtain ⟨g, op', hg, hc, hop, hfilter⟩ := hi.slots h' impl filter p himpl hp
      have hne : p.1 ≠ c := by
        intro heq
        rw [heq, hf] at hg
        rw [← Option.some.inj hg, hcaller] at hop
        cases hop
        exact hother ⟨rfl, hfilter.symm⟩
      exact ⟨g, op', by rw [hframes, Function.update_of_ne hne, hg], hc, hop, hfilter⟩
  · rw [hsockets, Function.update_apply] at hh
    split at hh
    · next heq =>
      rw [heq]
      exact fun hnone => hh (by rw [hnone]; rfl)
    · exact hh

/-- `bio_net_connect` goes on. -/
theorem Inv.popConnect (hi : q.Inv) (hf : q.frames c = some f) (hcaller : f.caller = .connect)
    (hsched : q'.sched = q.sched) (hframes : q'.frames = Function.update q.frames c none)
    (hsockets : q'.sockets = q.sockets) (hcalls : q'.calls = q.calls) : q'.Inv := by
  have hold : ∀ {d g}, q'.frames d = some g → q.frames d = some g := by
    intro d g hg
    rw [hframes] at hg
    exact (Table.erase_some hg).2
  refine ⟨hsched ▸ hi.sched, fun d g hg => ?_, fun h' impl' filter p hh hp => ?_,
    fun d d' g g' op₁ op₂ h' hg hg' => hi.one d d' g g' op₁ op₂ h' (hold hg) (hold hg'),
    fun h' hh => hsched ▸ hi.issued h' (hsockets ▸ hh)⟩
  · obtain ⟨hw, hs, hknown, hissued, hslot⟩ := hi.frames d g (hold hg)
    exact ⟨hsched ▸ hw, hsched ▸ hs, hcalls ▸ hknown, hsched ▸ hissued, hsockets ▸ hslot⟩
  · obtain ⟨g, op', hg, hc, hop, hfilter⟩ := hi.slots h' impl' filter p (hsockets ▸ hh) hp
    have hne : p.1 ≠ c := by
      intro heq
      rw [heq, hf] at hg
      rw [← Option.some.inj hg, hcaller] at hop
      cases hop
    exact ⟨g, op', by rw [hframes, Function.update_of_ne hne, hg], hc, hop, hfilter⟩

/-- No coroutine in a wait runs. -/
def Idle (q : NetState) : Prop := ∀ c f, q.frames c = some f → q.sched.phase ≠ .running c

theorem idle_of_busy (h : q.busy = false) : q.Idle := by
  intro c f hf hp
  simp [busy, hp, Phase.mcoRunning, hf] at h

/-- A new socket. -/
theorem Inv.socketFromFd (hi : q.Inv) (hidle : q.Idle) (huser : q.sched.phase.userCode = true) (fd : Nat)
    (hfresh : q.sched.Fresh h) : (q.socketFromFd fd h).Inv := by
  have hissue : Sched.machine.enabled q.sched (.issue h) := ⟨huser, hfresh⟩
  have h₁ : Inv { q with sched := q.sched.perform (.issue h) } :=
    hi.schedStep hissue hidle (fun _ _ _ => nofun) rfl rfl rfl rfl
  have hsocket : ∀ {h' impl}, (q.socketFromFd fd h).sockets h' = some impl →
      (h' = h ∧ impl = ⟨fd, none, none⟩) ∨ (h' ≠ h ∧ q.sockets h' = some impl) := by
    intro h' impl hh
    have hh' : Function.update q.sockets h (some ⟨fd, none, none⟩) h' = some impl := hh
    exact Table.insert_some hh'
  refine ⟨h₁.sched, fun d g hg => ?_, fun h' impl filter p hh hp => ?_, h₁.one, fun h' hh => ?_⟩
  · obtain ⟨hw, hs, hknown, hissued, hslot⟩ := h₁.frames d g hg
    refine ⟨hw, hs, hknown, hissued, fun op h' impl hop hh => ?_⟩
    rcases hsocket hh with ⟨rfl, _⟩ | ⟨_, hold⟩
    · exact absurd ((hi.frames d g hg).issued op _ hop) hfresh.2
    · exact hslot op h' impl hop hold
  · rcases hsocket hh with ⟨rfl, rfl⟩ | ⟨_, hold⟩
    · cases filter <;> cases hp
    · exact h₁.slots h' impl filter p hold hp
  · by_cases heq : h' = h
    · exact heq ▸ List.mem_cons_self
    · have hh' : Function.update q.sockets h (some ⟨fd, none, none⟩) h' ≠ none := hh
      rw [Function.update_of_ne heq] at hh'
      exact List.mem_cons_of_mem _ (hi.issued h' hh')

/-- A socket is closed. -/
theorem Inv.closeHandle (hi : q.Inv) (h : Handle) : (q.setSocket h none).Inv := by
  have hold : ∀ {h' impl}, (q.setSocket h none).sockets h' = some impl → q.sockets h' = some impl := by
    intro h' impl hh
    have hh' : Function.update q.sockets h none h' = some impl := hh
    exact (Table.erase_some hh').2
  refine ⟨hi.sched, fun d g hg => ?_, fun h' impl filter p hh => hi.slots h' impl filter p (hold hh),
    hi.one, fun h' hh => ?_⟩
  · obtain ⟨hw, hs, hknown, hissued, hslot⟩ := hi.frames d g hg
    exact ⟨hw, hs, hknown, hissued, fun op h' impl hop hh => hslot op h' impl hop (hold hh)⟩
  · obtain ⟨impl, himpl⟩ := Option.ne_none_iff_exists'.mp hh
    exact hi.issued h' (by rw [hold himpl]; nofun)

/-- What a system call does: for `accept` there may be a new socket. -/
theorem syscall_cases (q : NetState) (op : NetOp) (socket : Handle) (fd : Nat) (client : Handle)
    (result : Except Nat Nat) :
    q.syscall op socket fd client result = q.logSyscall socket fd ∨
      ∃ clientFd, op = .accept ∧ result = .ok clientFd ∧
        q.syscall op socket fd client result =
          { (q.logSyscall socket fd).socketFromFd clientFd client with
            fds := insert clientFd q.fds } := by
  unfold NetState.syscall
  dsimp only
  split
  · next clientFd => exact .inr ⟨clientFd, rfl, rfl, rfl⟩
  · exact .inl rfl

theorem Inv.syscall (hi : q.Inv) (hidle : q.Idle) (huser : q.sched.phase.userCode = true)
    {fd : Nat} {client : Handle} {result : Except Nat Nat}
    (hreturn : q.CanReturn op fd client result) (socket : Handle) :
    (q.syscall op socket fd client result).Inv := by
  rcases syscall_cases q op socket fd client result with heq | ⟨clientFd, rfl, rfl, heq⟩ <;> rw [heq]
  · exact hi.same rfl (.refl q) rfl rfl
  · exact (hi.socketFromFd hidle huser clientFd (hreturn.2 rfl).2).same rfl (.refl _) rfl rfl

/-! ## The step lemma -/

/-- The ways through an operation up to its wait. -/
theorem netOp_cases (op : NetOp) (q : NetState) (c h signal client : Handle)
    (result : Except Nat Nat) :
    (q.sockets h = none ∧ (netOp op (waitForFilter op.filter) q c h signal client result).1 = q) ∨
    (∃ impl, q.sockets h = some impl ∧
      (netOp op (waitForFilter op.filter) q c h signal client result).1 =
        q.syscall op h impl.fd client result) ∨
    ∃ impl, q.sockets h = some impl ∧ impl.slot op.filter = none ∧
      (netOp op (waitForFilter op.filter) q c h signal client result).1 =
        ((q.logSyscall h impl.fd).setSocket h
          (some (impl.setSlot (some (c, q.calls)) op.filter))).waitForIo c (.op op h) impl.fd
            signal := by
  unfold netOp
  cases himpl : q.sockets h with
  | none => exact .inl ⟨rfl, rfl⟩
  | some impl =>
    refine .inr ?_
    cases result with
    | ok n => exact .inl ⟨impl, rfl, rfl⟩
    | error e =>
      dsimp only
      split
      · have hsyscall : q.syscall op h impl.fd client (.error e) = q.logSyscall h impl.fd := by
          cases op <;> rfl
        rw [hsyscall]
        unfold waitForFilter
        cases hslot : impl.slot op.filter with
        | none => exact .inr ⟨impl, rfl, hslot, rfl⟩
        | some p => exact .inl ⟨impl, rfl, hsyscall.symm⟩
      · exact .inl ⟨impl, rfl, rfl⟩

theorem Inv.netOp (hi : q.Inv) (hp : q.sched.phase = .running c) {signal client : Handle}
    {result : Except Nat Nat} (hop : q.CanOp op h signal client result) :
    (NetState.netOp op (waitForFilter op.filter) q c h signal client result).1.Inv := by
  obtain ⟨hbusy, hfresh, hcount, hreturn⟩ := hop
  have hcount' : q.sched.CanCount c := by simpa [hp, Phase.mcoRunning] using hcount
  rcases netOp_cases op q c h signal client result with ⟨_, heq⟩ | ⟨impl, himpl, heq⟩ |
    ⟨impl, himpl, hslot, heq⟩ <;> rw [heq]
  · exact hi
  · exact hi.syscall (idle_of_busy hbusy) (by rw [hp]; rfl) (hreturn impl himpl) h
  · obtain ⟨hwait, hwaits, hsleeps, hnone⟩ := hi.awaits hp hbusy hfresh hcount'
    exact hwait.pushOp (f := ⟨q.calls, .op op h, impl.fd, signal, false, false, 0⟩) hnone hwaits hsleeps
      rfl rfl himpl hslot rfl rfl rfl rfl

theorem Inv.netConnect (hi : q.Inv) (hp : q.sched.phase = .running c) (hbusy : q.busy = false)
    (fd : Nat) {signal : Handle} (hfresh : q.sched.Fresh signal) (hcount : q.sched.CanCount c) :
    (q.netConnect c fd signal).Inv := by
  obtain ⟨hwait, hwaits, hsleeps, hnone⟩ := hi.awaits hp hbusy hfresh hcount
  exact hwait.pushConnect (f := ⟨q.calls, .connect, fd, signal, false, false, 0⟩) hnone hwaits hsleeps
    rfl rfl rfl rfl rfl rfl

/-- An operation behind its wait, in front of the second system call. -/
def resumeOp (q : NetState) (c : Handle) (op : NetOp) (socket : Handle) : NetState :=
  (q.setFrame c none).clearSlot op.filter socket

theorem resumeOp_frame (q : NetState) (c : Handle) (op : NetOp) (socket : Handle) :
    (q.resumeOp c op socket).sched = q.sched ∧
    (q.resumeOp c op socket).frames = Function.update q.frames c none ∧
    (q.resumeOp c op socket).sockets = Function.update q.sockets socket
      ((q.sockets socket).map fun impl => impl.setSlot none op.filter) ∧
    (q.resumeOp c op socket).calls = q.calls ∧ (q.resumeOp c op socket).fds = q.fds := by
  unfold resumeOp clearSlot
  split
  · next impl himpl =>
    have hsome : q.sockets socket = some impl := himpl
    rw [hsome]
    exact ⟨rfl, rfl, rfl, rfl, rfl⟩
  · next hnone =>
    have hnone : q.sockets socket = none := hnone
    refine ⟨rfl, rfl, ?_, rfl, rfl⟩
    rw [hnone, Option.map_none, ← hnone, Function.update_eq_self]
    rfl

theorem Inv.resumeOp (hi : q.Inv) (hf : q.frames c = some f) (hcaller : f.caller = .op op h) :
    (q.resumeOp c op h).Inv := by
  obtain ⟨hsched, hframes, hsockets, hcalls, _⟩ := resumeOp_frame q c op h
  exact hi.popOp hf hcaller hsched hframes hsockets hcalls

theorem resume_idle (hp : q.sched.phase = .running c) (hsched : q'.sched = q.sched)
    (hframes : q'.frames = Function.update q.frames c none) : q'.Idle := by
  intro d g hg hd
  rw [hframes] at hg
  rw [hsched, hp] at hd
  exact (Table.erase_some hg).1 (Phase.running.inj hd).symm

theorem CanReturn.congr {fd : Nat} {client : Handle} {result : Except Nat Nat}
    (h : q.CanReturn op fd client result) (hfds : q'.fds = q.fds) (hsched : q'.sched = q.sched) :
    q'.CanReturn op fd client result := by
  cases result with
  | ok n => exact ⟨hfds ▸ h.1, fun hop => ⟨hfds ▸ (h.2 hop).1, hsched ▸ (h.2 hop).2⟩⟩
  | error e => exact fun hfd => h (hfds ▸ hfd)

/-- The ways of a coroutine behind its wait. -/
theorem finish_cases (hf : q.frames c = some f) (client : Handle) (result : Except Nat Nat) :
    (∃ op socket, f.caller = .op op socket ∧ f.error = 0 ∧
      q.finish c client result =
        { (q.resumeOp c op socket).syscall op socket f.fd client result with
          returns := ((q.resumeOp c op socket).syscall op socket f.fd client result).returns ++
            [⟨socket, f.cancelled, result.mapError .errno⟩] }) ∨
    (∃ op socket, f.caller = .op op socket ∧ f.error ≠ 0 ∧
      q.finish c client result =
        { q.resumeOp c op socket with
          returns := (q.resumeOp c op socket).returns ++
            [⟨socket, f.cancelled, .error (.errno f.error)⟩] }) ∨
    (f.caller = .connect ∧ q.finish c client result = (q.setFrame c none).socketFromFd f.fd client) := by
  unfold NetState.finish
  rw [hf]
  dsimp only
  cases f.caller with
  | connect => exact .inr (.inr ⟨rfl, rfl⟩)
  | op op socket =>
    dsimp only
    unfold finishOp
    split
    · next herror => exact .inl ⟨op, socket, rfl, herror, rfl⟩
    · next herror => exact .inr (.inl ⟨op, socket, rfl, herror, rfl⟩)

theorem CanFinish.canReturn {client socket : Handle} {result : Except Nat Nat}
    (hcan : q.CanFinish client f result) (hcaller : f.caller = .op op socket) (herror : f.error = 0) :
    q.CanReturn op f.fd client result := by
  unfold CanFinish at hcan
  rw [hcaller] at hcan
  exact hcan herror

theorem CanFinish.fresh {client : Handle} {result : Except Nat Nat}
    (hcan : q.CanFinish client f result) (hcaller : f.caller = .connect) : q.sched.Fresh client := by
  unfold CanFinish at hcan
  rw [hcaller] at hcan
  exact hcan

theorem Inv.finish (hi : q.Inv) (hp : q.sched.phase = .running c) (hf : q.frames c = some f)
    {client : Handle} {result : Except Nat Nat} (hcan : q.CanFinish client f result) :
    (q.finish c client result).Inv := by
  have huser : q.sched.phase.userCode = true := by rw [hp]; rfl
  rcases finish_cases hf client result with ⟨op, socket, hcaller, herror, heq⟩ |
    ⟨op, socket, hcaller, _, heq⟩ | ⟨hcaller, heq⟩ <;> rw [heq]
  · obtain ⟨hsched, hframes, _, _, hfds⟩ := resumeOp_frame q c op socket
    have hstep := (hi.resumeOp hf hcaller).syscall (resume_idle hp hsched hframes) (hsched ▸ huser)
      ((hcan.canReturn hcaller herror).congr hfds hsched) socket
    exact hstep.same rfl (.refl _) rfl rfl
  · exact (hi.resumeOp hf hcaller).same rfl (.refl _) rfl rfl
  · have hpop : (q.setFrame c none).Inv := hi.popConnect hf hcaller rfl rfl rfl rfl
    exact hpop.socketFromFd (resume_idle hp rfl rfl) huser f.fd (hcan.fresh hcaller)

/-- `bio_net_close` has taken the socket out of the table and has cancelled the request of its reader. -/
def afterRead (q : NetState) (socket : Handle) (impl : Socket) : NetState :=
  match impl.read with
  | some p => (q.setSocket socket none).cancelIo p
  | none => q.setSocket socket none

/-- The ways through `bio_net_close`. -/
theorem netClose_cases (q : NetState) (socket : Handle) (errno : Option Nat) :
    (q.sockets socket = none ∧ (q.netClose socket errno).1 = q) ∨
    ∃ impl, q.sockets socket = some impl ∧
      ((impl.write ≠ none ∧ impl.read = none ∧
        (q.netClose socket errno).1 = { q.setSocket socket none with crashed := true }) ∨
      ((impl.write = none ∨ impl.read ≠ none) ∧
        Raises (q.afterRead socket impl) (q.netClose socket errno).1)) := by
  unfold netClose afterRead
  cases himpl : q.sockets socket with
  | none => exact .inl ⟨rfl, rfl⟩
  | some impl =>
    refine .inr ⟨impl, rfl, ?_⟩
    dsimp only
    cases hread : impl.read <;> cases hwrite : impl.write <;> dsimp only
    · exact .inr ⟨.inl rfl, raises_closeFd _ _⟩
    · exact .inl ⟨nofun, rfl, rfl⟩
    · exact .inr ⟨.inl rfl, raises_closeFd _ _⟩
    · exact .inr ⟨.inr nofun, (raises_cancelIo _ _).trans (raises_closeFd _ _)⟩

theorem raises_afterRead (q : NetState) (socket : Handle) (impl : Socket) :
    Raises (q.setSocket socket none) (q.afterRead socket impl) := by
  unfold afterRead
  split
  · exact raises_cancelIo _ _
  · exact .refl _

theorem userCode_not_pass (h : q.sched.phase.userCode = true) : q.sched.phase ≠ .pass := by
  intro hp
  rw [hp] at h
  cases h

theorem Inv.netClose (hi : q.Inv) (huser : q.sched.phase.userCode = true) (socket : Handle)
    (errno : Option Nat) : (q.netClose socket errno).1.Inv := by
  rcases netClose_cases q socket errno with ⟨_, heq⟩ | ⟨impl, _, ⟨_, _, heq⟩ | ⟨_, hraises⟩⟩
  · rw [heq]
    exact hi
  · rw [heq]
    exact (hi.closeHandle socket).same rfl (.refl _) rfl rfl
  · exact ((raises_afterRead q socket impl).trans hraises).inv (userCode_not_pass huser)
      (hi.closeHandle socket)

/-- What an action does, with its guards. -/
inductive Effect (q : NetState) : NetAction → NetState → Prop
  | sched {a : Action} : Sched.machine.enabled q.sched a → q.busy = false →
      (∀ h ∈ a.signals, q.isLocal h = false) →
      Effect q (.sched a) { q with sched := q.sched.perform a }
  | listen {fd : Nat} {socket : Handle} : q.sched.phase.userCode = true → q.busy = false →
      q.sched.Fresh socket → Effect q (.listen fd socket) (q.netListen fd socket)
  | connected {fd : Nat} {socket : Handle} : q.sched.phase.userCode = true → q.busy = false →
      q.sched.Fresh socket → Effect q (.connected fd socket) (q.netListen fd socket)
  | connect {c : Handle} {fd : Nat} {signal : Handle} : q.sched.phase = .running c →
      q.busy = false → q.sched.Fresh signal → q.sched.CanCount c →
      Effect q (.connect fd signal) (q.netConnect c fd signal)
  | accept {c h signal client : Handle} {result : Except Nat Nat} : q.sched.phase = .running c →
      q.CanOp .accept h signal client result →
      Effect q (.accept h signal client result) (q.netAccept c h signal client result).1
  | recv {c h signal : Handle} {result : Except Nat Nat} : q.sched.phase = .running c →
      q.CanOp .recv h signal Handle.invalid result →
      Effect q (.recv h signal result) (q.netRecv c h signal Handle.invalid result).1
  | send {c h signal : Handle} {result : Except Nat Nat} : q.sched.phase = .running c →
      q.CanOp .send h signal Handle.invalid result →
      Effect q (.send h signal result) (q.netSend c h signal Handle.invalid result).1
  | finish {c client : Handle} {f : NetFrame} {result : Except Nat Nat} :
      q.sched.phase = .running c → q.frames c = some f → q.CanFinish client f result →
      Effect q (.finish client result) (q.finish c client result)
  | close {socket : Handle} {errno : Option Nat} : q.sched.phase.userCode = true →
      q.busy = false → Effect q (.close socket errno) (q.netClose socket errno).1
  | platformUpdate {errors : Handle → Nat} {ready : List (Handle × Nat)} :
      q.sched.phase = .polling →
      Effect q (.platformUpdate errors ready) (q.platformUpdate errors ready)

theorem inCoro_running (hp : q.sched.phase = .running c) (g : Handle → NetState) :
    q.inCoro g = g c := by
  unfold inCoro
  rw [hp]
  rfl

theorem Effect.of_step {a : NetAction} (he : machine.enabled q a) :
    q.Effect a (machine.perform q a) := by
  cases a with
  | sched a => exact .sched he.2.1 he.2.2.1 he.2.2.2
  | listen fd socket => exact .listen he.2.1 he.2.2.1 he.2.2.2.2
  | connected fd socket => exact .connected he.2.1 he.2.2.1 he.2.2.2.2
  | connect fd signal =>
    obtain ⟨c, hp, hcount⟩ := Sched.running_of_any he.2.2.2.2
    show q.Effect _ (q.inCoro _)
    rw [inCoro_running hp]
    exact .connect hp he.2.1 he.2.2.2.1 hcount
  | accept h signal client result =>
    obtain ⟨c, hp, _⟩ := Sched.running_of_any he.2.2.2.1
    show q.Effect _ (q.inCoro _)
    rw [inCoro_running hp]
    exact .accept hp he.2
  | recv h signal result =>
    obtain ⟨c, hp, _⟩ := Sched.running_of_any he.2.2.2.1
    show q.Effect _ (q.inCoro _)
    rw [inCoro_running hp]
    exact .recv hp he.2
  | send h signal result =>
    obtain ⟨c, hp, _⟩ := Sched.running_of_any he.2.2.2.1
    show q.Effect _ (q.inCoro _)
    rw [inCoro_running hp]
    exact .send hp he.2
  | finish client result =>
    obtain ⟨_, c, hc, f, hf, hcan⟩ := he
    have hp := Phase.eq_running hc
    show q.Effect _ (q.inCoro _)
    rw [inCoro_running hp]
    exact .finish hp hf hcan
  | close socket errno => exact .close he.2.1 he.2.2
  | platformUpdate errors ready => exact .platformUpdate he.2

theorem Inv.effect {a : NetAction} (hi : q.Inv) (he : q.Effect a q') : q'.Inv := by
  cases he with
  | @sched a hen hbusy hlocal =>
    refine hi.schedStep hen (idle_of_busy hbusy) (fun c f hf hn hown => ?_) rfl rfl rfl rfl
    have hnot := hlocal f.signal (Action.mem_signals.mpr hn)
    simp [isLocal, hown, hf] at hnot
  | listen huser hbusy hfresh | connected huser hbusy hfresh =>
    exact (hi.socketFromFd (idle_of_busy hbusy) huser _ hfresh).same rfl (.refl _) rfl rfl
  | connect hp hbusy hfresh hcount => exact hi.netConnect hp hbusy _ hfresh hcount
  | accept hp hop | recv hp hop | send hp hop => exact hi.netOp hp hop
  | finish hp hf hcan => exact hi.finish hp hf hcan
  | close huser _ => exact hi.netClose huser _ _
  | platformUpdate hp =>
    exact (raises_platformUpdate q _ _).inv (fun hpass => absurd (hpass.symm.trans hp) nofun) hi

theorem inv_of_reachable (hr : machine.Reachable q) : q.Inv := by
  refine Machine.invariant (fun t ht => ?_) (fun t a _ hinv he => hinv.effect (.of_step he)) hr
  obtain rfl : t = init := ht
  exact ⟨.init rfl, nofun, fun _ _ _ _ h => (nomatch h), fun _ _ _ _ _ _ _ h => (nomatch h),
    fun _ h => absurd rfl h⟩

end NetState

end Bio
