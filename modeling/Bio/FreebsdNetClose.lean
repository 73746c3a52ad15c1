import Bio.FreebsdNetInvariant

/-!
# Closing a FreeBSD socket

* `NetState.Carries`: a step other than `bio_net_close` starts waits only on sockets that are open, and
  neither cancels a wait nor closes a socket.
* `NetState.Released`: the signals of the waits on a closed socket have been raised.

Results: `waiters_released_iff` and `closed_descriptor_iff`.
-/

namespace Bio

open FreebsdErrno (ebadf ewouldblock)

namespace NetState

variable {q q' : NetState} {c h : Handle} {f : NetFrame} {op : NetOp} {a : NetAction}

/-! ## What a step does with the waits -/

/-- A wait on a socket is new, and then the socket is open, or the step leaves it and its socket. -/
structure Carries (q q' : NetState) : Prop where
  closed : Sched.StaysClosed q.sched q'.sched
  crashed : q'.crashed = q.crashed
  waits : ∀ c f' op h, q'.frames c = some f' → f'.caller = .op op h →
    (q'.sockets h ≠ none ∧ f'.cancelled = false) ∨
    ∃ f, q.frames c = some f ∧ f'.key = f.key ∧ (f'.cancelled = true → f.cancelled = true) ∧
      (q'.sockets h = none ↔ q.sockets h = none)

theorem Carries.of_old (hclosed : Sched.StaysClosed q.sched q'.sched)
    (hcrashed : q'.crashed = q.crashed)
    (hframes : ∀ c f op h, q'.frames c = some f → f.caller = .op op h → q.frames c = some f)
    (hsockets : ∀ c f op h, q.frames c = some f → f.caller = .op op h →
      (q'.sockets h = none ↔ q.sockets h = none)) : Carries q q' :=
  ⟨hclosed, hcrashed, fun c f op h hf hop =>
    .inr ⟨f, hframes c f op h hf hop, rfl, id, hsockets c f op h (hframes c f op h hf hop) hop⟩⟩

theorem staysClosed_refl (s : Sched) : Sched.StaysClosed s s := (Sched.Shrinks.refl s).staysClosed

theorem Carries.refl (q : NetState) : Carries q q :=
  .of_old (staysClosed_refl _) rfl (fun _ _ _ _ hf _ => hf) fun _ _ _ _ _ _ => .rfl

theorem Carries.trans {q₁ q₂ q₃ : NetState} (h : Carries q₁ q₂) (h' : Carries q₂ q₃) :
    Carries q₁ q₃ := by
  refine ⟨h.closed.trans h'.closed, h'.crashed.trans h.crashed, fun c f₃ op x hf₃ hop => ?_⟩
  rcases h'.waits c f₃ op x hf₃ hop with hnew | ⟨f₂, hf₂, hkey, hcancel, hopen⟩
  · exact .inl hnew
  · rcases h.waits c f₂ op x hf₂ ((key_eq hkey).2.1 ▸ hop) with
      ⟨hsocket, hfalse⟩ | ⟨f₁, hf₁, hkey', hcancel', hopen'⟩
    · exact .inl ⟨mt hopen.mp hsocket, Bool.eq_false_iff.mpr fun htrue =>
        absurd (hfalse.symm.trans (hcancel htrue)) nofun⟩
    · exact .inr ⟨f₁, hf₁, hkey.trans hkey', hcancel' ∘ hcancel, hopen.trans hopen'⟩

/-- A new handle is not the socket of a wait. -/
theorem carries_socketFromFd (hi : q.Inv) (huser : q.sched.phase.userCode = true) (fd : Nat)
    (hfresh : q.sched.Fresh h) : Carries q (q.socketFromFd fd h) := by
  have hissue : Sched.machine.enabled q.sched (.issue h) := ⟨huser, hfresh⟩
  refine .of_old (Sched.Effect.of_step hissue).stays_closed rfl (fun _ _ _ _ hf _ => hf)
    fun c f op x hf hop => ?_
  have hne : x ≠ h := fun heq => hfresh.2 (heq ▸ (hi.frames c f hf).issued op x hop)
  show Function.update q.sockets h _ x = none ↔ _
  rw [Function.update_of_ne hne]

theorem carries_syscall (hi : q.Inv) (huser : q.sched.phase.userCode = true) {fd : Nat}
    {client : Handle} {result : Except Nat Nat} (hreturn : q.CanReturn op fd client result)
    (socket : Handle) : Carries q (q.syscall op socket fd client result) := by
  rcases syscall_cases q op socket fd client result with heq | ⟨clientFd, rfl, rfl, heq⟩ <;> rw [heq]
  · exact .of_old (staysClosed_refl _) rfl (fun _ _ _ _ hf _ => hf) fun _ _ _ _ _ _ => .rfl
  · obtain ⟨hclosed, hcrashed, hwaits⟩ :=
      carries_socketFromFd hi huser clientFd (hreturn.2 rfl).2
    exact ⟨hclosed, hcrashed, hwaits⟩

theorem awaits_closed (hp : q.sched.phase = .running c) {signal : Handle}
    (hfresh : q.sched.Fresh signal) : Sched.StaysClosed q.sched
      ((q.sched.makeSignal c signal).waitForSignals c [signal] true) := by
  have hmake : Sched.machine.enabled q.sched (.makeSignal signal) := ⟨by rw [hp]; rfl, hfresh⟩
  have hclosed := (Sched.Effect.of_step hmake).stays_closed
  rw [Sched.perform_makeSignal hp signal] at hclosed
  exact hclosed.trans (Sched.staysClosed_waitForSignals _ c [signal] true)

theorem carries_netOp (hi : q.Inv) (hp : q.sched.phase = .running c) {signal client : Handle}
    {result : Except Nat Nat} (hop : q.CanOp op h signal client result) :
    Carries q (NetState.netOp op (waitForFilter op.filter) q c h signal client result).1 := by
  obtain ⟨_, hfresh, _, hreturn⟩ := hop
  rcases netOp_cases op q c h signal client result with ⟨_, heq⟩ | ⟨impl, himpl, heq⟩ |
    ⟨impl, himpl, _, heq⟩ <;> rw [heq]
  · exact .refl q
  · exact carries_syscall hi (by rw [hp]; rfl) (hreturn impl himpl) h
  · refine ⟨awaits_closed hp hfresh, rfl, fun d f' op' x hf' hop' => ?_⟩
    have hsockets : Function.update q.sockets h
        (some (impl.setSlot (some (c, q.calls)) op.filter)) x = none ↔ q.sockets x = none := by
      rw [Function.update_apply]
      split
      · next hx => simp [hx, himpl]
      · rfl
    rcases Table.insert_some hf' with ⟨_, rfl⟩ | ⟨_, hold⟩
    · cases hop'
      exact .inl ⟨mt hsockets.mp (by rw [himpl]; nofun), rfl⟩
    · exact .inr ⟨f', hold, rfl, id, hsockets⟩

theorem carries_netConnect (hp : q.sched.phase = .running c) (fd : Nat) {signal : Handle}
    (hfresh : q.sched.Fresh signal) : Carries q (q.netConnect c fd signal) := by
  refine .of_old (awaits_closed hp hfresh) rfl (fun d f' op h hf' hop => ?_)
    fun _ _ _ _ _ _ => .rfl
  rcases Table.insert_some hf' with ⟨_, rfl⟩ | ⟨_, hold⟩
  · cases hop
  · exact hold

theorem carries_resumeOp (q : NetState) (c : Handle) (op : NetOp) (socket : Handle) :
    Carries q (q.resumeOp c op socket) := by
  obtain ⟨hsched, hframes, hsockets, _⟩ := resumeOp_frame q c op socket
  refine .of_old (hsched ▸ staysClosed_refl _) ?_ (fun d f' op' h hf' _ => ?_)
    fun d f' op' h _ _ => ?_
  · unfold resumeOp clearSlot
    split <;> rfl
  · rw [hframes] at hf'
    exact (Table.erase_some hf').2
  · rw [hsockets, Function.update_apply]
    split
    · next hx => simp [hx]
    · rfl

theorem carries_finish (hi : q.Inv) (hp : q.sched.phase = .running c) (hf : q.frames c = some f)
    {client : Handle} {result : Except Nat Nat} (hcan : q.CanFinish client f result) :
    Carries q (q.finish c client result) := by
  have huser : q.sched.phase.userCode = true := by rw [hp]; rfl
  rcases finish_cases hf client result with ⟨op, socket, hcaller, herror, heq⟩ |
    ⟨op, socket, _, _, heq⟩ | ⟨hcaller, heq⟩ <;> rw [heq]
  · obtain ⟨hsched, _, _, _, hfds⟩ := resumeOp_frame q c op socket
    have hstep := (carries_resumeOp q c op socket).trans
      (carries_syscall (hi.resumeOp hf hcaller) (hsched ▸ huser)
        ((hcan.canReturn hcaller herror).congr hfds hsched) socket)
    exact ⟨hstep.closed, hstep.crashed, hstep.waits⟩
  · have hstep := carries_resumeOp q c op socket
    exact ⟨hstep.closed, hstep.crashed, hstep.waits⟩
  · have hpop : (q.setFrame c none).Inv := hi.popConnect hf hcaller rfl rfl rfl rfl
    have hfirst : Carries q (q.setFrame c none) :=
      .of_old (staysClosed_refl _) rfl (fun d f' _ _ hf' _ => (Table.erase_some hf').2)
        fun _ _ _ _ _ _ => .rfl
    exact hfirst.trans (carries_socketFromFd hpop huser f.fd (hcan.fresh hcaller))

/-! ## Requests -/

/-- At most the request behind the pointer `s` is cancelled. -/
def Cancels (s : Option (Handle × Nat)) (q q' : NetState) : Prop :=
  ∀ c f', q'.frames c = some f' → ∃ f, q.frames c = some f ∧ f'.key = f.key ∧
    (f'.cancelled = true → f.cancelled = true ∨ s = some (c, f.call))

variable {s : Option (Handle × Nat)}

theorem Cancels.refl (q : NetState) : Cancels s q q := fun _ f hf => ⟨f, hf, rfl, .inl⟩

theorem Cancels.trans {q₁ q₂ q₃ : NetState} (h : Cancels s q₁ q₂) (h' : Cancels s q₂ q₃) :
    Cancels s q₁ q₃ := by
  intro c f₃ hf₃
  obtain ⟨f₂, hf₂, hkey, hcancel⟩ := h' c f₃ hf₃
  obtain ⟨f₁, hf₁, hkey', hcancel'⟩ := h c f₂ hf₂
  refine ⟨f₁, hf₁, hkey.trans hkey', fun htrue => ?_⟩
  rcases hcancel htrue with hold | hnew
  · exact hcancel' hold
  · exact .inr (hnew.trans (by rw [(key_eq hkey').1]))

theorem Cancels.setFrame {p : Handle × Nat} {f' : NetFrame} (hf : q.frame p = some f)
    (hkey : f'.key = f.key) (hcancel : f'.cancelled = true → f.cancelled = true ∨ s = some p) :
    Cancels s q (q.setFrame p.1 (some f')) := by
  obtain ⟨hframe, hcall⟩ := Option.filter_eq_some_iff.mp hf
  have hp : p = (p.1, f.call) := Prod.ext rfl (of_decide_eq_true hcall).symm
  intro d g hg
  rcases Table.insert_some hg with ⟨rfl, rfl⟩ | ⟨_, hold⟩
  · exact ⟨f, hframe, hkey, hp ▸ hcancel⟩
  · exact ⟨g, hold, rfl, .inl⟩

theorem cancels_cancelIo (q : NetState) (p : Handle × Nat) : Cancels (some p) q (q.cancelIo p) := by
  unfold cancelIo
  split
  · next f hf => exact Cancels.setFrame hf rfl fun _ => .inr rfl
  · exact .refl q

theorem cancels_dispatchEvent (q : NetState) (p : Handle × Nat) (error : Nat) :
    Cancels s q (q.dispatchEvent p error) := by
  unfold dispatchEvent
  split
  · next f hf => exact Cancels.setFrame hf rfl .inl
  · exact .refl q

theorem cancels_submitEvent (errors : Handle → Nat) (q : NetState) (p : Handle × Nat) :
    Cancels s q (q.submitEvent errors p) := by
  unfold submitEvent
  split
  · next f hf =>
    dsimp only
    split
    · exact .refl q
    · generalize (if f.fd ∈ q.fds then errors p.1 else ebadf) = error
      by_cases herror : error = 0
      · rw [if_pos herror]
        exact Cancels.setFrame hf rfl .inl
      · rw [if_neg herror]
        exact cancels_dispatchEvent q p error
  · exact .refl q

theorem cancels_fireEvent (q : NetState) (p : Handle × Nat) : Cancels s q (q.fireEvent p) := by
  unfold fireEvent
  split
  · exact cancels_dispatchEvent q p 0
  · exact .refl q

theorem cancels_platformUpdate (q : NetState) (errors : Handle → Nat) (ready : List (Handle × Nat)) :
    Cancels s q (q.platformUpdate errors ready) := by
  have hin := List.foldlRecOn (motive := Cancels s q) q.inEvents (submitEvent errors) (.refl q)
    fun t ht p _ => ht.trans (cancels_submitEvent errors t p)
  exact List.foldlRecOn (motive := Cancels s q) ready fireEvent hin
    fun t ht p _ => ht.trans (cancels_fireEvent t p)

theorem cancels_closeFd (q : NetState) (fd : Nat) : Cancels s q (q.closeFd fd) := by
  intro c f' hf'
  obtain ⟨f, hf, rfl⟩ := Option.map_eq_some_iff.mp hf'
  refine ⟨f, hf, ?_, ?_⟩
  all_goals split
  · rfl
  · rfl
  · exact .inl
  · exact .inl

theorem carries_platformUpdate (q : NetState) (errors : Handle → Nat)
    (ready : List (Handle × Nat)) : Carries q (q.platformUpdate errors ready) := by
  have hraises := raises_platformUpdate q errors ready
  refine ⟨hraises.closed, hraises.crashed, fun c f' op h hf' _ => .inr ?_⟩
  obtain ⟨f, hf, hkey, hcancel⟩ := cancels_platformUpdate (s := none) q errors ready c f' hf'
  exact ⟨f, hf, hkey, fun htrue => (hcancel htrue).resolve_right nofun, by rw [hraises.sockets]⟩

/-- The step lemma, for every action but `bio_net_close`. -/
theorem Carries.of_effect (hi : q.Inv) (he : q.Effect a q')
    (hne : ∀ socket errno, a ≠ .close socket errno) : Carries q q' := by
  cases he with
  | sched hen _ _ =>
    exact .of_old (Sched.Effect.of_step hen).stays_closed rfl (fun _ _ _ _ hf _ => hf)
      fun _ _ _ _ _ _ => .rfl
  | listen huser _ hfresh | connected huser _ hfresh =>
    obtain ⟨hclosed, hcrashed, hwaits⟩ := carries_socketFromFd hi huser _ hfresh
    exact ⟨hclosed, hcrashed, hwaits⟩
  | connect hp _ hfresh _ => exact carries_netConnect hp _ hfresh
  | accept hp hop | recv hp hop | send hp hop => exact carries_netOp hi hp hop
  | finish hp hf hcan => exact carries_finish hi hp hf hcan
  | close _ _ => exact absurd rfl (hne _ _)
  | platformUpdate _ => exact carries_platformUpdate q _ _

/-! ## The waiters of a socket -/

/-- The signals of the waits on a closed socket have been raised. -/
def Released (q : NetState) : Prop :=
  ∀ c f op h, q.frames c = some f → f.caller = .op op h → q.sockets h = none →
    q.sched.ownerOf f.signal ≠ some c

theorem FrameOk.stays_closed (hf : q.FrameOk c f) (hi : q.Inv)
    (hclosed : Sched.StaysClosed q.sched q'.sched) (hnot : q.sched.ownerOf f.signal ≠ some c) :
    q'.sched.ownerOf f.signal ≠ some c := by
  rw [Sched.closed_stays (Sched.accounted_of_reachable hi.sched) hclosed hf.waits.held.made hnot]
  nofun

theorem Released.carries (h : q.Released) (hi : q.Inv) (hc : Carries q q') : q'.Released := by
  intro c f' op x hf' hop hnone
  rcases hc.waits c f' op x hf' hop with ⟨hopen, _⟩ | ⟨f, hf, hkey, _, hsame⟩
  · exact absurd hnone hopen
  · obtain ⟨_, hcaller, hsignal⟩ := key_eq hkey
    rw [hsignal]
    exact (hi.frames c f hf).stays_closed hi hc.closed
      (h c f op x hf (hcaller ▸ hop) (hsame.mp hnone))

/-- What is promised of the waiters of a socket: `bio_net_close` has dereferenced no null pointer, there
is one reader and one writer at most, which the fields of the socket tell, and none waits on a socket that
is closed. -/
structure Waiters (q : NetState) : Prop where
  crashed : q.crashed = false
  one : ∀ c d f g op op' h, q.frames c = some f → q.frames d = some g → f.caller = .op op h →
    g.caller = .op op' h → op.filter = op'.filter → c = d
  slot : ∀ h impl filter, q.sockets h = some impl → (impl.slot filter ≠ none ↔
    ∃ c f op, q.frames c = some f ∧ f.caller = .op op h ∧ op.filter = filter)
  released : ∀ c f op h, q.frames c = some f → f.caller = .op op h → q.sockets h = none →
    q.sched.coroState c ≠ .waiting

theorem Inv.waiters (hi : q.Inv) (hcrashed : q.crashed = false) (hr : q.Released) : q.Waiters := by
  refine ⟨hcrashed, hi.one, fun h impl filter himpl => ⟨fun hslot => ?_, ?_⟩,
    fun c f op h hf hop hnone => ?_⟩
  · obtain ⟨p, hp⟩ := Option.ne_none_iff_exists'.mp hslot
    obtain ⟨f, op, hf, _, hop, hfilter⟩ := hi.slots h impl filter p himpl hp
    exact ⟨p.1, f, op, hf, hop, hfilter⟩
  · rintro ⟨c, f, op, hf, hop, rfl⟩
    rw [(hi.frames c f hf).slot op h impl hop himpl]
    nofun
  · exact (hi.frames c f hf).sleeps.owned.not_waiting (hr c f op h hf hop hnone)

/-- The guard: on a socket with a waiting writer `bio_net_close` is called only when there is a reader too
and the event of the writer has been delivered. -/
def CloseOk (q : NetState) : NetAction → Prop
  | .close socket _ => ∀ impl ∈ q.sockets socket, ∀ p ∈ impl.write,
    impl.read ≠ none ∧ q.sched.coroState p.1 ≠ .waiting
  | _ => True

/-- The request of the reader is cancelled. -/
theorem cancelIo_closed {p : Handle × Nat} (hf : q.frame p = some f) :
    (q.cancelIo p).sched.ownerOf f.signal ≠ some p.1 := by
  unfold cancelIo
  rw [hf]
  have hclosed := Sched.checkSignal_iff_none.mp (Sched.checkSignal_raiseSignal q.sched f.signal)
  show (q.sched.raiseSignal f.signal).1.ownerOf f.signal ≠ some p.1
  rw [hclosed]
  nofun

/-- It does not concern another wait. -/
theorem cancelIo_view (hi : q.Inv) {p : Handle × Nat} (hne : p.1 ≠ c) :
    (q.cancelIo p).sched.waitView c = q.sched.waitView c := by
  unfold cancelIo
  split
  · next f hf =>
    have hmade := (hi.frames p.1 f (Option.filter_eq_some_iff.mp hf).1).waits.held.made
    refine (Sched.sameFor_raiseSignal (Sched.stampOf_isNone.mpr fun hown => ?_)).view
    have hlive : q.sched.ownerOf f.signal ≠ none := by
      rw [hown]
      nofun
    have hmine := Sched.ownerOf_of_made (Sched.accounted_of_reachable hi.sched) hmade hlive
    exact hne (Option.some.inj (hmine.symm.trans hown))
  · rfl

/-- The reader of a socket is woken by `bio_net_close`. -/
theorem afterRead_closed (hi : q.Inv) {socket : Handle} {impl : Socket}
    (himpl : q.sockets socket = some impl) (hf : q.frames c = some f) (hop : f.caller = .op op socket)
    (hread : op.filter = .read) : (q.afterRead socket impl).sched.ownerOf f.signal ≠ some c := by
  have hslot : impl.read = some (c, f.call) := by
    have hslot := (hi.frames c f hf).slot op socket impl hop himpl
    rwa [hread] at hslot
  have hframe : (q.setSocket socket none).frame (c, f.call) = some f :=
    Option.filter_eq_some_iff.mpr ⟨hf, by simp⟩
  unfold afterRead
  rw [hslot]
  exact cancelIo_closed hframe

/-- With a writer as in the guard, `bio_net_close` releases all. -/
theorem close_released (hi : q.Inv) (huser : q.sched.phase.userCode = true) (hr : q.Released)
    {socket : Handle} {errno : Option Nat} (hok : q.CloseOk (.close socket errno)) :
    (q.netClose socket errno).1.crashed = q.crashed ∧ (q.netClose socket errno).1.Released := by
  rcases netClose_cases q socket errno with ⟨_, heq⟩ | ⟨impl, himpl, ⟨hwrite, hread, _⟩ | ⟨_, hraises⟩⟩
  · rw [heq]
    exact ⟨rfl, hr⟩
  · obtain ⟨p, hp⟩ := Option.ne_none_iff_exists'.mp hwrite
    exact absurd hread (hok impl himpl p hp).1
  · have hafter := raises_afterRead q socket impl
    have hall := hafter.trans hraises
    refine ⟨hall.crashed, fun c f' op h hf' hop hnone => ?_⟩
    obtain ⟨f, hf, hkey⟩ := hall.waits.back hf'
    obtain ⟨_, hcaller, hsignal⟩ := key_eq hkey
    have hframe := hi.frames c f hf
    have hcaller : f.caller = .op op h := hcaller ▸ hop
    rw [hsignal]
    by_cases hsocket : h = socket
    · subst hsocket
      cases hfilter : op.filter with
      | read =>
        have hclosed := afterRead_closed hi himpl hf hcaller hfilter
        have hafterInv : (q.afterRead h impl).Inv :=
          hafter.inv (userCode_not_pass huser) (hi.closeHandle h)
        obtain ⟨g, hg, hkey'⟩ := hafter.waits.forth hf
        have hsame := (key_eq hkey').2.2
        rw [← hsame] at hclosed ⊢
        exact (hafterInv.frames c g hg).stays_closed hafterInv hraises.closed hclosed
      | write =>
        have hslot := hframe.slot op h impl hcaller himpl
        rw [hfilter] at hslot
        have hawake := (hok impl himpl _ hslot).2
        exact hframe.stays_closed hi hall.closed (mt (hframe.waits.waiting hi.sched) hawake)
    · have hold : q.sockets h = none := by
        have hupdate : Function.update q.sockets socket none h = none :=
          (congrFun hall.sockets h).symm.trans hnone
        rwa [Function.update_of_ne hsocket] at hupdate
      exact hframe.stays_closed hi hall.closed (hr c f op h hf hcaller hold)

theorem waiters_of_restrict (hr : (machine.restrict CloseOk).Reachable q) : q.Waiters := by
  have h : q.crashed = false ∧ q.Released := by
    refine Machine.invariant (P := fun t : NetState => t.crashed = false ∧ t.Released)
      (fun t ht => ?_) (fun t a hrt ⟨hcrashed, hreleased⟩ he => ?_) hr
    · obtain rfl : t = init := ht
      exact ⟨rfl, fun _ _ _ _ hf => nomatch hf⟩
    · have hi := inv_of_reachable hrt.of_restrict
      have heff := Effect.of_step he.1
      by_cases ha : ∃ socket errno, a = .close socket errno
      · obtain ⟨socket, errno, rfl⟩ := ha
        obtain ⟨hsame, hreleased⟩ := close_released hi he.1.2.1 hreleased he.2
        exact ⟨hsame.trans hcrashed, hreleased⟩
      · have hc := Carries.of_effect hi heff fun socket errno heq => ha ⟨socket, errno, heq⟩
        exact ⟨hc.crashed.trans hcrashed, hreleased.carries hi hc⟩
  exact (inv_of_reachable hr.of_restrict).waiters h.1 h.2

/-- The converse: `bio_net_close` leaves the writer suspended. -/
theorem netClose_view (hi : q.Inv) (huser : q.sched.phase.userCode = true) {socket : Handle}
    {errno : Option Nat} {impl : Socket} (himpl : q.sockets socket = some impl)
    {p r : Handle × Nat} (hread : impl.read = some r) (hwrite : impl.write = some p)
    (hne : r.1 ≠ p.1) :
    (q.netClose socket errno).1.sched.waitView p.1 = q.sched.waitView p.1 := by
  have hclose := hi.closeHandle socket
  have hfirst := (raises_cancelIo (q.setSocket socket none) r).inv (userCode_not_pass huser) hclose
  have heq : (q.netClose socket errno).1 =
      (((q.setSocket socket none).cancelIo r).cancelIo r).closeFd impl.fd := by
    unfold netClose
    rw [himpl]
    dsimp only
    rw [hread, hwrite]
  rw [heq]
  exact (cancelIo_view hfirst hne).trans (cancelIo_view hclose hne)

theorem closeOk_of_close (hr : machine.Reachable q) {socket : Handle} {errno : Option Nat}
    (huser : q.sched.phase.userCode = true) (h : (q.netClose socket errno).1.Waiters) :
    q.CloseOk (.close socket errno) := by
  intro impl himpl p hwrite
  have hi := inv_of_reachable hr
  obtain ⟨f, op, hf, hcall, hop, hfilter⟩ := hi.slots socket impl .write p himpl hwrite
  rcases netClose_cases q socket errno with ⟨hnone, _⟩ | ⟨impl', himpl', hcases⟩
  · rw [himpl] at hnone
    cases hnone
  · obtain rfl := Option.some.inj (himpl.symm.trans himpl')
    rcases hcases with ⟨_, _, heq⟩ | ⟨hslots, hraises⟩
    · have hcrashed : (q.netClose socket errno).1.crashed = false := h.crashed
      rw [heq] at hcrashed
      cases hcrashed
    · have hread : impl.read ≠ none := hslots.resolve_left (by rw [hwrite]; nofun)
      refine ⟨hread, fun hwait => ?_⟩
      obtain ⟨r, hr⟩ := Option.ne_none_iff_exists'.mp hread
      obtain ⟨g, op', hg, _, hop', hfilter'⟩ := hi.slots socket impl .read r himpl hr
      have hne : r.1 ≠ p.1 := by
        intro heq
        rw [heq, hf] at hg
        obtain rfl := Option.some.inj hg
        rw [hop] at hop'
        cases hop'
        exact absurd (hfilter.symm.trans hfilter') nofun
      have hall := (raises_afterRead q socket impl).trans hraises
      obtain ⟨f', hf', hkey⟩ := hall.waits.forth (c := p.1) (f := f) hf
      refine h.released p.1 f' op socket hf' ((key_eq hkey).2.1.trans hop) ?_ ?_
      · exact (congrFun hall.sockets socket).trans (Function.update_self ..)
      · exact (Sched.coroState_of_waitView (netClose_view hi huser himpl hr hwrite hne)).trans hwait

theorem closeOk_of_waiters (hr : machine.Reachable q) (he : machine.enabled q a)
    (h : (machine.perform q a).Waiters) : q.CloseOk a := by
  cases a with
  | close socket errno => exact closeOk_of_close hr he.2.1 h
  | _ => trivial

/-- In every run the promise to the waiters is kept exactly when `bio_net_close` finds no writer but one
that has been woken, next to a reader. -/
theorem waiters_released_iff {as : List NetAction} (hl : machine.Legal init as) :
    (∀ bs, bs <+: as → (machine.run init bs).Waiters) ↔ (machine.restrict CloseOk).Legal init as :=
  Machine.always_iff (fun _ => waiters_of_restrict) (fun _ _ hr he => closeOk_of_waiters hr he) rfl hl

instance (q : NetState) : ∀ a, Decidable (q.CloseOk a)
  | .close socket _ => inferInstanceAs (Decidable (∀ impl ∈ q.sockets socket, ∀ p ∈ impl.write,
      impl.read ≠ none ∧ q.sched.coroState p.1 ≠ .waiting))
  | .sched _ | .listen _ _ | .connected _ _ | .connect _ _ | .accept _ _ _ _ | .recv _ _ _
  | .send _ _ _ | .finish _ _ | .platformUpdate _ _ => .isTrue trivial

instance (q : NetState) (a : NetAction) : Decidable ((machine.restrict CloseOk).enabled q a) :=
  inferInstanceAs (Decidable (machine.enabled q a ∧ q.CloseOk a))

/-- Three coroutines. The first listens on a socket. -/
def listenOne : List NetAction :=
  [.sched (.spawn false ⟨1, 1⟩), .sched (.spawn false ⟨2, 1⟩), .sched (.spawn false ⟨3, 1⟩),
    .sched .enterLoop, .sched .endPass, .sched .swap, .sched .resume, .listen 3 ⟨4, 1⟩]

/-- The first two wait, for writability and for readability, and the third closes the socket when the
event of the writer has been delivered. -/
theorem waiters_released_iff_ready :
    let as := listenOne ++ [.send ⟨4, 1⟩ ⟨5, 1⟩ (.error ewouldblock), .sched .resume,
      .recv ⟨4, 1⟩ ⟨6, 1⟩ (.error ewouldblock), .sched .resume, .sched .yield, .sched .endPass,
      .platformUpdate (fun _ => 0) [(⟨1, 1⟩, 0)], .sched .swap, .sched .resume, .close ⟨4, 1⟩ none]
    machine.Legal init as ∧
      ((∀ bs, bs <+: as → (machine.run init bs).Waiters) ↔ (machine.restrict CloseOk).Legal init as) ∧
      (machine.restrict CloseOk).Legal init as :=
  ⟨by decide +kernel, waiters_released_iff (by decide +kernel), by decide +kernel⟩

/-- The writer that waits in the runs below. -/
def strandedWriter : NetFrame := ⟨0, .op .send ⟨4, 1⟩, 3, ⟨5, 1⟩, false, false, 0⟩

/-- Only a writer waits when the socket is closed. -/
def closeOnWriter : List NetAction :=
  listenOne ++ [.send ⟨4, 1⟩ ⟨5, 1⟩ (.error ewouldblock), .sched .resume, .close ⟨4, 1⟩ none]

/-- A writer and a reader wait when the socket is closed. -/
def closeOnBoth : List NetAction :=
  listenOne ++ [.send ⟨4, 1⟩ ⟨5, 1⟩ (.error ewouldblock), .sched .resume,
    .recv ⟨4, 1⟩ ⟨6, 1⟩ (.error ewouldblock), .sched .resume, .close ⟨4, 1⟩ none]

/-- In the first run `bio_net_close` dereferences a null pointer. In the second one the writer is left
suspended on the closed socket. -/
theorem close_strands_writer :
    machine.Legal init closeOnWriter ∧ (machine.run init closeOnWriter).crashed = true ∧
    ¬(machine.run init closeOnWriter).Waiters ∧ machine.Legal init closeOnBoth ∧
    (machine.run init closeOnBoth).frames ⟨1, 1⟩ = some strandedWriter ∧
    (machine.run init closeOnBoth).sockets ⟨4, 1⟩ = none ∧
    (machine.run init closeOnBoth).sched.coroState ⟨1, 1⟩ = .waiting ∧
    ¬(machine.run init closeOnBoth).Waiters := by
  have hcrashed : (machine.run init closeOnWriter).crashed = true := by decide +kernel
  have hframe : (machine.run init closeOnBoth).frames ⟨1, 1⟩ = some strandedWriter := by decide +kernel
  have hsocket : (machine.run init closeOnBoth).sockets ⟨4, 1⟩ = none := by decide +kernel
  have hwait : (machine.run init closeOnBoth).sched.coroState ⟨1, 1⟩ = .waiting := by decide +kernel
  exact ⟨by decide +kernel, hcrashed, fun h => absurd (hcrashed.symm.trans h.crashed) nofun,
    by decide +kernel, hframe, hsocket, hwait,
    fun h => h.released ⟨1, 1⟩ strandedWriter .send ⟨4, 1⟩ hframe rfl hsocket hwait⟩

end NetState

end Bio
