import Bio.WindowsIo
import Bio.SchedulerPass

/-!
# The requests of Windows

What the kernel and the completion port have pointers to. A handle should have one object at most, and an
object should not be closed while a call uses it: nothing checks this (`OwnsHandle`).

* `Owes`: there will be a packet for the call, or there was one.
* `Inv.exact`: it is outstanding until it raises the signal of the request.
* `Inv.objects`: the completion mode says what the kernel does.

Results: `requests_exact`, and `packet_after_return`, where an object is made for a handle that has one.
-/

namespace Bio

namespace WindowsIo

variable {s : WindowsIo} {t : Sched} {memory : Handle → Option IoImpl} {c d h : Handle} {f g : IoFrame}

/-- The pointers that the kernel and the completion port have. -/
def outstanding (s : WindowsIo) : List (Handle × Nat) := s.inFlight ++ s.port

/-- There is a packet for the call, before or after it was taken. -/
def Owes (memory : Handle → Option IoImpl) (f : IoFrame) : Prop :=
  f.result = some .pending ∨ (∃ n, f.result = some (.success n)) ∧
    ∃ impl, memory f.impl = some impl ∧ impl.completionMode ≠ .skipOnSuccess

theorem not_owes_none (h : f.result = none) : ¬Owes memory f := by
  rintro (hpending | ⟨⟨n, hn⟩, _⟩)
  · cases h.symm.trans hpending
  · cases h.symm.trans hn

theorem not_owes_error {e : Nat} (h : f.result = some (.error e)) : ¬Owes memory f := by
  rintro (hpending | ⟨⟨n, hn⟩, _⟩)
  · cases h.symm.trans hpending
  · cases h.symm.trans hn

structure CallOk (t : Sched) (memory : Handle → Option IoImpl) (c : Handle) (f : IoFrame) : Prop where
  inside : t.Inside c
  held : t.Held c f.signal
  waits : f.waiting = true → t.Waits c f.signal ∧ t.Sleeps c f.signal True ∧ Owes memory f
  /-- no packet before the kernel was called -/
  live : f.result = none → t.ownerOf f.signal = some c
  impl : ∃ impl, memory f.impl = some impl ∧ impl.kind = f.kind ∧ impl.handle = f.handle ∧
    impl.stage = .opened ∧ impl.completionMode ≠ .unknown

/-- The kernel has the handle of an object, and does what the completion mode says. -/
def ImplOk (objects : Nat → Option FileObject) (impl : IoImpl) : Prop :=
  ∃ o, objects impl.handle = some o ∧ o.wrapped = true ∧
    (impl.completionMode = .unknown → o.associated = true ∧ o.skips = false) ∧
    (impl.completionMode ≠ .unknown → (o.posts = true ↔ impl.completionMode ≠ .skipOnSuccess))

/-- What holds of the objects. Those that are not closed have handles of their own. -/
structure Heap (memory : Handle → Option IoImpl) (objects : Nat → Option FileObject) : Prop where
  files : ∀ h impl, memory h = some impl → impl.kind = .file → impl.completionMode ≠ .unknown
  known : ∀ h impl, memory h = some impl → impl.stage ≠ .closed → ImplOk objects impl
  apart : ∀ h h' impl impl', memory h = some impl → memory h' = some impl' →
    impl.stage ≠ .closed → impl'.stage ≠ .closed → impl.handle = impl'.handle → h = h'
  fresh : ∀ k o, objects k = some o → o.wrapped = false → o.associated = false ∧ o.skips = false

structure Inv (s : WindowsIo) : Prop where
  sched : Sched.machine.Reachable s.sched
  calls : ∀ c f, s.frames c = some f → CallOk s.sched s.memory c f
  alive : ∀ p ∈ s.outstanding, ∃ f, s.frame p = some f
  exact : ∀ c f, s.frames c = some f →
    ((c, f.call) ∈ s.outstanding ↔ Owes s.memory f ∧ s.sched.ownerOf f.signal = some c)
  nodup : s.outstanding.Nodup
  issued : ∀ h, s.memory h ≠ none → h ∈ s.sched.issued
  heap : Heap s.memory s.objects
  safe : s.dangled = false ∧ s.stale = false

theorem frame_eq_some {p : Handle × Nat} :
    s.frame p = some f ↔ s.frames p.1 = some f ∧ f.call = p.2 := by
  rw [frame, Option.filter_eq_some_iff, decide_eq_true_iff]

/-! ## Steps of the scheduler -/

/-- The step lemma for one call. -/
theorem CallOk.step (hok : CallOk t memory c f) (hr : Sched.machine.Reachable t) {a : Action}
    (he : Sched.machine.enabled t a) (hidle : t.phase = .running c → f.waiting = false ∧ a ≠ .finish)
    (hnames : a.names f.signal = true → t.ownerOf f.signal ≠ some c) :
    CallOk (Sched.machine.perform t a) memory c f ∧
      ((Sched.machine.perform t a).ownerOf f.signal = some c ↔ t.ownerOf f.signal = some c) := by
  have hinside : (Sched.machine.perform t a).Inside c := by
    by_cases hp : t.phase = .running c
    · exact Sched.Inside.own hr hp he (hidle hp).2
    · exact hok.inside.step hr he hp
  have howner := hok.held.owner_iff hr he hinside.live hnames
  refine ⟨⟨hinside, hok.held.step hr he hnames, fun hwaiting => ?_, fun hresult =>
    howner.mpr (hok.live hresult), hok.impl⟩, howner⟩
  obtain ⟨hwaits, hsleeps, howes⟩ := hok.waits hwaiting
  have hp : t.phase ≠ .running c := fun hp => by simp [(hidle hp).1] at hwaiting
  exact ⟨(hwaits.step hr he hp hnames).1, hsleeps.effect (.of_step he)
    (Sched.inv_of_reachable hr).1 hok.inside.within hp, howes⟩

/-- A raise does not end a call. -/
theorem CallOk.raise (hok : CallOk t memory c f) (hr : Sched.machine.Reachable t) (hp : t.phase ≠ .pass)
    (ref : Handle) (hlive : f.result = none → (t.raiseSignal ref).1.ownerOf f.signal = some c) :
    CallOk (t.raiseSignal ref).1 memory c f := by
  refine ⟨hok.inside.raise ref, hok.held.raise ref, fun hwaiting => ?_, hlive, hok.impl⟩
  obtain ⟨hwaits, hsleeps, howes⟩ := hok.waits hwaiting
  exact ⟨hwaits.raise hr hp ref, (hsleeps.raiseSignal ref).mono And.left, howes⟩

/-- The signals of two calls are not the same. -/
theorem CallOk.signal_ne (hok : CallOk t memory c f) (hok' : CallOk t memory d g)
    (hr : Sched.machine.Reachable t) (hne : d ≠ c) : f.signal ≠ g.signal := by
  intro hsame
  have hmade := hok'.held.made
  rw [← hsame] at hmade
  exact hne ((Sched.accounted_of_reachable hr).made_unique d c f.signal hmade hok.held.made)

/-- An action of the scheduler that does not concern the calls. -/
theorem Inv.schedStep (hi : s.Inv) {a : Action} (he : Sched.machine.enabled s.sched a)
    (hidle : ∀ c f, s.frames c = some f → s.sched.phase = .running c →
      f.waiting = false ∧ a ≠ .finish)
    (hnames : ∀ c f, s.frames c = some f → a.names f.signal = true →
      s.sched.ownerOf f.signal ≠ some c) :
    Inv { s with sched := Sched.machine.perform s.sched a } := by
  refine ⟨hi.sched.step he, fun c f hf => ?_, hi.alive, fun c f hf => ?_, hi.nodup, fun h hh => ?_,
    hi.heap, hi.safe⟩
  · exact ((hi.calls c f hf).step hi.sched he (hidle c f hf) (hnames c f hf)).1
  · have howner := ((hi.calls c f hf).step hi.sched he (hidle c f hf) (hnames c f hf)).2
    exact (hi.exact c f hf).trans (and_congr_right fun _ => howner.symm)
  · exact (Sched.Effect.of_step he).stays_closed.issued h (hi.issued h hh)

/-- The signal of one request is raised, and its packet is not outstanding any more. -/
theorem Inv.wake (hi : s.Inv) {p : Handle × Nat} (hf : s.frame p = some f) (hresult : f.result ≠ none)
    (hp : s.sched.phase ≠ .pass) (inFlight port : List (Handle × Nat))
    (hmem : ∀ q, q ∈ inFlight ++ port ↔ q ∈ s.outstanding ∧ q ≠ p)
    (hnodup : (inFlight ++ port).Nodup) :
    Inv { s.raise f.signal with inFlight := inFlight, port := port } := by
  obtain ⟨hframe, hcall⟩ := frame_eq_some.mp hf
  have he : Sched.machine.enabled s.sched (.raise f.signal) := hp
  have hok := hi.calls p.1 f hframe
  have hclosed : (s.sched.raiseSignal f.signal).1.ownerOf f.signal = none :=
    Sched.checkSignal_iff_none.mp (Sched.checkSignal_raiseSignal s.sched f.signal)
  have hother : ∀ d g, s.frames d = some g → d ≠ p.1 →
      ((s.sched.raiseSignal f.signal).1.ownerOf g.signal = some d ↔
        s.sched.ownerOf g.signal = some d) := by
    intro d g hg hne
    have hok' := hi.calls d g hg
    refine hok'.held.owner_iff hi.sched he (hok'.inside.raise _).live fun hn => ?_
    exact absurd (by simpa [Action.names] using hn) (hok.signal_ne hok' hi.sched hne)
  refine ⟨hi.sched.step he, fun d g hg => ?_, fun q hq => hi.alive q ((hmem q).mp hq).1,
    fun d g hg => ?_, hnodup, fun h hh => ?_, hi.heap, hi.safe⟩
  · refine (hi.calls d g hg).raise hi.sched hp _ fun hnone => ?_
    by_cases hne : d = p.1
    · subst hne
      obtain rfl : f = g := Option.some.inj (hframe.symm.trans hg)
      exact absurd hnone hresult
    · exact (hother d g hg hne).mpr ((hi.calls d g hg).live hnone)
  · refine (hmem _).trans ?_
    by_cases hne : d = p.1
    · subst hne
      obtain rfl : f = g := Option.some.inj (hframe.symm.trans hg)
      have hsame : (p.1, f.call) = p := Prod.ext rfl hcall
      refine iff_of_false (fun hq => hq.2 hsame) fun hq => ?_
      cases hclosed.symm.trans hq.2
    · have hpair : (d, g.call) ≠ p := fun heq => hne (congrArg Prod.fst heq)
      rw [and_iff_left hpair, hi.exact d g hg]
      exact and_congr_right fun _ => (hother d g hg hne).symm
  · exact (Sched.Effect.of_step he).stays_closed.issued h (hi.issued h hh)

/-! ## Calls -/

theorem Inv.not_outstanding (hi : s.Inv) (hf : s.frames c = some f) (hnot : ¬Owes s.memory f) :
    (c, f.call) ∉ s.outstanding :=
  fun hmem => hnot ((hi.exact c f hf).mp hmem).1

/-- A call returns. No packet is outstanding for it. -/
theorem Inv.drop (hi : s.Inv) (hf : s.frames c = some f) (hnot : (c, f.call) ∉ s.outstanding) :
    (s.setFrame c none).Inv := by
  refine ⟨hi.sched, fun d g hg => hi.calls d g (Table.erase_some hg).2, fun p hp => ?_,
    fun d g hg => hi.exact d g (Table.erase_some hg).2, hi.nodup, hi.issued, hi.heap, hi.safe⟩
  obtain ⟨g, hg⟩ := hi.alive p hp
  obtain ⟨hframe, hcall⟩ := frame_eq_some.mp hg
  have hne : p.1 ≠ c := by
    rintro rfl
    obtain rfl : f = g := Option.some.inj (hf.symm.trans hframe)
    exact hnot ((Prod.ext rfl hcall : (p.1, f.call) = p) ▸ hp)
  exact ⟨g, frame_eq_some.mpr ⟨(Function.update_of_ne hne ..).trans hframe, hcall⟩⟩

/-- The call of `c` gets on. -/
theorem Inv.setFrame (hi : s.Inv) (hf : s.frames c = some f) (hcall : g.call = f.call)
    (hok : CallOk s.sched s.memory c g)
    (hexact : Owes s.memory g ∧ s.sched.ownerOf g.signal = some c ↔
      Owes s.memory f ∧ s.sched.ownerOf f.signal = some c) : (s.setFrame c (some g)).Inv := by
  refine ⟨hi.sched, fun d g' hg' => ?_, fun p hp => ?_, fun d g' hg' => ?_, hi.nodup, hi.issued,
    hi.heap, hi.safe⟩
  · rcases Table.insert_some hg' with ⟨rfl, rfl⟩ | ⟨_, hold⟩
    · exact hok
    · exact hi.calls d g' hold
  · obtain ⟨f', hf'⟩ := hi.alive p hp
    obtain ⟨hframe, hcall'⟩ := frame_eq_some.mp hf'
    by_cases hne : p.1 = c
    · obtain rfl : f = f' := Option.some.inj (hf.symm.trans (hne ▸ hframe))
      exact ⟨g, frame_eq_some.mpr ⟨hne ▸ Function.update_self .., hcall.trans hcall'⟩⟩
    · exact ⟨f', frame_eq_some.mpr ⟨(Function.update_of_ne hne ..).trans hframe, hcall'⟩⟩
  · rcases Table.insert_some hg' with ⟨rfl, rfl⟩ | ⟨_, hold⟩
    · rw [hcall]
      exact (hi.exact d f hf).trans hexact.symm
    · exact hi.exact d g' hold

/-! ## Objects -/

/-- What the calls rely on. -/
def shape (impl : IoImpl) : IoKind × Nat × CompletionMode × IoStage :=
  (impl.kind, impl.handle, impl.completionMode, impl.stage)

theorem shape_eq {impl impl' : IoImpl} (h : shape impl' = shape impl) :
    impl'.kind = impl.kind ∧ impl'.handle = impl.handle ∧
      impl'.completionMode = impl.completionMode ∧ impl'.stage = impl.stage := by
  obtain ⟨hkind, hrest⟩ := Prod.mk.inj h
  obtain ⟨hhandle, hrest⟩ := Prod.mk.inj hrest
  exact ⟨hkind, hhandle, Prod.mk.inj hrest⟩

/-- One object changes, and what the kernel has behind its handle. -/
theorem Heap.update {objects objects' : Nat → Option FileObject} {v : Option IoImpl}
    (hh : Heap memory objects)
    (hother : ∀ h' impl, h' ≠ h → memory h' = some impl → impl.stage ≠ .closed →
      objects' impl.handle = objects impl.handle)
    (hfile : ∀ impl, v = some impl → impl.kind = .file → impl.completionMode ≠ .unknown)
    (hnew : ∀ impl, v = some impl → impl.stage ≠ .closed → ImplOk objects' impl ∧
      ∀ h' impl', h' ≠ h → memory h' = some impl' → impl'.stage ≠ .closed →
        impl'.handle ≠ impl.handle)
    (hfresh : ∀ k o, objects' k = some o → objects k = some o ∨ o.wrapped = true) :
    Heap (Function.update memory h v) objects' := by
  refine ⟨fun x impl hx => ?_, fun x impl hx hopen => ?_,
    fun x y impl impl' hx hy hopen hopen' heq => ?_, fun k o ho hwrapped => ?_⟩
  · rcases Table.update_some hx with ⟨rfl, hv⟩ | ⟨_, hold⟩
    · exact hfile impl hv
    · exact hh.files x impl hold
  · rcases Table.update_some hx with ⟨rfl, hv⟩ | ⟨hne, hold⟩
    · exact (hnew impl hv hopen).1
    · obtain ⟨o, ho, hrest⟩ := hh.known x impl hold hopen
      exact ⟨o, (hother x impl hne hold hopen).trans ho, hrest⟩
  · rcases Table.update_some hx with ⟨hxh, hv⟩ | ⟨hxh, hold⟩ <;>
      rcases Table.update_some hy with ⟨hyh, hv'⟩ | ⟨hyh, hold'⟩
    · exact hxh.trans hyh.symm
    · exact absurd heq.symm ((hnew impl hv hopen).2 y impl' hyh hold' hopen')
    · exact absurd heq ((hnew impl' hv' hopen').2 x impl hxh hold hopen)
    · exact hh.apart x y impl impl' hold hold' hopen hopen' heq
  · rcases hfresh k o ho with hold | hnew
    · exact hh.fresh k o hold hwrapped
    · cases hwrapped.symm.trans hnew

/-- A handle that has an object changes. -/
theorem update_wrapped {objects : Nat → Option FileObject} {k : Nat} {v : Option FileObject}
    (hv : ∀ o, v = some o → o.wrapped = true) :
    ∀ x o, Function.update objects k v x = some o → objects x = some o ∨ o.wrapped = true := by
  intro x o ho
  rcases Table.update_some ho with ⟨_, hnew⟩ | ⟨_, hold⟩
  · exact .inr (hv o hnew)
  · exact .inl hold

theorem Owes.congr {memory' : Handle → Option IoImpl}
    (hsame : (memory' f.impl).map shape = (memory f.impl).map shape) :
    Owes memory' f ↔ Owes memory f := by
  have hmode : ∀ {m m' : Handle → Option IoImpl}, (m' f.impl).map shape = (m f.impl).map shape →
      (∃ impl, m f.impl = some impl ∧ impl.completionMode ≠ .skipOnSuccess) →
      ∃ impl, m' f.impl = some impl ∧ impl.completionMode ≠ .skipOnSuccess := by
    rintro m m' h ⟨impl, himpl, hmode⟩
    rw [himpl] at h
    obtain ⟨impl', himpl', hshape⟩ := Option.map_eq_some_iff.mp h
    exact ⟨impl', himpl', by rwa [(shape_eq hshape).2.2.1]⟩
  exact or_congr_right (and_congr_right fun _ => ⟨hmode hsame.symm, hmode hsame⟩)

/-- Nothing changes for the objects that are in use. -/
theorem Inv.reheap (hi : s.Inv) (memory' : Handle → Option IoImpl)
    (objects' : Nat → Option FileObject) (hh : Heap memory' objects')
    (hsame : ∀ c f, s.frames c = some f → (memory' f.impl).map shape = (s.memory f.impl).map shape)
    (hissued : ∀ h, memory' h ≠ none → h ∈ s.sched.issued) :
    Inv { s with memory := memory', objects := objects' } := by
  refine ⟨hi.sched, fun c f hf => ?_, hi.alive, fun c f hf => ?_, hi.nodup, hissued, hh, hi.safe⟩
  · obtain ⟨hinside, hheld, hwaits, hlive, impl, himpl, hkind, hhandle, hstage, hmode⟩ := hi.calls c f hf
    have hmap := hsame c f hf
    rw [himpl] at hmap
    obtain ⟨impl', himpl', hshape⟩ := Option.map_eq_some_iff.mp hmap
    obtain ⟨hkind', hhandle', hmode', hstage'⟩ := shape_eq hshape
    refine ⟨hinside, hheld, fun hwaiting => ?_, hlive, impl', himpl', hkind'.trans hkind,
      hhandle'.trans hhandle, hstage'.trans hstage, hmode' ▸ hmode⟩
    obtain ⟨hw, hs, howes⟩ := hwaits hwaiting
    exact ⟨hw, hs, (Owes.congr (hsame c f hf)).mpr howes⟩
  · exact (hi.exact c f hf).trans (and_congr_left fun _ => (Owes.congr (hsame c f hf)).symm)

theorem Heap.others {objects : Nat → Option FileObject} (hh : Heap memory objects) {impl : IoImpl}
    (himpl : memory h = some impl) (hopen : impl.stage ≠ .closed) :
    ∀ x i, x ≠ h → memory x = some i → i.stage ≠ .closed → i.handle ≠ impl.handle :=
  fun x i hne hx hopen' heq => hne (hh.apart x h i impl hx himpl hopen' hopen heq)

/-- An object changes. No call uses it, or what the calls rely on stays. -/
theorem Inv.changeImpl (hi : s.Inv) {impl : IoImpl} (himpl : s.memory h = some impl)
    {v : Option IoImpl} {objects : Nat → Option FileObject}
    (hh : Heap (Function.update s.memory h v) objects)
    (hused : ∀ c f, s.frames c = some f → f.impl = h → v.map shape = some (shape impl)) :
    Inv { s with memory := Function.update s.memory h v, objects := objects } := by
  refine hi.reheap _ _ hh (fun c f hf => ?_) fun x hx => ?_
  · rw [Function.update_apply]
    split
    · next heq => rw [hused c f hf heq, heq, himpl, Option.map_some]
    · rfl
  · rw [Function.update_apply] at hx
    split at hx
    · next heq => exact heq ▸ hi.issued h (by rw [himpl]; nofun)
    · exact hi.issued x hx

/-- The offset of an object moves. -/
theorem Inv.setOffset (hi : s.Inv) {impl : IoImpl} (himpl : s.memory h = some impl)
    (hopen : impl.stage ≠ .closed) (offset : Nat) :
    (s.setImpl h (some { impl with offset := offset })).Inv := by
  have hothers := hi.heap.others himpl hopen
  refine hi.changeImpl himpl (hi.heap.update (fun _ _ _ _ _ => rfl) (fun i hv => ?_)
    (fun i hv _ => ?_) fun _ _ => .inl) fun _ _ _ _ => rfl
  · obtain rfl := Option.some.inj hv
    exact hi.heap.files h impl himpl
  · obtain rfl := Option.some.inj hv
    exact ⟨hi.heap.known h impl himpl hopen, hothers⟩

/-! ## What the calls do -/

/-- `bio_wait_for_io`. -/
theorem Inv.waitForIo (hi : s.Inv) (hp : s.sched.phase = .running c) (hf : s.frames c = some f)
    (hwaiting : f.waiting = false) (howes : Owes s.memory f) (hcount : s.sched.CanCount c) :
    (s.waitForIo c f).Inv := by
  have hwait := Sched.wait_enabled hp [f.signal] true
  have h₁ : Inv { s with sched := s.sched.waitForSignals c [f.signal] true } := by
    rw [← Sched.perform_wait hp [f.signal] true]
    refine hi.schedStep hwait (fun d g hg hrun => ⟨?_, nofun⟩) fun _ _ _ => by simp [Action.names]
    obtain rfl := Phase.running.inj (hp.symm.trans hrun)
    rwa [Option.some.inj (hg.symm.trans hf)]
  have hok := hi.calls c f hf
  have hok₁ := h₁.calls c f hf
  refine h₁.setFrame hf (g := { f with waiting := true }) rfl
    ⟨hok₁.inside, hok₁.held, fun _ => ⟨hok.held.wait hi.sched hp hcount, ?_, howes⟩, hok₁.live,
      hok₁.impl⟩ Iff.rfl
  exact Sched.sleeps_wait_any hi.sched hp fun _ => trivial

/-- A call returns a number of bytes. -/
theorem Inv.transferred (hi : s.Inv) (hf : s.frames c = some f)
    (hnot : (c, f.call) ∉ s.outstanding) (n : Nat) : (s.transferred c f n).1.Inv := by
  obtain ⟨impl, himpl, _, _, hstage, _⟩ := (hi.calls c f hf).impl
  unfold WindowsIo.transferred
  rw [himpl]
  cases f.kind with
  | socket => exact hi.drop hf hnot
  | file => exact (hi.setOffset himpl (by rw [hstage]; nofun) _).drop hf hnot

/-- `bio_maybe_wait_after_success`. -/
theorem Inv.maybeWaitAfterSuccess (hi : s.Inv) (hp : s.sched.phase = .running c)
    (hf : s.frames c = some f) (hwaiting : f.waiting = false) {n : Nat}
    (hresult : f.result = some (.success n)) {impl : IoImpl} (himpl : s.memory f.impl = some impl)
    (hcount : s.sched.CanCount c) :
    (s.maybeWaitAfterSuccess c f impl.completionMode n).1.Inv := by
  unfold WindowsIo.maybeWaitAfterSuccess
  split
  · next hskip =>
    -- The kernel has posted no packet, and nobody else will raise the signal.
    have hnot : (c, f.call) ∉ s.outstanding := by
      refine hi.not_outstanding hf ?_
      rintro (hpending | ⟨_, i, hi', hmode⟩)
      · cases hresult.symm.trans hpending
      · obtain rfl := Option.some.inj (himpl.symm.trans hi')
        exact hmode hskip
    have hraised : (s.raise f.signal).Inv :=
      hi.wake (p := (c, f.call)) (frame_eq_some.mpr ⟨hf, rfl⟩) (by rw [hresult]; nofun)
        (by rw [hp]; nofun) s.inFlight s.port
        (fun q => ⟨fun hq => ⟨hq, fun heq => hnot (heq ▸ hq)⟩, And.left⟩) hi.nodup
    exact hraised.transferred hf hnot n
  · next hskip =>
    exact hi.waitForIo hp hf hwaiting (.inr ⟨⟨n, hresult⟩, impl, himpl, hskip⟩) hcount

/-- `bio_fread` and `bio_fwrite` behind their job. -/
theorem Inv.afterJob (hi : s.Inv) (hp : s.sched.phase = .running c) (hf : s.frames c = some f)
    (hwaiting : f.waiting = false) (hcount : s.sched.CanCount c) : (s.afterJob c f).1.Inv := by
  obtain ⟨impl, himpl, _⟩ := (hi.calls c f hf).impl
  unfold WindowsIo.afterJob
  cases hresult : f.result with
  | none => exact hi
  | some result =>
    cases result with
    | success n =>
      dsimp only
      rw [himpl]
      exact hi.maybeWaitAfterSuccess hp hf hwaiting hresult himpl hcount
    | pending => exact hi.waitForIo hp hf hwaiting (.inl hresult) hcount
    | error e => exact hi.drop hf (hi.not_outstanding hf (not_owes_error hresult))

/-- A call behind the wait for its request: its packet was taken. -/
theorem Inv.afterWait (hi : s.Inv) (hp : s.sched.phase = .running c) (hf : s.frames c = some f)
    (hwaiting : f.waiting = true) (overlapped : Except Nat Nat) :
    (s.afterWait c f overlapped).1.Inv := by
  have hok := hi.calls c f hf
  obtain ⟨impl, himpl, _⟩ := hok.impl
  have hnot : (c, f.call) ∉ s.outstanding := fun hmem =>
    (hok.waits hwaiting).1.closed hi.sched hp ((hi.exact c f hf).mp hmem).2
  unfold WindowsIo.afterWait
  rw [himpl]
  rcases f.result with _ | n | _ | e
  · exact hi
  · exact hi.transferred hf hnot n
  · cases overlapped with
    | ok n => exact hi.transferred hf hnot n
    | error e => exact hi.drop hf hnot
  · exact hi

/-! ## The kernel -/

/-- The kernel returns from the call of a request, and has posted a packet for it if it owes one. -/
theorem Inv.returned (hi : s.Inv) (hf : s.frames c = some f) (hnone : f.result = none)
    {result : CallResult} (inFlight port : List (Handle × Nat))
    (hmem : ∀ q, q ∈ inFlight ++ port ↔
      q ∈ s.outstanding ∨ q = (c, f.call) ∧ Owes s.memory { f with result := some result })
    (hnodup : (inFlight ++ port).Nodup) :
    Inv { s.setFrame c (some { f with result := some result }) with
      inFlight := inFlight, port := port } := by
  have hok := hi.calls c f hf
  have hnew : ∀ d g, Function.update s.frames c (some { f with result := some result }) d = some g →
      (d = c ∧ g = { f with result := some result }) ∨ (d ≠ c ∧ s.frames d = some g) :=
    fun _ _ => Table.insert_some
  have howes : ¬Owes s.memory f := not_owes_none hnone
  refine ⟨hi.sched, fun d g hg => ?_, fun q hq => ?_, fun d g hg => ?_, hnodup, hi.issued, hi.heap,
    hi.safe⟩
  · rcases hnew d g hg with ⟨rfl, rfl⟩ | ⟨_, hold⟩
    · exact ⟨hok.inside, hok.held, fun hwaiting => absurd (hok.waits hwaiting).2.2 howes, nofun,
        hok.impl⟩
    · exact hi.calls d g hold
  · rcases (hmem q).mp hq with hold | ⟨rfl, _⟩
    · obtain ⟨g, hg⟩ := hi.alive q hold
      obtain ⟨hframe, hcall⟩ := frame_eq_some.mp hg
      by_cases hne : q.1 = c
      · obtain rfl : f = g := Option.some.inj (hf.symm.trans (hne ▸ hframe))
        exact ⟨{ f with result := some result },
          frame_eq_some.mpr ⟨hne ▸ Function.update_self .., hcall⟩⟩
      · exact ⟨g, frame_eq_some.mpr ⟨(Function.update_of_ne hne ..).trans hframe, hcall⟩⟩
    · exact ⟨_, frame_eq_some.mpr ⟨Function.update_self .., rfl⟩⟩
  · rcases hnew d g hg with ⟨rfl, rfl⟩ | ⟨hne, hold⟩
    · have hnot := hi.not_outstanding hf howes
      refine (hmem _).trans ⟨fun h => ⟨(h.resolve_left hnot).2, hok.live hnone⟩, fun h =>
        .inr ⟨rfl, h.1⟩⟩
    · refine (hmem _).trans (Iff.trans ?_ (hi.exact d g hold))
      exact or_iff_left fun h => hne (congrArg Prod.fst h.1)

/-- The call of the kernel: the object knows whether there will be a packet. -/
theorem Inv.rwFile (hi : s.Inv) (hf : s.frames c = some f) (hnone : f.result = none)
    (result : CallResult) : (s.rwFile c f result).Inv := by
  obtain ⟨impl, himpl, hkind, hhandle, hstage, hmode⟩ := (hi.calls c f hf).impl
  obtain ⟨o, ho, _, _, hposts⟩ := hi.heap.known f.impl impl himpl (by rw [hstage]; nofun)
  have hpushed : (s.outstanding ++ [(c, f.call)]).Nodup := by
    rw [← List.concat_eq_append]
    exact hi.nodup.concat (hi.not_outstanding hf (not_owes_none hnone))
  have hkeep : ∀ {r}, ¬Owes s.memory { f with result := some r } →
      (s.setFrame c (some { f with result := some r })).Inv := fun hr =>
    hi.returned hf hnone s.inFlight s.port (fun q => by simp [hr, outstanding]) hi.nodup
  unfold WindowsIo.rwFile kernelCall
  cases result with
  | success n =>
    have hany : (s.objects f.handle).any FileObject.posts = o.posts := by
      rw [← hhandle, ho]
      rfl
    have howes : Owes s.memory { f with result := some (.success n) } ↔ o.posts = true := by
      rw [hposts hmode]
      refine ⟨?_, fun hskip => .inr ⟨⟨n, rfl⟩, impl, himpl, hskip⟩⟩
      rintro (hpending | ⟨_, i, hi', hskip⟩)
      · cases hpending
      · obtain rfl := Option.some.inj (himpl.symm.trans hi')
        exact hskip
    show Inv (if (s.objects f.handle).any FileObject.posts = true then _ else _)
    rw [hany]
    split
    · next hpost =>
      refine hi.returned hf hnone s.inFlight (s.port ++ [(c, f.call)]) (fun q => ?_) ?_
      · rw [← List.append_assoc, List.mem_append, List.mem_singleton, and_iff_left (howes.mpr hpost)]
        rfl
      · rw [← List.append_assoc]
        exact hpushed
    · next hpost => exact hkeep (mt howes.mp hpost)
  | pending =>
    have howes : Owes s.memory { f with result := some .pending } := .inl rfl
    have hperm : (s.inFlight ++ [(c, f.call)] ++ s.port).Perm (s.outstanding ++ [(c, f.call)]) := by
      rw [List.append_assoc, outstanding, List.append_assoc]
      exact List.perm_append_comm.append_left _
    refine hi.returned hf hnone (s.inFlight ++ [(c, f.call)]) s.port (fun q => ?_) ?_
    · rw [hperm.mem_iff, List.mem_append, List.mem_singleton, and_iff_left howes]
    · exact hperm.nodup_iff.mpr hpushed
  | error e => exact hkeep (not_owes_error rfl)

/-- An operation that was pending posts its packet. -/
theorem Inv.perm (hi : s.Inv) (inFlight port : List (Handle × Nat))
    (hperm : (inFlight ++ port).Perm s.outstanding) :
    Inv { s with inFlight := inFlight, port := port } :=
  ⟨hi.sched, hi.calls, fun p hp => hi.alive p (hperm.mem_iff.mp hp),
    fun c f hf => hperm.mem_iff.trans (hi.exact c f hf), hperm.nodup_iff.mpr hi.nodup, hi.issued,
    hi.heap, hi.safe⟩

theorem Inv.complete (hi : s.Inv) {p : Handle × Nat} (hp : p ∈ s.inFlight) :
    Inv { s with inFlight := s.inFlight.erase p, port := s.port ++ [p] } := by
  refine hi.perm _ _ ?_
  have hmoved : (s.inFlight.erase p ++ (s.port ++ [p])).Perm (p :: s.inFlight.erase p ++ s.port) := by
    rw [← List.append_assoc]
    exact List.perm_append_singleton p _
  exact hmoved.trans ((List.perm_cons_erase hp).symm.append_right s.port)

/-- `bio_platform_update`: the calls behind the packets are still there. -/
theorem Inv.dispatch {l rest : List (Handle × Nat)} (hi : Inv { s with port := l ++ rest })
    (hp : s.sched.phase = .polling) : Inv { l.foldl WindowsIo.dispatch s with port := rest } := by
  induction l generalizing s with
  | nil => exact hi
  | cons p l ih =>
    have hmem : p ∈ outstanding { s with port := p :: (l ++ rest) } :=
      List.mem_append_right _ List.mem_cons_self
    obtain ⟨f, hf⟩ := hi.alive p hmem
    obtain ⟨hframe, hcall⟩ := frame_eq_some.mp hf
    have howes : Owes s.memory f :=
      ((hi.exact p.1 f hframe).mp ((Prod.ext rfl hcall : (p.1, f.call) = p) ▸ hmem)).1
    have hresult : f.result ≠ none := fun hnone => not_owes_none hnone howes
    have hnodup := List.nodup_middle.mp hi.nodup
    obtain ⟨hnot, hnodup⟩ := List.nodup_cons.mp hnodup
    have hnext : WindowsIo.dispatch s p = s.raise f.signal := by
      rw [WindowsIo.dispatch, show s.frame p = some f from hf]
    rw [List.foldl_cons, hnext]
    refine ih (s := s.raise f.signal) ?_ ((Sched.raiseSignal_frame s.sched f.signal).2.1.trans hp)
    refine hi.wake hf hresult (by rw [show s.sched.phase = _ from hp]; nofun) s.inFlight
      (l ++ rest) (fun q => ?_) hnodup
    have hiff : q ∈ s.inFlight ++ p :: (l ++ rest) ↔ q = p ∨ q ∈ s.inFlight ++ (l ++ rest) := by
      rw [List.perm_middle.mem_iff, List.mem_cons]
    show _ ↔ q ∈ s.inFlight ++ p :: (l ++ rest) ∧ q ≠ p
    rw [hiff]
    refine ⟨fun hq => ⟨.inr hq, fun heq => hnot (heq ▸ hq)⟩, fun hq => hq.1.resolve_left hq.2⟩

theorem Inv.platformUpdate (hi : s.Inv) (hp : s.sched.phase = .polling) (n : Nat) :
    (s.platformUpdate n).Inv := by
  refine Inv.dispatch (l := s.port.take n) ?_ hp
  rw [List.take_append_drop]
  exact hi

/-! ## New calls -/

/-- `bio_prepare_io_req`. -/
theorem Inv.prepareIoReq (hi : s.Inv) (hp : s.sched.phase = .running c) (hnone : s.frames c = none)
    (hfresh : s.sched.Fresh f.signal) (hresult : f.result = none) (hwaiting : f.waiting = false)
    (himpl : ∃ impl, s.memory f.impl = some impl ∧ impl.kind = f.kind ∧ impl.handle = f.handle ∧
      impl.stage = .opened ∧ impl.completionMode ≠ .unknown) : (s.prepareIoReq c f).Inv := by
  have hmake : Sched.machine.enabled s.sched (.makeSignal f.signal) := ⟨by rw [hp]; rfl, hfresh⟩
  have h₁ : Inv { s with sched := s.sched.makeSignal c f.signal } := by
    rw [← Sched.perform_makeSignal hp f.signal]
    refine hi.schedStep hmake (fun d g hg hrun => ?_) fun _ _ _ => by simp [Action.names]
    obtain rfl := Phase.running.inj (hp.symm.trans hrun)
    cases hnone.symm.trans hg
  have hp₁ : (s.sched.makeSignal c f.signal).phase = .running c := (Sched.makeSignal_phase ..).trans hp
  have hold : ∀ {p}, p ∈ s.outstanding → p.1 ≠ c := by
    rintro p hmem rfl
    obtain ⟨g, hg⟩ := hi.alive p hmem
    cases hnone.symm.trans (frame_eq_some.mp hg).1
  refine ⟨h₁.sched, fun d g hg => ?_, fun p hmem => ?_, fun d g hg => ?_, h₁.nodup, h₁.issued,
    h₁.heap, h₁.safe⟩
  · rcases Table.insert_some hg with ⟨rfl, rfl⟩ | ⟨_, hold⟩
    · refine ⟨.of_running h₁.sched hp₁, .of_makeSignal hi.sched hp hfresh, fun hwait => ?_,
        fun _ => Sched.makeSignal_owner (Sched.Inside.of_running hi.sched hp).live, himpl⟩
      rw [hwaiting] at hwait
      cases hwait
    · exact h₁.calls d g hold
  · obtain ⟨g, hg⟩ := hi.alive p hmem
    obtain ⟨hframe, hcall⟩ := frame_eq_some.mp hg
    exact ⟨g, frame_eq_some.mpr ⟨(Function.update_of_ne (hold hmem) ..).trans hframe, hcall⟩⟩
  · rcases Table.insert_some hg with ⟨rfl, rfl⟩ | ⟨_, hold'⟩
    · exact iff_of_false (fun hmem => hold hmem rfl) fun h => not_owes_none hresult h.1
    · exact h₁.exact d g hold'

theorem resolve_some {kind : IoKind} {impl : IoImpl} (h : s.resolve kind c = some impl) :
    s.memory c = some impl ∧ impl.kind = kind ∧ impl.stage = .opened := by
  obtain ⟨himpl, hok⟩ := Option.filter_eq_some_iff.mp h
  exact ⟨himpl, of_decide_eq_true hok⟩

/-- `bio_fread` and `bio_fwrite` up to their job. -/
theorem Inv.rw (hi : s.Inv) (hp : s.sched.phase = .running c) (hnone : s.frames c = none)
    {signal : Handle} (hfresh : s.sched.Fresh signal) (size : Nat) : (s.rw c h signal size).1.Inv := by
  unfold WindowsIo.rw
  split
  · next impl hres =>
    obtain ⟨himpl, hkind, hstage⟩ := resolve_some hres
    exact hi.prepareIoReq hp hnone hfresh rfl rfl
      ⟨impl, himpl, hkind, rfl, hstage, hi.heap.files h impl himpl hkind⟩
  · exact hi

/-- The completion mode of a socket is known, and is what the kernel does. -/
theorem Inv.initCompletionMode (hi : s.Inv) {impl : IoImpl} (himpl : s.memory h = some impl)
    (hkind : impl.kind = .socket) (hstage : impl.stage = .opened) (skips : Bool) :
    (s.initCompletionMode h impl skips).1.Inv ∧
      ∃ impl', (s.initCompletionMode h impl skips).1.memory h = some impl' ∧
        impl'.kind = .socket ∧ impl'.handle = impl.handle ∧ impl'.stage = .opened ∧
        impl'.completionMode = (s.initCompletionMode h impl skips).2 ∧
        impl'.completionMode ≠ .unknown := by
  unfold WindowsIo.initCompletionMode
  split
  · next hunknown =>
    obtain ⟨o, ho, hwrapped, hfresh, _⟩ := hi.heap.known h impl himpl (by rw [hstage]; nofun)
    obtain ⟨hassociated, hskips⟩ := hfresh hunknown
    have hopen : impl.stage ≠ .closed := by
      rw [hstage]
      nofun
    have hapart := hi.heap.others himpl hopen
    refine ⟨hi.changeImpl himpl (hi.heap.update (fun x i hne hx hopen' => ?_) (fun i hv => ?_)
      (fun i hv _ => ?_) (update_wrapped fun o' ho' => ?_)) fun c f hf heq => ?_, _,
      Function.update_self .., hkind, rfl, hstage, rfl, ?_⟩
    · exact Function.update_of_ne (hapart x i hne hx hopen') ..
    · obtain rfl := Option.some.inj hv
      intro hfile
      cases hkind.symm.trans hfile
    · obtain rfl := Option.some.inj hv
      refine ⟨⟨{ o with skips := o.skips || skips }, ?_, hwrapped, fun hmode => ?_, fun _ => ?_⟩,
        hapart⟩
      · show Function.update s.objects impl.handle _ impl.handle = _
        rw [Function.update_self, ho]
        rfl
      · cases skips <;> cases hmode
      · cases skips <;> simp [FileObject.posts, hassociated, hskips]
    · rw [ho] at ho'
      exact Option.some.inj ho' ▸ hwrapped
    · -- No call uses the socket before its mode is known.
      obtain ⟨i, hi', _, _, _, hmode⟩ := (hi.calls c f hf).impl
      exact absurd (Option.some.inj (himpl.symm.trans (heq ▸ hi')) ▸ hunknown) hmode
    · cases skips <;> nofun
  · next hknown => exact ⟨hi, impl, himpl, hkind, rfl, hstage, rfl, hknown⟩

theorem initCompletionMode_frame (s : WindowsIo) (h : Handle) (impl : IoImpl) (skips : Bool) :
    (s.initCompletionMode h impl skips).1.sched = s.sched ∧
      (s.initCompletionMode h impl skips).1.frames = s.frames ∧
      (s.initCompletionMode h impl skips).1.calls = s.calls := by
  unfold WindowsIo.initCompletionMode
  split <;> exact ⟨rfl, rfl, rfl⟩

/-- The kernel is called at once: this is a request with its job. -/
theorem prepare_kernelCall (s : WindowsIo) (c : Handle) (f : IoFrame) (result : CallResult) :
    (s.prepareIoReq c { f with result := some result }).kernelCall (c, f.call) f.handle result =
      (s.prepareIoReq c { f with result := none }).rwFile c { f with result := none } result := by
  have hframes : Function.update (Function.update s.frames c (some { f with result := none })) c
      (some { f with result := some result }) =
        Function.update s.frames c (some { f with result := some result }) := Function.update_idem ..
  unfold WindowsIo.rwFile WindowsIo.prepareIoReq WindowsIo.setFrame
  dsimp only
  rw [hframes]

theorem kernelCall_frame (s : WindowsIo) (p : Handle × Nat) (handle : Nat) (result : CallResult) :
    (s.kernelCall p handle result).sched = s.sched ∧ (s.kernelCall p handle result).frames = s.frames ∧
      (s.kernelCall p handle result).memory = s.memory := by
  unfold WindowsIo.kernelCall
  split
  · split <;> exact ⟨rfl, rfl, rfl⟩
  · exact ⟨rfl, rfl, rfl⟩
  · exact ⟨rfl, rfl, rfl⟩

/-- A request for which the kernel is called at once. -/
theorem Inv.request (hi : s.Inv) (hp : s.sched.phase = .running c) (hnone : s.frames c = none)
    (hfresh : s.sched.Fresh f.signal) (hcount : s.sched.CanCount c) {result : CallResult}
    (hresult : f.result = some result) (hwaiting : f.waiting = false)
    (himpl : ∃ impl, s.memory f.impl = some impl ∧ impl.kind = f.kind ∧ impl.handle = f.handle ∧
      impl.stage = .opened ∧ impl.completionMode ≠ .unknown) :
    let s' := (s.prepareIoReq c f).kernelCall (c, f.call) f.handle result
    s'.Inv ∧ s'.sched.phase = .running c ∧ s'.frames c = some f ∧ s'.memory = s.memory ∧
      s'.sched.CanCount c := by
  obtain ⟨hsched, hframes, hmemory⟩ := kernelCall_frame (s.prepareIoReq c f) (c, f.call) f.handle result
  have hprepared := hi.prepareIoReq (f := { f with result := none }) hp hnone hfresh rfl hwaiting himpl
  have hcalled := hprepared.rwFile (Function.update_self ..) rfl result
  rw [← prepare_kernelCall, ← hresult] at hcalled
  refine ⟨hcalled, ?_, (congrFun hframes c).trans (Function.update_self ..), hmemory, ?_⟩
  · rw [hsched]
    exact (Sched.makeSignal_phase ..).trans hp
  · rw [hsched]
    exact hcount.makeSignal f.signal

/-- `bio_net_send` and `bio_net_recv`. -/
theorem Inv.netTransfer (hi : s.Inv) (hp : s.sched.phase = .running c) (hnone : s.frames c = none)
    {signal : Handle} (hfresh : s.sched.Fresh signal) (hcount : s.sched.CanCount c) (size : Nat)
    (skips : Bool) (result : CallResult) : (s.netTransfer c h signal size skips result).1.Inv := by
  unfold WindowsIo.netTransfer
  split
  · next impl hres =>
    obtain ⟨himpl, hkind, hstage⟩ := resolve_some hres
    obtain ⟨hi₁, impl', himpl', hkind', hhandle', hstage', hmode', hknown⟩ :=
      hi.initCompletionMode himpl hkind hstage skips
    obtain ⟨hsched, hframes, _⟩ := initCompletionMode_frame s h impl skips
    revert hi₁ himpl' hmode' hsched hframes
    generalize s.initCompletionMode h impl skips = init
    obtain ⟨s₁, mode⟩ := init
    intro hi₁ himpl' hmode' hsched hframes
    dsimp only at hi₁ himpl' hmode' hsched hframes ⊢
    obtain ⟨hcalled, hp₂, hf₂, hmemory₂, hcount₂⟩ := hi₁.request
      (f := ⟨s₁.calls, .socket, h, impl.handle, min size maxDword, 0, signal, some result, false⟩)
      (hsched ▸ hp) (hframes ▸ hnone) (hsched ▸ hfresh) (hsched ▸ hcount) rfl rfl
      ⟨impl', himpl', hkind', hhandle', hstage', hknown⟩
    cases result with
    | success n =>
      rw [← hmode']
      exact hcalled.maybeWaitAfterSuccess hp₂ hf₂ rfl rfl (hmemory₂ ▸ himpl') hcount₂
    | pending => exact hcalled.waitForIo hp₂ hf₂ rfl (.inl rfl) hcount₂
    | error e => exact hcalled.drop hf₂ (hcalled.not_outstanding hf₂ (not_owes_error rfl))
  · exact hi

/-! ## Opening and closing -/

/-- No call uses an object that is not open. -/
theorem Inv.unused (hi : s.Inv) {impl : IoImpl} (himpl : s.memory h = some impl)
    (hstage : impl.stage ≠ .opened) : ∀ c f, s.frames c = some f → f.impl ≠ h := by
  rintro c f hf rfl
  obtain ⟨i, hi', _, _, hopened, _⟩ := (hi.calls c f hf).impl
  rw [Option.some.inj (himpl.symm.trans hi')] at hstage
  exact hstage hopened

/-- The kernel gives out a handle. -/
theorem Inv.create (hi : s.Inv) {handle : Nat} (hnone : s.objects handle = none) :
    (s.setObject handle (some ⟨false, false, false⟩)).Inv := by
  refine hi.reheap s.memory _ ⟨hi.heap.files, fun x i hx hopen => ?_, hi.heap.apart,
    fun k o ho hwrapped => ?_⟩ (fun _ _ _ => rfl) hi.issued
  · obtain ⟨o, ho, hrest⟩ := hi.heap.known x i hx hopen
    refine ⟨o, (Function.update_of_ne ?_ ..).trans ho, hrest⟩
    rintro rfl
    cases hnone.symm.trans ho
  · rcases Table.insert_some ho with ⟨_, rfl⟩ | ⟨_, hold⟩
    · exact ⟨rfl, rfl⟩
    · exact hi.heap.fresh k o hold hwrapped

/-- An object is made for a handle that has none, and says what the kernel does. -/
theorem Inv.wrap (hi : s.Inv) (hidle : s.busy = false) (huser : s.sched.phase.userCode = true)
    (hfresh : s.sched.Fresh h) {impl : IoImpl} {o o' : FileObject}
    (ho : s.objects impl.handle = some o) (hwrapped : o.wrapped = false)
    (hfile : impl.kind = .file → impl.completionMode ≠ .unknown) (hwrapped' : o'.wrapped = true)
    (hunknown : impl.completionMode = .unknown → o'.associated = true ∧ o'.skips = false)
    (hposts : impl.completionMode ≠ .unknown →
      (o'.posts = true ↔ impl.completionMode ≠ .skipOnSuccess)) :
    Inv { (s.setObject impl.handle (some o')).setImpl h (some impl) with
      sched := s.sched.perform (.issue h) } := by
  have hnew : s.memory h = none := by
    by_contra hne
    exact hfresh.2 (hi.issued h hne)
  have hapart : ∀ x i, x ≠ h → s.memory x = some i → i.stage ≠ .closed → i.handle ≠ impl.handle := by
    intro x i _ hx hopen heq
    obtain ⟨o₁, ho₁, hwrapped₁, _⟩ := hi.heap.known x i hx hopen
    rw [heq, ho] at ho₁
    rw [← Option.some.inj ho₁, hwrapped] at hwrapped₁
    cases hwrapped₁
  have hissue : Sched.machine.enabled s.sched (.issue h) := ⟨huser, hfresh⟩
  have h₁ := hi.schedStep hissue (fun c f hf hrun => by simp [busy, hrun, Phase.mcoRunning, hf] at hidle)
    fun _ _ _ => by simp [Action.names]
  have hheap : Heap (Function.update s.memory h (some impl))
      (Function.update s.objects impl.handle (some o')) := by
    refine hi.heap.update (fun x i hne hx hopen => Function.update_of_ne (hapart x i hne hx hopen) ..)
      (fun i hv => Option.some.inj hv ▸ hfile) (fun i hv _ => ?_)
      (update_wrapped fun o₁ ho₁ => Option.some.inj ho₁ ▸ hwrapped')
    obtain rfl := Option.some.inj hv
    exact ⟨⟨o', Function.update_self .., hwrapped', hunknown, hposts⟩, hapart⟩
  refine h₁.reheap (Function.update s.memory h (some impl)) _ hheap (fun c f hf => ?_) fun x hx => ?_
  · obtain ⟨i, hi', _⟩ := (hi.calls c f hf).impl
    have hne : f.impl ≠ h := by
      rintro heq
      cases hnew.symm.trans (heq ▸ hi')
    rw [Function.update_of_ne hne]
  · by_cases hxh : x = h
    · exact hxh ▸ List.mem_cons_self
    · rw [Function.update_of_ne hxh] at hx
      exact List.mem_cons_of_mem _ (hi.issued x hx)

theorem unwrapped_some {handle : Nat} (h : s.unwrapped handle = true) :
    ∃ o, s.objects handle = some o ∧ o.wrapped = false := by
  obtain ⟨o, ho, hwrapped⟩ := (Option.any_eq_true _ _).mp h
  exact ⟨o, ho, by simpa using hwrapped⟩

theorem Inv.fdopen (hi : s.Inv) (hidle : s.busy = false) (huser : s.sched.phase.userCode = true)
    (hfresh : s.sched.Fresh h) {handle : Nat} (hunwrapped : s.unwrapped handle = true)
    (port skips : Bool) : (s.fdopen handle h port skips).Inv := by
  obtain ⟨o, ho, hwrapped⟩ := unwrapped_some hunwrapped
  obtain ⟨hassociated, hskips⟩ := hi.heap.fresh handle o ho hwrapped
  unfold WindowsIo.fdopen
  rw [ho]
  refine hi.wrap hidle huser hfresh ho hwrapped (fun _ => ?_) rfl (fun hmode => ?_) fun _ => ?_
  all_goals cases port <;> cases skips <;> simp_all [FileObject.posts]

theorem Inv.netMakeSocket (hi : s.Inv) (hidle : s.busy = false) (huser : s.sched.phase.userCode = true)
    (hfresh : s.sched.Fresh h) {handle : Nat} (hunwrapped : s.unwrapped handle = true)
    (init : Option Bool) : (s.netMakeSocket handle h init).Inv := by
  obtain ⟨o, ho, hwrapped⟩ := unwrapped_some hunwrapped
  obtain ⟨_, hskips⟩ := hi.heap.fresh handle o ho hwrapped
  unfold WindowsIo.netMakeSocket
  rw [ho]
  cases init with
  | none =>
    exact hi.wrap hidle huser hfresh ho hwrapped nofun rfl (fun _ => by simp [hskips]) (absurd rfl)
  | some skips =>
    refine hi.wrap hidle huser hfresh ho hwrapped nofun rfl (fun hmode => ?_) fun _ => ?_
    all_goals cases skips <;> simp_all [FileObject.posts]

/-- `bio_fseek`. -/
theorem Inv.fseek (hi : s.Inv) (offset : Int) (origin : Option Whence) :
    (s.fseek h offset origin).1.Inv := by
  unfold WindowsIo.fseek
  split
  · next impl hres =>
    obtain ⟨himpl, _, hstage⟩ := resolve_some hres
    split
    · exact hi.setOffset himpl (by rw [hstage]; nofun) _
    · exact hi
  · exact hi

/-- `bio_fclose` up to its job. -/
theorem Inv.fclose (hi : s.Inv) (hunused : ∀ c f, s.frames c = some f → f.impl ≠ h) :
    (s.fclose h).1.Inv := by
  unfold WindowsIo.fclose
  split
  · next impl hres =>
    obtain ⟨himpl, _, hstage⟩ := resolve_some hres
    have hopen : impl.stage ≠ .closed := by
      rw [hstage]
      nofun
    have hothers := hi.heap.others himpl hopen
    refine hi.changeImpl himpl (hi.heap.update (fun _ _ _ _ _ => rfl) (fun i hv => ?_)
      (fun i hv _ => ?_) fun _ _ => .inl) fun c f hf heq => absurd heq (hunused c f hf)
    · exact Option.some.inj hv ▸ hi.heap.files h impl himpl
    · obtain rfl := Option.some.inj hv
      exact ⟨hi.heap.known h impl himpl hopen, hothers⟩
  · exact hi

/-- `bio_fs_close_file`. -/
theorem Inv.closeFile (hi : s.Inv) {impl : IoImpl} (himpl : s.memory h = some impl)
    (hstage : impl.stage = .closing) : (s.closeFile h impl).Inv := by
  have hothers := hi.heap.others himpl (by rw [hstage]; nofun)
  refine hi.changeImpl himpl (hi.heap.update (fun x i hne hx hopen => ?_) (fun i hv => ?_)
    (fun i hv hopen => ?_) (update_wrapped nofun)) fun c f hf heq => ?_
  · exact Function.update_of_ne (hothers x i hne hx hopen) ..
  · exact Option.some.inj hv ▸ hi.heap.files h impl himpl
  · exact absurd rfl (Option.some.inj hv ▸ hopen)
  · exact absurd heq (hi.unused himpl (by rw [hstage]; nofun) c f hf)

/-- The object is freed. -/
theorem Inv.free (hi : s.Inv) {impl : IoImpl} (himpl : s.memory h = some impl)
    (hstage : impl.stage = .closed) : (s.setImpl h none).Inv :=
  hi.changeImpl himpl (hi.heap.update (fun _ _ _ _ _ => rfl) nofun nofun fun _ _ => .inl)
    fun c f hf heq => absurd heq (hi.unused himpl (by rw [hstage]; nofun) c f hf)

/-- `bio_net_close`. -/
theorem Inv.netClose (hi : s.Inv) (hunused : ∀ c f, s.frames c = some f → f.impl ≠ h) :
    (s.netClose h).1.Inv := by
  unfold WindowsIo.netClose
  split
  · next impl hres =>
    obtain ⟨himpl, _, hstage⟩ := resolve_some hres
    have hothers := hi.heap.others himpl (by rw [hstage]; nofun)
    exact hi.changeImpl himpl (hi.heap.update
      (fun x i hne hx hopen => Function.update_of_ne (hothers x i hne hx hopen) ..) nofun nofun
      (update_wrapped nofun)) fun c f hf heq => absurd heq (hunused c f hf)
  · exact hi

/-! ## Runs -/

/-- A handle has one object at most, and no object is closed while a call uses it. -/
def OwnsHandle (s : WindowsIo) : WindowsAction → Prop
  | .fdopen handle _ _ _ | .makeSocket handle _ _ => s.unwrapped handle = true
  | .fclose h | .netClose h => ∀ c ∈ s.sched.issued, ∀ f ∈ s.frames c, f.impl ≠ h
  | _ => True

instance (s : WindowsIo) : ∀ a, Decidable (s.OwnsHandle a)
  | .fdopen handle _ _ _ | .makeSocket handle _ _ =>
    inferInstanceAs (Decidable (s.unwrapped handle = true))
  | .fclose h | .netClose h =>
    inferInstanceAs (Decidable (∀ c ∈ s.sched.issued, ∀ f ∈ s.frames c, f.impl ≠ h))
  | .sched _ | .create _ | .fread _ _ _ | .fwrite _ _ _ | .rwFile _ _ | .afterJob
  | .netSend _ _ _ _ _ | .netRecv _ _ _ _ _ | .afterWait _ | .complete _ | .fseek _ _ _
  | .closeFile _ | .free _ | .platformUpdate _ => .isTrue trivial

theorem inv_init : init.Inv := by
  refine ⟨.init rfl, fun c f hf => ?_, fun p hp => absurd hp List.not_mem_nil, fun c f hf => ?_, .nil,
    fun h hh => absurd rfl hh, ⟨fun h impl hh => ?_, fun h impl hh => ?_, fun h h' impl impl' hh => ?_,
    fun k o ho => ?_⟩, rfl, rfl⟩
  · cases hf
  · cases hf
  · cases hh
  · cases hh
  · cases hh
  · cases ho

theorem inCoro_running (hp : s.sched.phase = .running c) (g : Handle → WindowsIo) :
    s.inCoro g = g c := by
  unfold inCoro
  rw [hp]
  rfl

theorem perform_rwFile (hf : s.frames c = some f) (result : CallResult) :
    machine.perform s (.rwFile c result) = s.rwFile c f result := by
  simp only [machine, perform, hf]

theorem perform_afterJob (hp : s.sched.phase = .running c) (hf : s.frames c = some f) :
    machine.perform s .afterJob = (s.afterJob c f).1 := by
  simp only [machine, perform, inCoro_running hp, hf]

theorem perform_afterWait (hp : s.sched.phase = .running c) (hf : s.frames c = some f)
    (overlapped : Except Nat Nat) :
    machine.perform s (.afterWait overlapped) = (s.afterWait c f overlapped).1 := by
  simp only [machine, perform, inCoro_running hp, hf]

theorem perform_closeFile {impl : IoImpl} (himpl : s.memory h = some impl) :
    machine.perform s (.closeFile h) = s.closeFile h impl := by
  simp only [machine, perform, himpl]

theorem none_of_idle (hidle : s.busy = false) (hp : s.sched.phase = .running c) :
    s.frames c = none := by
  simpa [busy, hp, Phase.mcoRunning] using hidle

/-- The step lemma. -/
theorem Inv.step (hi : s.Inv) {a : WindowsAction} (he : machine.enabled s a) (ha : s.OwnsHandle a) :
    (machine.perform s a).Inv := by
  have hunused : ∀ {h}, (∀ c ∈ s.sched.issued, ∀ f ∈ s.frames c, f.impl ≠ h) →
      ∀ c f, s.frames c = some f → f.impl ≠ h := fun hh c f hf =>
    hh c (hi.calls c f hf).inside.within.issued f hf
  cases a with
  | sched a =>
    obtain ⟨_, hen, hblocked, hfinish, hlocal⟩ := he
    refine hi.schedStep hen (fun c f hf hp => ⟨?_, fun hend => ?_⟩) fun c f hf hn hown => ?_
    · simpa [blocked, hp, Phase.mcoRunning, hf] using hblocked
    · cases (none_of_idle (hfinish hend) hp).symm.trans hf
    · have hnot := hlocal f.signal (Action.mem_signals.mpr hn)
      simp [isLocal, hown, hf] at hnot
  | create handle => exact hi.create he.2
  | fdopen handle h port skips => exact hi.fdopen he.2.2.1 he.2.1 he.2.2.2.1 ha port skips
  | makeSocket handle h init => exact hi.netMakeSocket he.2.2.1 he.2.1 he.2.2.2.1 ha init
  | fread h signal size | fwrite h signal size =>
    obtain ⟨_, hidle, hfresh, hany⟩ := he
    obtain ⟨c, hp, _⟩ := Sched.running_of_any hany
    show Inv (s.inCoro _)
    rw [inCoro_running hp]
    exact hi.rw hp (none_of_idle hidle hp) hfresh size
  | rwFile c result =>
    obtain ⟨_, f, hf, hnone, _⟩ := he
    rw [perform_rwFile hf]
    exact hi.rwFile hf hnone result
  | afterJob =>
    obtain ⟨_, c, hc, f, hf, hwaiting, _, hcount⟩ := he
    have hp := Phase.eq_running hc
    rw [perform_afterJob hp hf]
    exact hi.afterJob hp hf hwaiting hcount
  | netSend h signal size skips result | netRecv h signal size skips result =>
    obtain ⟨_, ⟨hidle, hfresh, hany⟩, _⟩ := he
    obtain ⟨c, hp, hcount⟩ := Sched.running_of_any hany
    show Inv (s.inCoro _)
    rw [inCoro_running hp]
    exact hi.netTransfer hp (none_of_idle hidle hp) hfresh hcount size skips result
  | afterWait overlapped =>
    obtain ⟨_, c, hc, f, hf, hwaiting, _⟩ := he
    have hp := Phase.eq_running hc
    rw [perform_afterWait hp hf]
    exact hi.afterWait hp hf hwaiting overlapped
  | complete p => exact hi.complete he.2
  | fseek h offset origin => exact hi.fseek offset origin
  | fclose h => exact hi.fclose (hunused ha)
  | closeFile h =>
    obtain ⟨_, impl, himpl, hstage⟩ := he
    rw [perform_closeFile himpl]
    exact hi.closeFile himpl hstage
  | free h =>
    obtain ⟨_, impl, himpl, hstage⟩ := he
    exact hi.free himpl hstage
  | netClose h => exact hi.netClose (hunused ha)
  | platformUpdate n => exact hi.platformUpdate he.2 n

theorem inv_of_restrict (hr : (machine.restrict OwnsHandle).Reachable s) : s.Inv :=
  Machine.invariant (fun _ h => h ▸ inv_init) (fun _ _ _ hi he => hi.step he.1 he.2) hr

/-- The kernel and the completion port have pointers only to the requests of calls that have not
returned. A call waits exactly as long as its packet is outstanding. -/
theorem requests_exact (hr : (machine.restrict OwnsHandle).Reachable s) :
    s.dangled = false ∧ s.stale = false ∧ (s.inFlight ++ s.port).Nodup ∧
      (∀ p ∈ s.inFlight ++ s.port, ∃ f, s.frame p = some f) ∧
      ∀ c f, s.frames c = some f → f.waiting = true →
        ((c, f.call) ∈ s.inFlight ++ s.port ↔ s.sched.coroState c = .waiting) := by
  have hi := inv_of_restrict hr
  refine ⟨hi.safe.1, hi.safe.2, hi.nodup, hi.alive, fun c f hf hwaiting => ?_⟩
  obtain ⟨hwaits, hsleeps, howes⟩ := (hi.calls c f hf).waits hwaiting
  refine (hi.exact c f hf).trans ⟨fun h => hwaits.waiting hi.sched h.2, fun hwait => ⟨howes, ?_⟩⟩
  by_contra hclosed
  exact hsleeps.owned.not_waiting hclosed hwait

instance (s : WindowsIo) (a : WindowsAction) : Decidable ((machine.restrict OwnsHandle).enabled s a) :=
  inferInstanceAs (Decidable (machine.enabled s a ∧ s.OwnsHandle a))

/-- A file is read, and the packet of its request is on the way. -/
def readFile : List WindowsAction :=
  [.sched (.spawn false ⟨1, 1⟩), .create 3, .fdopen 3 ⟨2, 1⟩ true false, .sched .enterLoop,
    .sched .endPass, .sched .swap, .sched .resume, .fread ⟨2, 1⟩ ⟨3, 1⟩ 100,
    .rwFile ⟨1, 1⟩ (.success 10), .afterJob]

theorem requests_exact_read :
    let s := machine.run init readFile
    (machine.restrict OwnsHandle).Legal init readFile ∧ s.port = [(⟨1, 1⟩, 0)] ∧
      s.dangled = false ∧ s.stale = false ∧ (s.inFlight ++ s.port).Nodup ∧
      (∀ p ∈ s.inFlight ++ s.port, ∃ f, s.frame p = some f) ∧
      ∀ c f, s.frames c = some f → f.waiting = true →
        ((c, f.call) ∈ s.inFlight ++ s.port ↔ s.sched.coroState c = .waiting) := by
  have hlegal : (machine.restrict OwnsHandle).Legal init readFile := by decide +kernel
  exact ⟨hlegal, by decide +kernel, requests_exact ((Machine.Reachable.init rfl).run hlegal)⟩

/-- A file is made for the handle of a socket that has not been used yet. The code does not wait for the
packet of its first write, and the completion port has a pointer to a request that is gone. -/
def wrapTwice : List WindowsAction :=
  [.sched (.spawn false ⟨1, 1⟩), .create 3, .makeSocket 3 ⟨2, 1⟩ none, .fdopen 3 ⟨3, 1⟩ false false,
    .sched .enterLoop, .sched .endPass, .sched .swap, .sched .resume, .fwrite ⟨3, 1⟩ ⟨4, 1⟩ 100,
    .rwFile ⟨1, 1⟩ (.success 10), .afterJob, .sched .yield, .sched .endPass, .platformUpdate 1]

theorem packet_after_return :
    machine.Legal init wrapTwice ∧ (machine.run init wrapTwice).dangled = true ∧
      ¬(machine.restrict OwnsHandle).Legal init wrapTwice := by
  decide +kernel

end WindowsIo

end Bio
