import Bio.MailboxInvariant

/-!
# When `bio__mailbox_recv` fails

A receiver that a send has woken looks at the mailbox again when it is resumed. Until then another
coroutine may receive the message: `bio__mailbox_recv` takes from a mailbox that is not empty without
a look at who was woken. The woken receiver then returns `false` although the mailbox is open.

* `RecvSound`: a call fails only on a mailbox that is closed.
* `Fair`: nobody takes the last message of a mailbox while a receiver of it is on its way.
* `Promised`: a receiver has a signal of its own, which stays live as long as its mailbox is open and
  empty.

Results: `recv_fails_closed`, `recv_fails_open`.
-/

namespace Bio

namespace MailboxState

variable {α : Type*} {m m' : MailboxState α} {c d handle signal : Handle} {f : RecvFrame}

/-- A call of `bio__mailbox_recv` on an open mailbox at which no coroutine waits gets a message or
suspends, and when it goes on and the mailbox is still open it gets a message. -/
structure RecvSound (m : MailboxState α) : Prop where
  called : ∀ c handle signal, m.sched.phase = .running c → m.isOpen handle = true →
    (∀ d f, m.receiving d = some f → f.mailbox = handle → m.sched.coroState d ≠ .waiting) →
    (∃ message, (m.recv handle signal).2 = .returned (some (some message))) ∨
      (m.recv handle signal).2 = .suspended
  resumed : ∀ c f, m.sched.phase = .running c → m.receiving c = some f →
    m.isOpen f.mailbox = true → ∃ message, (m.take f.mailbox).2 = some (some message)

/-- A receiver that finds a message takes it only when it leaves one for a receiver that was woken.
The signals of receivers are known to the mailbox only, and waits are counted without overflow. -/
def Fair (m : MailboxState α) : MailboxAction α → Prop
  | .sched a => ∀ c f, m.receiving c = some f → a.names f.signal = true →
      m.sched.ownerOf f.signal ≠ some c
  | .recv handle _ =>
    (∀ c f, m.receiving c = some f → f.mailbox = handle → m.canRecv handle = true →
      2 ≤ m.held handle) ∧
    ∀ c, m.sched.phase = .running c → m.sched.CanCount c
  | _ => True

/-! ## What a receiver relies on -/

/-- The signal of the receiver is live as long as its mailbox is open and empty. -/
structure Promised (m : MailboxState α) (c : Handle) (f : RecvFrame) : Prop where
  waits : m.sched.Waits c f.signal
  issued : f.mailbox ∈ m.sched.issued
  live : ∀ box, m.mailboxes f.mailbox = some box → box.read = box.write →
    box.signal = f.signal ∧ m.sched.ownerOf f.signal = some c

/-- The signal in a mailbox is that of a receiver, and an open mailbox has one receiver. -/
structure Served (m : MailboxState α) : Prop where
  promised : ∀ c f, m.receiving c = some f → m.Promised c f
  parked : ∀ h box, m.mailboxes h = some box → box.signal.isValid = true →
    box.read = box.write ∧ ∃ c f, m.receiving c = some f ∧ f.mailbox = h ∧ f.signal = box.signal
  sole : ∀ c d f g, m.receiving c = some f → m.receiving d = some g → f.mailbox = g.mailbox →
    m.isOpen f.mailbox = true → c = d

/-- The signal tells the receiver. -/
theorem Served.same (hs : m.Served) (hr : Sched.machine.Reachable m.sched) {g : RecvFrame}
    (hf : m.receiving c = some f) (hg : m.receiving d = some g) (heq : f.signal = g.signal) :
    f = g := by
  have hmade := (hs.promised d g hg).waits.held.made
  rw [← heq] at hmade
  have ha := Sched.accounted_of_reachable hr
  obtain rfl := ha.made_unique c d f.signal (hs.promised c f hf).waits.held.made hmade
  exact Option.some.inj (hf.symm.trans hg)

/-- A receiver that runs finds its mailbox closed or not empty. -/
theorem Promised.found (h : m.Promised c f) (hr : Sched.machine.Reachable m.sched)
    (hp : m.sched.phase = .running c) {box : Mailbox α} (hbox : m.mailboxes f.mailbox = some box) :
    box.read ≠ box.write :=
  fun hempty => h.waits.closed hr hp (h.live box hbox hempty).2

/-- As long as there is a signal in the mailbox, a receiver waits. -/
theorem Served.waiting (hs : m.Served) (hr : Sched.machine.Reachable m.sched) {box : Mailbox α}
    (hbox : m.mailboxes handle = some box) (hvalid : box.signal.isValid = true) :
    ∃ c f, m.receiving c = some f ∧ f.mailbox = handle ∧ m.sched.coroState c = .waiting := by
  obtain ⟨hempty, c, f, hf, rfl, -⟩ := hs.parked handle box hbox hvalid
  have hok := hs.promised c f hf
  exact ⟨c, f, hf, rfl, hok.waits.waiting hr (hok.live box hbox hempty).2⟩

/-! ## The steps -/

/-- The scheduler takes a step that leaves the live signals of receivers alone. -/
theorem Served.sched_step (hs : m.Served) (hr : Sched.machine.Reachable m.sched) {a : Action}
    (he : Sched.machine.enabled m.sched a)
    (hidle : ∀ c f, m.receiving c = some f → m.sched.phase ≠ .running c)
    (hnames : ∀ c f, m.receiving c = some f → a.names f.signal = true →
      m.sched.ownerOf f.signal ≠ some c) :
    Served { m with sched := Sched.machine.perform m.sched a } := by
  refine ⟨fun c f hf => ?_, hs.parked, hs.sole⟩
  have hok := hs.promised c f hf
  obtain ⟨hwaits, howner⟩ := hok.waits.step hr he (hidle c f hf) (hnames c f hf)
  refine ⟨hwaits, (Sched.Effect.of_step he).stays_closed.issued _ hok.issued,
    fun box hbox hempty => ?_⟩
  obtain ⟨hsignal, hlive⟩ := hok.live box hbox hempty
  exact ⟨hsignal, howner.mpr hlive⟩

/-- One mailbox changes. A receiver of it finds it closed or not empty from then on. -/
theorem Served.setBox (hs : m.Served) {v : Option (Mailbox α)}
    (hboxes : m'.mailboxes = Function.update m.mailboxes handle v)
    (hreceiving : m'.receiving = m.receiving)
    (hwaits : ∀ c f, m.receiving c = some f →
      m'.sched.Waits c f.signal ∧ f.mailbox ∈ m'.sched.issued ∧
        (f.mailbox ≠ handle → m.sched.ownerOf f.signal = some c →
          m'.sched.ownerOf f.signal = some c))
    (hbox : ∀ box, v = some box → box.signal.isValid = false ∧
      ∀ c f, m.receiving c = some f → f.mailbox = handle →
        m.isOpen handle = true ∧ box.read ≠ box.write) : m'.Served := by
  refine ⟨fun c f hf => ?_, fun h box hb hvalid => ?_, fun c d f g hf hg heq hopen => ?_⟩
  · rw [hreceiving] at hf
    obtain ⟨hw, hissued, howner⟩ := hwaits c f hf
    refine ⟨hw, hissued, fun box hb hempty => ?_⟩
    rw [hboxes, Function.update_apply] at hb
    split at hb
    · next heq => exact absurd hempty ((hbox box hb).2 c f hf heq).2
    · next hne =>
      obtain ⟨hsignal, hlive⟩ := (hs.promised c f hf).live box hb hempty
      exact ⟨hsignal, howner hne hlive⟩
  · rw [hboxes, Function.update_apply] at hb
    rw [hreceiving]
    split at hb
    · rw [(hbox box hb).1] at hvalid
      cases hvalid
    · exact hs.parked h box hb hvalid
  · rw [hreceiving] at hf hg
    refine hs.sole c d f g hf hg heq ?_
    rw [isOpen, hboxes, Function.update_apply] at hopen
    split at hopen
    · next hh =>
      obtain ⟨box, rfl⟩ := Option.isSome_iff_exists.mp hopen
      exact hh ▸ ((hbox box rfl).2 c f hf hh).1
    · exact hopen

/-- The wake-up of a mailbox reaches no receiver of another one. -/
theorem Served.wake (hs : m.Served) (hr : Sched.machine.Reachable m.sched)
    (hp : m.sched.phase ≠ .pass) {box : Mailbox α} (hbox : m.mailboxes handle = some box)
    (hf : m.receiving c = some f) :
    (wake m.sched box.signal).Waits c f.signal ∧ f.mailbox ∈ (wake m.sched box.signal).issued ∧
      (f.mailbox ≠ handle → m.sched.ownerOf f.signal = some c →
        (wake m.sched box.signal).ownerOf f.signal = some c) := by
  have hok := hs.promised c f hf
  unfold MailboxState.wake
  split
  · next hvalid =>
    have hshrinks := Sched.shrinks_raiseSignal m.sched box.signal
    refine ⟨hok.waits.raise hr hp box.signal, hshrinks.staysClosed.issued _ hok.issued,
      fun hne hlive => ?_⟩
    obtain ⟨_, d, g, hg, rfl, hsignal⟩ := hs.parked handle box hbox hvalid
    have hother : Action.names (.raise box.signal) f.signal = true →
        m.sched.ownerOf f.signal ≠ some c := by
      intro hnames
      rw [Action.names, decide_eq_true_iff, ← hsignal] at hnames
      exact absurd (congrArg RecvFrame.mailbox (hs.same hr hf hg hnames.symm)) hne
    exact (hok.waits.held.owner_iff (a := .raise box.signal) hr hp
      (hok.waits.inside.raise box.signal).live hother).mpr hlive
  · exact ⟨hok.waits, hok.issued, fun _ hlive => hlive⟩

/-- A mailbox changes when it is sent to or closed, and its receiver is woken. -/
theorem Served.wakeBox (hs : m.Served) (hr : Sched.machine.Reachable m.sched)
    (hp : m.sched.phase ≠ .pass) {box : Mailbox α} (hold : m.mailboxes handle = some box)
    {v : Option (Mailbox α)} (hboxes : m'.mailboxes = Function.update m.mailboxes handle v)
    (hreceiving : m'.receiving = m.receiving)
    (hsched : m'.sched = MailboxState.wake m.sched box.signal)
    (hnew : ∀ box', v = some box' → box'.signal.isValid = false ∧ box'.read ≠ box'.write) :
    m'.Served := by
  refine hs.setBox hboxes hreceiving (fun c f hf => ?_) fun box' hb => ?_
  · rw [hsched]
    exact hs.wake hr hp hold hf
  · obtain ⟨hinvalid, hfull⟩ := hnew box' hb
    exact ⟨hinvalid, fun _ _ _ _ => ⟨by simp [isOpen, hold], hfull⟩⟩

/-- A message is taken from a mailbox that holds another one for a receiver that was woken. -/
theorem Served.takeFrom (hs : m.Served)
    (hmore : ∀ box c f, m.mailboxes handle = some box → m.receiving c = some f →
      f.mailbox = handle → box.read ≠ box.write → box.read + 1#32 ≠ box.write) :
    (m.take handle).1.Served := by
  cases hbox : m.mailboxes handle with
  | none =>
    simp only [take, hbox]
    exact hs
  | some box =>
    by_cases hempty : box.read = box.write
    · simp only [take, hbox, hempty, ne_eq, not_true_eq_false, if_false]
      exact hs
    · simp only [take, hbox, ne_eq, hempty, not_false_eq_true, if_true]
      refine hs.setBox (v := some { box with read := box.read + 1#32 }) rfl rfl
        (fun c f hf => ?_) fun box' hb => ?_
      · have hok := hs.promised c f hf
        exact ⟨hok.waits, hok.issued, fun _ hlive => hlive⟩
      · cases hb
        refine ⟨?_, fun c f hf hh => ⟨by simp [isOpen, hbox], hmore box c f hbox hf hh hempty⟩⟩
        by_contra hvalid
        exact hempty (hs.parked handle box hbox (by simpa using hvalid)).1

/-- A coroutine that waits for its signal becomes the receiver of an empty mailbox. -/
theorem Served.addReceiver (hs : m.Served) (hr : Sched.machine.Reachable m.sched)
    (hidle : m.receiving c = none) (hwaits : m.sched.Waits c signal)
    (hown : m.sched.ownerOf signal = some c)
    (hissued : handle ∈ m.sched.issued) {box : Mailbox α}
    (hbox : m.mailboxes handle = some box) (hempty : box.read = box.write)
    (hfree : box.signal.isValid = false) :
    Served { m with
      mailboxes := Function.update m.mailboxes handle (some { box with signal := signal })
      receiving := Function.update m.receiving c (some ⟨handle, signal⟩) } := by
  have ha := Sched.accounted_of_reachable hr
  have hi := (Sched.inv_of_reachable hr).1
  -- A mailbox without a signal has no receiver.
  have hnone : ∀ d g, m.receiving d = some g → g.mailbox ≠ handle := by
    rintro d g hg rfl
    have hok := hs.promised d g hg
    have hvalid := Sched.valid_of_issued hi (hok.waits.held.issued ha)
    rw [← (hok.live box hbox hempty).1, hfree] at hvalid
    cases hvalid
  refine ⟨fun d g hg => ?_, fun h b hb hvalid => ?_, fun d e g g' hg hg' heq hopen => ?_⟩
  · have hg' : Function.update m.receiving c _ d = some g := hg
    rw [Function.update_apply] at hg'
    split at hg'
    · next hd =>
      subst hd
      cases hg'
      refine ⟨hwaits, hissued, fun b hb _ => ?_⟩
      have hb' : Function.update m.mailboxes handle _ handle = some b := hb
      rw [Function.update_self] at hb'
      cases hb'
      exact ⟨rfl, hown⟩
    · have hok := hs.promised d g hg'
      refine ⟨hok.waits, hok.issued, fun b hb => ?_⟩
      have hb' : Function.update m.mailboxes handle _ g.mailbox = some b := hb
      rw [Function.update_of_ne (hnone d g hg')] at hb'
      exact hok.live b hb'
  · have hb' : Function.update m.mailboxes handle _ h = some b := hb
    rw [Function.update_apply] at hb'
    split at hb'
    · next hh =>
      cases hb'
      exact ⟨hempty, c, ⟨handle, signal⟩, Function.update_self .., hh.symm, rfl⟩
    · obtain ⟨hdrained, d, g, hg, hrest⟩ := hs.parked h b hb' hvalid
      have hne : d ≠ c := by
        rintro rfl
        rw [hidle] at hg
        cases hg
      exact ⟨hdrained, d, g, (Function.update_of_ne hne ..).trans hg, hrest⟩
  · have hg₁ : Function.update m.receiving c _ d = some g := hg
    have hg₂ : Function.update m.receiving c _ e = some g' := hg'
    rw [Function.update_apply] at hg₁ hg₂
    split at hg₁ <;> split at hg₂
    · next hd he => rw [hd, he]
    · cases hg₁
      exact absurd heq.symm (hnone e g' hg₂)
    · cases hg₂
      exact absurd heq (hnone d g hg₁)
    · refine hs.sole d e g g' hg₁ hg₂ heq ?_
      have hopen' : (Function.update m.mailboxes handle _ g.mailbox).isSome = true := hopen
      rwa [Function.update_of_ne (hnone d g hg₁)] at hopen'

/-- The receiver of an empty mailbox leaves its signal there. -/
theorem Served.park (hs : m.Served) (hr : Sched.machine.Reachable m.sched)
    (hidle : ∀ c f, m.receiving c = some f → m.sched.phase ≠ .running c)
    {box : Mailbox α} (hp : m.sched.phase = .running c) (hcount : m.sched.CanCount c)
    (hissued : handle ∈ m.sched.issued) (hfresh : m.sched.Fresh signal)
    (hbox : m.mailboxes handle = some box) (hempty : box.read = box.write)
    (hfree : box.signal.isValid = false) :
    Served { m with
      mailboxes := Function.update m.mailboxes handle (some { box with signal := signal })
      sched := (m.sched.makeSignal c signal).waitForSignals c [signal] true
      receiving := Function.update m.receiving c (some ⟨handle, signal⟩) } := by
  have hmake : Sched.machine.enabled m.sched (.makeSignal signal) := ⟨by rw [hp]; rfl, hfresh⟩
  have hs₁ := hs.sched_step hr hmake hidle nofun
  have hr₁ := hr.step hmake
  rw [Sched.perform_makeSignal hp] at hs₁ hr₁
  have hphase : (m.sched.makeSignal c signal).phase = m.sched.phase := Sched.makeSignal_phase ..
  have hp₁ := hphase.trans hp
  have hwait := Sched.wait_enabled hp₁ [signal] true
  have hs₂ := hs₁.sched_step hr₁ hwait (fun d f hf => hphase ▸ hidle d f hf) nofun
  have hr₂ := hr₁.step hwait
  rw [Sched.perform_wait hp₁] at hs₂ hr₂
  obtain ⟨hwaits, hown⟩ := Sched.waits_of_new hr hp hcount hfresh
  have hclosed := Sched.staysClosed_waitForSignals (m.sched.makeSignal c signal) c [signal] true
  have hnone : m.receiving c = none := by
    by_contra hsome
    obtain ⟨f, hf⟩ := Option.ne_none_iff_exists'.mp hsome
    exact hidle c f hf hp
  exact hs₂.addReceiver hr₂ hnone hwaits hown
    (hclosed.issued _ (Sched.makeSignal_issued hissued)) hbox hempty hfree

/-- A receiver that runs leaves. -/
theorem Served.leave (hs : m.Served) (hr : Sched.machine.Reachable m.sched)
    (hp : m.sched.phase = .running c) :
    Served { m with receiving := Function.update m.receiving c none } := by
  have hold : ∀ d g, Function.update m.receiving c none d = some g → m.receiving d = some g := by
    intro d g hg
    exact (Table.erase_some hg).2
  refine ⟨fun d g hg => ?_, fun h box hb hvalid => ?_, fun d e g g' hg hg' => ?_⟩
  · obtain ⟨hwaits, hissued, hlive⟩ := hs.promised d g (hold d g hg)
    exact ⟨hwaits, hissued, hlive⟩
  · obtain ⟨hempty, d, g, hg, rfl, hsignal⟩ := hs.parked h box hb hvalid
    have hne : d ≠ c := by
      rintro rfl
      exact (hs.promised d g hg).found hr hp hb hempty
    exact ⟨hempty, d, g, (Function.update_of_ne hne ..).trans hg, rfl, hsignal⟩
  · exact hs.sole d e g g' (hold d g hg) (hold e g' hg')

/-- An empty mailbox holds nothing after one message was taken. -/
theorem BoxOk.more {box : Mailbox α} (hb : m.BoxOk handle box) (hheld : 2 ≤ m.held handle) :
    box.read + 1#32 ≠ box.write := by
  obtain ⟨k, contents, hholds, hlen, _⟩ := hb.held
  match contents, hlen with
  | [], hlen => simp [hlen] at hheld
  | [_], hlen => simp [hlen] at hheld
  | _ :: next :: rest, _ => exact mt hholds.pop.2.read_eq_write.mp (List.cons_ne_nil next rest)

theorem BoxOk.take_some {box : Mailbox α} (hb : m.BoxOk handle box)
    (hbox : m.mailboxes handle = some box) (hfull : box.read ≠ box.write) :
    ∃ message, (m.take handle).2 = some (some message) := by
  obtain ⟨k, contents, hholds, _⟩ := hb.holds
  obtain ⟨message, rest, rfl⟩ := List.exists_cons_of_ne_nil (mt hholds.read_eq_write.mpr hfull)
  refine ⟨message, ?_⟩
  simp only [take, hbox, ne_eq, hfull, not_false_eq_true, if_true, hholds.pop.1]

theorem Served.recvFrom (hs : m.Served) (hi : m.Inv)
    (he : (machine α).enabled m (.recv handle signal)) (hfair : m.Fair (.recv handle signal)) :
    (m.recv handle signal).1.Served := by
  obtain ⟨_, hfresh, hnot⟩ := he
  cases hbox : m.mailboxes handle with
  | none =>
    simp only [recv, hbox]
    exact hs
  | some box =>
    have hok := hi.boxes handle box hbox
    by_cases hempty : box.read = box.write
    · cases hfree : box.signal.isValid with
      | true =>
        simp only [recv, hbox, hempty, hfree, if_true]
        exact hs
      | false =>
        cases hc : m.sched.phase.mcoRunning with
        | some c =>
          have hp := Phase.eq_running hc
          have hpark : (m.recv handle signal).1 = { m with
              mailboxes := Function.update m.mailboxes handle (some { box with signal := signal })
              sched := (m.sched.makeSignal c signal).waitForSignals c [signal] true
              receiving := Function.update m.receiving c (some ⟨handle, signal⟩) } := by
            simp [recv, hbox, hempty, hfree, hc]
          rw [hpark]
          exact hs.park hi.sched (fun d f hf => idle_of_inRecv hnot hf) hp (hfair.2 c hp)
            hok.issued hfresh hbox hempty hfree
        | none =>
          simp only [recv, hbox, hempty, hfree, hc, if_true, Bool.false_eq_true, if_false]
          refine hs.takeFrom fun b c f hb _ _ hfull => ?_
          obtain rfl := Option.some.inj (hbox.symm.trans hb)
          exact absurd hempty hfull
    · simp only [recv, hbox, hempty, if_false]
      refine hs.takeFrom fun b c f hb hf hh hfull => ?_
      obtain rfl := Option.some.inj (hbox.symm.trans hb)
      exact hok.more (hfair.1 c f hf hh (by simp [canRecv, hbox, hfull]))

theorem take_receiving (m : MailboxState α) (handle : Handle)
    (receiving : Handle → Option RecvFrame) :
    { (m.take handle).1 with receiving := receiving } =
      (take { m with receiving := receiving } handle).1 := by
  unfold take
  dsimp only
  split
  · split <;> rfl
  · rfl

/-- A receiver goes on. No other one waits for the message that it takes. -/
theorem Served.resume (hs : m.Served) (hr : Sched.machine.Reachable m.sched) :
    m.resumeRecv.Served := by
  unfold resumeRecv
  split
  · next c hc =>
    split
    · next f hf =>
      rw [take_receiving]
      refine (hs.leave hr (Phase.eq_running hc)).takeFrom fun box d g hbox hg hh _ => ?_
      have hg' : Function.update m.receiving c none d = some g := hg
      obtain ⟨hne, hold⟩ := Table.erase_some hg'
      have hopen : m.isOpen g.mailbox = true := by
        rw [hh, isOpen, show m.mailboxes f.mailbox = some box from hbox]
        rfl
      exact absurd (hs.sole d c g f hold hf hh hopen) hne
    · exact hs
  · exact hs

/-- The step lemma. -/
theorem Served.step (hs : m.Served) (hi : m.Inv) {a : MailboxAction α}
    (he : (machine α).enabled m a) (hfair : m.Fair a) : ((machine α).perform m a).Served := by
  have hr := hi.sched
  cases a with
  | sched a => exact hs.sched_step hr he.1 (fun c f hf => idle_of_inRecv he.2 hf) hfair
  | open' capacity handle =>
    obtain ⟨hissue, _, _, hnot⟩ := he
    have hs₁ := hs.sched_step (a := .issue handle) hr hissue
      (fun c f hf => idle_of_inRecv hnot hf) (by simp [Action.names])
    refine hs₁.setBox rfl rfl (fun c f hf => ?_) fun box hb => ?_
    · have hok := hs₁.promised c f hf
      exact ⟨hok.waits, hok.issued, fun _ hlive => hlive⟩
    · cases hb
      refine ⟨rfl, fun c f hf hh => ?_⟩
      exact absurd (hh ▸ (hs.promised c f hf).issued) hissue.2.2
  | close handle =>
    show (m.close handle).Served
    cases hbox : m.mailboxes handle with
    | none =>
      simp only [close, hbox]
      exact hs
    | some box =>
      simp only [close, hbox]
      exact hs.wakeBox hr he.1 hbox rfl rfl rfl (by simp)
  | send handle message =>
    show (m.send handle message).1.Served
    cases hbox : m.mailboxes handle with
    | none =>
      simp only [send, hbox]
      exact hs
    | some box =>
      by_cases hroom : box.write - box.read < box.capacity
      · simp only [send, hbox, hroom, if_true]
        refine hs.wakeBox hr he.1 hbox rfl rfl rfl fun box' hb => ?_
        cases hb
        obtain ⟨k, contents, hholds, _⟩ := (hi.boxes handle box hbox).holds
        have hpush := hholds.push (hholds.room_iff.mp hroom) message Handle.invalid
        exact ⟨rfl, mt hpush.read_eq_write.mp (by simp)⟩
      · simp only [send, hbox, hroom, if_false]
        exact hs
  | recv handle signal => exact hs.recvFrom hi he hfair
  | resumeRecv => exact hs.resume hr

/-- The run lemma. -/
theorem served_of_reachable (h : ((machine α).restrict Fair).Reachable m) : m.Served := by
  refine Machine.invariant (P := Served) ?_ (fun m a hr hs he => ?_) h
  · rintro m rfl
    exact ⟨nofun, nofun, nofun⟩
  · exact hs.step (inv_of_reachable hr.of_restrict) he.1 he.2

/-! ## The contract -/

theorem Served.recvSound (hs : m.Served) (hi : m.Inv) : m.RecvSound := by
  refine ⟨fun c handle signal hp hopen hnobody => ?_, fun c f hp hf hopen => ?_⟩
  · obtain ⟨box, hbox⟩ := Option.isSome_iff_exists.mp hopen
    by_cases hempty : box.read = box.write
    · cases hfree : box.signal.isValid with
      | true =>
        obtain ⟨d, f, hf, hh, hwait⟩ := hs.waiting hi.sched hbox hfree
        exact absurd hwait (hnobody d f hf hh)
      | false => exact .inr (by simp [recv, hbox, hempty, hfree, hp, Phase.mcoRunning])
    · obtain ⟨message, htake⟩ := (hi.boxes handle box hbox).take_some hbox hempty
      exact .inl ⟨message, by simp [recv, hbox, hempty, htake]⟩
  · obtain ⟨box, hbox⟩ := Option.isSome_iff_exists.mp hopen
    exact (hi.boxes _ box hbox).take_some hbox ((hs.promised c f hf).found hi.sched hp hbox)

/-- As long as no receiver takes the last message of a mailbox while another one, which was woken, is
on its way to it, a call of `bio__mailbox_recv` fails only on a mailbox that is closed. -/
theorem recv_fails_closed (h : ((machine α).restrict Fair).Reachable m) : m.RecvSound :=
  (served_of_reachable h).recvSound (inv_of_reachable h.of_restrict)

/-- The receiver ⟨0, 1⟩ waits. The sender ⟨1, 1⟩ sends two messages and takes one of them itself. -/
theorem recv_fails_closed_shared :
    let m := (machine Nat).run init [.sched (.spawn false ⟨0, 1⟩), .sched (.spawn false ⟨1, 1⟩),
      .open' 3#32 ⟨2, 1⟩, .sched .enterLoop, .sched .endPass, .sched .swap, .sched .resume,
      .recv ⟨2, 1⟩ ⟨3, 1⟩, .sched .resume, .send ⟨2, 1⟩ 7, .send ⟨2, 1⟩ 8, .recv ⟨2, 1⟩ ⟨4, 1⟩,
      .sched .yield, .sched .endPass, .sched .swap, .sched .resume]
    m.sched.phase = .running ⟨0, 1⟩ ∧ m.receiving ⟨0, 1⟩ = some ⟨⟨2, 1⟩, ⟨3, 1⟩⟩ ∧
      ∃ message, (m.take ⟨2, 1⟩).2 = some (some message) := by
  intro m
  have hlegal : ((machine Nat).restrict Fair).Legal init [.sched (.spawn false ⟨0, 1⟩),
      .sched (.spawn false ⟨1, 1⟩), .open' 3#32 ⟨2, 1⟩, .sched .enterLoop, .sched .endPass,
      .sched .swap, .sched .resume, .recv ⟨2, 1⟩ ⟨3, 1⟩, .sched .resume, .send ⟨2, 1⟩ 7,
      .send ⟨2, 1⟩ 8, .recv ⟨2, 1⟩ ⟨4, 1⟩, .sched .yield, .sched .endPass, .sched .swap,
      .sched .resume] :=
    ⟨⟨by decide, nofun⟩, ⟨by decide, nofun⟩, ⟨by decide, trivial⟩, ⟨by decide, nofun⟩,
      ⟨by decide, nofun⟩, ⟨by decide, nofun⟩, ⟨by decide, nofun⟩,
      ⟨by decide, nofun, fun c hp => by cases hp; decide⟩, ⟨by decide, nofun⟩,
      ⟨by decide, trivial⟩, ⟨by decide, trivial⟩,
      ⟨by decide, fun _ _ _ _ _ => by decide, fun c hp => by cases hp; decide⟩,
      ⟨by decide, nofun⟩, ⟨by decide, nofun⟩, ⟨by decide, nofun⟩, ⟨by decide, nofun⟩, trivial⟩
  have hr := Machine.Reachable.run (M := (machine Nat).restrict Fair) (.init rfl) hlegal
  exact ⟨rfl, rfl, (recv_fails_closed hr).resumed ⟨0, 1⟩ ⟨⟨2, 1⟩, ⟨3, 1⟩⟩ rfl rfl rfl⟩

/-- The receiver ⟨0, 1⟩ waits and is woken by the sender ⟨1, 1⟩, which then takes its message. Its
call fails on an open mailbox. -/
theorem recv_fails_open :
    let parked := (machine Nat).run init [.sched (.spawn false ⟨0, 1⟩),
      .sched (.spawn false ⟨1, 1⟩), .open' 3#32 ⟨2, 1⟩, .sched .enterLoop, .sched .endPass,
      .sched .swap, .sched .resume, .recv ⟨2, 1⟩ ⟨3, 1⟩]
    let woken := (machine Nat).run parked [.sched .resume, .send ⟨2, 1⟩ 7]
    let m := (machine Nat).run woken [.recv ⟨2, 1⟩ ⟨4, 1⟩, .sched .yield, .sched .endPass,
      .sched .swap, .sched .resume]
    (machine Nat).Reachable m ∧ parked.sched.coroState ⟨0, 1⟩ = .waiting ∧
      woken.sched.coroState ⟨0, 1⟩ = .ready ∧ m.sched.phase = .running ⟨0, 1⟩ ∧
      m.receiving ⟨0, 1⟩ = some ⟨⟨2, 1⟩, ⟨3, 1⟩⟩ ∧ m.isOpen ⟨2, 1⟩ = true ∧
      (m.take ⟨2, 1⟩).2 = none ∧ ¬m.RecvSound := by
  intro parked woken m
  have hparked : (machine Nat).Reachable parked := Machine.Reachable.run (.init rfl) (by decide)
  have hwoken : (machine Nat).Reachable woken := hparked.run (by decide)
  have hr : (machine Nat).Reachable m := hwoken.run (by decide)
  have hf : m.receiving ⟨0, 1⟩ = some ⟨⟨2, 1⟩, ⟨3, 1⟩⟩ := rfl
  have htake : (m.take ⟨2, 1⟩).2 = none := rfl
  refine ⟨hr, rfl, rfl, rfl, hf, rfl, htake, fun hsound => ?_⟩
  obtain ⟨message, hmessage⟩ := hsound.resumed ⟨0, 1⟩ ⟨⟨2, 1⟩, ⟨3, 1⟩⟩ rfl hf rfl
  rw [htake] at hmessage
  cases hmessage

end MailboxState

end Bio
