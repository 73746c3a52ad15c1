import Bio.ServiceCall

/-!
# Safety of service calls

`ServiceState.Inv`: calls, returned calls, messages and executed response blocks agree.

Result: `service_call_safety`.
-/

namespace Bio

/-! ## The invariant -/

namespace ServiceState

variable {svc : Service} {q : ServiceState} {c : Handle} {f : CallFrame}

/-- What holds of a call that has not returned, wherever it is. -/
structure CallCore (svc : Service) (q : ServiceState) (c : Handle) (f : CallFrame) : Prop where
  calling : q.sched.Calling c svc.coro f (f.ackSignal ∈ q.executed)
  ne : f.ackSignal ≠ f.monitorSignal
  outside : q.mail.receiving c = none
  apart : ∀ h box, q.mail.mailboxes h = some box →
    box.signal ≠ f.ackSignal ∧ box.signal ≠ f.monitorSignal
  sent : ∀ msg ∈ q.mail.sent svc.mailbox, msg.ackSignal = f.ackSignal →
    svc.coro ≠ c ∧ msg.cancelSignal = f.cancelSignal

/-- What holds of a call between two of its steps. -/
structure CallOk (svc : Service) (q : ServiceState) (c : Handle) (f : CallFrame) : Prop
    extends CallCore svc q c f where
  unsent : f.stage = .sending → ∀ msg ∈ q.mail.sent svc.mailbox, msg.ackSignal ≠ f.ackSignal

/-- No response block will be executed for the call: it was cancelled, or the service is gone. -/
def Over (svc : Service) (q : ServiceState) (ack : Handle) : Prop :=
  (∀ msg ∈ q.mail.sent svc.mailbox, msg.ackSignal = ack →
    q.sched.isCallCancelled msg = true ∧ msg.cancelSignal ∈ q.sched.issued) ∨
  (svc.coro ∈ q.sched.issued ∧ q.sched.coros svc.coro = none)

/-- What holds of a call that has returned. -/
structure ReturnedOk (svc : Service) (q : ServiceState) (ack : Handle) (st : CallStatus) :
    Prop where
  issued : ack.isValid = true → ack ∈ q.sched.issued
  status : st = .ok ↔ ack ∈ q.executed
  ended : ack.isValid = true → st ≠ .ok → q.Over svc ack
  apart : ∀ c f, q.calls c = some f → f.ackSignal ≠ ack

/-- The invariant, for all calls except that of the coroutine `x`. -/
structure Inv (svc : Service) (q : ServiceState) (x : Option Handle) : Prop where
  mail : (MailboxState.machine ServiceMsg).Reachable q.mail
  calls : ∀ c f, q.calls c = some f → x ≠ some c → q.CallOk svc c f
  returned : ∀ ack status, (ack, status) ∈ q.returned → q.ReturnedOk svc ack status
  known : ∀ msg ∈ q.mail.sent svc.mailbox, msg.ackSignal.isValid = true →
    (∃ c f, q.calls c = some f ∧ f.ackSignal = msg.ackSignal) ∨
      ∃ status, (msg.ackSignal, status) ∈ q.returned
  once : (q.mail.sent svc.mailbox).Pairwise fun msg msg' =>
    msg.ackSignal.isValid = true → msg.ackSignal ≠ msg'.ackSignal
  executed : ∀ ack ∈ q.executed, ack.isValid = true ∧ ∃ i ∈ q.attempted, ∃ msg,
    (q.mail.sent svc.mailbox)[i]? = some msg ∧ msg.ackSignal = ack

theorem Inv.sched {x : Option Handle} (hi : q.Inv svc x) : Sched.machine.Reachable q.sched :=
  (MailboxState.inv_of_reachable hi.mail).sched

/-! ## Actions of the mailboxes -/

variable {x : Option Handle} {a : MailboxAction ServiceMsg}

/-- A message that may be sent to the service: it expects no answer, or it is the first message of
the call of `x`. -/
def Sendable (svc : Service) (q : ServiceState) (x : Option Handle) (msg : ServiceMsg) : Prop :=
  msg.ackSignal.isValid = true →
    (∃ c f, x = some c ∧ q.calls c = some f ∧ f.ackSignal = msg.ackSignal ∧
      .madeSignal c msg.ackSignal ∈ q.sched.history) ∧
    ∀ old ∈ q.mail.sent svc.mailbox, old.ackSignal ≠ msg.ackSignal

/-- The action does not name the live signals of the call of `c`. -/
def Spares (q : ServiceState) (a : MailboxAction ServiceMsg) (c : Handle) (f : CallFrame) : Prop :=
  ∀ b, a = .sched b → ∀ h, b.names h = true → h = f.ackSignal ∨ h = f.monitorSignal →
    q.sched.ownerOf h ≠ some c

/-- The state after an action of the mailboxes. -/
def doMail (q : ServiceState) (a : MailboxAction ServiceMsg) : ServiceState :=
  { q with mail := (MailboxState.machine ServiceMsg).perform q.mail a }

theorem Inv.closed (hi : q.Inv svc x) (he : (MailboxState.machine ServiceMsg).enabled q.mail a) :
    Sched.StaysClosed q.sched (q.doMail a).sched := by
  have hinv := (Sched.inv_of_reachable hi.sched).1
  refine (MailboxState.sched_joined hinv he).invariant (P := Sched.StaysClosed q.sched) ?_
    (Sched.Shrinks.refl _).staysClosed
  exact fun s b hs hen => hs.trans (Sched.Effect.of_step hen.1).stays_closed

theorem sent_step
    (hsend : ∀ msg, a = .send svc.mailbox msg → q.Sendable svc x msg) :
    (q.doMail a).mail.sent svc.mailbox = q.mail.sent svc.mailbox ∨
      ∃ msg, q.Sendable svc x msg ∧
        (q.doMail a).mail.sent svc.mailbox = q.mail.sent svc.mailbox ++ [msg] := by
  rcases MailboxState.perform_sent q.mail a svc.mailbox with heq | ⟨msg, ha, heq⟩
  · exact .inl heq
  · exact .inr ⟨msg, hsend msg ha, heq⟩

/-- The scheduler's part of a call of a coroutine that does not run. -/
theorem CallCore.calling_step (h : q.CallCore svc c f) (hr : Sched.machine.Reachable q.sched)
    (he : (MailboxState.machine ServiceMsg).enabled q.mail a) (hidle : q.sched.phase ≠ .running c)
    (hspares : q.Spares a c f) :
    (q.doMail a).sched.Calling c svc.coro f (f.ackSignal ∈ q.executed) := by
  have hw := h.calling.watched
  have ha := Sched.accounted_of_reachable hr
  refine ((MailboxState.sched_joined (Sched.inv_of_reachable hr).1 he).invariant
    (P := fun s => Sched.machine.Reachable s ∧ Sched.StaysClosed q.sched s ∧
      s.Calling c svc.coro f (f.ackSignal ∈ q.executed)) ?_
    ⟨hr, (Sched.Shrinks.refl _).staysClosed, h.calling⟩).2.2
  rintro s b ⟨hrs, hclosed, hcalling⟩ ⟨hen, hphase, hb⟩
  refine ⟨hrs.step hen, hclosed.trans (Sched.Effect.of_step hen).stays_closed,
    hcalling.step hrs hen (hphase ▸ hidle) fun y hnames hy => ?_⟩
  have hmade : .madeSignal c y ∈ q.sched.history := by
    rcases hy with rfl | rfl
    · exact hw.answer.made
    · exact hw.madeMonitor
  rcases MailboxState.schedActions_names hb hnames with heq | ⟨handle, box, hbox, rfl⟩
  · rw [Sched.closed_stays ha hclosed hmade (hspares b heq y hnames hy)]
    nofun
  · obtain ⟨hack, hmonitor⟩ := h.apart handle box hbox
    exact absurd hy (not_or.mpr ⟨hack, hmonitor⟩)

/-- The signals of a call are not those that receivers leave in mailboxes. -/
theorem CallCore.apart_step (h : q.CallCore svc c f) (hi : q.Inv svc x)
    (he : (MailboxState.machine ServiceMsg).enabled q.mail a) :
    ∀ hd box, (q.doMail a).mail.mailboxes hd = some box →
      box.signal ≠ f.ackSignal ∧ box.signal ≠ f.monitorSignal := by
  intro hd box hbox
  have ha := Sched.accounted_of_reachable hi.sched
  have hvalid : ∀ y, y ∈ q.sched.issued → y ≠ Handle.invalid := fun y hy heq =>
    (Sched.inv_of_reachable hi.sched).1.view.invalid_issued (heq ▸ hy)
  have hackIssued := (ha.made_issued c _ h.calling.watched.answer.made).2
  have hmonitorIssued := (ha.made_issued c _ h.calling.watched.madeMonitor).2
  rcases MailboxState.perform_signal q.mail a hbox with hinvalid | ⟨old, hold, hsame⟩ | ⟨_, rfl⟩
  · rw [hinvalid]
    exact ⟨(hvalid _ hackIssued).symm, (hvalid _ hmonitorIssued).symm⟩
  · rw [← hsame]
    exact h.apart hd old hold
  · have hnew := he.2.1.2
    exact ⟨fun heq => hnew (heq ▸ hackIssued), fun heq => hnew (heq ▸ hmonitorIssued)⟩

/-- No message of the call of `c` is sent by somebody else. -/
theorem CallCore.sent_old (h : q.CallCore svc c f) (hi : q.Inv svc x) (hx : x ≠ some c)
    (hsend : ∀ msg, a = .send svc.mailbox msg → q.Sendable svc x msg) {msg : ServiceMsg}
    (hmsg : msg ∈ (q.doMail a).mail.sent svc.mailbox) (hack : msg.ackSignal = f.ackSignal) :
    msg ∈ q.mail.sent svc.mailbox := by
  have ha := Sched.accounted_of_reachable hi.sched
  have hmade := h.calling.watched.answer.made
  rcases sent_step hsend with heq | ⟨new, hnew, heq⟩ <;> rw [heq] at hmsg
  · exact hmsg
  · refine (List.mem_append.mp hmsg).resolve_right fun hlast => ?_
    obtain rfl := List.mem_singleton.mp hlast
    have hvalid := Sched.valid_of_issued (Sched.inv_of_reachable hi.sched).1
      (ha.made_issued c _ hmade).2
    obtain ⟨⟨d, g, rfl, _, _, hmade'⟩, _⟩ := hnew (hack ▸ hvalid)
    rw [hack] at hmade'
    exact hx (congrArg some (ha.made_unique d c _ hmade' hmade))

theorem CallOk.mail_step (h : q.CallOk svc c f) (hi : q.Inv svc x)
    (he : (MailboxState.machine ServiceMsg).enabled q.mail a) (hidle : q.sched.phase ≠ .running c)
    (hx : x ≠ some c) (hspares : q.Spares a c f)
    (hsend : ∀ msg, a = .send svc.mailbox msg → q.Sendable svc x msg) :
    (q.doMail a).CallOk svc c f := by
  refine ⟨⟨h.calling_step hi.sched he hidle hspares, h.ne,
    (MailboxState.perform_receiving q.mail a hidle).trans h.outside, h.apart_step hi he,
    fun msg hmsg hack => h.sent msg (h.sent_old hi hx hsend hmsg hack) hack⟩, ?_⟩
  exact fun hstage msg hmsg hack => h.unsent hstage msg (h.sent_old hi hx hsend hmsg hack) hack

theorem isCancelled_closed {s s' : Sched} (hclosed : Sched.StaysClosed s s') {h : Handle}
    (hissued : h ∈ s.issued) (hcancel : s.isCancelled h = true) : s'.isCancelled h = true := by
  simp only [Sched.isCancelled, Bool.and_eq_true] at hcancel ⊢
  exact ⟨hcancel.1, Sched.checkSignal_closed hclosed hissued hcancel.2⟩

theorem ReturnedOk.mail_step {ack : Handle} {st : CallStatus} (h : q.ReturnedOk svc ack st)
    (hi : q.Inv svc x) (he : (MailboxState.machine ServiceMsg).enabled q.mail a)
    (hsend : ∀ msg, a = .send svc.mailbox msg → q.Sendable svc x msg) :
    (q.doMail a).ReturnedOk svc ack st := by
  have hclosed := hi.closed he
  refine ⟨fun hvalid => hclosed.issued _ (h.issued hvalid), h.status, fun hvalid hst => ?_, h.apart⟩
  rcases h.ended hvalid hst with hcancelled | ⟨hissued, hdead⟩
  · refine .inl fun msg hmsg hack => ?_
    have hold : msg ∈ q.mail.sent svc.mailbox := by
      rcases sent_step hsend with heq | ⟨new, hnew, heq⟩ <;> rw [heq] at hmsg
      · exact hmsg
      · refine (List.mem_append.mp hmsg).resolve_right fun hlast => ?_
        obtain rfl := List.mem_singleton.mp hlast
        obtain ⟨⟨d, g, _, hg, hgack, _⟩, _⟩ := hnew (hack ▸ hvalid)
        exact h.apart d g hg (hgack.trans hack)
    obtain ⟨hcancel, hissued⟩ := hcancelled msg hold hack
    refine ⟨?_, hclosed.issued _ hissued⟩
    exact isCancelled_closed hclosed hissued hcancel
  · exact .inr ⟨hclosed.issued _ hissued, hclosed.coro _ hissued hdead⟩

theorem Inv.mail_step (hi : q.Inv svc x)
    (he : (MailboxState.machine ServiceMsg).enabled q.mail a)
    (hidle : ∀ c f, q.calls c = some f → x ≠ some c → q.sched.phase ≠ .running c)
    (hspares : ∀ c f, q.calls c = some f → x ≠ some c → q.Spares a c f)
    (hsend : ∀ msg, a = .send svc.mailbox msg → q.Sendable svc x msg) :
    (q.doMail a).Inv svc x := by
  refine ⟨hi.mail.step he, fun c f hf hx => ?_, fun ack st hmem => ?_, fun msg hmsg hvalid => ?_, ?_,
    fun ack hack => ?_⟩
  · exact (hi.calls c f hf hx).mail_step hi he (hidle c f hf hx) hx (hspares c f hf hx) hsend
  · exact (hi.returned ack st hmem).mail_step hi he hsend
  · rcases sent_step hsend with heq | ⟨new, hnew, heq⟩ <;> rw [heq] at hmsg
    · exact hi.known msg hmsg hvalid
    · rcases List.mem_append.mp hmsg with hold | hlast
      · exact hi.known msg hold hvalid
      · obtain rfl := List.mem_singleton.mp hlast
        obtain ⟨⟨d, g, _, hg, hgack, _⟩, _⟩ := hnew hvalid
        exact .inl ⟨d, g, hg, hgack⟩
  · rcases sent_step hsend with heq | ⟨new, hnew, heq⟩ <;> rw [heq]
    · exact hi.once
    · refine List.pairwise_append.mpr ⟨hi.once, List.pairwise_singleton _ _, ?_⟩
      intro old hold msg hlast hvalid hsame
      obtain rfl := List.mem_singleton.mp hlast
      exact (hnew (hsame ▸ hvalid)).2 old hold hsame
  · obtain ⟨hvalid, i, hi', msg, hmsg, hsame⟩ := hi.executed ack hack
    refine ⟨hvalid, i, hi', msg, ?_, hsame⟩
    rcases sent_step hsend with heq | ⟨new, hnew, heq⟩ <;> rw [heq]
    · exact hmsg
    · obtain ⟨hlt, _⟩ := List.getElem?_eq_some_iff.mp hmsg
      rw [List.getElem?_append_left hlt]
      exact hmsg

/-! ## Steps of the coroutine that is in a call -/

/-- An action of the running coroutine `c` that names only signals that `c` made. -/
theorem Inv.own_step (hi : q.Inv svc x) (hp : q.sched.phase = .running c)
    (hrecv : q.mail.receiving c = none) (hx : ∀ f, q.calls c = some f → x = some c) {b : Action}
    (he : Sched.machine.enabled q.sched b)
    (hnames : ∀ h, b.names h = true → .madeSignal c h ∈ q.sched.history) :
    (q.setSched (Sched.machine.perform q.sched b)).Inv svc x := by
  have hother : ∀ d g, q.calls d = some g → x ≠ some d → d ≠ c := by
    rintro d g hg hd rfl
    exact hd (hx g hg)
  have hmail : (MailboxState.machine ServiceMsg).enabled q.mail (.sched b) :=
    ⟨he, by simp [MailboxState.inRecv, show q.mail.sched.phase = _ from hp, Phase.mcoRunning, hrecv]⟩
  refine hi.mail_step hmail (fun d g hg hd hrun => ?_) (fun d g hg hd b' hb h hn hh hown => ?_) (by simp)
  · rw [hp] at hrun
    cases hrun
    exact hother _ g hg hd rfl
  · cases hb
    have ha := Sched.accounted_of_reachable hi.sched
    exact hother d g hg hd (ha.made_unique d c h (ha.own d h hown).1 (hnames h hn))

theorem Inv.issued_of_sent (hi : q.Inv svc none) {msg : ServiceMsg}
    (hmsg : msg ∈ q.mail.sent svc.mailbox) (hvalid : msg.ackSignal.isValid = true) :
    msg.ackSignal ∈ q.sched.issued := by
  rcases hi.known msg hmsg hvalid with ⟨c, f, hf, hack⟩ | ⟨st, hst⟩
  · have hmade := (hi.calls c f hf nofun).calling.watched.answer.made
    exact hack ▸ ((Sched.accounted_of_reachable hi.sched).made_issued c _ hmade).2
  · exact (hi.returned _ st hst).issued hvalid

theorem idle_of_inCall (h : q.inCall = false) (hf : q.calls c = some f) :
    q.sched.phase ≠ .running c := by
  intro hp
  simp [inCall, hp, Phase.mcoRunning, hf] at h

/-- The call returns at once since the service is dead. -/
theorem Inv.refuse (hi : q.Inv svc none) :
    Inv svc { q with returned := q.returned ++ [(Handle.invalid, .targetDead)] } none := by
  refine ⟨hi.mail, fun c f hf hx => ?_, fun ack st hmem => ?_, fun msg hmsg hvalid => ?_, hi.once,
    hi.executed⟩
  · have hok := hi.calls c f hf hx
    exact ⟨⟨hok.calling, hok.ne, hok.outside, hok.apart, hok.sent⟩, hok.unsent⟩
  · rcases List.mem_append.mp hmem with hold | hlast
    · have hok := hi.returned ack st hold
      exact ⟨hok.issued, hok.status, hok.ended, hok.apart⟩
    · cases List.mem_singleton.mp hlast
      refine ⟨nofun, ⟨nofun, fun hex => ?_⟩, nofun, fun c f hf heq => ?_⟩
      · exact absurd (hi.executed _ hex).1 nofun
      · have hmade := (hi.calls c f hf nofun).calling.watched.answer.made
        have hissued := ((Sched.accounted_of_reachable hi.sched).made_issued c _ hmade).2
        exact (Sched.inv_of_reachable hi.sched).1.view.invalid_issued (heq ▸ hissued)
  · refine (hi.known msg hmsg hvalid).imp_right fun ⟨st, hst⟩ => ?_
    exact ⟨st, List.mem_append_left _ hst⟩

/-- A run of the coroutine `c` that raises only signals that `c` made. -/
theorem Inv.own_run (hi : q.Inv svc x) (hrecv : q.mail.receiving c = none)
    (hx : ∀ f, q.calls c = some f → x = some c) {t : Sched}
    (h : (Sched.ownPart c).Joined q.sched t) : (q.setSched t).Inv svc x := by
  refine h.invariant (P := fun s => (q.setSched s).Inv svc x) (fun s b hs hen => ?_) hi
  exact hs.own_step hen.2.1 hrecv hx hen.1 hen.2.2

/-- A new call, or a new stage of the call of `c`. -/
theorem Inv.setCall (hi : q.Inv svc x) (hx : ∀ d, x = some d → d = c) (hok : q.CallOk svc c f)
    (hack : ∀ st, (f.ackSignal, st) ∉ q.returned)
    (hold : ∀ g, q.calls c = some g → g.ackSignal = f.ackSignal) :
    (q.setCall c (some f)).Inv svc none := by
  refine ⟨hi.mail, fun d g hg _ => ?_, fun ack st hmem => ?_, fun msg hmsg hvalid => ?_, hi.once,
    hi.executed⟩
  · have hg' : Function.update q.calls c (some f) d = some g := hg
    rw [Function.update_apply] at hg'
    have hok' : q.CallOk svc d g := by
      split at hg'
      · next heq =>
        cases hg'
        exact heq ▸ hok
      · next hne => exact hi.calls d g hg' fun heq => hne (hx d heq)
    exact ⟨⟨hok'.calling, hok'.ne, hok'.outside, hok'.apart, hok'.sent⟩, hok'.unsent⟩
  · have hret := hi.returned ack st hmem
    refine ⟨hret.issued, hret.status, hret.ended, fun d g hg heq => ?_⟩
    have hg' : Function.update q.calls c (some f) d = some g := hg
    rcases Table.insert_some hg' with ⟨_, rfl⟩ | ⟨_, hold⟩
    · exact hack st (heq ▸ hmem)
    · exact hret.apart d g hold heq
  · refine (hi.known msg hmsg hvalid).imp_left fun ⟨d, g, hg, hsame⟩ => ?_
    by_cases hdc : d = c
    · subst hdc
      exact ⟨d, f, Function.update_self .., (hold g hg).symm.trans hsame⟩
    · exact ⟨d, g, (Function.update_of_ne hdc ..).trans hg, hsame⟩

/-- A signal that is not issued is not the answer of any call. -/
theorem Inv.unused (hi : q.Inv svc none) {ack : Handle} (hfresh : q.sched.Fresh ack) :
    (∀ msg ∈ q.mail.sent svc.mailbox, msg.ackSignal ≠ ack) ∧ ack ∉ q.executed ∧
      ∀ st, (ack, st) ∉ q.returned := by
  have hvalid : ack.isValid = true := by simp [Handle.isValid, hfresh.1]
  have hsent : ∀ msg ∈ q.mail.sent svc.mailbox, msg.ackSignal ≠ ack := by
    rintro msg hmsg rfl
    exact hfresh.2 (hi.issued_of_sent hmsg hvalid)
  refine ⟨hsent, fun hex => ?_, fun st hmem => hfresh.2 ((hi.returned ack st hmem).issued hvalid)⟩
  obtain ⟨_, i, _, msg, hmsg, hsame⟩ := hi.executed ack hex
  exact hsent msg (List.mem_of_getElem? hmsg) hsame

/-- The call makes its signals and enters the loop. -/
theorem Inv.enter (hi : q.Inv svc none) (hp : q.sched.phase = .running c)
    (hrecv : q.mail.receiving c = none) (hcall : q.calls c = none)
    (hlive : q.sched.coros svc.coro ≠ none) (hf : q.sched.FreshCall f) (hstage : f.stage = .sending)
    (hcancel : f.cancelSignal.isValid = true → f.cancelSignal ∈ q.sched.issued) :
    ((q.setSched (q.sched.prologue c svc.coro f)).setCall c (some f)).Inv svc none := by
  obtain ⟨hjoined, hphase, hwatched⟩ := Sched.prologue_spec hi.sched hp hlive hf
  have hclosed := Sched.ownPart_closed hjoined
  have hi₃ := hi.own_run hrecv (by simp [hcall]) hjoined
  obtain ⟨hunsent, hunexecuted, hunreturned⟩ := hi.unused hf.ack
  have hinside := Sched.Inside.of_running hi₃.sched hphase
  have hwatched' : (q.sched.prologue c svc.coro f).Watched c svc.coro f (f.ackSignal ∈ q.executed) :=
    propext (iff_of_false not_false hunexecuted) ▸ hwatched
  have hcalling : (q.sched.prologue c svc.coro f).Calling c svc.coro f (f.ackSignal ∈ q.executed) :=
    ⟨hinside, hwatched', fun hvalid => hclosed.issued _ (hcancel hvalid), fun hw => by
      rw [hstage] at hw
      cases hw⟩
  refine hi₃.setCall nofun ⟨⟨hcalling, hf.ne.1, hrecv, fun h box hbox => ?_, ?_⟩, fun _ => hunsent⟩
    hunreturned (by simp [setSched, hcall])
  · have hissued := ((MailboxState.inv_of_reachable hi.mail).boxes h box hbox).signal
    have hapart : ∀ y, q.sched.Fresh y → box.signal ≠ y := by
      rintro y hy rfl
      exact hy.2 (hissued (by simp [Handle.isValid, hy.1]))
    exact ⟨hapart _ hf.ack, hapart _ hf.monitorSignal⟩
  · exact fun msg hmsg hack => absurd hack (hunsent msg hmsg)

/-- The invariant of all calls, from that of the others and that of the call of `c`. -/
theorem Inv.all (hi : q.Inv svc (some c)) (hok : ∀ f, q.calls c = some f → q.CallOk svc c f) :
    q.Inv svc none := by
  refine { hi with calls := fun d g hg _ => ?_ }
  by_cases hdc : d = c
  · subst hdc
    exact hok g hg
  · exact hi.calls d g hg fun heq => hdc (Option.some.inj heq).symm

theorem Inv.but (hi : q.Inv svc none) (c : Handle) : q.Inv svc (some c) :=
  { hi with calls := fun d g hg _ => hi.calls d g hg nofun }

/-- The call leaves the loop and waits. -/
theorem Inv.await (hi : q.Inv svc (some c)) (hcall : q.calls c = some f)
    (hcore : q.CallCore svc c f) (hp : q.sched.phase = .running c) (hcount : q.sched.CanCount c) :
    (q.await c f).Inv svc none := by
  have he := Sched.wait_enabled hp f.signals false
  have hi' := hi.own_step hp hcore.outside (fun _ _ => rfl) he nofun
  rw [Sched.perform_wait hp] at hi'
  have hcalling := hcore.calling.wait hi.sched hp hcount
  refine hi'.setCall (fun d hd => (Option.some.inj hd).symm)
    ⟨⟨hcalling, hcore.ne, hcore.outside, hcore.apart, hcore.sent⟩, nofun⟩ (fun st hmem => ?_)
    (fun g hg => ?_)
  · exact (hi.returned _ st hmem).apart c f hcall rfl
  · obtain rfl := Option.some.inj (hcall.symm.trans hg)
    rfl

/-- The call finds no room and yields. -/
theorem Inv.yield (hi : q.Inv svc none) (hcall : q.calls c = some f)
    (hp : q.sched.phase = .running c) (hstage : f.stage = .sending) :
    (q.setSched (q.sched.suspend c)).Inv svc none := by
  have hok := hi.calls c f hcall nofun
  have he := Sched.yield_enabled hp
  have hi' := (hi.but c).own_step hp hok.outside (fun _ _ => rfl) he nofun
  rw [Sched.perform_yield hp] at hi'
  refine hi'.all fun g hg => ?_
  obtain rfl := Option.some.inj (hcall.symm.trans hg)
  exact ⟨⟨hok.calling.yield hi.sched hp hstage, hok.ne, hok.outside, hok.apart, hok.sent⟩, hok.unsent⟩

theorem canCount_wake {s : Sched} (h : s.CanCount c) (signal : Handle) :
    (MailboxState.wake s signal).CanCount c := by
  unfold MailboxState.wake
  split
  · exact h.raise signal
  · exact h

/-- The scheduler's part of a call that sends its message. -/
theorem CallCore.send_calling (h : q.CallCore svc c f) (hr : Sched.machine.Reachable q.sched)
    (hp : q.sched.phase = .running c) (hstage : f.stage = .sending) {msg : ServiceMsg}
    (he : (MailboxState.machine ServiceMsg).enabled q.mail (.send svc.mailbox msg)) :
    (q.doMail (.send svc.mailbox msg)).sched.phase = .running c ∧
      (q.doMail (.send svc.mailbox msg)).sched.Calling c svc.coro f (f.ackSignal ∈ q.executed) := by
  refine ((MailboxState.sched_joined (Sched.inv_of_reachable hr).1 he).invariant
    (P := fun s => Sched.machine.Reachable s ∧ s.phase = .running c ∧
      s.Calling c svc.coro f (f.ackSignal ∈ q.executed)) ?_ ⟨hr, hp, h.calling⟩).2
  rintro s b ⟨hrs, hps, hcalling⟩ ⟨hen, _, hb⟩
  obtain ⟨box, hbox, rfl⟩ : ∃ box, q.mail.mailboxes svc.mailbox = some box ∧
      b = .raise box.signal := by
    simp only [MailboxState.schedActions, MailboxState.wakeActions] at hb
    split at hb
    · next box hbox =>
      refine ⟨box, hbox, ?_⟩
      split at hb
      · split at hb
        · exact List.mem_singleton.mp hb
        · cases hb
      · cases hb
    · cases hb
  obtain ⟨hack, hmonitor⟩ := h.apart _ box hbox
  have hphase : (Sched.machine.perform s (.raise box.signal)).phase = .running c :=
    (Sched.raiseSignal_frame s box.signal).2.1.trans hps
  exact ⟨hrs.step hen, hphase, hcalling.running_step hrs hen hphase hstage
    (by simp [Action.names, hack]) (by simp [Action.names, hmonitor])⟩

/-- The call sends its message. -/
theorem Inv.sendCall (hi : q.Inv svc none) (hcall : q.calls c = some f)
    (hp : q.sched.phase = .running c) (hstage : f.stage = .sending)
    (hlive : q.sched.checkSignal f.monitorSignal = false) :
    (q.doMail (.send svc.mailbox f.msg)).Inv svc (some c) ∧
      (q.doMail (.send svc.mailbox f.msg)).CallCore svc c f ∧
      (q.doMail (.send svc.mailbox f.msg)).sched.phase = .running c := by
  have hok := hi.calls c f hcall (by simp)
  have hunsent := hok.unsent hstage
  have hw := hok.calling.watched
  -- A service that calls itself finds its monitor signal raised and does not come here.
  have hself : svc.coro ≠ c := by
    intro hself
    have hclosed := (Sched.checkSignal_iff_owner (Sched.accounted_of_reachable hi.sched)
      hw.madeMonitor).mpr (hw.self hself)
    rw [hlive] at hclosed
    cases hclosed
  have he : (MailboxState.machine ServiceMsg).enabled q.mail (.send svc.mailbox f.msg) := by
    have hp' : q.mail.sched.phase = .running c := hp
    exact ⟨by simp [hp'], by simp [MailboxState.inRecv, hp', Phase.mcoRunning, hok.outside]⟩
  have hsend : ∀ msg, MailboxAction.send svc.mailbox f.msg = .send svc.mailbox msg →
      q.Sendable svc (some c) msg := by
    rintro msg heq
    cases heq
    exact fun _ => ⟨⟨c, f, rfl, hcall, rfl, hw.answer.made⟩, hunsent⟩
  have hidle : ∀ d g, q.calls d = some g → some c ≠ some d → q.sched.phase ≠ .running d := by
    intro d g _ hd hrun
    rw [hp] at hrun
    exact hd (congrArg some (Phase.running.inj hrun))
  have hi' := (hi.but c).mail_step he hidle (fun _ _ _ _ _ hb => absurd hb (by simp)) hsend
  obtain ⟨hphase, hcalling⟩ := hok.send_calling hi.sched hp hstage he
  refine ⟨hi', ⟨hcalling, hok.ne, ?_, hok.apart_step (hi.but c) he, fun msg hmsg hack => ?_⟩, hphase⟩
  · show (q.mail.send svc.mailbox f.msg).1.receiving c = none
    rcases MailboxState.send_cases q.mail svc.mailbox f.msg with ⟨heq, _⟩ | ⟨_, _, _, _, heq⟩ <;>
      rw [heq]
    · exact hok.outside
    · exact hok.outside
  · rcases MailboxState.perform_sent q.mail (.send svc.mailbox f.msg) svc.mailbox with
      heq | ⟨new, hnew, heq⟩
    · exact absurd hack (hunsent msg (heq ▸ hmsg))
    · cases hnew
      rcases List.mem_append.mp (heq ▸ hmsg) with hold | hlast
      · exact absurd hack (hunsent msg hold)
      · rw [List.mem_singleton.mp hlast]
        exact ⟨hself, rfl⟩

theorem Inv.sendRound (hi : q.Inv svc none) (hcall : q.calls c = some f)
    (hp : q.sched.phase = .running c) (hstage : f.stage = .sending)
    (hcount : q.sched.CanCount c) : (q.sendRound svc c f).Inv svc none := by
  have hok := hi.calls c f hcall nofun
  unfold ServiceState.sendRound
  split
  · exact (hi.but c).await hcall hok.toCallCore hp hcount
  · next hgo =>
    have hlive : q.sched.checkSignal f.monitorSignal = false := by
      simpa using (not_or.mp (mt (Bool.or_eq_true ..).mpr hgo)).2
    obtain ⟨hi', hcore, hphase⟩ := hi.sendCall hcall hp hstage hlive
    have hq' : q.doMail (.send svc.mailbox f.msg) =
      { q with mail := (q.mail.send svc.mailbox f.msg).1 } := rfl
    rw [hq'] at hi' hcore hphase
    rcases MailboxState.send_cases q.mail svc.mailbox f.msg with ⟨hsame, hfull⟩ | ⟨box, _, _, _, heq⟩
    · -- The mailbox is full or closed.
      dsimp only
      rw [hsame, hfull]
      exact hi.yield hcall hp hstage
    · have hsent : (q.mail.send svc.mailbox f.msg).2 = true := by rw [heq]
      have hcount' : (q.mail.send svc.mailbox f.msg).1.sched.CanCount c := by
        rw [heq]
        exact canCount_wake hcount box.signal
      dsimp only
      rw [hsent]
      exact hi'.await hcall hcore hphase hcount'

/-- A call that returns another status was cancelled, or its service is gone, or it sent nothing. -/
theorem CallOk.ended (hok : q.CallOk svc c f) (hr : Sched.machine.Reachable q.sched)
    (hp : q.sched.phase = .running c) (hstage : f.stage = .waiting)
    (hst : q.sched.callStatus f ≠ .ok) : q.Over svc f.ackSignal := by
  have hw := hok.calling.watched
  have ha := Sched.accounted_of_reachable hr
  by_cases hcancel : q.sched.isCancelled f.cancelSignal = true
  · refine .inl fun msg hmsg hack => ?_
    rw [Sched.isCallCancelled, (hok.sent msg hmsg hack).2]
    exact ⟨hcancel, hok.calling.cancel (Bool.and_eq_true_iff.mp hcancel).1⟩
  · -- Neither the answer nor the cancellation was raised, so it was the death of the service.
    obtain ⟨h, hmem, hvalid, _, hcheck⟩ :=
      (hok.calling.awaiting hstage).due (Sched.inv_of_reachable hr).1 hp
    have hack : q.sched.checkSignal f.ackSignal ≠ true := by
      intro hack
      exact hst (by simp [Sched.callStatus, hack])
    simp only [CallFrame.signals, List.mem_cons, List.not_mem_nil, or_false] at hmem
    rcases hmem with rfl | rfl | rfl
    · exact absurd hcheck hack
    · rcases hw.dead ((Sched.checkSignal_iff_owner ha hw.madeMonitor).mp hcheck) with hself | hdead
      · exact .inl fun msg hmsg hsame => absurd hself (hok.sent msg hmsg hsame).1
      · exact .inr hdead
    · exact absurd (by simp [Sched.isCancelled, hvalid, hcheck]) hcancel

theorem Over.closed {s' : Sched} {ack : Handle} (h : q.Over svc ack)
    (hclosed : Sched.StaysClosed q.sched s') : (q.setSched s').Over svc ack := by
  rcases h with hcancelled | ⟨hissued, hdead⟩
  · refine .inl fun msg hmsg hack => ?_
    obtain ⟨hcancel, hissued⟩ := hcancelled msg hmsg hack
    exact ⟨isCancelled_closed hclosed hissued hcancel, hclosed.issued _ hissued⟩
  · exact .inr ⟨hclosed.issued _ hissued, hclosed.coro _ hissued hdead⟩

/-- The call returns. -/
theorem Inv.finishCall (hi : q.Inv svc none) (hcall : q.calls c = some f)
    (hp : q.sched.phase = .running c) (hstage : f.stage = .waiting) :
    (q.finishCall c f).Inv svc none := by
  have hok := hi.calls c f hcall nofun
  have hw := hok.calling.watched
  have ha := Sched.accounted_of_reachable hi.sched
  have hjoined := Sched.joined_epilogue hp hw
  have hclosed := Sched.ownPart_closed hjoined
  have hi' := (hi.but c).own_run hok.outside (fun _ _ => rfl) hjoined
  have hfinish : q.finishCall c f = { (q.setSched (q.sched.epilogue f)).setCall c none with
      returned := q.returned ++ [(f.ackSignal, q.sched.callStatus f)] } := rfl
  have hcalls : ∀ d g, (q.finishCall c f).calls d = some g → d ≠ c ∧ q.calls d = some g := by
    intro d g hg
    have hg' : Function.update q.calls c none d = some g := hg
    exact Table.erase_some hg'
  rw [hfinish] at hcalls ⊢
  refine ⟨hi'.mail, fun d g hg _ => ?_, fun ack st hmem => ?_, fun msg hmsg hvalid => ?_, hi'.once,
    hi'.executed⟩
  · obtain ⟨hne, hg'⟩ := hcalls d g hg
    have hok' := hi'.calls d g hg' fun heq => hne (Option.some.inj heq).symm
    exact ⟨⟨hok'.calling, hok'.ne, hok'.outside, hok'.apart, hok'.sent⟩, hok'.unsent⟩
  · rcases List.mem_append.mp hmem with hold | hlast
    · have hret := hi'.returned ack st hold
      exact ⟨hret.issued, hret.status, hret.ended, fun d g hg => hret.apart d g (hcalls d g hg).2⟩
    · cases List.mem_singleton.mp hlast
      refine ⟨fun _ => hclosed.issued _ (ha.made_issued c _ hw.answer.made).2, hw.status_ok ha,
        fun _ hst => (hok.ended hi.sched hp hstage hst).closed hclosed, fun d g hg heq => ?_⟩
      obtain ⟨hne, hg'⟩ := hcalls d g hg
      have hmade := (hi.calls d g hg' nofun).calling.watched.answer.made
      exact hne (ha.made_unique d c _ hmade (heq ▸ hw.answer.made))
  · rcases hi'.known msg hmsg hvalid with ⟨d, g, hg, hsame⟩ | ⟨st, hst⟩
    · by_cases hdc : d = c
      · subst hdc
        obtain rfl := Option.some.inj (hcall.symm.trans hg)
        exact .inr ⟨_, List.mem_append_right _ (List.mem_singleton.mpr (by rw [← hsame]))⟩
      · exact .inl ⟨d, g, (Function.update_of_ne hdc ..).trans hg, hsame⟩
    · exact .inr ⟨st, List.mem_append_left _ hst⟩

/-! ## The response block -/

/-- What the service received was sent. -/
theorem Inv.sent_of_received (hi : q.Inv svc x) {i : Nat} {msg : ServiceMsg}
    (h : q.message svc i = some msg) : (q.mail.sent svc.mailbox)[i]? = some msg := by
  have hget : (q.mail.received svc.mailbox)[i]? = some (some msg) := by
    unfold message at h
    cases hget : (q.mail.received svc.mailbox)[i]? with
    | none => rw [hget] at h; cases h
    | some m =>
      rw [hget] at h
      exact congrArg some h
  obtain ⟨rest, hrest⟩ := (MailboxState.inv_of_reachable hi.mail).fifo svc.mailbox
  obtain ⟨hlt, _⟩ := List.getElem?_eq_some_iff.mp hget
  have hsent : ((q.mail.sent svc.mailbox).map some)[i]? = some (some msg) := by
    rw [← hrest, List.getElem?_append_left hlt, hget]
  rw [List.getElem?_map] at hsent
  obtain ⟨m, hm, heq⟩ := Option.map_eq_some_iff.mp hsent
  rw [hm, Option.some.inj heq]

/-- Messages with the same answer are the same message. -/
theorem Inv.sent_inj (hi : q.Inv svc x) {i j : Nat} {msg msg' : ServiceMsg}
    (h : (q.mail.sent svc.mailbox)[i]? = some msg) (h' : (q.mail.sent svc.mailbox)[j]? = some msg')
    (hvalid : msg.ackSignal.isValid = true) (hsame : msg.ackSignal = msg'.ackSignal) : i = j := by
  obtain ⟨hi', rfl⟩ := List.getElem?_eq_some_iff.mp h
  obtain ⟨hj, rfl⟩ := List.getElem?_eq_some_iff.mp h'
  have hpair := List.pairwise_iff_getElem.mp hi.once
  rcases Nat.lt_trichotomy i j with hlt | heq | hlt
  · exact absurd hsame (hpair i j hi' hj hlt hvalid)
  · exact heq
  · exact absurd hsame.symm (hpair j i hj hi' hlt (hsame ▸ hvalid))

/-- A response block is executed only once, and only for a call that has not returned. -/
theorem Inv.inside (hi : q.Inv svc none) (hp : q.sched.phase = .running svc.coro) {i : Nat}
    {msg : ServiceMsg} (hnew : i ∉ q.attempted) (hmsg : q.message svc i = some msg)
    (hbegin : q.sched.beginResponse msg = true) :
    msg.ackSignal ∉ q.executed ∧ ∃ c f, q.calls c = some f ∧ f.ackSignal = msg.ackSignal := by
  have hsent := hi.sent_of_received hmsg
  obtain ⟨hvalid, hlive⟩ := Bool.and_eq_true_iff.mp hbegin
  -- The message was not answered before, since every answer belongs to one message.
  have hexec : msg.ackSignal ∉ q.executed := by
    intro hex
    obtain ⟨_, j, hj, msg', hmsg', hsame⟩ := hi.executed _ hex
    exact hnew (hi.sent_inj hsent hmsg' hvalid hsame.symm ▸ hj)
  refine ⟨hexec, (hi.known msg (List.mem_of_getElem? hsent) hvalid).resolve_right ?_⟩
  -- A call that returned without an answer was cancelled, or its service is gone, which runs here.
  rintro ⟨st, hst⟩
  have hret := hi.returned _ st hst
  rcases hret.ended hvalid (mt hret.status.mp hexec) with hcancelled | ⟨_, hdead⟩
  · rw [(hcancelled msg (List.mem_of_getElem? hsent) rfl).1] at hlive
    cases hlive
  · exact (Sched.Inside.of_running hi.sched hp).live hdead

/-- The block is executed and the answer raised. -/
theorem Inv.answer (hi : q.Inv svc none) (hp : q.sched.phase = .running svc.coro)
    (hin : q.inCall = false) (hrecv : q.mail.inRecv = false) (hcall : q.calls c = some f)
    (hvalid : f.ackSignal.isValid = true) {i : Nat}
    {msg : ServiceMsg} (hi' : i ∈ q.attempted) (hsent : (q.mail.sent svc.mailbox)[i]? = some msg)
    (hsame : msg.ackSignal = f.ackSignal) :
    Inv svc { q.setSched (q.sched.raiseSignal f.ackSignal).1 with
      executed := q.executed ++ [f.ackSignal] } none := by
  have hok := hi.calls c f hcall nofun
  have ha := Sched.accounted_of_reachable hi.sched
  have hraise : Sched.machine.enabled q.sched (.raise f.ackSignal) := by
    show q.sched.phase ≠ .pass
    rw [hp]
    nofun
  -- A signal is made by one coroutine only.
  have hother : ∀ d g, q.calls d = some g → g.ackSignal = f.ackSignal → d = c := by
    intro d g hg heq
    have hmade := (hi.calls d g hg nofun).calling.watched.answer.made
    exact ha.made_unique d c _ (heq ▸ hmade) hok.calling.watched.answer.made
  have hi₁ := (hi.but c).mail_step (a := .sched (.raise f.ackSignal)) ⟨hraise, hrecv⟩
    (fun d g hg _ => idle_of_inCall hin hg) (fun d g hg hd b hb h hn _ hown => ?_) nofun
  · have hmem : ∀ ack, ack ≠ f.ackSignal → (ack ∈ q.executed ↔ ack ∈ q.executed ++ [f.ackSignal]) := by
      intro ack hne
      simp [hne]
    refine ⟨hi₁.mail, fun d g hg _ => ?_, fun ack st hmem' => ?_, hi₁.known, hi₁.once,
      fun ack hack => ?_⟩
    · by_cases hdc : d = c
      · subst hdc
        obtain rfl := Option.some.inj (hcall.symm.trans hg)
        have hcalling := hok.calling.answer hi.sched hraise (idle_of_inCall hin hcall) hok.ne
        exact ⟨⟨hcalling.congr (iff_of_true trivial (by simp)), hok.ne, hok.outside, hok.apart,
          hok.sent⟩, hok.unsent⟩
      · have hok' := hi₁.calls d g hg fun heq => hdc (Option.some.inj heq).symm
        have hne : g.ackSignal ≠ f.ackSignal := fun heq => hdc (hother d g hg heq)
        exact ⟨⟨hok'.calling.congr (hmem _ hne), hok'.ne, hok'.outside, hok'.apart, hok'.sent⟩,
          hok'.unsent⟩
    · have hret := hi₁.returned ack st hmem'
      refine ⟨hret.issued, ?_, hret.ended, hret.apart⟩
      exact hret.status.trans (hmem ack (hret.apart c f hcall).symm)
    · rcases List.mem_append.mp hack with hold | hlast
      · exact hi₁.executed ack hold
      · obtain rfl := List.mem_singleton.mp hlast
        exact ⟨hvalid, i, hi', msg, hsent, hsame⟩
  · cases hb
    obtain rfl : f.ackSignal = h := by simpa [Action.names] using hn
    exact hd (congrArg some (ha.made_unique c d _ hok.calling.watched.answer.made (ha.own d _ hown).1))

theorem Inv.attempt (hi : q.Inv svc none) (i : Nat) :
    Inv svc { q with attempted := i :: q.attempted } none := by
  refine ⟨hi.mail, fun c f hf hx => ?_, fun ack st hmem => ?_, hi.known, hi.once, fun ack hack => ?_⟩
  · have hok := hi.calls c f hf hx
    exact ⟨⟨hok.calling, hok.ne, hok.outside, hok.apart, hok.sent⟩, hok.unsent⟩
  · have hret := hi.returned ack st hmem
    exact ⟨hret.issued, hret.status, hret.ended, hret.apart⟩
  · obtain ⟨hvalid, j, hj, rest⟩ := hi.executed ack hack
    exact ⟨hvalid, j, List.mem_cons_of_mem _ hj, rest⟩

theorem Inv.respond (hi : q.Inv svc none) {i : Nat} (he : (machine svc).enabled q (.respond i)) :
    (q.respond svc i).Inv svc none := by
  obtain ⟨hp, hin, hrecv, _, hnew⟩ := he
  have hi' := hi.attempt i
  unfold ServiceState.respond
  dsimp only
  split
  · next msg hmsg =>
    split
    · next hbegin =>
      obtain ⟨_, c, f, hcall, hack⟩ := hi.inside hp hnew hmsg hbegin
      obtain ⟨hvalid, _⟩ := Bool.and_eq_true_iff.mp hbegin
      rw [← hack] at hvalid ⊢
      exact hi'.answer hp hin hrecv hcall hvalid List.mem_cons_self (hi.sent_of_received hmsg)
        hack.symm
    · exact hi'
  · exact hi'

/-! ## Every action keeps the invariant -/

theorem Inv.mailAction (hi : q.Inv svc none) {a : MailboxAction ServiceMsg}
    (he : (machine svc).enabled q (.mail a)) : (q.doMail a).Inv svc none := by
  obtain ⟨hen, hin, hallows⟩ := he
  refine hi.mail_step hen (fun c f hf _ => idle_of_inCall hin hf)
    (fun c f hf _ b hb h hn hh hown => ?_) (fun msg hmsg hvalid => ?_)
  · subst hb
    have hlocal : q.isLocal h = true := by simp [isLocal, hown, hf, hh]
    have hnot : q.isLocal h = false := hallows h (Action.mem_signals.mpr hn)
    rw [hlocal] at hnot
    cases hnot
  · subst hmsg
    have hinvalid : msg.ackSignal = Handle.invalid := hallows rfl
    rw [hinvalid] at hvalid
    cases hvalid

theorem Inv.callAction (hi : q.Inv svc none)
    {cancelSignal ackSignal monitorSignal monitor : Handle}
    (he : (machine svc).enabled q (.call cancelSignal ackSignal monitorSignal monitor)) :
    ((machine svc).perform q (.call cancelSignal ackSignal monitorSignal monitor)).Inv svc none := by
  obtain ⟨hrun, hin, hrecv, hcancel, hack, hsignal, hmonitor, hnodup⟩ := he
  obtain ⟨c, hc⟩ := Option.isSome_iff_exists.mp hrun
  have hp := Phase.eq_running hc
  have hperform : (machine svc).perform q (.call cancelSignal ackSignal monitorSignal monitor) =
      q.call svc c cancelSignal ackSignal monitorSignal monitor := by
    show q.inCoro _ = _
    simp only [inCoro, hc]
  rw [hperform]
  unfold ServiceState.call
  split
  · exact hi.refuse
  · next hlive =>
    refine hi.enter (f := ⟨ackSignal, monitorSignal, monitor, cancelSignal, .sending⟩) hp ?_ ?_ ?_
      ⟨hack, hsignal, hmonitor, hnodup⟩ rfl hcancel
    · have hp' : q.mail.sched.phase = .running c := hp
      simpa [MailboxState.inRecv, hp', Phase.mcoRunning] using hrecv
    · simpa [inCall, hp, Phase.mcoRunning] using hin
    · exact fun hnone => hlive (by simp [Sched.coroState, hnone])

theorem Inv.callStepAction (hi : q.Inv svc none) (he : (machine svc).enabled q .callStep) :
    ((machine svc).perform q .callStep).Inv svc none := by
  obtain ⟨hin, hcount⟩ := he
  obtain ⟨c, hp, hcount⟩ := Sched.running_of_any hcount
  obtain ⟨f, hcall⟩ : ∃ f, q.calls c = some f := by
    simpa [inCall, hp, Phase.mcoRunning, Option.isSome_iff_exists] using hin
  have hperform : (machine svc).perform q .callStep = q.callStep svc c := by
    show q.inCoro _ = _
    simp only [inCoro, hp, Phase.mcoRunning]
  rw [hperform]
  simp only [ServiceState.callStep, hcall]
  cases hstage : f.stage with
  | sending => exact hi.sendRound hcall hp hstage hcount
  | waiting => exact hi.finishCall hcall hp hstage

theorem Inv.step (hi : q.Inv svc none) {a : ServiceAction} (he : (machine svc).enabled q a) :
    ((machine svc).perform q a).Inv svc none := by
  cases a with
  | mail a => exact hi.mailAction he
  | call cancelSignal ackSignal monitorSignal monitor => exact hi.callAction he
  | callStep => exact hi.callStepAction he
  | respond i => exact hi.respond he

theorem inv_of_reachable (h : (machine svc).Reachable q) : q.Inv svc none := by
  refine Machine.invariant (P := fun q => q.Inv svc none) ?_ (fun _ _ _ hi he => hi.step he) h
  rintro q rfl
  exact ⟨.init rfl, nofun, nofun, nofun, List.Pairwise.nil, nofun⟩

/-! ## The contract -/

/-- The calls that have returned stay in the log. -/
theorem returned_step (q : ServiceState) (a : ServiceAction) :
    q.returned <+: ((machine svc).perform q a).returned := by
  have hsend : ∀ c f, (q.sendRound svc c f).returned = q.returned := by
    intro c f
    unfold sendRound
    split
    · rfl
    · dsimp only
      split <;> rfl
  cases a with
  | mail a => exact List.prefix_rfl
  | call cancelSignal ackSignal monitorSignal monitor =>
    show q.returned <+: (q.inCoro _).returned
    unfold inCoro
    split
    · dsimp only
      unfold call
      split
      · exact List.prefix_append _ _
      · exact List.prefix_rfl
    · exact List.prefix_rfl
  | callStep =>
    show q.returned <+: (q.inCoro _).returned
    unfold inCoro
    split
    · dsimp only
      unfold callStep
      split
      · split
        · exact (hsend _ _).symm ▸ List.prefix_rfl
        · exact List.prefix_append _ _
      · exact List.prefix_rfl
    · exact List.prefix_rfl
  | respond i =>
    show q.returned <+: (q.respond svc i).returned
    unfold respond
    dsimp only
    split
    · split <;> exact List.prefix_rfl
    · exact List.prefix_rfl

/-- A call returns `BIO_CALL_OK` when its response block was executed, a response block is executed
only while its caller is inside the call, it is never executed after the call returned another
status, and each message is handed to the service at most once. -/
theorem service_call_safety (h : (machine svc).Reachable q) :
    (∀ ack status, (ack, status) ∈ q.returned → (status = .ok ↔ ack ∈ q.executed)) ∧
    (∀ i msg, (machine svc).enabled q (.respond i) → q.message svc i = some msg →
      q.sched.beginResponse msg = true →
      ∃ c f, q.calls c = some f ∧ f.ackSignal = msg.ackSignal) ∧
    (∀ ack status, (ack, status) ∈ q.returned → status ≠ .ok → ∀ as, (machine svc).Legal q as →
      ack ∉ ((machine svc).run q as).executed) ∧
    q.mail.received svc.mailbox <+: (q.mail.sent svc.mailbox).map some ∧
    (∀ i j msg msg', q.message svc i = some msg → q.message svc j = some msg' →
      msg.ackSignal.isValid = true → msg.ackSignal = msg'.ackSignal → i = j) := by
  have hi := inv_of_reachable h
  refine ⟨fun ack st hmem => (hi.returned ack st hmem).status, fun i msg he hmsg hbegin => ?_,
    fun ack st hmem hst as hlegal hex => ?_,
    (MailboxState.inv_of_reachable hi.mail).fifo svc.mailbox,
    fun i j msg msg' hmsg hmsg' hvalid hsame => ?_⟩
  · exact (hi.inside he.1 he.2.2.2.2 hmsg hbegin).2
  · have hlog : q.returned <+: ((machine svc).run q as).returned :=
      Machine.run_invariant (P := fun q' => q.returned <+: q'.returned)
        (fun q' a hpre _ => hpre.trans (returned_step q' a)) List.prefix_rfl hlegal
    have hi' := inv_of_reachable (h.run hlegal)
    exact hst ((hi'.returned ack st (hlog.subset hmem)).status.mpr hex)
  · exact hi.sent_inj (hi.sent_of_received hmsg) (hi.sent_of_received hmsg') hvalid hsame

/-- A coroutine calls a service, which responds. -/
theorem service_call_safety_answered :
    let svc : Service := ⟨⟨0, 1⟩, ⟨1, 1⟩⟩
    let q := (machine svc).run ⟨MailboxState.init, fun _ => none, [], [], []⟩
      [.mail (.sched (.spawn false ⟨0, 1⟩)), .mail (.open' 4#32 ⟨1, 1⟩),
        .mail (.sched (.spawn false ⟨2, 1⟩)), .mail (.sched .enterLoop), .mail (.sched .endPass),
        .mail (.sched .swap), .mail (.sched .resume), .mail (.recv ⟨1, 1⟩ ⟨3, 1⟩),
        .mail (.sched .resume), .call Handle.invalid ⟨4, 1⟩ ⟨5, 1⟩ ⟨6, 1⟩, .callStep,
        .mail (.sched .endPass), .mail (.sched .swap), .mail (.sched .resume), .mail .resumeRecv]
    let q' := (machine svc).run q [.respond 0, .mail (.sched .yield), .mail (.sched .endPass),
      .mail (.sched .swap), .mail (.sched .resume), .callStep]
    (q.message svc 0 = some ⟨⟨4, 1⟩, Handle.invalid⟩ ∧
      ∃ c f, q.calls c = some f ∧ f.ackSignal = ⟨4, 1⟩) ∧
    q'.returned = [(⟨4, 1⟩, .ok)] ∧ (CallStatus.ok = .ok ↔ ⟨4, 1⟩ ∈ q'.executed) := by
  intro svc q q'
  have hr : (machine svc).Reachable q := Machine.Reachable.run (.init rfl) (by decide +kernel)
  have hr' : (machine svc).Reachable q' := hr.run (by decide +kernel)
  have hmsg : q.message svc 0 = some ⟨⟨4, 1⟩, Handle.invalid⟩ := by decide +kernel
  have hreturned : q'.returned = [(⟨4, 1⟩, .ok)] := by decide +kernel
  obtain ⟨_, hinside, _⟩ := service_call_safety hr
  obtain ⟨hstatus, _⟩ := service_call_safety hr'
  refine ⟨⟨hmsg, hinside 0 _ (by decide +kernel) hmsg (by decide +kernel)⟩, hreturned, ?_⟩
  exact hstatus ⟨4, 1⟩ .ok (hreturned ▸ List.mem_singleton.mpr rfl)

end ServiceState

end Bio
