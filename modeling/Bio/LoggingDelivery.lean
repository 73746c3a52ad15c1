import Bio.LoggingInvariant

/-!
# Delivery of log messages

* `LogState.VlogOk`: what a call of `bio_vlog` has not delivered yet is ahead of it in the list.
* `LogState.Delivers`: this holds of all calls, and what returned has been delivered.

Result: `log_delivery`.
-/

namespace Bio

/-- The loggers that a call of `bio_vlog` has not dealt with. -/
def VlogFrame.rest {α : Type*} (f : VlogFrame α) (loggers : List Handle) : List Handle :=
  match f.stage with
  | .visiting itr => linksFrom loggers itr
  | .notifying _ itr next => itr :: linksFrom loggers next

/-- More messages do not change what was sent before `NULL`. -/
theorem mem_takeWhile_mono {β : Type*} {p : β → Bool} {l l' : List β} {x : β} (h : l <+: l')
    (hx : x ∈ l.takeWhile p) : x ∈ l'.takeWhile p := by
  obtain ⟨r, rfl⟩ := h
  rw [List.takeWhile_append]
  split
  · exact List.mem_append_left _ ((List.takeWhile_subset p) hx)
  · exact hx

namespace LogState

variable {α : Type*} {m m' : LogState α} {c d h : Handle} {f : VlogFrame α}

/-- The message was sent to the logger before `NULL`. -/
def Delivered (m : LogState α) (h : Handle) (x : α) : Prop :=
  ∃ s, m.serviceOf h = some s ∧ some x ∈ (m.mail.sent s.mailbox).takeWhile Option.isSome

/-- A call of `bio_vlog`. As long as the links that it holds are those of registered loggers, the
loggers that it has to deliver to are ahead of it. -/
structure VlogOk (m : LogState α) (f : VlogFrame α) : Prop where
  pointers : f.clean = true → ∀ x ∈ f.pointers, x ∈ m.loggers ∨ x ∈ m.removals
  unclean : f.clean = false → m.removals ≠ []
  text : ∀ message itr next, f.stage = .notifying message itr next → f.text = some message
  known : ∀ h ∈ f.wanted, (m.serviceOf h).isSome = true
  enough : ∀ h ∈ f.wanted, ∀ impl, m.impls h = some impl → impl.minLevel.value ≤ f.level.value
  ahead : f.clean = true → ∀ h ∈ f.wanted, m.resolves h = true → ∀ message, f.text = some message →
    m.Delivered h message ∨ ((∀ x ∈ f.pointers, x ∈ m.loggers) → h ∈ f.rest m.loggers)

/-- The calls of `bio_vlog` and those that returned. -/
structure Delivers (m : LogState α) : Prop where
  calls : ∀ c f, m.vlogs c = some f → m.VlogOk f
  warned : ∀ r ∈ m.returned, r.clean = true ∨ r.removals ≠ []
  returned : ∀ r ∈ m.returned, r.clean = true → ∀ h ∈ r.wanted, m.Delivered h r.message

/-! ## What the others do to a call -/

/-- What an action of another coroutine leaves of the loggers. -/
structure Carries (m m' : LogState α) : Prop where
  serviceOf : ∀ h s, m.serviceOf h = some s → m'.serviceOf h = some s
  sent : ∀ b, m.mail.sent b <+: m'.mail.sent b
  removals : m.removals ⊆ m'.removals
  resolves : ∀ h, (m.serviceOf h).isSome = true → m'.resolves h = true → m.resolves h = true
  entries : ∀ x, x ∈ m.loggers → x ∈ m'.loggers ∨ x ∈ m'.removals
  links : ∀ itr, itr ∈ m.loggers ∨ itr ∈ m.removals → itr ∈ m'.loggers → itr ∈ m.loggers ∧
    ∀ h, m'.resolves h = true → h ∈ linksAfter m.loggers itr → h ∈ linksAfter m'.loggers itr

theorem Carries.delivered (hc : Carries m m') {message : α} (hd : m.Delivered h message) :
    m'.Delivered h message := by
  obtain ⟨s, hs, hmem⟩ := hd
  exact ⟨s, hc.serviceOf h s hs, mem_takeWhile_mono (hc.sent s.mailbox) hmem⟩

theorem Carries.linksFrom (hc : Carries m m') {itr : Option Handle}
    (hold : ∀ x ∈ itr.toList, x ∈ m.loggers ∨ x ∈ m.removals)
    (hnew : ∀ x ∈ itr.toList, x ∈ m'.loggers) (hres : m'.resolves h = true)
    (hmem : h ∈ linksFrom m.loggers itr) : h ∈ linksFrom m'.loggers itr := by
  cases itr with
  | none => exact hmem
  | some x =>
    have hx := (hc.links x (hold x (by simp)) (hnew x (by simp))).2 h hres
    rcases List.mem_cons.mp hmem with rfl | hafter
    · exact List.mem_cons_self
    · exact List.mem_cons_of_mem _ (hx hafter)

theorem Carries.rest (hc : Carries m m')
    (hold : ∀ x ∈ f.pointers, x ∈ m.loggers ∨ x ∈ m.removals)
    (hnew : ∀ x ∈ f.pointers, x ∈ m'.loggers) (hres : m'.resolves h = true)
    (hmem : h ∈ f.rest m.loggers) : h ∈ f.rest m'.loggers := by
  unfold VlogFrame.pointers at hold hnew
  unfold VlogFrame.rest at hmem ⊢
  cases hstage : f.stage with
  | visiting itr =>
    rw [hstage] at hold hnew hmem
    exact hc.linksFrom hold hnew hres hmem
  | notifying message itr next =>
    rw [hstage] at hold hnew hmem
    rcases List.mem_cons.mp hmem with rfl | hafter
    · exact List.mem_cons_self
    · exact List.mem_cons_of_mem _ (hc.linksFrom (fun x hx => hold x (List.mem_cons_of_mem _ hx))
        (fun x hx => hnew x (List.mem_cons_of_mem _ hx)) hres hafter)

/-- The frame of a call. -/
theorem VlogOk.carry (hf : m.VlogOk f) (hc : Carries m m')
    (henough : ∀ h ∈ f.wanted, ∀ impl, m'.impls h = some impl →
      impl.minLevel.value ≤ f.level.value) : m'.VlogOk f := by
  have hpointers : f.clean = true → ∀ x ∈ f.pointers, x ∈ m.loggers ∨ x ∈ m.removals := hf.pointers
  refine ⟨fun hclean x hx => ?_, fun hclean hnil => ?_, hf.text, fun h hh => ?_, henough,
    fun hclean h hh hres message htext => ?_⟩
  · rcases hpointers hclean x hx with hmem | hmem
    · exact hc.entries x hmem
    · exact .inr (hc.removals hmem)
  · exact hf.unclean hclean (List.subset_nil.mp (hnil ▸ hc.removals))
  · obtain ⟨s, hs⟩ := Option.isSome_iff_exists.mp (hf.known h hh)
    rw [hc.serviceOf h s hs]
    rfl
  · rcases hf.ahead hclean h hh (hc.resolves h (hf.known h hh) hres) message htext with hd | hrest
    · exact .inl (hc.delivered hd)
    · refine .inr fun hlive => hc.rest (hpointers hclean) hlive hres (hrest fun x hx => ?_)
      exact (hc.links x (hpointers hclean x hx) (hlive x hx)).1

/-- The loggers and their handles stay as they are. -/
theorem Carries.of_eq (hloggers : m'.loggers = m.loggers) (hresolves : m'.resolves = m.resolves)
    (hserviceOf : m'.serviceOf = m.serviceOf) (hremovals : m'.removals = m.removals)
    (hsent : ∀ b, m.mail.sent b <+: m'.mail.sent b) : Carries m m' where
  serviceOf _ _ hs := hserviceOf ▸ hs
  sent := hsent
  removals := hremovals ▸ List.Subset.refl _
  resolves _ _ hres := hresolves ▸ hres
  entries _ hx := .inl (hloggers ▸ hx)
  links _ _ hx := ⟨hloggers ▸ hx, fun _ _ hafter => hloggers ▸ hafter⟩

theorem SameLoggers.carries (hs : SameLoggers m m') : Carries m m' := by
  refine .of_eq hs.loggers hs.resolves hs.serviceOf hs.removals fun b => ?_
  rcases hs.sent b with heq | ⟨x, heq⟩
  · exact heq ▸ List.prefix_rfl
  · exact heq ▸ List.prefix_append _ _

theorem Registry.carries_finishAdd (hr : m.Registry) {a : AddFrame} {handle : Handle}
    (ha : m.adding c = some a) (hfresh : m.sched.Fresh handle) :
    Carries m (m.finishAdd c handle) := by
  have hknown : ∀ x, (m.serviceOf x).isSome = true → x ≠ handle := by
    rintro x hx rfl
    obtain ⟨s, hs⟩ := Option.isSome_iff_exists.mp hx
    exact hfresh.2 (hr.known x s hs).1
  simp only [LogState.finishAdd, ha]
  refine ⟨fun x s hs => ?_, fun b => List.prefix_rfl, List.Subset.refl _, fun x hx hres => ?_,
    fun x hx => .inl (List.mem_append_left _ hx), fun itr hitr hmem => ?_⟩
  · exact (Function.update_of_ne (hknown x (by rw [hs]; rfl)) ..).trans hs
  · exact (Function.update_of_ne (hknown x hx) ..).symm.trans hres
  · have hlisted : itr ∈ m.loggers := by
      rcases List.mem_append.mp hmem with hold | hnew
      · exact hold
      · rcases hitr with hold | hremoved
        · exact hold
        · exact absurd (List.mem_singleton.mp hnew) (hknown itr (hr.removals itr hremoved).1)
    refine ⟨hlisted, fun x _ hafter => ?_⟩
    show x ∈ linksAfter (m.loggers ++ [handle]) itr
    rw [linksAfter_append hlisted]
    exact List.mem_append_left _ hafter

theorem carries_removeLogger (m : LogState α) (k : Option Handle) (logger : Handle) :
    Carries m (m.removeLogger k logger) := by
  unfold LogState.removeLogger
  split
  · refine ⟨fun _ _ hs => hs, fun _ => List.prefix_rfl, List.subset_append_left _ _,
      fun x _ hres => ?_, fun _ hx => .inl hx, fun _ _ hx => ⟨hx, fun _ _ hafter => hafter⟩⟩
    have hres' : Function.update m.resolves logger false x = true := hres
    rw [Function.update_apply] at hres'
    split at hres'
    · cases hres'
    · exact hres'
  · exact .of_eq rfl rfl rfl rfl fun _ => List.prefix_rfl

theorem Registry.carries_removeStep (hr : m.Registry) (h : m.Staffed) {k : Option Handle}
    {logger : Handle} (hk : m.removing k = some logger) : Carries m (m.removeStep k) := by
  obtain ⟨hlisted, hclosed⟩ := hr.removing k logger hk
  obtain ⟨impl, himpl, ⟨_, hstep, hsent⟩ | ⟨_, hstep⟩⟩ := remove_outcome h hr hk
  · rw [hstep]
    refine ⟨fun _ _ hs => hs, fun b => ?_, List.Subset.refl _, fun _ _ hres => hres, fun x hx => ?_,
      fun itr _ hitr => ?_⟩
    · show m.mail.sent b <+: (m.mail.send impl.service.mailbox none).1.sent b
      rw [hsent, Function.update_apply]
      split
      · next heq =>
        rw [heq]
        exact List.prefix_append _ _
      · exact List.prefix_rfl
    · by_cases hx' : x = logger
      · obtain ⟨_, _, hs⟩ := hr.service hlisted
        exact .inr (hx' ▸ hr.begun logger (by rw [hr.serviceOf logger _ hs]; rfl) hclosed)
      · exact .inl ((List.mem_erase_of_ne hx').mpr hx)
    · obtain ⟨hne, hmem⟩ := hr.nodup.mem_erase_iff.mp hitr
      refine ⟨hmem, fun x hres hafter => mem_linksAfter_erase hne ?_ hafter⟩
      rintro rfl
      rw [show m.resolves x = true from hres] at hclosed
      cases hclosed
  · rw [hstep]
    exact (sameLoggers_setSched m _).carries

/-! ## What a call does -/

variable {x : Handle} {next : Option Handle} {garbage : LoggerImpl}

/-- A call that reads a logger which was freed is not clean. -/
theorem VlogOk.read_unclean (hf : m.VlogOk f) (hr : m.Registry) (hx : x ∈ f.pointers)
    (hclean : (f.read (m.impls x).isSome).clean = false) : m.removals ≠ [] := by
  rcases Bool.and_eq_false_iff.mp hclean with hold | hfreed
  · exact hf.unclean hold
  · by_cases hclean' : f.clean = true
    · rcases hf.pointers hclean' x hx with hmem | hmem
      · rw [(hr.listed x).mp hmem] at hfreed
        cases hfreed
      · exact List.ne_nil_of_mem hmem
    · exact hf.unclean (by simpa using hclean')

/-- The call reads the logger `x` and moves on. -/
theorem VlogOk.advance (hf : m.VlogOk f) (hr : m.Registry) (hx : x ∈ f.pointers)
    {stage : VlogStage α} {g : VlogFrame α}
    (hg : g = { f.read (m.impls x).isSome with stage := stage })
    (htext : ∀ message itr next, stage = .notifying message itr next → f.text = some message)
    (hpointers : f.clean = true → x ∈ m.loggers → ∀ y ∈ g.pointers, y ∈ m.loggers ∨ y ∈ m.removals)
    (hahead : f.clean = true → x ∈ m.loggers → (∀ y ∈ g.pointers, y ∈ m.loggers) →
      (∀ y ∈ f.pointers, y ∈ m.loggers) ∧ ∀ h ∈ f.wanted, m.resolves h = true →
        h ∈ f.rest m.loggers → h ∈ g.rest m.loggers ∨
          ∀ message, f.text = some message → m.Delivered h message) : m.VlogOk g := by
  have hclean : g.clean = true → f.clean = true ∧ x ∈ m.loggers := by
    intro h
    rw [hg] at h
    obtain ⟨hold, hlive⟩ := (Bool.and_eq_true _ _).mp h
    exact ⟨hold, (hr.listed x).mpr hlive⟩
  have hwanted : g.wanted = f.wanted := by rw [hg]; rfl
  have htext' : g.text = f.text := by rw [hg]; rfl
  refine ⟨fun h => ?_, fun h => ?_, fun message itr next h => ?_, ?_, ?_,
    fun h y hy hres message ht => ?_⟩
  · exact hpointers (hclean h).1 (hclean h).2
  · refine hf.read_unclean hr hx ?_
    rw [hg] at h
    exact h
  · rw [htext']
    refine htext message itr next ?_
    rw [hg] at h
    exact h
  · rw [hwanted]
    exact hf.known
  · rw [hwanted, show g.level = f.level by rw [hg]; rfl]
    exact hf.enough
  · rw [hwanted] at hy
    rw [htext'] at ht
    obtain ⟨hold, hlive⟩ := hclean h
    rcases hf.ahead hold y hy hres message ht with hdone | hrest
    · exact .inl hdone
    · by_cases hall : ∀ z ∈ g.pointers, z ∈ m.loggers
      · obtain ⟨hpast, hmoved⟩ := hahead hold hlive hall
        rcases hmoved y hy hres (hrest hpast) with hthere | hdone
        · exact .inr fun _ => hthere
        · exact .inl (hdone message ht)
      · exact .inr fun hall' => absurd hall' hall

theorem readNext_eq (hr : m.Registry) (hx : x ∈ m.loggers) (garbageNext : Option Handle) :
    m.readNext x garbageNext = (linksAfter m.loggers x).head? := by
  rw [readNext, if_pos ((hr.listed x).mp hx)]

/-- The call has dealt with a logger, or starts to notify it. -/
theorem VlogOk.visit (hf : m.VlogOk f) (hr : m.Registry) (hstage : f.stage = .visiting (some x))
    (garbageNext : Option Handle) (hskip : x ∈ m.loggers → x ∈ f.wanted → m.resolves x = true →
      ∀ message, f.text = some message → m.Delivered x message) :
    m.VlogOk { f.read (m.impls x).isSome with stage := .visiting (m.readNext x garbageNext) } := by
  have hpointers : f.pointers = [x] := by rw [VlogFrame.pointers, hstage]; rfl
  have hrest : f.rest m.loggers = x :: linksAfter m.loggers x := by
    rw [VlogFrame.rest, hstage]
    rfl
  refine hf.advance hr (by rw [hpointers]; exact List.mem_singleton_self x) rfl nofun
    (fun _ hx y hy => .inl ?_) fun _ hx _ => ⟨fun y hy => ?_, fun y hy hres hmem => ?_⟩
  · rw [readNext_eq hr hx] at hy
    exact next_mem (Option.mem_toList.mp hy)
  · rw [hpointers] at hy
    exact List.mem_singleton.mp hy ▸ hx
  · rw [hrest] at hmem
    rcases List.mem_cons.mp hmem with rfl | hafter
    · exact .inr (hskip hx hy hres)
    · refine .inl ?_
      show y ∈ linksFrom m.loggers (m.readNext x garbageNext)
      rwa [readNext_eq hr hx, linksFrom_next hr.nodup]

theorem VlogOk.notify (hf : m.VlogOk f) (hr : m.Registry) (hstage : f.stage = .visiting (some x))
    (garbageNext : Option Handle) {message : α} (htext : f.text = some message) :
    m.VlogOk { f.read (m.impls x).isSome with
      stage := .notifying message x (m.readNext x garbageNext) } := by
  have hpointers : f.pointers = [x] := by rw [VlogFrame.pointers, hstage]; rfl
  have hrest : f.rest m.loggers = x :: linksAfter m.loggers x := by
    rw [VlogFrame.rest, hstage]
    rfl
  refine hf.advance hr (by rw [hpointers]; exact List.mem_singleton_self x) rfl
    (fun _ _ _ heq => ?_) (fun _ hx y hy => .inl ?_)
    fun _ hx _ => ⟨fun y hy => ?_, fun y hy hres hmem => .inl ?_⟩
  · cases heq
    exact htext
  · rw [readNext_eq hr hx] at hy
    rcases List.mem_cons.mp hy with rfl | hnext
    · exact hx
    · exact next_mem (Option.mem_toList.mp hnext)
  · rw [hpointers] at hy
    exact List.mem_singleton.mp hy ▸ hx
  · rw [hrest] at hmem
    show y ∈ x :: linksFrom m.loggers (m.readNext x garbageNext)
    rwa [readNext_eq hr hx, linksFrom_next hr.nodup]

theorem VlogOk.retry (hf : m.VlogOk f) (hr : m.Registry) (hx : x ∈ f.pointers) :
    m.VlogOk (f.read (m.impls x).isSome) :=
  hf.advance hr hx rfl hf.text (fun hclean _ => hf.pointers hclean)
    fun _ _ hall => ⟨hall, fun _ _ _ hmem => .inl hmem⟩

/-- `bio_notify_service` returned. -/
theorem VlogOk.notified (hf : m.VlogOk f) (hr : m.Registry) {message : α}
    (hstage : f.stage = .notifying message x next)
    (hsent : x ∈ m.loggers → m.Delivered x message) :
    m.VlogOk { f.read (m.impls x).isSome with stage := .visiting next } := by
  have hpointers : f.pointers = x :: next.toList := by rw [VlogFrame.pointers, hstage]
  have hrest : f.rest m.loggers = x :: linksFrom m.loggers next := by rw [VlogFrame.rest, hstage]
  have hx : x ∈ f.pointers := hpointers ▸ List.mem_cons_self
  refine hf.advance hr hx rfl nofun (fun hclean _ y hy => ?_) fun _ hlive hall =>
    ⟨fun y hy => ?_, fun y _ _ hmem => ?_⟩
  · exact hf.pointers hclean y (hpointers ▸ List.mem_cons_of_mem _ hy)
  · rw [hpointers] at hy
    rcases List.mem_cons.mp hy with rfl | hnext
    · exact hlive
    · exact hall y hnext
  · rw [hrest] at hmem
    rcases List.mem_cons.mp hmem with rfl | hafter
    · refine .inr fun message' htext => ?_
      rw [hf.text message y next hstage] at htext
      exact Option.some.inj htext ▸ hsent hlive
    · exact .inl hafter

/-- A call of `bio_vlog` begins. -/
theorem VlogOk.begin (hr : m.Registry) (level : LogLevel) (text : Option α) :
    m.VlogOk
      { level := level
        text := text
        stage := .visiting m.loggers.head?
        wanted := m.loggers.filter fun h => m.resolves h &&
          (m.impls h).any fun impl => impl.minLevel.value ≤ level.value
        clean := true } := by
  refine ⟨fun _ y hy => .inl ?_, nofun, nofun, fun y hy => ?_, fun y hy impl himpl => ?_,
    fun _ y hy _ _ _ => .inr fun _ => ?_⟩
  · exact List.mem_of_head? (Option.mem_toList.mp hy)
  · obtain ⟨impl, _, hs⟩ := hr.service (List.mem_filter.mp hy).1
    rw [hr.serviceOf y _ hs]
    rfl
  · have hlevel := (List.mem_filter.mp hy).2
    rw [himpl] at hlevel
    simpa using ((Bool.and_eq_true _ _).mp hlevel).2
  · show y ∈ linksFrom m.loggers m.loggers.head?
    rw [linksFrom_head]
    exact (List.mem_filter.mp hy).1

/-- The `min_level` of a logger is set. -/
theorem VlogOk.setMinLevel (hf : m.VlogOk f) (logger : Handle) (level : LogLevel) :
    m.VlogOk (f.setMinLevel logger level) := by
  unfold VlogFrame.setMinLevel
  split
  · exact hf
  · have hsub : ∀ y ∈ f.wanted.filter (· ≠ logger), y ∈ f.wanted := fun y hy =>
      (List.mem_filter.mp hy).1
    exact ⟨hf.pointers, hf.unclean, hf.text, fun y hy => hf.known y (hsub y hy),
      fun y hy => hf.enough y (hsub y hy), fun hclean y hy => hf.ahead hclean y (hsub y hy)⟩

/-- What a call reads of a logger that is registered. -/
theorem Inv.readLogger (hi : m.Inv) (hx : x ∈ m.loggers) (garbage : LoggerImpl) :
    m.impls x = some (m.readLogger x garbage) ∧
      m.serviceOf x = some (m.readLogger x garbage).service ∧
      m.Attached (m.readLogger x garbage).service ∧
      m.canNotify (m.readLogger x garbage).service = true := by
  obtain ⟨impl, himpl, hs⟩ := hi.registry.service hx
  have hread : m.readLogger x garbage = impl := by rw [LogState.readLogger, himpl]; rfl
  have hattached := hi.registry.attached _ _ hs
  rw [hread]
  exact ⟨himpl, hi.registry.serviceOf x _ hs, hattached, hi.staffed.canNotify hattached⟩

/-- The message is delivered when `bio_send_message` accepts it. -/
theorem Inv.delivered_send (hi : m.Inv) (hx : x ∈ m.loggers) (garbage : LoggerImpl) {message : α}
    (hsent : (m.mail.send (m.readLogger x garbage).service.mailbox (some message)).2 = true) :
    Delivered { m with
      mail := (m.mail.send (m.readLogger x garbage).service.mailbox (some message)).1 } x message := by
  obtain ⟨_, hservice, hattached, _⟩ := hi.readLogger hx garbage
  set s := (m.readLogger x garbage).service
  refine ⟨s, hservice, ?_⟩
  rcases MailboxState.send_cases m.mail s.mailbox (some message) with
    ⟨_, hrefused⟩ | ⟨box, box', _, _, heq⟩
  · rw [hrefused] at hsent
    cases hsent
  · have hmail : (m.mail.send s.mailbox (some message)).1.sent s.mailbox =
        m.mail.sent s.mailbox ++ [some message] := by
      rw [heq]
      exact Function.update_self ..
    show some message ∈ ((m.mail.send s.mailbox (some message)).1.sent s.mailbox).takeWhile _
    rw [hmail, List.takeWhile_append_of_pos]
    · exact List.mem_append_right _ (by simp)
    · intro entry hentry
      cases entry with
      | none => exact absurd hentry hattached.unsent
      | some _ => rfl

/-! ## The invariant -/

/-- An action of which `bio_vlog` sees only what happens to the loggers. -/
theorem Delivers.keep (hd : m.Delivers) (hc : Carries m m') (hvlogs : m'.vlogs = m.vlogs)
    (hreturned : m'.returned = m.returned)
    (himpls : ∀ h impl, (m.serviceOf h).isSome = true → m'.impls h = some impl →
      m.impls h = some impl) : m'.Delivers := by
  refine ⟨fun c f hf => ?_, fun r hr => hd.warned r (hreturned ▸ hr), fun r hr hclean h hh => ?_⟩
  · have hok := hd.calls c f (hvlogs ▸ hf)
    exact hok.carry hc fun h hh impl himpl =>
      hok.enough h hh impl (himpls h impl (hok.known h hh) himpl)
  · exact hc.delivered (hd.returned r (hreturned ▸ hr) hclean h hh)

/-- A step of a call of `bio_vlog`. -/
theorem Delivers.ofCall (hd : m.Delivers) (hc : Carries m m') (himpls : m'.impls = m.impls)
    {frame : Option (VlogFrame α)} (hvlogs : m'.vlogs = Function.update m.vlogs c frame)
    (hframe : ∀ g, frame = some g → m'.VlogOk g) (hreturned : m'.returned = m.returned) :
    m'.Delivers := by
  refine ⟨fun d g hg => ?_, fun r hr => hd.warned r (hreturned ▸ hr), fun r hr hclean h hh => ?_⟩
  · rw [hvlogs, Function.update_apply] at hg
    split at hg
    · exact hframe g hg
    · have hok := hd.calls d g hg
      exact hok.carry hc fun h hh impl himpl => hok.enough h hh impl (himpls ▸ himpl)
  · exact hc.delivered (hd.returned r (hreturned ▸ hr) hclean h hh)

/-- The locals of a call change and nothing else. -/
theorem Delivers.setVlog (hd : m.Delivers) (c : Handle) {frame : Option (VlogFrame α)}
    (hframe : ∀ g, frame = some g → m.VlogOk g) : (m.setVlog c frame).Delivers := by
  have hc : Carries m (m.setVlog c frame) := (sameLoggers_setVlog m c frame).carries
  refine hd.ofCall hc rfl rfl (fun g hg => ?_) rfl
  exact (hframe g hg).carry hc (hframe g hg).enough

/-- `bio_vlog` returns. -/
theorem Delivers.return (hd : m.Delivers) (c : Handle) (hok : m.VlogOk f)
    (hstage : f.stage = .visiting none) :
    Delivers { m.setVlog c none with
      returned := m.returned ++ f.text.toList.map fun message =>
        ⟨message, f.wanted.filter m.resolves, f.clean, m.removals⟩ } := by
  have hd' : (m.setVlog c none).Delivers := hd.setVlog c nofun
  have hnew : ∀ r ∈ f.text.toList.map fun message =>
      (⟨message, f.wanted.filter m.resolves, f.clean, m.removals⟩ : LogCall α),
      ∃ message, f.text = some message ∧
        r = ⟨message, f.wanted.filter m.resolves, f.clean, m.removals⟩ := by
    intro r hr
    obtain ⟨message, hmessage, heq⟩ := List.mem_map.mp hr
    exact ⟨message, Option.mem_toList.mp hmessage, heq.symm⟩
  refine ⟨fun d g hg => ?_, fun r hr => ?_, fun r hr hclean h hh => ?_⟩
  · obtain ⟨h₁, h₂, h₃, h₄, h₅, h₆⟩ := hd'.calls d g hg
    exact ⟨h₁, h₂, h₃, h₄, h₅, h₆⟩
  · rcases List.mem_append.mp hr with hold | hadd
    · exact hd.warned r hold
    · obtain ⟨message, _, rfl⟩ := hnew r hadd
      by_cases hclean : f.clean = true
      · exact .inl hclean
      · exact .inr (hok.unclean (by simpa using hclean))
  · rcases List.mem_append.mp hr with hold | hadd
    · exact hd.returned r hold hclean h hh
    · obtain ⟨message, htext, rfl⟩ := hnew r hadd
      obtain ⟨hwanted, hres⟩ := List.mem_filter.mp hh
      -- Nothing is ahead of the list head.
      rcases hok.ahead hclean h hwanted hres message htext with hdone | hrest
      · exact hdone
      · have hnil : f.pointers = [] ∧ f.rest m.loggers = [] := by
          rw [VlogFrame.pointers, VlogFrame.rest, hstage]
          exact ⟨rfl, rfl⟩
        rw [hnil.1, hnil.2] at hrest
        exact absurd (hrest nofun) List.not_mem_nil

/-- A step of a call at the head of its loop. -/
theorem Delivers.visit (hd : m.Delivers) (hi : m.Inv) (hf : m.vlogs c = some f)
    (hstage : f.stage = .visiting (some x)) (garbage : LoggerImpl) (garbageNext : Option Handle) :
    (m.vlogStep c f garbage garbageNext).Delivers := by
  have hok := hd.calls c f hf
  unfold LogState.vlogStep
  rw [hstage]
  dsimp only
  split
  · split
    · exact hd.setVlog c nofun
    · next message htext =>
      split
      · refine hd.setVlog c fun g hg => ?_
        rw [← Option.some.inj hg]
        exact hok.notify hi.registry hstage garbageNext htext
      · next hdead =>
        refine hd.setVlog c fun g hg => ?_
        rw [← Option.some.inj hg]
        refine hok.visit hi.registry hstage garbageNext fun hx _ _ => ?_
        -- A registered logger has a coroutine.
        have hnotify := (hi.readLogger hx garbage).2.2.2
        rw [canNotify, Bool.and_eq_true, decide_eq_true_iff] at hnotify
        exact absurd hnotify.2 hdead
  · next hlevel =>
    refine hd.setVlog c fun g hg => ?_
    rw [← Option.some.inj hg]
    refine hok.visit hi.registry hstage garbageNext fun hx hwanted _ => ?_
    exact absurd (hok.enough x hwanted _ (hi.readLogger hx garbage).1) hlevel

/-- A round of the loop of `bio_notify_service`. -/
theorem Delivers.notify (hd : m.Delivers) (hi : m.Inv) (hf : m.vlogs c = some f) {message : α}
    (hstage : f.stage = .notifying message x next) (garbage : LoggerImpl)
    (garbageNext : Option Handle) : (m.vlogStep c f garbage garbageNext).Delivers := by
  have hok := hd.calls c f hf
  have hx : x ∈ f.pointers := by
    rw [VlogFrame.pointers, hstage]
    exact List.mem_cons_self
  unfold LogState.vlogStep
  rw [hstage]
  dsimp only
  split
  · set b := (m.readLogger x garbage).service.mailbox
    set m' : LogState α := { m with mail := (m.mail.send b (some message)).1 }
    have hsame : SameLoggers m m' :=
      ⟨fun _ => rfl, rfl, rfl, rfl, rfl, rfl, rfl, .of_eq rfl, sent_send m.mail b message⟩
    have hr' : m'.Registry :=
      hi.registry.same hsame (issued_send m.mail b (some message) ▸ List.Subset.refl _)
    have hok' : m'.VlogOk f := hok.carry hsame.carries hok.enough
    have hd' : m'.Delivers := hd.keep hsame.carries rfl rfl fun _ _ _ himpl => himpl
    split
    · next hsent =>
      refine hd'.setVlog c fun g hg => ?_
      rw [← Option.some.inj hg]
      exact hok'.notified hr' hstage fun hlive => hi.delivered_send hlive garbage hsent
    · set s := m'.sched.suspend c
      have hc : Carries m' (m'.setSched s) := (sameLoggers_setSched m' s).carries
      have hread : m'.VlogOk (f.read (m.impls x).isSome) := hok'.retry hr' hx
      refine Delivers.setVlog (m := m'.setSched s)
        (hd'.keep hc rfl rfl fun _ _ _ himpl => himpl) c fun g hg => ?_
      rw [← Option.some.inj hg]
      exact hread.carry hc hread.enough
  · next hnot =>
    refine hd.setVlog c fun g hg => ?_
    rw [← Option.some.inj hg]
    refine hok.notified hi.registry hstage fun hlive => ?_
    exact absurd (hi.readLogger hlive garbage).2.2.2 hnot

theorem Delivers.vlogStep (hd : m.Delivers) (hi : m.Inv) (hf : m.vlogs c = some f)
    (garbage : LoggerImpl) (garbageNext : Option Handle) :
    (m.vlogStep c f garbage garbageNext).Delivers := by
  cases hstage : f.stage with
  | visiting itr =>
    cases itr with
    | none =>
      rw [LogState.vlogStep, hstage]
      exact hd.return c (hd.calls c f hf) hstage
    | some x => exact hd.visit hi hf hstage garbage garbageNext
  | notifying message x next => exact hd.notify hi hf hstage garbage garbageNext

theorem dispatch_books (m : LogState α) (c : Handle) (svc : LogService α)
    (message : Option (Option (Option α))) :
    (m.dispatch c svc message).impls = m.impls ∧ (m.dispatch c svc message).vlogs = m.vlogs ∧
      (m.dispatch c svc message).returned = m.returned := by
  cases message <;> exact ⟨rfl, rfl, rfl⟩

/-- The coroutine of a logger leaves the calls of `bio_vlog` alone. -/
theorem serviceStep_books (m : LogState α) (c : Handle) (svc : LogService α) (signal : Handle) :
    (m.serviceStep c svc signal).impls = m.impls ∧ (m.serviceStep c svc signal).vlogs = m.vlogs ∧
      (m.serviceStep c svc signal).returned = m.returned := by
  unfold LogState.serviceStep
  split
  · exact ⟨rfl, rfl, rfl⟩
  · split
    · exact ⟨rfl, rfl, rfl⟩
    · exact dispatch_books _ c svc _
  · exact dispatch_books _ c svc _
  · exact ⟨rfl, rfl, rfl⟩
  · exact ⟨rfl, rfl, rfl⟩
  · exact ⟨rfl, rfl, rfl⟩

theorem Delivers.serviceStep (hd : m.Delivers) {svc : LogService α} (hsvc : m.services c = some svc)
    (signal : Handle) : (m.serviceStep c svc signal).Delivers := by
  obtain ⟨himpls, hvlogs, hreturned⟩ := serviceStep_books m c svc signal
  exact hd.keep (sameLoggers_serviceStep hsvc signal).carries hvlogs hreturned
    fun _ _ _ himpl => himpls ▸ himpl

theorem Delivers.finishAdd (hd : m.Delivers) (hr : m.Registry) {a : AddFrame} {handle : Handle}
    (ha : m.adding c = some a) (hfresh : m.sched.Fresh handle) :
    (m.finishAdd c handle).Delivers := by
  have hc := hr.carries_finishAdd ha hfresh
  simp only [LogState.finishAdd, ha] at hc ⊢
  refine hd.keep hc rfl rfl fun y impl hy himpl => ?_
  refine (Function.update_of_ne ?_ ..).symm.trans himpl
  rintro rfl
  obtain ⟨s, hs⟩ := Option.isSome_iff_exists.mp hy
  exact hfresh.2 (hr.known y s hs).1

theorem Delivers.removeStep (hd : m.Delivers) (hi : m.Inv) {k : Option Handle} {logger : Handle}
    (hk : m.removing k = some logger) : (m.removeStep k).Delivers := by
  have hc := hi.registry.carries_removeStep hi.staffed hk
  obtain ⟨impl, _, ⟨_, hstep, _⟩ | ⟨_, hstep⟩⟩ := remove_outcome hi.staffed hi.registry hk
  · rw [hstep] at hc ⊢
    refine hd.keep hc rfl rfl fun y impl' _ himpl => ?_
    have himpl' : Function.update m.impls logger none y = some impl' := himpl
    exact (Table.erase_some himpl').2
  · rw [hstep] at hc ⊢
    exact hd.keep hc rfl rfl fun _ _ _ himpl => himpl

theorem Delivers.setMinLogLevel (hd : m.Delivers) (logger : Handle) (level : LogLevel) :
    (m.setMinLogLevel logger level).Delivers := by
  have hc := (sameLoggers_setMinLogLevel m logger level).carries
  unfold LogState.setMinLogLevel at hc ⊢
  split at hc
  · next hresolves =>
    rw [if_pos hresolves]
    refine ⟨fun d g hg => ?_, hd.warned, fun r hr hclean h hh =>
      hc.delivered (hd.returned r hr hclean h hh)⟩
    obtain ⟨f, hf, rfl⟩ := Option.map_eq_some_iff.mp hg
    have hok := hd.calls d f hf
    refine (hok.setMinLevel logger level).carry hc fun h hh impl himpl => ?_
    have himpl' : Function.update m.impls logger
      ((m.impls logger).map fun impl => { impl with minLevel := level }) h = some impl := himpl
    rw [Function.update_apply] at himpl'
    unfold VlogFrame.setMinLevel at hh ⊢
    by_cases hlevel : level.value ≤ f.level.value
    · rw [if_pos hlevel] at hh ⊢
      split at himpl'
      · obtain ⟨old, _, rfl⟩ := Option.map_eq_some_iff.mp himpl'
        exact hlevel
      · exact hok.enough h hh impl himpl'
    · rw [if_neg hlevel] at hh ⊢
      obtain ⟨hwanted, hne⟩ := List.mem_filter.mp hh
      rw [if_neg (by simpa using hne)] at himpl'
      exact hok.enough h hwanted impl himpl'
  · next hresolves =>
    rw [if_neg hresolves]
    exact hd

/-- The step lemma. -/
theorem Delivers.step (hd : m.Delivers) (hi : m.Inv) {a : LogAction α}
    (he : (machine α).enabled m a) : ((machine α).perform m a).Delivers := by
  cases a with
  | sched a =>
    exact hd.keep (sameLoggers_setSched m _).carries rfl rfl fun _ _ _ himpl => himpl
  | addLogger minLevel mailbox readySignal coro =>
    obtain ⟨c, _, heq⟩ := adds_of_enabled he
    rw [heq]
    exact hd.keep (.of_eq rfl rfl rfl rfl fun _ => List.prefix_rfl) rfl rfl
      fun _ _ _ himpl => himpl
  | finishAdd handle =>
    obtain ⟨c, a, _, ha, hfresh, heq⟩ := add_of_enabled he
    rw [heq]
    exact hd.finishAdd hi.registry ha hfresh
  | removeLogger logger =>
    have hc := carries_removeLogger m m.sched.phase.mcoRunning logger
    obtain ⟨_, _, _, heq⟩ := removeLogger_frame m m.sched.phase.mcoRunning logger
    show (m.removeLogger _ logger).Delivers
    rw [heq] at hc ⊢
    exact hd.keep hc rfl rfl fun _ _ _ himpl => himpl
  | removeStep =>
    obtain ⟨logger, hk⟩ := removing_of_enabled he
    exact hd.removeStep hi hk
  | setMinLogLevel logger level => exact hd.setMinLogLevel logger level
  | vlog level text =>
    obtain ⟨c, hp, heq⟩ := begin_of_enabled he
    rw [heq]
    refine hd.setVlog c fun g hg => ?_
    rw [← Option.some.inj hg]
    exact VlogOk.begin hi.registry level text
  | vlogStep garbage garbageNext =>
    obtain ⟨c, f, _, hf, heq⟩ := vlog_of_enabled he
    rw [heq]
    exact hd.vlogStep hi hf garbage garbageNext
  | serviceStep signal =>
    obtain ⟨c, svc, hs, heq⟩ := serving_of_enabled he
    rw [heq]
    exact hd.serviceStep hs.service signal

theorem Delivers.init : (init : LogState α).Delivers :=
  ⟨fun _ _ hf => (by cases hf), nofun, nofun⟩

theorem delivers_of_reachable (h : (machine α).Reachable m) : m.Delivers := by
  refine Machine.invariant (P := Delivers) ?_
    (fun _ _ hr hd he => hd.step (inv_of_reachable hr) he) h
  rintro m rfl
  exact Delivers.init

/-- What an action leaves of the loggers. -/
theorem Inv.carries (hi : m.Inv) {a : LogAction α} (he : (machine α).enabled m a) :
    Carries m ((machine α).perform m a) := by
  cases a with
  | sched a => exact (sameLoggers_setSched m _).carries
  | addLogger minLevel mailbox readySignal coro =>
    obtain ⟨c, _, heq⟩ := adds_of_enabled he
    rw [heq]
    exact .of_eq rfl rfl rfl rfl fun _ => List.prefix_rfl
  | finishAdd handle =>
    obtain ⟨c, a, _, ha, hfresh, heq⟩ := add_of_enabled he
    rw [heq]
    exact hi.registry.carries_finishAdd ha hfresh
  | removeLogger logger => exact carries_removeLogger m _ logger
  | removeStep =>
    obtain ⟨logger, hk⟩ := removing_of_enabled he
    exact hi.registry.carries_removeStep hi.staffed hk
  | setMinLogLevel logger level => exact (sameLoggers_setMinLogLevel m logger level).carries
  | vlog level text =>
    obtain ⟨c, hp, heq⟩ := begin_of_enabled he
    rw [heq]
    exact (sameLoggers_setVlog m c _).carries
  | vlogStep garbage garbageNext =>
    obtain ⟨c, f, _, _, heq⟩ := vlog_of_enabled he
    rw [heq]
    exact (sameLoggers_vlogStep m c f garbage garbageNext).carries
  | serviceStep signal =>
    obtain ⟨c, svc, hs, heq⟩ := serving_of_enabled he
    rw [heq]
    exact (sameLoggers_serviceStep hs.service signal).carries

/-- A logger keeps its service. -/
theorem serviceOf_run (h : (machine α).Reachable m) {as : List (LogAction α)}
    (has : (machine α).Legal m as) {s : Service} (hs : m.serviceOf d = some s) :
    ((machine α).run m as).serviceOf d = some s := by
  refine (Machine.run_invariant (P := fun m' => (machine α).Reachable m' ∧ m'.serviceOf d = some s)
    (fun m' a hs' he => ⟨hs'.1.step he, ?_⟩) ⟨h, hs⟩ has).2
  exact ((inv_of_reachable hs'.1).carries he).serviceOf d s hs'.2

/-! ## The calls of `log_fn` -/

variable {svc : LogService α}

theorem calls_dispatch (m : LogState α) (c : Handle) (svc : LogService α)
    (message : Option (Option (Option α))) (b : Handle) :
    m.calls b <+: (m.dispatch c svc message).calls b := by
  cases message with
  | none => exact List.prefix_rfl
  | some data =>
    show m.calls b <+: Function.update m.calls svc.mailbox _ b
    rw [Function.update_apply]
    split
    · next heq =>
      rw [heq]
      exact List.prefix_append _ _
    · exact List.prefix_rfl

theorem calls_serviceStep (m : LogState α) (c : Handle) (svc : LogService α) (signal b : Handle) :
    m.calls b <+: (m.serviceStep c svc signal).calls b := by
  unfold LogState.serviceStep
  split
  · exact List.prefix_rfl
  · split
    · exact List.prefix_rfl
    · next mail message _ => exact calls_dispatch { m with mail := mail } c svc message b
  · exact calls_dispatch { m with mail := m.mail.resumeRecv } c svc _ b
  · exact List.prefix_rfl
  · exact List.prefix_rfl
  · exact List.prefix_rfl

theorem calls_vlogStep (m : LogState α) (c : Handle) (f : VlogFrame α) (garbage : LoggerImpl)
    (garbageNext : Option Handle) : (m.vlogStep c f garbage garbageNext).calls = m.calls := by
  unfold LogState.vlogStep
  split
  · rfl
  · dsimp only
    split
    · split
      · rfl
      · split <;> rfl
    · rfl
  · dsimp only
    split
    · split <;> rfl
    · rfl

theorem calls_removeStep (m : LogState α) (k : Option Handle) :
    (m.removeStep k).calls = m.calls := by
  unfold LogState.removeStep
  split
  · split
    · split
      · dsimp only
        split <;> rfl
      · rfl
    · rfl
  · rfl

/-- What `log_fn` was called with stays. -/
theorem calls_step {a : LogAction α} (he : (machine α).enabled m a) (b : Handle) :
    m.calls b <+: ((machine α).perform m a).calls b := by
  cases a with
  | sched a => exact List.prefix_rfl
  | addLogger minLevel mailbox readySignal coro =>
    obtain ⟨c, _, heq⟩ := adds_of_enabled he
    rw [heq]
    exact List.prefix_rfl
  | finishAdd handle =>
    obtain ⟨c, a, _, ha, _, heq⟩ := add_of_enabled he
    rw [heq]
    simp only [LogState.finishAdd, ha]
    exact List.prefix_rfl
  | removeLogger logger =>
    obtain ⟨_, _, _, heq⟩ := removeLogger_frame m m.sched.phase.mcoRunning logger
    have hsame : (m.removeLogger m.sched.phase.mcoRunning logger).calls b = m.calls b :=
      congrFun (congrArg LogState.calls heq) b
    exact hsame ▸ List.prefix_rfl
  | removeStep =>
    have hsame := congrFun (calls_removeStep m m.sched.phase.mcoRunning) b
    exact hsame ▸ List.prefix_rfl
  | setMinLogLevel logger level =>
    show m.calls b <+: (m.setMinLogLevel logger level).calls b
    unfold LogState.setMinLogLevel
    split <;> exact List.prefix_rfl
  | vlog level text =>
    obtain ⟨c, hp, heq⟩ := begin_of_enabled he
    rw [heq]
    exact List.prefix_rfl
  | vlogStep garbage garbageNext =>
    obtain ⟨c, f, _, _, heq⟩ := vlog_of_enabled he
    have hsame := congrFun (calls_vlogStep m c f garbage garbageNext) b
    exact heq ▸ hsame ▸ List.prefix_rfl
  | serviceStep signal =>
    obtain ⟨c, svc, _, heq⟩ := serving_of_enabled he
    rw [heq]
    exact calls_serviceStep m c svc signal b

theorem calls_run {as : List (LogAction α)} (h : (machine α).Legal m as) (b : Handle) :
    m.calls b <+: ((machine α).run m as).calls b :=
  Machine.run_invariant (P := fun m' => m.calls b <+: m'.calls b)
    (fun _ _ hs he => hs.trans (calls_step he b)) List.prefix_rfl h

theorem ServiceOk.calls_sent (hok : m.ServiceOk c svc) (h : m.Staffed) :
    m.calls svc.mailbox <+: m.mail.sent svc.mailbox := by
  have hfifo := h.inv.fifo svc.mailbox
  rw [hok.received] at hfifo
  obtain ⟨r, hr⟩ := hfifo
  have hinj : Function.Injective (some : Option α → Option (Option α)) := Option.some_injective _
  obtain ⟨l, r', heq, hl, _⟩ := List.map_eq_append_iff.mp hr.symm
  rw [heq, hinj.list_map hl]
  exact List.prefix_append _ _

/-- `NULL` is the last call. -/
theorem ServiceOk.null_last (hok : m.ServiceOk c svc) (hnull : none ∈ m.calls svc.mailbox) :
    ∃ l, none ∉ l ∧ m.calls svc.mailbox = l ++ [none] := by
  refine hok.ended ?_
  by_contra hended
  exact hok.pending (by simpa using hended) hnull

/-- A list that ends with its only `NULL`, in one that begins with it. -/
theorem takeWhile_of_null {l sent : List (Option α)} (hl : none ∉ l)
    (hbegins : l ++ [none] <+: sent) : sent.takeWhile Option.isSome = l := by
  obtain ⟨r, rfl⟩ := hbegins
  rw [List.append_assoc, List.takeWhile_append_of_pos]
  · simp
  · intro entry hentry
    cases entry with
    | none => exact absurd hentry hl
    | some _ => rfl

theorem null_unique {l l' : List (Option α)} (hl' : none ∉ l')
    (hbegins : l ++ [none] <+: l' ++ [none]) : l ++ [none] = l' ++ [none] := by
  rcases List.prefix_concat_iff.mp hbegins with heq | hshort
  · exact heq
  · exact absurd (hshort.subset (List.mem_append_right _ (List.mem_singleton_self _))) hl'

/-- A logger that waits for messages has called `log_fn` with all of them. -/
theorem ServiceOk.caught_up (hok : m.ServiceOk c svc) (h : m.Staffed)
    (hreceiving : svc.stage.isReceiving = true) (hwait : m.sched.coroState c = .waiting) :
    m.calls svc.mailbox = m.mail.sent svc.mailbox := by
  obtain ⟨f, hf, hmailbox⟩ := hok.receives hreceiving
  obtain ⟨box, hbox, _, hempty⟩ := h.inv.drained_of_waiting hf hwait
  rw [hmailbox] at hbox
  have hbox' := h.inv.boxes svc.mailbox box hbox
  have hheld := hbox'.empty_iff.mp hempty
  refine (hok.calls_sent h).eq_of_length_le ?_
  have hreceived := congrArg List.length hok.received
  rw [List.length_map] at hreceived
  rw [← hreceived]
  exact Nat.sub_eq_zero_iff_le.mp hheld

end LogState

/-! ## A logger that writes to a file -/

namespace FileLog

variable {α : Type*}

/-- The data is live until the first `NULL`. -/
theorem logToFile_run (lines : List α) {l : List (Option α)} (hl : none ∉ l) :
    l.foldlM logToFile ⟨lines, true⟩ = some ⟨lines ++ l.filterMap id, true⟩ := by
  induction l generalizing lines with
  | nil => simp
  | cons entry l ih =>
    rw [List.mem_cons, not_or] at hl
    cases entry with
    | none => exact absurd rfl hl.1
    | some message =>
      have hfirst : logToFile ⟨lines, true⟩ (some message) = some ⟨lines ++ [message], true⟩ := rfl
      rw [List.foldlM_cons, hfirst]
      show l.foldlM logToFile ⟨lines ++ [message], true⟩ = _
      rw [ih _ hl.2, List.append_assoc]
      rfl

theorem logToFile_null {l : List (Option α)} (hl : none ∉ l) :
    (l ++ [none]).foldlM logToFile new = some ⟨l.filterMap id, false⟩ := by
  rw [List.foldlM_append, new, logToFile_run [] hl]
  rfl

end FileLog

namespace LogState

variable {α : Type*} {m : LogState α}

/-- `log_fn` of a logger is called with the messages that were sent to it, in order, up to the
`NULL` of its removal, which is the last call. These are all the messages of the calls of `bio_vlog`
that returned before a removal began, and of those that returned later and did not read a logger that
was freed. A logger that waits in `bio_recv_message` has got all of them, one that is dead has got
`NULL`, and `bio_log_to_file` does not use its data after it freed it. A message is of any type, so
each may be told from all others. -/
theorem log_delivery (hm : (machine α).Reachable m) {logger : Handle} {service : Service}
    (hs : m.serviceOf logger = some service) :
    m.calls service.mailbox <+: m.mail.sent service.mailbox ∧
    (none ∈ m.calls service.mailbox → m.calls service.mailbox =
      (m.mail.sent service.mailbox).takeWhile Option.isSome ++ [none]) ∧
    (∀ as, (machine α).Legal m as → none ∈ m.calls service.mailbox →
      ((machine α).run m as).calls service.mailbox = m.calls service.mailbox) ∧
    (m.mail.sent service.mailbox).countP Option.isNone ≤ 1 ∧
    (none ∈ m.mail.sent service.mailbox ↔ logger ∉ m.loggers) ∧
    (∀ r ∈ m.returned, r.removals = [] ∨ r.clean = true → logger ∈ r.wanted →
      some r.message ∈ (m.mail.sent service.mailbox).takeWhile Option.isSome) ∧
    (∀ svc, m.services service.coro = some svc → svc.stage.isReceiving = true →
      m.sched.coroState service.coro = .waiting →
      m.calls service.mailbox = m.mail.sent service.mailbox) ∧
    (m.sched.coroState service.coro = .dead → none ∈ m.calls service.mailbox) ∧
    ∃ data, (m.calls service.mailbox).foldlM FileLog.logToFile FileLog.new = some data ∧
      data.lines = (m.calls service.mailbox).filterMap id ∧
      (data.live = true ↔ none ∉ m.calls service.mailbox) := by
  have hi := inv_of_reachable hm
  have hd := delivers_of_reachable hm
  obtain ⟨_, svc, hsvc, hmailbox⟩ := hi.registry.known logger service hs
  have hok := hi.staffed.services service.coro svc hsvc
  rw [← hmailbox]
  have hbegins := hok.calls_sent hi.staffed
  refine ⟨hbegins, fun hnull => ?_, fun as has hnull => ?_, hi.registry.once _, ?_,
    fun r hr hcalm hl => ?_, fun svc' hsvc' hrec hwait => ?_, fun hdead => ?_, ?_⟩
  · obtain ⟨l, hl, hcalls⟩ := hok.null_last hnull
    rw [hcalls] at hbegins ⊢
    rw [takeWhile_of_null hl hbegins]
  · -- The later calls begin with those so far, and `NULL` is the last of both.
    have hi' := inv_of_reachable (hm.run has)
    obtain ⟨_, svc', hsvc', hmailbox'⟩ := hi'.registry.known logger service (serviceOf_run hm has hs)
    have hok' := hi'.staffed.services service.coro svc' hsvc'
    have hsame := hmailbox'.trans hmailbox.symm
    have hlater := calls_run has svc.mailbox
    obtain ⟨l, _, hcalls⟩ := hok.null_last hnull
    obtain ⟨l', hl', hcalls'⟩ := hok'.null_last (hsame ▸ hlater.subset hnull)
    rw [hsame] at hcalls'
    rw [hcalls, hcalls'] at hlater ⊢
    exact (null_unique hl' hlater).symm
  · refine ⟨fun hnull hlisted => ?_, fun hgone => hmailbox ▸ hi.registry.told logger service hs hgone⟩
    obtain ⟨impl, _, hserves⟩ := hi.registry.service hlisted
    obtain rfl := Option.some.inj (hs.symm.trans (hi.registry.serviceOf logger _ hserves))
    exact (hi.registry.attached _ _ hserves).unsent (hmailbox ▸ hnull)
  · have hclean : r.clean = true := by
      rcases hcalm with hnone | hclean
      · exact (hd.warned r hr).resolve_right (not_not_intro hnone)
      · exact hclean
    obtain ⟨s, hs', hsent⟩ := hd.returned r hr hclean logger hl
    rw [hmailbox, Option.some.inj (hs.symm.trans hs')]
    exact hsent
  · obtain rfl := Option.some.inj (hsvc.symm.trans hsvc')
    exact hok.caught_up hi.staffed hrec hwait
  · have hended : svc.stage.ended = true := by
      by_contra hnot
      have hdone := LogStage.not_done (by simpa using hnot)
      exact hi.staffed.not_dead (hok.inside hdone) hdead
    obtain ⟨l, _, hcalls⟩ := hok.ended hended
    rw [hcalls]
    exact List.mem_append_right _ (List.mem_singleton_self _)
  · by_cases hnull : none ∈ m.calls svc.mailbox
    · obtain ⟨l, hl, hcalls⟩ := hok.null_last hnull
      rw [hcalls, FileLog.logToFile_null hl]
      exact ⟨_, rfl, by simp, by simp⟩
    · rw [FileLog.new, FileLog.logToFile_run [] hnull]
      exact ⟨_, rfl, rfl, by simp [hnull]⟩

/-! ## Runs -/

/-- The coroutine `⟨0, 1⟩` starts. -/
def entry : List (LogAction Nat) :=
  [.sched (.spawn false ⟨0, 1⟩), .sched .enterLoop, .sched .endPass, .sched .swap, .sched .resume]

/-- The coroutine `⟨0, 1⟩` adds a logger, whose coroutine then waits for messages. -/
def addition (mailbox readySignal coro signal handle : Handle) : List (LogAction Nat) :=
  [.addLogger .trace mailbox readySignal coro, .sched .endPass, .sched .swap, .sched .resume,
    .serviceStep signal, .serviceStep signal, .sched .endPass, .sched .swap, .sched .resume,
    .finishAdd handle]

/-- What is read of a logger that was freed. -/
def garbage : LoggerImpl := ⟨.trace, ⟨Handle.invalid, Handle.invalid⟩⟩

/-- As many messages as there are are logged. -/
def messages (n : Nat) : List (LogAction Nat) :=
  (List.replicate n [.vlog .info (some 7), .vlogStep garbage none, .vlogStep garbage none,
    .vlogStep garbage none]).flatten

/-- A coroutine adds a logger, logs a message and removes the logger, which then gets the message and
`NULL`. -/
theorem log_delivery_removed :
    let m := (machine Nat).run init (entry ++ addition ⟨1, 1⟩ ⟨2, 1⟩ ⟨3, 1⟩ ⟨4, 1⟩ ⟨5, 1⟩ ++
      messages 1 ++ [.removeLogger ⟨5, 1⟩, .removeStep, .sched .yield, .sched .endPass, .sched .swap,
      .sched .resume, .serviceStep ⟨6, 1⟩, .serviceStep ⟨6, 1⟩, .serviceStep ⟨6, 1⟩])
    m.calls ⟨1, 1⟩ = [some 7, none] ∧
      m.calls ⟨1, 1⟩ = (m.mail.sent ⟨1, 1⟩).takeWhile Option.isSome ++ [none] ∧
      some 7 ∈ (m.mail.sent ⟨1, 1⟩).takeWhile Option.isSome := by
  intro m
  have hr : (machine Nat).Reachable m := Machine.Reachable.run (.init rfl) (by decide +kernel)
  have hs : m.serviceOf ⟨5, 1⟩ = some ⟨⟨3, 1⟩, ⟨1, 1⟩⟩ := by decide +kernel
  have hcalls : m.calls ⟨1, 1⟩ = [some 7, none] := by decide +kernel
  have hcall : m.returned = [⟨7, [⟨5, 1⟩], true, []⟩] := by decide +kernel
  obtain ⟨_, hnull, _, _, _, hreturned, _⟩ := log_delivery hr hs
  refine ⟨hcalls, hnull (by rw [hcalls]; simp), ?_⟩
  exact hreturned ⟨7, [⟨5, 1⟩], true, []⟩ (by rw [hcall]; simp) (.inl rfl) (List.mem_singleton_self _)

end LogState

end Bio
