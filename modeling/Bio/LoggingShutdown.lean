import Bio.LoggingRemoval

/-!
# Shutdown of logging

`bio_logging_cleanup` removes the loggers one by one. Outside of coroutines `bio_yield` gives no other
code a chance to run, so a logger whose mailbox is full is never removed, and neither is one whose
removal a coroutine has begun. The cleanup ends iff there is none of these
(`logging_cleanup_ends_iff`).

* `LogState.Removable`: the next call of `bio_remove_logger` removes the logger.
* `LogState.Stuck`: a logger keeps the cleanup from ending.
-/

namespace Bio

namespace LogState

variable {α : Type*} {m : LogState α} {h logger : Handle}

/-- The removal of the logger has not begun and its mailbox has room. -/
def Removable (m : LogState α) (h : Handle) : Prop :=
  m.resolves h = true ∧ ∀ impl, m.impls h = some impl → m.mail.canSend impl.service.mailbox = true

/-- `bio_logging_cleanup` has returned. -/
def CleanedUp (m : LogState α) : Prop := m.loggers = [] ∧ m.removing none = none

/-! ## A step of the cleanup -/

/-- A step of the cleanup is an action outside of coroutines, unless it is done. -/
theorem cleanupStep_cases (m : LogState α) (hp : m.sched.phase = .outside) :
    m.cleanupStep = m ∨ ∃ a, (machine α).enabled m a ∧ (machine α).perform m a = m.cleanupStep := by
  have hnone : m.sched.phase.mcoRunning = none := by rw [hp]; rfl
  have huser : m.sched.phase.userCode = true := by rw [hp]; rfl
  unfold cleanupStep
  cases hk : m.removing none with
  | some logger =>
    refine .inr ⟨.removeStep, ⟨huser, by rw [hnone, hk]; rfl⟩, ?_⟩
    show m.removeStep m.sched.phase.mcoRunning = _
    rw [hnone]
  | none =>
    cases hloggers : m.loggers with
    | nil => exact .inl rfl
    | cons logger rest =>
      refine .inr ⟨.removeLogger logger, ⟨huser, ?_⟩, ?_⟩
      · simp [inProgram, inCall, stage, hnone, hk]
      · show m.removeLogger m.sched.phase.mcoRunning logger = _
        rw [hnone]

theorem canSend_send {q : MailboxState (Option α)} {b d : Handle} (hne : d ≠ b) (x : Option α) :
    (q.send b x).1.canSend d = q.canSend d := by
  have hboxes : (q.send b x).1.mailboxes d = q.mailboxes d := by
    rcases MailboxState.send_cases q b x with ⟨heq, _⟩ | ⟨box, box', _, _, heq⟩
    · rw [heq]
    · rw [heq]
      exact Function.update_of_ne hne ..
  rw [MailboxState.canSend, MailboxState.canSend, hboxes]

/-- The cleanup goes on with the removal of a logger. -/
theorem cleanup_removal (hi : m.Inv) (hk : m.removing none = some logger) :
    ∃ impl, m.impls logger = some impl ∧
      (m.mail.canSend impl.service.mailbox = true ∧
        m.cleanupStep =
          LogState.unlink { m with mail := (m.mail.send impl.service.mailbox none).1 } none logger ∨
      m.mail.canSend impl.service.mailbox = false ∧ m.cleanupStep = m) := by
  have hstep : m.cleanupStep = m.removeStep none := by rw [cleanupStep, hk]
  obtain ⟨impl, himpl, ⟨hsend, heq, _⟩ | ⟨hfull, heq⟩⟩ := remove_outcome hi.staffed hi.registry hk
  · exact ⟨impl, himpl, .inl ⟨hsend, hstep.trans heq⟩⟩
  · exact ⟨impl, himpl, .inr ⟨hfull, hstep.trans heq⟩⟩

/-- The cleanup begins to remove the first logger. -/
theorem cleanupStep_begin {rest : List Handle} (hk : m.removing none = none)
    (hloggers : m.loggers = logger :: rest) : m.cleanupStep = m.removeLogger none logger := by
  rw [cleanupStep, hk, hloggers]

/-- A logger that is unlinked leaves the others as they were. -/
theorem unlink_other (hi : m.Inv) {impl other : LoggerImpl} (himpl : m.impls logger = some impl)
    (hne : h ≠ logger)
    (hother : (LogState.unlink { m with mail := (m.mail.send impl.service.mailbox none).1 } none
      logger).impls h = some other) :
    m.impls h = some other ∧ (m.mail.send impl.service.mailbox none).1.canSend other.service.mailbox =
      m.mail.canSend other.service.mailbox := by
  have hother' : m.impls h = some other := (Function.update_of_ne hne ..).symm.trans hother
  refine ⟨hother', canSend_send (fun heq => hne ?_) none⟩
  have happly := hi.registry.apart (.inl h) (.inl logger) other.service impl.service
    (by rw [serviceFor, hother']; rfl) (by rw [serviceFor, himpl]; rfl) heq
  exact Sum.inl.inj happly

/-- The cleanup runs outside of coroutines. -/
structure Cleaning (m : LogState α) : Prop where
  reachable : (machine α).Reachable m
  outside : m.sched.phase = .outside

theorem Cleaning.inv (hc : m.Cleaning) : m.Inv := inv_of_reachable hc.reachable

theorem Cleaning.step (hc : m.Cleaning) : m.cleanupStep.Cleaning := by
  refine ⟨?_, ?_⟩
  · rcases cleanupStep_cases m hc.outside with heq | ⟨a, he, heq⟩
    · rw [heq]
      exact hc.reachable
    · exact hc.reachable.step_eq he heq
  · cases hk : m.removing none with
    | some logger =>
      obtain ⟨impl, _, ⟨_, heq⟩ | ⟨_, heq⟩⟩ := cleanup_removal hc.inv hk
      · rw [heq]
        exact (send_phase m.mail impl.service.mailbox none).trans hc.outside
      · rw [heq]
        exact hc.outside
    | none =>
      rw [cleanupStep, hk]
      cases m.loggers with
      | nil => exact hc.outside
      | cons logger rest =>
        obtain ⟨_, _, _, heq⟩ := removeLogger_frame m none logger
        show (m.removeLogger none logger).sched.phase = .outside
        rw [heq]
        exact hc.outside

theorem Cleaning.iterate (hc : m.Cleaning) (n : Nat) : (cleanupStep^[n] m).Cleaning := by
  induction n with
  | zero => exact hc
  | succ n ih =>
    rw [Function.iterate_succ_apply']
    exact ih.step

/-- A logger keeps its service during the cleanup. -/
theorem Cleaning.serviceOf (hc : m.Cleaning) (n : Nat) {s : Service} (hs : m.serviceOf h = some s) :
    (cleanupStep^[n] m).serviceOf h = some s := by
  induction n with
  | zero => exact hs
  | succ n ih =>
    have hn := hc.iterate n
    rw [Function.iterate_succ_apply']
    rcases cleanupStep_cases _ hn.outside with heq | ⟨a, he, heq⟩
    · rw [heq]
      exact ih
    · rw [← heq]
      exact (hn.inv.carries he).serviceOf h s ih

/-! ## A cleanup that ends -/

/-- Two steps remove the first logger. -/
theorem Cleaning.first (hc : m.Cleaning) {rest : List Handle} (hloggers : m.loggers = logger :: rest)
    (hk : m.removing none = none) (hall : ∀ x ∈ m.loggers, m.Removable x) :
    m.cleanupStep.cleanupStep.loggers = rest ∧ m.cleanupStep.cleanupStep.removing none = none ∧
      ∀ x ∈ rest, m.cleanupStep.cleanupStep.Removable x := by
  obtain ⟨hresolves, hroom⟩ := hall logger (hloggers ▸ List.mem_cons_self)
  set m₁ : LogState α := { m with
    resolves := Function.update m.resolves logger false
    removing := Function.update m.removing none (some logger)
    removals := m.removals ++ [logger] }
  have hfirst : m.cleanupStep = m₁ := (cleanupStep_begin hk hloggers).trans (if_pos hresolves)
  have hi : m₁.Inv := hfirst ▸ hc.step.inv
  have hk₁ : m₁.removing none = some logger :=
    Function.update_self none (some logger) m.removing
  rw [hfirst]
  obtain ⟨impl, himpl, ⟨_, hsecond⟩ | ⟨hfull, _⟩⟩ := cleanup_removal hi hk₁
  · rw [hsecond]
    have hnodup := hc.inv.registry.nodup
    rw [hloggers, List.nodup_cons] at hnodup
    refine ⟨?_, ?_, fun x hx => ?_⟩
    · show m.loggers.erase logger = rest
      rw [hloggers, List.erase_cons_head]
    · show Function.update m₁.removing none none none = none
      rw [Function.update_self]
    · have hne : x ≠ logger := fun heq => hnodup.1 (heq ▸ hx)
      obtain ⟨hres, hcan⟩ := hall x (hloggers ▸ List.mem_cons_of_mem _ hx)
      refine ⟨(Function.update_of_ne hne ..).trans hres, fun other hother => ?_⟩
      obtain ⟨hother', hsame⟩ := unlink_other hi himpl hne hother
      exact hsame.trans (hcan other hother')
  · rw [hroom impl himpl] at hfull
    cases hfull

/-- The cleanup takes two steps for each logger. -/
theorem Cleaning.ends (hc : m.Cleaning) (hk : m.removing none = none)
    (hall : ∀ x ∈ m.loggers, m.Removable x) : (cleanupStep^[2 * m.loggers.length] m).CleanedUp := by
  generalize hn : m.loggers.length = n
  induction n generalizing m with
  | zero => exact ⟨List.length_eq_zero_iff.mp hn, hk⟩
  | succ n ih =>
    obtain ⟨logger, rest, hloggers⟩ := List.exists_cons_of_length_eq_add_one hn
    obtain ⟨hrest, hk', hall'⟩ := hc.first hloggers hk hall
    have hlength : rest.length = n := by simpa [hloggers] using hn
    have hih := ih hc.step.step hk' (hrest ▸ hall') (hrest ▸ hlength)
    rw [Nat.mul_succ, Function.iterate_add_apply]
    exact hih

/-! ## A cleanup that does not -/

/-- The logger is not removed: a coroutine has begun to remove it, or its mailbox is full. -/
def Stuck (m : LogState α) (h : Handle) : Prop :=
  h ∈ m.loggers ∧ (m.resolves h = false ∧ m.removing none ≠ some h ∨
    ∃ impl, m.impls h = some impl ∧ m.mail.canSend impl.service.mailbox = false)

theorem Cleaning.stuck_step (hc : m.Cleaning) (hs : m.Stuck h) : m.cleanupStep.Stuck h := by
  obtain ⟨hlisted, hwhy⟩ := hs
  cases hk : m.removing none with
  | some logger =>
    obtain ⟨impl, himpl, ⟨hroom, heq⟩ | ⟨_, heq⟩⟩ := cleanup_removal hc.inv hk
    · have hne : h ≠ logger := by
        rintro rfl
        rcases hwhy with ⟨_, hother⟩ | ⟨impl', himpl', hfull⟩
        · exact hother hk
        · rw [Option.some.inj (himpl.symm.trans himpl'), hfull] at hroom
          cases hroom
      rw [heq]
      refine ⟨(List.mem_erase_of_ne hne).mpr hlisted, ?_⟩
      rcases hwhy with ⟨hres, _⟩ | ⟨other, hother, hfull⟩
      · refine .inl ⟨hres, ?_⟩
        show Function.update m.removing none none none ≠ some h
        rw [Function.update_self]
        nofun
      · have hother' := (Function.update_of_ne hne (none : Option LoggerImpl) m.impls).trans hother
        exact .inr ⟨other, hother', (unlink_other hc.inv himpl hne hother').2.trans hfull⟩
    · rw [heq]
      exact ⟨hlisted, hwhy⟩
  | none =>
    cases hloggers : m.loggers with
    | nil =>
      rw [hloggers] at hlisted
      cases hlisted
    | cons logger rest =>
      rw [cleanupStep_begin hk hloggers]
      unfold LogState.removeLogger
      split
      · next hresolves =>
        refine ⟨hlisted, hwhy.imp_left fun hclosed => ?_⟩
        have hne : h ≠ logger := by
          rintro rfl
          rw [hresolves] at hclosed
          cases hclosed.1
        refine ⟨(Function.update_of_ne hne ..).trans hclosed.1, ?_⟩
        show Function.update m.removing none (some logger) none ≠ some h
        rw [Function.update_self]
        exact fun heq => hne (Option.some.inj heq).symm
      · exact ⟨hlisted, hwhy⟩

/-- The cleanup loops forever. -/
theorem Cleaning.stuck_iterate (hc : m.Cleaning) (hs : m.Stuck h) (n : Nat) :
    (cleanupStep^[n] m).Stuck h := by
  induction n with
  | zero => exact hs
  | succ n ih =>
    rw [Function.iterate_succ_apply']
    exact (hc.iterate n).stuck_step ih

theorem Stuck.not_cleanedUp (hs : m.Stuck h) : ¬m.CleanedUp := by
  rintro ⟨hnil, _⟩
  exact List.not_mem_nil (hnil ▸ hs.1)

theorem stuck_of_not_removable (hk : m.removing none = none) (hlisted : h ∈ m.loggers)
    (hnot : ¬m.Removable h) : m.Stuck h := by
  refine ⟨hlisted, ?_⟩
  by_cases hresolves : m.resolves h = true
  · rw [Removable, not_and] at hnot
    obtain ⟨impl, himpl⟩ := not_forall.mp (hnot hresolves)
    rw [Classical.not_imp, Bool.not_eq_true] at himpl
    exact .inr ⟨impl, himpl⟩
  · refine .inl ⟨by simpa using hresolves, ?_⟩
    rw [hk]
    nofun

/-- `bio_logging_cleanup` ends with every logger removed and its `NULL` sent iff no mailbox of a
logger is full and no coroutine has begun to remove a logger. -/
theorem logging_cleanup_ends_iff (hm : (machine α).Reachable m) (hp : m.sched.phase = .outside)
    (hk : m.removing none = none) :
    (∃ n, (cleanupStep^[n] m).CleanedUp ∧ ∀ h ∈ m.loggers, ∃ s, m.serviceOf h = some s ∧
      none ∈ (cleanupStep^[n] m).mail.sent s.mailbox) ↔ ∀ h ∈ m.loggers, m.Removable h := by
  have hc : m.Cleaning := ⟨hm, hp⟩
  refine ⟨fun ⟨n, hdone, _⟩ h hlisted => ?_, fun hall => ?_⟩
  · by_contra hnot
    exact (hc.stuck_iterate (stuck_of_not_removable hk hlisted hnot) n).not_cleanedUp hdone
  · have hdone := hc.ends hk hall
    refine ⟨_, hdone, fun h hlisted => ?_⟩
    obtain ⟨impl, _, hservice⟩ := hc.inv.registry.service hlisted
    have hs := hc.inv.registry.serviceOf h _ hservice
    refine ⟨impl.service, hs, ?_⟩
    -- A logger that is gone was told to end.
    refine (hc.iterate _).inv.registry.told h impl.service (hc.serviceOf _ hs) ?_
    rw [hdone.1]
    exact List.not_mem_nil

/-- The coroutine `⟨0, 1⟩` adds a logger, logs `n` messages and ends, and `bio_loop` returns. -/
def loopReturned (n : Nat) : LogState Nat :=
  (machine Nat).run init (entry ++ addition ⟨1, 1⟩ ⟨2, 1⟩ ⟨3, 1⟩ ⟨4, 1⟩ ⟨5, 1⟩ ++ messages n ++
    [.sched .finish, .sched .destroy, .sched .endPass])

/-- With one message in the mailbox the cleanup ends. -/
theorem logging_cleanup_ends_room : ∃ n, (cleanupStep^[n] (loopReturned 1)).CleanedUp := by
  have hr : (machine Nat).Reachable (loopReturned 1) :=
    Machine.Reachable.run (.init rfl) (by decide +kernel)
  have hp : (loopReturned 1).sched.phase = .outside := by decide +kernel
  have hloggers : (loopReturned 1).loggers = [⟨5, 1⟩] := by decide +kernel
  have hremovable : ∀ h ∈ (loopReturned 1).loggers, (loopReturned 1).Removable h := by
    intro h hh
    rw [hloggers] at hh
    obtain rfl := List.mem_singleton.mp hh
    refine ⟨by decide +kernel, fun impl himpl => ?_⟩
    have hroom : ((loopReturned 1).impls ⟨5, 1⟩).map
      (fun impl => (loopReturned 1).mail.canSend impl.service.mailbox) = some true := by decide +kernel
    rw [himpl] at hroom
    exact Option.some.inj hroom
  obtain ⟨n, hdone, _⟩ := (logging_cleanup_ends_iff hr hp (by decide +kernel)).mpr hremovable
  exact ⟨n, hdone⟩

/-- With sixteen messages it does not. -/
theorem logging_cleanup_hangs : ¬∀ m : LogState Nat, (machine Nat).Reachable m →
    m.sched.phase = .outside → m.removing none = none → ∃ n, (cleanupStep^[n] m).CleanedUp := by
  intro h
  have hr : (machine Nat).Reachable (loopReturned 16) :=
    Machine.Reachable.run (.init rfl) (by decide +kernel)
  have hp : (loopReturned 16).sched.phase = .outside := by decide +kernel
  obtain ⟨n, hdone⟩ := h _ hr hp (by decide +kernel)
  have hfull : ((loopReturned 16).impls ⟨5, 1⟩).map
    (fun impl => (loopReturned 16).mail.canSend impl.service.mailbox) = some false := by decide +kernel
  obtain ⟨impl, himpl, hsend⟩ := Option.map_eq_some_iff.mp hfull
  have hstuck : (loopReturned 16).Stuck ⟨5, 1⟩ := ⟨by decide +kernel, .inr ⟨impl, himpl, hsend⟩⟩
  exact (Cleaning.stuck_iterate ⟨hr, hp⟩ hstuck n).not_cleanedUp hdone

end LogState

end Bio
