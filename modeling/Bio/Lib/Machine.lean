import Mathlib.Tactic.Common

/-!
# Machines with guarded actions

A machine has initial states and actions. An action has a guard and a deterministic effect, so
all nondeterminism (what the environment does, which thread moves) is in the choice of the action.

* `Reachable`: the states of whole runs, with the invariant rule `invariant`.
* `Legal` / `run`: one run as a list of actions, executable when the guards are decidable.
* `restrict`: the same machine under an additional guard. It is how a statement talks about the
  runs in which something does not happen.
* `refinement`: every action of one machine is a run of another one.
-/

/-- Initial states, the guard of each action and its effect. -/
structure Machine (S A : Type*) where
  init : S → Prop
  enabled : S → A → Prop
  perform : S → A → S

namespace Machine

variable {S A T B : Type*} (M : Machine S A)

/-- The states of all runs from the initial states. -/
inductive Reachable : S → Prop
  | init {s : S} : M.init s → Reachable s
  | step {s : S} {a : A} : Reachable s → M.enabled s a → Reachable (M.perform s a)

theorem Reachable.step_eq {M : Machine S A} {s t : S} {a : A} (hs : M.Reachable s)
    (he : M.enabled s a) (heq : M.perform s a = t) : M.Reachable t := heq ▸ hs.step he

/-- Every action of the list is enabled when its turn comes. -/
def Legal : S → List A → Prop
  | _, [] => True
  | s, a :: as => M.enabled s a ∧ Legal (M.perform s a) as

/-- The state after the actions of the list. -/
def run : S → List A → S
  | s, [] => s
  | s, a :: as => run (M.perform s a) as

/-- The machine `M` with a further guard on its actions. -/
def restrict (Q : S → A → Prop) : Machine S A where
  init := M.init
  enabled := fun s a => M.enabled s a ∧ Q s a
  perform := M.perform

instance decidableLegal [∀ s a, Decidable (M.enabled s a)] :
    ∀ (s : S) (as : List A), Decidable (M.Legal s as)
  | _, [] => isTrue trivial
  | s, a :: as =>
    have : Decidable (M.Legal (M.perform s a) as) := decidableLegal (M.perform s a) as
    inferInstanceAs (Decidable (M.enabled s a ∧ M.Legal (M.perform s a) as))

variable {M}

@[simp] theorem legal_nil (s : S) : M.Legal s [] := trivial

@[simp] theorem legal_cons (s : S) (a : A) (as : List A) :
    M.Legal s (a :: as) ↔ M.enabled s a ∧ M.Legal (M.perform s a) as := Iff.rfl

@[simp] theorem run_nil (s : S) : M.run s [] = s := rfl

@[simp] theorem run_cons (s : S) (a : A) (as : List A) :
    M.run s (a :: as) = M.run (M.perform s a) as := rfl

theorem run_append (s : S) (as bs : List A) : M.run s (as ++ bs) = M.run (M.run s as) bs := by
  induction as generalizing s with
  | nil => rfl
  | cons a as ih => exact ih (M.perform s a)

theorem legal_append {s : S} {as bs : List A} :
    M.Legal s (as ++ bs) ↔ M.Legal s as ∧ M.Legal (M.run s as) bs := by
  induction as generalizing s with
  | nil => simp
  | cons a as ih => simp [ih, and_assoc]

/-- The invariant rule: what holds initially and is kept by every enabled action of a reachable
state holds in every reachable state. -/
theorem invariant {P : S → Prop} (base : ∀ s, M.init s → P s)
    (step : ∀ s a, M.Reachable s → P s → M.enabled s a → P (M.perform s a))
    {s : S} (h : M.Reachable s) : P s := by
  induction h with
  | init h => exact base _ h
  | step hr he ih => exact step _ _ hr ih he

/-- The same rule along one run: what each enabled action keeps, the whole run keeps. -/
theorem run_invariant {P : S → Prop}
    (step : ∀ s a, P s → M.enabled s a → P (M.perform s a))
    {s : S} {as : List A} (hs : P s) (h : M.Legal s as) : P (M.run s as) := by
  induction as generalizing s with
  | nil => exact hs
  | cons a as ih => exact ih (step s a hs h.1) h.2

theorem Reachable.run {s : S} {as : List A} (hs : M.Reachable s) (h : M.Legal s as) :
    M.Reachable (M.run s as) :=
  run_invariant (fun _ _ hr he => hr.step he) hs h

theorem run_restrict (Q : S → A → Prop) (s : S) (as : List A) :
    (M.restrict Q).run s as = M.run s as := by
  induction as generalizing s with
  | nil => rfl
  | cons a as ih => exact ih (M.perform s a)

theorem Reachable.of_restrict {Q : S → A → Prop} {s : S} (h : (M.restrict Q).Reachable s) :
    M.Reachable s := by
  induction h with
  | init h => exact .init h
  | step _ he ih => exact ih.step he.1

/-- A guard that always holds excludes no run. -/
theorem Reachable.restrict {Q : S → A → Prop} (hQ : ∀ s a, Q s a) {s : S} (h : M.Reachable s) :
    (M.restrict Q).Reachable s := by
  induction h with
  | init h => exact .init h
  | step _ he ih => exact .step (M := M.restrict Q) ih ⟨he, hQ _ _⟩

theorem Reachable.restrict_step {Q : S → A → Prop} {s : S} {a : A}
    (hs : (M.restrict Q).Reachable s) (he : M.enabled s a) (hQ : Q s a) :
    (M.restrict Q).Reachable (M.perform s a) := hs.step ⟨he, hQ⟩

/-- A guard that always holds of the actions of a run does not exclude it. -/
theorem Reachable.restrict_run {Q : S → A → Prop} {s : S} {as : List A}
    (hs : (M.restrict Q).Reachable s) (hQ : ∀ a ∈ as, ∀ t, Q t a) (h : M.Legal s as) :
    (M.restrict Q).Reachable (M.run s as) := by
  induction as generalizing s with
  | nil => exact hs
  | cons a as ih =>
    exact ih (hs.restrict_step h.1 (hQ a List.mem_cons_self s))
      (fun b hb => hQ b (List.mem_cons_of_mem _ hb)) h.2

/-- `Joined M s t`: some run of `M` leads from `s` to `t`. -/
def Joined (M : Machine S A) (s t : S) : Prop :=
  ∃ as, M.Legal s as ∧ M.run s as = t

theorem Joined.refl (s : S) : M.Joined s s := ⟨[], trivial, rfl⟩

theorem Joined.single {s : S} {a : A} (h : M.enabled s a) : M.Joined s (M.perform s a) :=
  ⟨[a], ⟨h, trivial⟩, rfl⟩

theorem Joined.trans {s t u : S} (hst : M.Joined s t) (htu : M.Joined t u) : M.Joined s u := by
  obtain ⟨as, hl, rfl⟩ := hst
  obtain ⟨bs, hl', rfl⟩ := htu
  exact ⟨as ++ bs, legal_append.mpr ⟨hl, hl'⟩, run_append s as bs⟩

theorem Joined.reachable {s t : S} (h : M.Joined s t) (hs : M.Reachable s) : M.Reachable t := by
  obtain ⟨as, hl, rfl⟩ := h
  exact hs.run hl

/-- What each enabled action keeps, holds at the end of a run if it holds at its start. -/
theorem Joined.invariant {P : S → Prop} {s t : S} (h : M.Joined s t)
    (step : ∀ s a, P s → M.enabled s a → P (M.perform s a)) (hs : P s) : P t := by
  obtain ⟨as, hl, rfl⟩ := h
  exact run_invariant step hs hl

/-- The runs under a further guard are the runs whose steps all meet it. -/
theorem legal_restrict_iff {Q : S → A → Prop} {s : S} {as : List A} (hl : M.Legal s as) :
    (M.restrict Q).Legal s as ↔ ∀ bs a, bs ++ [a] <+: as → Q (M.run s bs) a := by
  induction as generalizing s with
  | nil => exact ⟨fun _ bs a h => by simp at h, fun _ => trivial⟩
  | cons a as ih =>
    constructor
    · rintro ⟨⟨_, hQ⟩, hrest⟩ bs b hbs
      cases bs with
      | nil =>
        obtain ⟨rfl, _⟩ := List.cons_prefix_cons.mp hbs
        exact hQ
      | cons c bs =>
        obtain ⟨rfl, htail⟩ := List.cons_prefix_cons.mp hbs
        exact (ih hl.2).mp hrest bs b htail
    · intro h
      refine ⟨⟨hl.1, h [] a (List.prefix_append [a] as)⟩, (ih hl.2).mpr fun bs b hbs => ?_⟩
      exact h (a :: bs) b ((List.prefix_cons_inj a).mpr hbs)

/-- When a step has the property `K` exactly when it meets the guard `Q`, the runs whose steps all have
the property are the runs under the guard. -/
theorem steps_iff {Q K : S → A → Prop} {s : S} {as : List A} (hs : M.init s)
    (hstep : ∀ t a, M.Reachable t → M.enabled t a → (K t a ↔ Q t a)) (hl : M.Legal s as) :
    (∀ bs a, bs ++ [a] <+: as → K (M.run s bs) a) ↔ (M.restrict Q).Legal s as := by
  rw [legal_restrict_iff hl]
  refine forall₃_congr fun bs a hbs => ?_
  obtain ⟨cs, rfl⟩ := hbs
  obtain ⟨hbefore, he, _⟩ := legal_append.mp (legal_append.mp hl).1
  exact hstep _ a (Reachable.run (.init hs) hbefore) he

/-- When the guard `Q` is enough for `P` in every state, and under the guard a step that leads to `P` meets
it too, the runs that stay in `P` are those whose steps all meet the guard. -/
theorem always_restrict_iff {Q : S → A → Prop} {P : S → Prop} {s : S} {as : List A}
    (sound : ∀ t, (M.restrict Q).Reachable t → P t)
    (exact : ∀ t a, (M.restrict Q).Reachable t → M.enabled t a → P (M.perform t a) → Q t a)
    (hs : M.init s) (hl : M.Legal s as) :
    (∀ bs, bs <+: as → P (M.run s bs)) ↔ (M.restrict Q).Legal s as := by
  constructor
  · have hr : (M.restrict Q).Reachable s := .init hs
    clear hs
    intro hP
    induction as generalizing s with
    | nil => trivial
    | cons a as ih =>
      have hone := hP [a] (List.prefix_append [a] as)
      have hQ := exact s a hr hl.1 hone
      refine ⟨⟨hl.1, hQ⟩, ih hl.2 (hr.restrict_step hl.1 hQ) fun bs hbs => ?_⟩
      exact hP (a :: bs) ((List.prefix_cons_inj a).mpr hbs)
  · rintro hlegal bs ⟨cs, rfl⟩
    have hr := Reachable.run (M := M.restrict Q) (.init hs) (legal_append.mp hlegal).1
    rw [run_restrict] at hr
    exact sound _ hr

/-- The same when the step can be judged from any reachable state. -/
theorem always_iff {Q : S → A → Prop} {P : S → Prop} {s : S} {as : List A}
    (sound : ∀ t, (M.restrict Q).Reachable t → P t)
    (exact : ∀ t a, M.Reachable t → M.enabled t a → P (M.perform t a) → Q t a)
    (hs : M.init s) (hl : M.Legal s as) :
    (∀ bs, bs <+: as → P (M.run s bs)) ↔ (M.restrict Q).Legal s as :=
  always_restrict_iff sound (fun t a hr => exact t a hr.of_restrict) hs hl

/-- The same for a property `K` of steps next to a property `P` of states. -/
theorem always_step_iff {Q K : S → A → Prop} {P : S → Prop} {s : S} {as : List A} (hs : M.init s)
    (hP : P s)
    (sound : ∀ t a, M.Reachable t → P t → M.enabled t a → Q t a → K t a ∧ P (M.perform t a))
    (exact : ∀ t a, M.Reachable t → P t → M.enabled t a → K t a → P (M.perform t a) → Q t a)
    (hl : M.Legal s as) :
    ((∀ bs a, bs ++ [a] <+: as → K (M.run s bs) a) ∧ ∀ bs, bs <+: as → P (M.run s bs)) ↔
      (M.restrict Q).Legal s as := by
  have hr : M.Reachable s := .init hs
  clear hs
  induction as generalizing s with
  | nil =>
    refine iff_of_true ⟨fun bs a h => by simp at h, fun bs h => ?_⟩ trivial
    rw [List.prefix_nil.mp h]
    exact hP
  | cons a as ih =>
    have hrest := fun hP' => ih (s := M.perform s a) hP' hl.2 (hr.step hl.1)
    constructor
    · rintro ⟨hK, hall⟩
      have hP' : P (M.perform s a) := hall [a] (List.prefix_append [a] as)
      refine ⟨⟨hl.1, exact s a hr hP hl.1 (hK [] a (List.prefix_append [a] as)) hP'⟩,
        (hrest hP').mp ⟨fun bs b hbs => ?_, fun bs hbs => ?_⟩⟩
      · exact hK (a :: bs) b ((List.prefix_cons_inj a).mpr hbs)
      · exact hall (a :: bs) ((List.prefix_cons_inj a).mpr hbs)
    · rintro ⟨⟨_, hQ⟩, hlegal⟩
      obtain ⟨hKa, hP'⟩ := sound s a hr hP hl.1 hQ
      obtain ⟨hK, hall⟩ := (hrest hP').mpr hlegal
      refine ⟨fun bs b hbs => ?_, fun bs hbs => ?_⟩
      · cases bs with
        | nil =>
          obtain ⟨rfl, _⟩ := List.cons_prefix_cons.mp hbs
          exact hKa
        | cons c bs =>
          obtain ⟨rfl, htail⟩ := List.cons_prefix_cons.mp hbs
          exact hK bs b htail
      · cases bs with
        | nil => exact hP
        | cons c bs =>
          obtain ⟨rfl, htail⟩ := List.cons_prefix_cons.mp hbs
          exact hall bs htail

/-- The refinement rule: when a map sends initial states to reachable ones and each action of `N`
to a run of `M`, it sends reachable states to reachable ones. -/
theorem refinement {N : Machine T B} {f : T → S} (base : ∀ t, N.init t → M.Reachable (f t))
    (step : ∀ t b, N.Reachable t → N.enabled t b → M.Joined (f t) (f (N.perform t b)))
    {t : T} (h : N.Reachable t) : M.Reachable (f t) := by
  induction h with
  | init h => exact base _ h
  | step hr he ih => exact (step _ _ hr he).reachable ih

end Machine
