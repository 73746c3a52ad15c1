import Bio.Scheduler
import Bio.Lib.Registry
import Bio.Lib.Table
import Mathlib.Data.List.Count
import Mathlib.Tactic.Common

/-!
# The scheduler's invariants

The invariant is stated over a view of the state that forgets the wait counters: the state and the
position of each coroutine in the ready lists, who owns which signal and who monitors whom. Each
function of the scheduler is a short sequence of moves of this view (`view_…`), and each move keeps
`View.Ok`. The counters enter only through `Coro.Ok`.
-/

namespace Bio

/-- What the invariant talks about. -/
@[ext] structure View where
  state : Handle → CoroState
  queue : List Handle
  phase : Phase
  own : Handle → Option Handle
  pending : Handle → Option (List Handle)
  target : Handle → Option Handle
  monitors : Handle → Option (List Handle)
  issued : List Handle

namespace Sched

def ownerOf (s : Sched) (h : Handle) : Option Handle := (s.signals h).map Signal.owner
def pendingOf (s : Sched) (c : Handle) : Option (List Handle) :=
  (s.coros c).map Coro.pendingSignals
def targetOf (s : Sched) (m : Handle) : Option Handle := (s.monitors m).map Monitor.target
def monitorsOf (s : Sched) (c : Handle) : Option (List Handle) := (s.coros c).map Coro.monitors

def view (s : Sched) : View where
  state := s.coroState
  queue := s.readyQueue
  phase := s.phase
  own := s.ownerOf
  pending := s.pendingOf
  target := s.targetOf
  monitors := s.monitorsOf
  issued := s.issued

end Sched

namespace View

/-- A waiting coroutine is scheduled. -/
def wake (v : View) (c : Handle) : View :=
  { v with state := Function.update v.state c .ready, queue := v.queue ++ [c] }

/-- A signal of `c` is closed. -/
def dropSignal (v : View) (h c : Handle) : View :=
  { v with
    own := Function.update v.own h none
    pending := Function.update v.pending c ((v.pending c).map fun l => l.erase h) }

/-- A monitor of `c` is closed. -/
def dropMonitor (v : View) (m c : Handle) : View :=
  { v with
    target := Function.update v.target m none
    monitors := Function.update v.monitors c ((v.monitors c).map fun l => l.erase m) }

/-- The invariant of the scheduler. -/
structure Ok (v : View) : Prop where
  queue : ∀ c, v.queue.count c = if v.state c = .ready then 1 else 0
  active : ∀ c, v.state c = .running ↔ v.phase.active = some c
  signals : Filed v.own v.pending
  filed : Filed v.target v.monitors
  dead_iff : ∀ c, v.state c = .dead ↔ v.pending c = none
  live_iff : ∀ c, v.monitors c = none ↔ v.pending c = none
  coro_issued : ∀ c, v.pending c ≠ none → c ∈ v.issued
  signal_issued : ∀ h, v.own h ≠ none → h ∈ v.issued
  monitor_issued : ∀ m, v.target m ≠ none → m ∈ v.issued
  invalid_issued : Handle.invalid ∉ v.issued

end View

/-- What holds of a live coroutine on its own: it is not marked dead, it waits for at least one
signal while it waits, and for none while it runs. -/
def Coro.Ok (coro : Coro) : Prop :=
  coro.state ≠ .dead ∧ (coro.state = .waiting → 0 < coro.numBlockingSignals) ∧
    (coro.state = .running → coro.numBlockingSignals = 0)

/-- The invariant of the whole state. -/
structure Sched.Inv (s : Sched) : Prop where
  view : s.view.Ok
  coro : ∀ c coro, s.coros c = some coro → coro.Ok

/-! ## Moves of the view -/

namespace View.Ok

variable {v : View}

theorem not_ready_of_ne {c : Handle} (hv : v.Ok) (h : v.state c ≠ .ready) : c ∉ v.queue := by
  have := hv.queue c
  rw [if_neg h] at this
  exact List.count_eq_zero.mp this

/-- A live coroutine changes its state. The ready lists and the phase follow. -/
theorem move (hv : v.Ok) {c : Handle} {st : CoroState} {queue : List Handle} {phase : Phase}
    (live : v.state c ≠ .dead) (hst : st ≠ .dead)
    (hq : queue.count c = if st = .ready then 1 else 0)
    (hq' : ∀ c', c' ≠ c → queue.count c' = v.queue.count c')
    (ha : st = .running ↔ phase.active = some c)
    (ha' : ∀ c', c' ≠ c → (phase.active = some c' ↔ v.phase.active = some c')) :
    Ok { v with state := Function.update v.state c st, queue := queue, phase := phase } := by
  refine { hv with queue := fun c' => ?_, active := fun c' => ?_, dead_iff := fun c' => ?_ }
  all_goals by_cases hcc : c' = c
  · subst hcc
    simpa using hq
  · simpa [hcc, hv.queue c'] using hq' c' hcc
  · subst hcc
    simpa using ha
  · simpa [hcc, hv.active c'] using (ha' c' hcc).symm
  · subst hcc
    simpa [hst] using mt (hv.dead_iff c').mpr live
  · simpa [hcc] using hv.dead_iff c'

theorem wake (hv : v.Ok) {c : Handle} (hc : v.state c = .waiting) : (v.wake c).Ok := by
  have hq := hv.queue c
  rw [if_neg (by rw [hc]; decide)] at hq
  have ha := hv.active c
  rw [hc] at ha
  refine hv.move (by rw [hc]; decide) (by decide) ?_ ?_ ?_ fun _ _ => Iff.rfl
  · simp [List.count_append, hq]
  · intro c' hcc
    simp [List.count_append, Ne.symm hcc]
  · simpa using ha

/-- The coroutine that ran goes to the end of the queue. -/
theorem suspendReady (hv : v.Ok) {c : Handle} (hc : v.phase.active = some c) :
    Ok { v with
      state := Function.update v.state c .ready, queue := v.queue ++ [c], phase := .pass } := by
  have hs := (hv.active c).mpr hc
  have hq := hv.queue c
  rw [if_neg (by rw [hs]; decide)] at hq
  refine hv.move (by rw [hs]; decide) (by decide) ?_ ?_ (by simp) ?_
  · simp [List.count_append, hq]
  · intro c' hcc
    simp [List.count_append, Ne.symm hcc]
  · intro c' hcc
    simp [hc, Ne.symm hcc]

/-- The coroutine that ran waits. -/
theorem suspendWaiting (hv : v.Ok) {c : Handle} (hc : v.phase.active = some c) :
    Ok { v with state := Function.update v.state c .waiting, phase := .pass } := by
  have hs := (hv.active c).mpr hc
  have hq := hv.queue c
  rw [if_neg (by rw [hs]; decide)] at hq
  refine hv.move (by rw [hs]; decide) (by decide) ?_ (fun _ _ => rfl)
    (by simp) ?_
  · simp [hq]
  · intro c' hcc
    simp [hc, Ne.symm hcc]

/-- The head of the queue is resumed. -/
theorem resume (hv : v.Ok) {c : Handle} {rest : List Handle} (hq : v.queue = c :: rest)
    (hp : v.phase.active = none) :
    Ok { v with
      state := Function.update v.state c .running, queue := rest, phase := .running c } := by
  have hcount := hv.queue c
  have hready : v.state c = .ready := by
    by_contra hne
    rw [if_neg hne, hq] at hcount
    simp at hcount
  rw [if_pos hready, hq, List.count_cons_self] at hcount
  refine hv.move (by rw [hready]; decide) (by decide) ?_ ?_ (by simp) ?_
  · simpa using hcount
  · intro c' hcc
    simp [hq, Ne.symm hcc]
  · intro c' hcc
    simp [hp, Ne.symm hcc]

/-- Only the phase changes, and no coroutine is left or entered. -/
theorem setPhase (hv : v.Ok) {phase : Phase} (h : phase.active = v.phase.active) :
    Ok { v with phase := phase } :=
  { hv with active := fun c => by rw [hv.active c, h] }

theorem spawn (hv : v.Ok) {c : Handle} (hc : c ≠ Handle.invalid) (fresh : c ∉ v.issued) :
    Ok { v with
      state := Function.update v.state c .ready
      queue := v.queue ++ [c]
      pending := Function.update v.pending c (some [])
      monitors := Function.update v.monitors c (some [])
      issued := c :: v.issued } := by
  have hpending : v.pending c = none := by
    by_contra h
    exact fresh (hv.coro_issued c h)
  have hdead := (hv.dead_iff c).mpr hpending
  have hq0 := hv.queue c
  rw [if_neg (by rw [hdead]; decide)] at hq0
  refine
    { signals := hv.signals.addOwner hpending
      filed := hv.filed.addOwner ((hv.live_iff c).mpr hpending)
      queue := fun c' => ?_
      active := fun c' => ?_
      dead_iff := fun c' => ?_
      live_iff := fun c' => ?_
      coro_issued := fun c' hc' => ?_
      signal_issued := fun h hh => List.mem_cons_of_mem _ (hv.signal_issued h hh)
      monitor_issued := fun m hm => List.mem_cons_of_mem _ (hv.monitor_issued m hm)
      invalid_issued := by simpa [hc.symm] using hv.invalid_issued }
  all_goals by_cases hcc : c' = c
  · subst hcc
    simp [List.count_append, hq0]
  · simpa [hcc, Ne.symm hcc, List.count_append] using hv.queue c'
  · subst hcc
    have := hv.active c'
    rw [hdead] at this
    simpa using this
  · simpa [hcc] using hv.active c'
  · subst hcc
    simp
  · simpa [hcc] using hv.dead_iff c'
  · subst hcc
    simp
  · simpa [hcc] using hv.live_iff c'
  · exact hcc ▸ List.mem_cons_self
  · exact List.mem_cons_of_mem _ (hv.coro_issued c' (by simpa [hcc] using hc'))

theorem makeSignal (hv : v.Ok) {c h : Handle} {l : List Handle} (hc : v.pending c = some l)
    (hh : h ≠ Handle.invalid) (fresh : h ∉ v.issued) :
    Ok { v with
      own := Function.update v.own h (some c)
      pending := Function.update v.pending c (some (l ++ [h]))
      issued := h :: v.issued } := by
  have hown : v.own h = none := by
    by_contra hne
    exact fresh (hv.signal_issued h hne)
  have hnone : ∀ c', Function.update v.pending c (some (l ++ [h])) c' = none ↔
      v.pending c' = none := by
    intro c'
    by_cases hcc : c' = c
    · subst hcc
      simp [hc]
    · simp [hcc]
  refine { hv with
    signals := hv.signals.add hown hc
    dead_iff := fun c' => (hv.dead_iff c').trans (hnone c').symm
    live_iff := fun c' => (hv.live_iff c').trans (hnone c').symm
    coro_issued := fun c' hc' =>
      List.mem_cons_of_mem _ (hv.coro_issued c' (mt (hnone c').mpr hc'))
    signal_issued := fun h' hh' => ?_
    monitor_issued := fun m hm => List.mem_cons_of_mem _ (hv.monitor_issued m hm)
    invalid_issued := by simpa [hh.symm] using hv.invalid_issued }
  by_cases hhh : h' = h
  · exact hhh ▸ List.mem_cons_self
  · exact List.mem_cons_of_mem _ (hv.signal_issued h' (by simpa [hhh] using hh'))

theorem register (hv : v.Ok) {c m : Handle} {l : List Handle} (hc : v.monitors c = some l)
    (hm : m ≠ Handle.invalid) (fresh : m ∉ v.issued) :
    Ok { v with
      target := Function.update v.target m (some c)
      monitors := Function.update v.monitors c (some (l ++ [m]))
      issued := m :: v.issued } := by
  have htarget : v.target m = none := by
    by_contra hne
    exact fresh (hv.monitor_issued m hne)
  refine { hv with
    filed := hv.filed.add htarget hc
    live_iff := fun c' => ?_
    coro_issued := fun c' hc' => List.mem_cons_of_mem _ (hv.coro_issued c' hc')
    signal_issued := fun h hh => List.mem_cons_of_mem _ (hv.signal_issued h hh)
    monitor_issued := fun m' hm' => ?_
    invalid_issued := by simpa [hm.symm] using hv.invalid_issued }
  · by_cases hcc : c' = c
    · subst hcc
      simpa [hc] using hv.live_iff c'
    · simpa [hcc] using hv.live_iff c'
  · by_cases hmm : m' = m
    · exact hmm ▸ List.mem_cons_self
    · exact List.mem_cons_of_mem _ (hv.monitor_issued m' (by simpa [hmm] using hm'))

theorem issue (hv : v.Ok) {h : Handle} (hh : h ≠ Handle.invalid) :
    Ok { v with issued := h :: v.issued } :=
  { hv with
    coro_issued := fun c hc => List.mem_cons_of_mem _ (hv.coro_issued c hc)
    signal_issued := fun x hx => List.mem_cons_of_mem _ (hv.signal_issued x hx)
    monitor_issued := fun m hm => List.mem_cons_of_mem _ (hv.monitor_issued m hm)
    invalid_issued := by simpa [hh.symm] using hv.invalid_issued }

/-- The coroutine that ran is gone, and with it the last of its signals and monitors. -/
theorem remove (hv : v.Ok) {c : Handle} (hc : v.phase.active = some c)
    (hp : v.pending c = some []) (hm : v.monitors c = some []) :
    Ok { v with
      state := Function.update v.state c .dead
      pending := Function.update v.pending c none
      monitors := Function.update v.monitors c none
      phase := .pass } := by
  have hs := (hv.active c).mpr hc
  have hq0 := hv.queue c
  rw [if_neg (by rw [hs]; decide)] at hq0
  refine { hv with
    signals := hv.signals.removeOwner hp
    filed := hv.filed.removeOwner hm
    queue := fun c' => ?_
    active := fun c' => ?_
    dead_iff := fun c' => ?_
    live_iff := fun c' => ?_
    coro_issued := fun c' hc' => ?_ }
  all_goals by_cases hcc : c' = c
  · subst hcc
    simp [hq0]
  · simpa [hcc] using hv.queue c'
  · subst hcc
    simp
  · simpa [hcc, hc, Ne.symm hcc] using hv.active c'
  · subst hcc
    simp
  · simpa [hcc] using hv.dead_iff c'
  · subst hcc
    simp
  · simpa [hcc] using hv.live_iff c'
  · subst hcc
    simp at hc'
  · exact hv.coro_issued c' (by simpa [hcc] using hc')

theorem dropSignal (hv : v.Ok) {h c : Handle} (ho : v.own h = some c) : (v.dropSignal h c).Ok := by
  have hnone : ∀ c', (v.dropSignal h c).pending c' = none ↔ v.pending c' = none :=
    Table.update_map_eq_none
  refine { hv with
    signals := hv.signals.remove ho
    dead_iff := fun c' => (hv.dead_iff c').trans (hnone c').symm
    live_iff := fun c' => (hv.live_iff c').trans (hnone c').symm
    coro_issued := fun c' hc' => hv.coro_issued c' (mt (hnone c').mpr hc')
    signal_issued := fun h' hh' => hv.signal_issued h' ?_ }
  intro hnone'
  by_cases hhh : h' = h
  · subst hhh
    rw [ho] at hnone'
    cases hnone'
  · exact hh' ((Function.update_of_ne hhh ..).trans hnone')

theorem dropMonitor (hv : v.Ok) {m c : Handle} (ho : v.target m = some c) :
    (v.dropMonitor m c).Ok := by
  have hnone : ∀ c', (v.dropMonitor m c).monitors c' = none ↔ v.monitors c' = none :=
    Table.update_map_eq_none
  refine { hv with
    filed := hv.filed.remove ho
    live_iff := fun c' => (hnone c').trans (hv.live_iff c')
    monitor_issued := fun m' hm' => hv.monitor_issued m' ?_ }
  intro hnone'
  by_cases hmm : m' = m
  · subst hmm
    rw [ho] at hnone'
    cases hnone'
  · exact hm' ((Function.update_of_ne hmm ..).trans hnone')

end View.Ok

/-! ## The view of an updated state -/

namespace Sched

section Projections

variable {s s' : Sched} {c h : Handle} {f : Coro → Coro}

theorem coroState_eq (h : s'.coros = s.coros) : s'.coroState = s.coroState := by
  funext x
  simp only [coroState, h]

theorem coroState_update {v : Option Coro} (h : s'.coros = Function.update s.coros c v) :
    s'.coroState = Function.update s.coroState c (v.elim .dead Coro.state) := by
  funext x
  by_cases hx : x = c
  · subst hx
    cases v <;> simp [coroState, h]
  · simp [coroState, h, hx]

theorem coroState_kept {old new : Coro} (hc : s.coros c = some old)
    (h : s'.coros = Function.update s.coros c (some new)) (hsame : new.state = old.state) :
    s'.coroState = s.coroState := by
  rw [coroState_update h]
  exact Function.update_eq_self_iff.mpr (by simp [coroState, hc, hsame])

theorem coroState_modify (h : s'.coros = Function.update s.coros c ((s.coros c).map f))
    (hf : ∀ coro, (f coro).state = coro.state) : s'.coroState = s.coroState := by
  rw [coroState_update h]
  refine Function.update_eq_self_iff.mpr ?_
  cases hc : s.coros c <;> simp [coroState, hc, hf]

theorem pendingOf_update {v : Option Coro} (h : s'.coros = Function.update s.coros c v) :
    s'.pendingOf = Function.update s.pendingOf c (v.map Coro.pendingSignals) := by
  funext x
  by_cases hx : x = c
  · subst hx
    simp [pendingOf, h]
  · simp [pendingOf, h, hx]

theorem pendingOf_kept {old new : Coro} (hc : s.coros c = some old)
    (h : s'.coros = Function.update s.coros c (some new)) (hsame : new.pendingSignals = old.pendingSignals) :
    s'.pendingOf = s.pendingOf := by
  rw [pendingOf_update h]
  exact Function.update_eq_self_iff.mpr (by simp [pendingOf, hc, hsame])

theorem pendingOf_modify (h : s'.coros = Function.update s.coros c ((s.coros c).map f))
    (hf : ∀ coro, (f coro).pendingSignals = coro.pendingSignals) :
    s'.pendingOf = s.pendingOf := by
  rw [pendingOf_update h]
  refine Function.update_eq_self_iff.mpr ?_
  cases hc : s.coros c <;> simp [pendingOf, hc, hf]

theorem monitorsOf_update {v : Option Coro} (h : s'.coros = Function.update s.coros c v) :
    s'.monitorsOf = Function.update s.monitorsOf c (v.map Coro.monitors) := by
  funext x
  by_cases hx : x = c
  · subst hx
    simp [monitorsOf, h]
  · simp [monitorsOf, h, hx]

theorem monitorsOf_kept {old new : Coro} (hc : s.coros c = some old)
    (h : s'.coros = Function.update s.coros c (some new)) (hsame : new.monitors = old.monitors) :
    s'.monitorsOf = s.monitorsOf := by
  rw [monitorsOf_update h]
  exact Function.update_eq_self_iff.mpr (by simp [monitorsOf, hc, hsame])

theorem monitorsOf_modify (h : s'.coros = Function.update s.coros c ((s.coros c).map f))
    (hf : ∀ coro, (f coro).monitors = coro.monitors) : s'.monitorsOf = s.monitorsOf := by
  rw [monitorsOf_update h]
  refine Function.update_eq_self_iff.mpr ?_
  cases hc : s.coros c <;> simp [monitorsOf, hc, hf]

theorem ownerOf_update {v : Option Signal} (hs : s'.signals = Function.update s.signals h v) :
    s'.ownerOf = Function.update s.ownerOf h (v.map Signal.owner) := by
  funext x
  by_cases hx : x = h
  · subst hx
    simp [ownerOf, hs]
  · simp [ownerOf, hs, hx]

theorem targetOf_update {v : Option Monitor} (hs : s'.monitors = Function.update s.monitors h v) :
    s'.targetOf = Function.update s.targetOf h (v.map Monitor.target) := by
  funext x
  by_cases hx : x = h
  · subst hx
    simp [targetOf, hs]
  · simp [targetOf, hs, hx]

/-- A write to fields of one coroutine that the view does not show. -/
theorem view_modifyCoro (s : Sched) (c : Handle) (f : Coro → Coro)
    (hstate : ∀ coro, (f coro).state = coro.state)
    (hpending : ∀ coro, (f coro).pendingSignals = coro.pendingSignals)
    (hmonitors : ∀ coro, (f coro).monitors = coro.monitors) :
    (s.modifyCoro c f).view = s.view :=
  View.ext (coroState_modify (s := s) rfl hstate) rfl rfl rfl
    (pendingOf_modify (s := s) rfl hpending) rfl (monitorsOf_modify (s := s) rfl hmonitors) rfl

end Projections

theorem view_dropSignal (s : Sched) (ref : Handle) (signal : Signal) :
    (s.dropSignal ref signal).view = s.view.dropSignal ref signal.owner := by
  refine View.ext (coroState_modify (s := s) rfl fun _ => rfl) rfl rfl
    ((ownerOf_update (s := s) rfl).trans rfl) ?_ rfl (monitorsOf_modify (s := s) rfl fun _ => rfl) rfl
  refine (pendingOf_update (s := s) rfl).trans ?_
  simp [View.dropSignal, view, pendingOf, Function.comp_def]

theorem view_dropMonitor (s : Sched) (ref : Handle) (monitor : Monitor) :
    (s.dropMonitor ref monitor).view = s.view.dropMonitor ref monitor.target := by
  refine View.ext (coroState_modify (s := s) rfl fun _ => rfl) rfl rfl rfl
    (pendingOf_modify (s := s) rfl fun _ => rfl) ((targetOf_update (s := s) rfl).trans rfl) ?_ rfl
  refine (monitorsOf_update (s := s) rfl).trans ?_
  simp [View.dropMonitor, view, monitorsOf, Function.comp_def]

/-! ## Each function keeps the invariant -/

/-- Every live coroutine stays as good as it was when one is changed to a good one. -/
theorem coro_ok_update {m : Handle → Option Coro} (h : ∀ c coro, m c = some coro → coro.Ok)
    {c : Handle} {v : Option Coro} (hv : ∀ coro, v = some coro → coro.Ok) (c' : Handle)
    (coro : Coro) (hc : Function.update m c v c' = some coro) : coro.Ok := by
  by_cases hcc : c' = c
  · subst hcc
    rw [Function.update_self] at hc
    exact hv coro hc
  · rw [Function.update_of_ne hcc] at hc
    exact h c' coro hc

theorem coro_ok_modify {m : Handle → Option Coro} (h : ∀ c coro, m c = some coro → coro.Ok)
    {c : Handle} {f : Coro → Coro} (hf : ∀ coro, coro.Ok → (f coro).Ok) (c' : Handle)
    (coro : Coro) (hc : Function.update m c ((m c).map f) c' = some coro) : coro.Ok := by
  refine coro_ok_update h (fun coro' hc' => ?_) c' coro hc
  obtain ⟨old, hold, rfl⟩ := Option.map_eq_some_iff.mp hc'
  exact hf old (h c old hold)

variable {s : Sched}

theorem Inv.log (hi : s.Inv) (e : Event) : (s.log e).Inv := ⟨hi.view, hi.coro⟩

theorem Inv.dropSignal (hi : s.Inv) {ref : Handle} {signal : Signal}
    (hs : s.signals ref = some signal) : (s.dropSignal ref signal).Inv := by
  refine ⟨?_, coro_ok_modify hi.coro fun _ hok => hok⟩
  rw [view_dropSignal]
  refine hi.view.dropSignal ?_
  simp [Sched.view, ownerOf, hs]

theorem Inv.dropMonitor (hi : s.Inv) {ref : Handle} {monitor : Monitor}
    (hs : s.monitors ref = some monitor) : (s.dropMonitor ref monitor).Inv := by
  refine ⟨?_, coro_ok_modify hi.coro fun _ hok => hok⟩
  rw [view_dropMonitor]
  refine hi.view.dropMonitor ?_
  simp [Sched.view, targetOf, hs]

/-- What `notifyOwner` can do: nothing, count down, or count down to zero and schedule. -/
theorem notifyOwner_cases (s : Sched) (signal : Signal) :
    s.notifyOwner signal = (s, false) ∨
    ∃ owner, s.coros signal.owner = some owner ∧ blocks signal owner = true ∧
      ((owner.numBlockingSignals - 1 ≠ 0 ∧
          s.notifyOwner signal = (s.setCoro signal.owner
            { owner with numBlockingSignals := owner.numBlockingSignals - 1 }, false)) ∨
        (owner.numBlockingSignals - 1 = 0 ∧
          s.notifyOwner signal = ((s.setCoro signal.owner
            { owner with
              numBlockingSignals := owner.numBlockingSignals - 1
              state := .ready }).pushReady signal.owner, true))) := by
  unfold notifyOwner
  split
  · next owner ho =>
    split
    · next hb =>
      refine .inr ⟨owner, ho, hb, ?_⟩
      dsimp only
      split
      · next hn => exact .inr ⟨hn, rfl⟩
      · next hn => exact .inl ⟨hn, rfl⟩
    · exact .inl rfl
  · exact .inl rfl

theorem blocks_waiting {signal : Signal} {owner : Coro} (h : blocks signal owner = true) :
    owner.state = .waiting := by
  simp only [blocks, decide_eq_true_eq] at h
  exact h.1

theorem Inv.notifyOwner (hi : s.Inv) (signal : Signal) : (s.notifyOwner signal).1.Inv := by
  rcases notifyOwner_cases s signal with he | ⟨owner, ho, hb, ⟨hn, he⟩ | ⟨hn, he⟩⟩
  · rw [he]
    exact hi
  all_goals
    rw [he]
    have hw := blocks_waiting hb
    obtain ⟨hdead, hwait, hrun⟩ := hi.coro _ owner ho
  · -- Other signals still block the owner.
    have hmod : s.setCoro signal.owner
        { owner with numBlockingSignals := owner.numBlockingSignals - 1 } =
        s.modifyCoro signal.owner fun coro =>
          { coro with numBlockingSignals := coro.numBlockingSignals - 1 } := by
      simp [setCoro, modifyCoro, ho]
    refine ⟨?_, coro_ok_update hi.coro fun coro hc => ?_⟩
    · show (s.setCoro _ _).view.Ok
      rw [hmod, view_modifyCoro]
      · exact hi.view
      all_goals exact fun _ => rfl
    · cases hc
      have := hwait hw
      exact ⟨hdead, fun _ => by show 0 < owner.numBlockingSignals - 1; omega,
        fun hr => by rw [hw] at hr; cases hr⟩
  · refine ⟨?_, coro_ok_update hi.coro fun coro hc => ?_⟩
    · -- It was the last one: the owner goes to the end of the queue.
      have hwake : (((s.setCoro signal.owner
          { owner with
            numBlockingSignals := owner.numBlockingSignals - 1
            state := .ready }).pushReady signal.owner)).view = s.view.wake signal.owner := by
        refine View.ext ((coroState_update (s := s) rfl).trans rfl) ?_ rfl rfl ?_ rfl ?_ rfl
        · simp [View.wake, Sched.view, readyQueue, pushReady, setCoro]
        · exact pendingOf_kept ho rfl rfl
        · exact monitorsOf_kept ho rfl rfl
      show View.Ok _
      rw [hwake]
      refine hi.view.wake ?_
      simp [Sched.view, coroState, ho, hw]
    · cases hc
      exact ⟨by simp, by simp, by simp⟩

theorem notifyOwner_signals (s : Sched) (signal : Signal) :
    (s.notifyOwner signal).1.signals = s.signals := by
  rcases notifyOwner_cases s signal with he | ⟨owner, _, _, ⟨_, he⟩ | ⟨_, he⟩⟩ <;> rw [he] <;> rfl

theorem raiseSignal_none {ref : Handle} (h : s.signals ref = none) :
    s.raiseSignal ref = (s, false) := by
  simp only [raiseSignal, h]

theorem raiseSignal_some {ref : Handle} {signal : Signal} (h : s.signals ref = some signal) :
    s.raiseSignal ref =
      (((s.notifyOwner signal).1.dropSignal ref signal).log (.raisedSignal ref),
        (s.notifyOwner signal).2) := by
  simp only [raiseSignal, h]

theorem Inv.raiseSignal (hi : s.Inv) (ref : Handle) : (s.raiseSignal ref).1.Inv := by
  cases hs : s.signals ref with
  | none =>
    rw [raiseSignal_none hs]
    exact hi
  | some signal =>
    rw [raiseSignal_some hs]
    refine ((hi.notifyOwner signal).dropSignal ?_).log _
    rw [notifyOwner_signals]
    exact hs

/-- `raiseSignal` touches the state of the owner, its count and its list, and nothing else. -/
theorem notifyOwner_frame (s : Sched) (signal : Signal) :
    (s.notifyOwner signal).1.monitors = s.monitors ∧
    (s.notifyOwner signal).1.phase = s.phase ∧
    (s.notifyOwner signal).1.issued = s.issued ∧
    (s.notifyOwner signal).1.monitorsOf = s.monitorsOf ∧
    (s.notifyOwner signal).1.pendingOf = s.pendingOf ∧
    (s.notifyOwner signal).1.currentReadyCoros = s.currentReadyCoros ∧
    (s.notifyOwner signal).1.coroIndex = s.coroIndex := by
  rcases notifyOwner_cases s signal with he | ⟨owner, ho, _, ⟨_, he⟩ | ⟨_, he⟩⟩ <;> rw [he]
  · exact ⟨rfl, rfl, rfl, rfl, rfl, rfl, rfl⟩
  all_goals
    refine ⟨rfl, rfl, rfl, ?_, ?_, rfl, rfl⟩
    · exact monitorsOf_kept ho rfl rfl
    · exact pendingOf_kept ho rfl rfl

theorem raiseSignal_frame (s : Sched) (ref : Handle) :
    (s.raiseSignal ref).1.monitors = s.monitors ∧
    (s.raiseSignal ref).1.phase = s.phase ∧
    (s.raiseSignal ref).1.issued = s.issued ∧
    (s.raiseSignal ref).1.monitorsOf = s.monitorsOf ∧
    (s.raiseSignal ref).1.currentReadyCoros = s.currentReadyCoros ∧
    (s.raiseSignal ref).1.coroIndex = s.coroIndex := by
  cases hs : s.signals ref with
  | none =>
    rw [raiseSignal_none hs]
    exact ⟨rfl, rfl, rfl, rfl, rfl, rfl⟩
  | some signal =>
    rw [raiseSignal_some hs]
    obtain ⟨hmon, hphase, hissued, hlists, _, hcur, hidx⟩ := notifyOwner_frame s signal
    refine ⟨hmon, hphase, hissued, ?_, hcur, hidx⟩
    have hview := congrArg View.monitors (view_dropSignal (s.notifyOwner signal).1 ref signal)
    exact Eq.trans hview hlists

/-- A raise takes the signal out of the list of its owner. -/
theorem raiseSignal_pendingOf {ref : Handle} {signal : Signal} (hs : s.signals ref = some signal) :
    (s.raiseSignal ref).1.pendingOf =
      Function.update s.pendingOf signal.owner
        ((s.pendingOf signal.owner).map fun l => l.erase ref) := by
  rw [raiseSignal_some hs]
  have hview := view_dropSignal (s.notifyOwner signal).1 ref signal
  have hpending : ((s.notifyOwner signal).1.dropSignal ref signal).pendingOf =
      ((s.notifyOwner signal).1.view.dropSignal ref signal.owner).pending :=
    congrArg View.pending hview
  refine hpending.trans ?_
  simp only [View.dropSignal, view, (notifyOwner_frame s signal).2.2.2.2.1]

/-! ### Waiting -/

/-- The entry is a live signal of `c`. -/
def ownedBy (s : Sched) (c h : Handle) : Bool := s.ownerOf h = some c

/-- The entry is a non-zero handle that does not resolve. -/
def isRaised (s : Sched) (h : Handle) : Bool := s.checkSignal h && h.isValid

/-- The signals of `c` in the list get the generation number of the wait. -/
def stamp (s : Sched) (c : Handle) (waitCounter : Int) (l : List Handle) : Sched :=
  { s with
    signals := fun h => (s.signals h).map fun signal =>
      if signal.owner = c ∧ h ∈ l then { signal with waitCounter := waitCounter } else signal }

/-- A signal that is not one of `c` is not stamped. -/
theorem stamp_cons_of_not_owned {c h : Handle} (hnot : s.ownedBy c h = false) (waitCounter : Int)
    (l : List Handle) : s.stamp c waitCounter (h :: l) = s.stamp c waitCounter l := by
  simp only [stamp]
  congr 1
  funext x
  rcases eq_or_ne x h with rfl | hx
  · cases hs : s.signals x with
    | none => rfl
    | some signal =>
      have howner : signal.owner ≠ c := by
        rintro rfl
        simp [ownedBy, ownerOf, hs] at hnot
      simp [howner]
  · simp [hx]

/-- The loop of `bio_wait_for_signals` stamps the live signals of `c`, counts the entries that are
such signals, repetitions included, and looks for raised ones. -/
theorem waitLoop_eq (c : Handle) (waitCounter : Int) (l : List Handle) :
    ∀ (s : Sched) (n : Int) (raised : Bool),
      l.foldl (waitRound c waitCounter) (s, n, raised) =
        (s.stamp c waitCounter l, n + l.countP (s.ownedBy c), raised || l.any s.isRaised) := by
  induction l with
  | nil =>
    intro s n raised
    have hs : s.stamp c waitCounter [] = s := by simp [stamp]
    simp [hs]
  | cons h l ih =>
    intro s n raised
    rw [List.foldl_cons]
    cases hh : s.signals h with
    | none =>
      -- A signal that does not resolve is not stamped. If the handle is valid, it was raised.
      have hround : waitRound c waitCounter (s, n, raised) h = (s, n, raised || h.isValid) := by
        simp only [waitRound, hh]
      have hown : s.ownedBy c h = false := by simp [ownedBy, ownerOf, hh]
      rw [hround, ih, stamp_cons_of_not_owned hown]
      simp [hown, isRaised, checkSignal, hh, Bool.or_assoc]
    | some signal =>
      by_cases ho : signal.owner = c
      · -- A live signal of `c`: stamped and counted. The rest of the loop sees the same owners.
        let s' := { s with
          signals := Function.update s.signals h
            (some { signal with waitCounter := waitCounter }) }
        have hround : waitRound c waitCounter (s, n, raised) h = (s', n + 1, raised) := by
          simp only [waitRound, hh, if_pos ho]
          rfl
        have howner : s'.ownerOf = s.ownerOf := by
          have hsignals : s'.signals = Function.update s.signals h
              (some { signal with waitCounter := waitCounter }) := rfl
          rw [ownerOf_update hsignals]
          exact Function.update_eq_self_iff.mpr (by simp [ownerOf, hh])
        have hraised : s'.isRaised = s.isRaised := by
          funext x
          by_cases hx : x = h
          · simp [s', isRaised, checkSignal, hx, hh]
          · simp [s', isRaised, checkSignal, hx]
        have howned : s'.ownedBy c = s.ownedBy c := by
          funext x
          simp only [ownedBy, howner]
        have hstamp : s'.stamp c waitCounter l = s.stamp c waitCounter (h :: l) := by
          simp only [s', stamp]
          congr 1
          funext x
          by_cases hx : x = h
          · subst hx
            simp [hh, ho]
          · simp [hx]
        rw [hround, ih, hstamp, howned, hraised]
        have hown : s.ownedBy c h = true := by simp [ownedBy, ownerOf, hh, ho]
        have hnot : s.isRaised h = false := by simp [isRaised, checkSignal, hh]
        simp [hown, hnot, Int.add_assoc, Int.add_comm]
      · -- A live signal of another coroutine is passed over.
        have hround : waitRound c waitCounter (s, n, raised) h = (s, n, raised) := by
          simp only [waitRound, hh, if_neg ho]
        have hown : s.ownedBy c h = false := by simp [ownedBy, ownerOf, hh, ho]
        have hnot : s.isRaised h = false := by simp [isRaised, checkSignal, hh]
        rw [hround, ih, stamp_cons_of_not_owned hown]
        simp [hown, hnot]

/-- The state in which `bio_wait_for_signals` decides whether to suspend. -/
def afterWaitLoop (s : Sched) (c : Handle) (coro : Coro) (signals : List Handle) : Sched :=
  (s.setCoro c { coro with waitCounter := coro.waitCounter + 1 }).stamp c (coro.waitCounter + 1)
    signals

/-- The condition under which `bio_wait_for_signals` suspends its caller. -/
def suspends (s : Sched) (c : Handle) (signals : List Handle) (waitAll : Bool) : Bool :=
  0 < signals.countP (s.ownedBy c) ∧ (waitAll = true ∨ signals.any s.isRaised = false)

theorem waitForSignals_eq {c : Handle} {coro : Coro} (hc : s.coros c = some coro)
    (signals : List Handle) (waitAll : Bool) :
    s.waitForSignals c signals waitAll =
      if s.suspends c signals waitAll then
        ((s.afterWaitLoop c coro signals).modifyCoro c fun coro =>
          { coro with
            numBlockingSignals :=
              if waitAll then (signals.countP (s.ownedBy c) : Int) else 1 }).suspend c
      else s.afterWaitLoop c coro signals := by
  simp only [waitForSignals, hc, waitLoop_eq]
  have howned : (s.setCoro c { coro with waitCounter := coro.waitCounter + 1 }).ownedBy c =
      s.ownedBy c := rfl
  have hraised : (s.setCoro c { coro with waitCounter := coro.waitCounter + 1 }).isRaised =
      s.isRaised := rfl
  rw [howned, hraised]
  have hcond : ((signals.countP (s.ownedBy c) : Int) > 0 ∧
      (waitAll = true ∨ ¬(false || signals.any s.isRaised) = true)) ↔
      s.suspends c signals waitAll = true := by
    simp [suspends]
  simp only [Int.zero_add, hcond]
  rfl

theorem view_stamp (s : Sched) (c : Handle) (waitCounter : Int) (l : List Handle) :
    (s.stamp c waitCounter l).view = s.view := by
  refine View.ext rfl rfl rfl ?_ rfl rfl rfl rfl
  funext x
  show ((s.signals x).map _).map Signal.owner = (s.signals x).map Signal.owner
  rw [Option.map_map]
  congr 1
  funext signal
  show (if _ then _ else _ : Signal).owner = signal.owner
  split <;> rfl

/-- What a suspension leaves as it is. -/
theorem suspend_frame (s : Sched) (c : Handle) :
    (s.suspend c).phase = .pass ∧ (s.suspend c).monitors = s.monitors ∧
      (s.suspend c).ownerOf = s.ownerOf ∧ (s.suspend c).issued = s.issued ∧
      (s.suspend c).isTerminating = s.isTerminating := by
  unfold suspend
  split
  · dsimp only
    split <;> exact ⟨rfl, rfl, rfl, rfl, rfl⟩
  · exact ⟨rfl, rfl, rfl, rfl, rfl⟩

/-- The wait loop only writes to the signals of `c`, and not to their owners. -/
theorem waitForSignals_frame (s : Sched) (c : Handle) (signals : List Handle) (waitAll : Bool) :
    (s.waitForSignals c signals waitAll).monitors = s.monitors ∧
      (s.waitForSignals c signals waitAll).ownerOf = s.ownerOf ∧
      (s.waitForSignals c signals waitAll).isTerminating = s.isTerminating := by
  cases hc : s.coros c with
  | none =>
    unfold waitForSignals
    rw [hc]
    exact ⟨rfl, rfl, rfl⟩
  | some coro =>
    have hloop : (s.afterWaitLoop c coro signals).ownerOf = s.ownerOf :=
      congrArg View.own (view_stamp (s.setCoro c _) c (coro.waitCounter + 1) signals)
    rw [waitForSignals_eq hc]
    split
    · obtain ⟨_, hmonitors, hown, _, hterminating⟩ := suspend_frame
        ((s.afterWaitLoop c coro signals).modifyCoro c _) c
      exact ⟨hmonitors, hown.trans hloop, hterminating⟩
    · exact ⟨rfl, hloop, rfl⟩

theorem Inv.afterWaitLoop (hi : s.Inv) {c : Handle} {coro : Coro} (hc : s.coros c = some coro)
    (signals : List Handle) : (s.afterWaitLoop c coro signals).Inv := by
  have hmod : s.setCoro c { coro with waitCounter := coro.waitCounter + 1 } =
      s.modifyCoro c fun coro => { coro with waitCounter := coro.waitCounter + 1 } := by
    simp [setCoro, modifyCoro, hc]
  refine ⟨?_, coro_ok_update hi.coro fun coro' hc' => ?_⟩
  · show (Sched.stamp _ _ _ _).view.Ok
    rw [view_stamp, hmod, view_modifyCoro]
    · exact hi.view
    all_goals exact fun _ => rfl
  · cases hc'
    exact hi.coro c coro hc

theorem live_of_running {c : Handle} (hrun : s.coroState c = .running) : ∃ coro, s.coros c = some coro := by
  cases hc : s.coros c with
  | none => simp [coroState, hc] at hrun
  | some coro => exact ⟨coro, rfl⟩

/-- The loop decides between the two states of a suspended coroutine by the count of its blocking
signals, which is what the invariant asks for. -/
theorem suspend_inv {c : Handle} (hv : s.view.Ok) (ha : s.phase.active = some c)
    (hok : ∀ c' coro, c' ≠ c → s.coros c' = some coro → coro.Ok) : (s.suspend c).Inv := by
  obtain ⟨coro, hc⟩ := live_of_running ((hv.active c).mpr ha)
  have hok' : ∀ coro' : Coro, coro'.Ok → ∀ c'' coro'',
      Function.update s.coros c (some coro') c'' = some coro'' → coro''.Ok := by
    intro coro' hgood c'' coro'' hcc
    rcases eq_or_ne c'' c with rfl | hne
    · rw [Function.update_self] at hcc
      cases hcc
      exact hgood
    · rw [Function.update_of_ne hne] at hcc
      exact hok c'' coro'' hne hcc
  simp only [Sched.suspend, hc]
  split
  · next hpos =>
    refine ⟨?_, hok' _ ⟨by simp, fun _ => hpos, by simp⟩⟩
    have hview : (({ s with phase := .pass } : Sched).setCoro c { coro with state := .waiting }).view
        = { s.view with
            state := Function.update s.view.state c .waiting, phase := .pass } :=
      View.ext ((coroState_update (s := s) rfl).trans rfl) rfl rfl rfl (pendingOf_kept hc rfl rfl) rfl
        (monitorsOf_kept hc rfl rfl) rfl
    rw [hview]
    exact hv.suspendWaiting ha
  · next hpos =>
    refine ⟨?_, hok' _ ⟨by simp, by simp, by simp⟩⟩
    have hview : ((({ s with phase := .pass } : Sched).setCoro c
        { coro with state := .ready }).pushReady c).view
        = { s.view with
            state := Function.update s.view.state c .ready
            queue := s.view.queue ++ [c]
            phase := .pass } :=
      View.ext ((coroState_update (s := s) rfl).trans rfl) (List.append_assoc _ _ _).symm rfl rfl
        (pendingOf_kept hc rfl rfl) rfl (monitorsOf_kept hc rfl rfl) rfl
    rw [hview]
    exact hv.suspendReady ha

theorem Inv.waitForSignals (hi : s.Inv) {c : Handle} (ha : s.phase.active = some c)
    (signals : List Handle) (waitAll : Bool) : (s.waitForSignals c signals waitAll).Inv := by
  cases hc : s.coros c with
  | none =>
    simp only [Sched.waitForSignals, hc]
    exact hi
  | some coro =>
    have hi' := hi.afterWaitLoop hc signals
    rw [waitForSignals_eq hc]
    split
    · refine suspend_inv ?_ ha fun c' coro' hne hc' => ?_
      · rw [view_modifyCoro]
        · exact hi'.view
        all_goals exact fun _ => rfl
      · refine hi'.coro c' coro' ?_
        rw [← hc']
        exact (Function.update_of_ne hne ..).symm
    · exact hi'

/-! ### The other functions -/

theorem Inv.spawnEx (hi : s.Inv) (daemon : Bool) {h : Handle} (fresh : s.Fresh h) :
    (s.spawnEx daemon h).Inv := by
  refine ⟨?_, coro_ok_update hi.coro fun coro hc => ?_⟩
  · have hview : (s.spawnEx daemon h).view =
        { s.view with
          state := Function.update s.view.state h .ready
          queue := s.view.queue ++ [h]
          pending := Function.update s.view.pending h (some [])
          monitors := Function.update s.view.monitors h (some [])
          issued := h :: s.view.issued } :=
      View.ext ((coroState_update (s := s) rfl).trans rfl) (List.append_assoc _ _ _).symm rfl rfl
        ((pendingOf_update (s := s) rfl).trans rfl) rfl
        ((monitorsOf_update (s := s) rfl).trans rfl) rfl
    rw [hview]
    exact hi.view.spawn fresh.1 fresh.2
  · cases hc
    exact ⟨by simp, by simp, by simp⟩

theorem Inv.makeSignal (hi : s.Inv) (c : Handle) {h : Handle} (fresh : s.Fresh h) :
    (s.makeSignal c h).Inv := by
  unfold Sched.makeSignal
  split
  · next coro hc =>
    refine ⟨?_, coro_ok_update hi.coro fun coro' hc' => ?_⟩
    · have hpending : s.view.pending c = some coro.pendingSignals := by
        simp [Sched.view, pendingOf, hc]
      refine Eq.subst (motive := View.Ok) ?_ (hi.view.makeSignal hpending fresh.1 fresh.2)
      symm
      refine View.ext ?_ rfl rfl ((ownerOf_update (s := s) rfl).trans rfl)
        ((pendingOf_update (s := s) rfl).trans rfl) rfl ?_ rfl
      · exact coroState_kept hc rfl rfl
      · exact monitorsOf_kept hc rfl rfl
    · cases hc'
      exact hi.coro c coro hc
  · exact hi

theorem Inv.monitor (hi : s.Inv) (coro signal : Handle) {h : Handle} (fresh : s.Fresh h) :
    (s.monitor coro signal h).1.Inv := by
  unfold Sched.monitor
  split
  · next hcan =>
    cases hc : s.coros coro with
    | none => simp [canMonitor, hc] at hcan
    | some impl =>
      refine ⟨?_, coro_ok_update hi.coro fun coro' hc' => ?_⟩
      · have hmonitors : s.view.monitors coro = some impl.monitors := by
          simp [Sched.view, monitorsOf, hc]
        refine Eq.subst (motive := View.Ok) ?_ (hi.view.register hmonitors fresh.1 fresh.2)
        symm
        refine View.ext ?_ rfl rfl rfl ?_ ((targetOf_update (s := s) rfl).trans rfl)
          ((monitorsOf_update (s := s) rfl).trans rfl) rfl
        · exact coroState_kept hc rfl rfl
        · exact pendingOf_kept hc rfl rfl
      · cases hc'
        exact hi.coro coro impl hc
  · exact hi.raiseSignal signal

theorem Inv.unmonitor (hi : s.Inv) (ref : Handle) : (s.unmonitor ref).Inv := by
  unfold Sched.unmonitor
  split
  · next monitor hm => exact (hi.dropMonitor hm).log _
  · exact hi

theorem Inv.daemonize (hi : s.Inv) (c : Handle) : (s.daemonize c).Inv := by
  unfold Sched.daemonize
  split
  · next coro hc =>
    split
    · exact hi
    · refine ⟨?_, coro_ok_update hi.coro fun coro' hc' => ?_⟩
      · refine Eq.subst (motive := View.Ok) ?_ hi.view
        symm
        refine View.ext ?_ rfl rfl rfl ?_ rfl ?_ rfl
        · exact coroState_kept hc rfl rfl
        · exact pendingOf_kept hc rfl rfl
        · exact monitorsOf_kept hc rfl rfl
      · cases hc'
        exact hi.coro c coro hc
  · exact hi

/-! ### The loop -/

/-- The coroutine that the loop picks is the head of the queue. -/
theorem readyQueue_resume {c : Handle} (hc : s.currentReadyCoros[s.coroIndex]? = some c) :
    s.readyQueue = c :: (s.currentReadyCoros.drop (s.coroIndex + 1) ++ s.nextReadyCoros) := by
  obtain ⟨hlt, rfl⟩ := List.getElem?_eq_some_iff.mp hc
  rw [readyQueue, List.drop_eq_getElem_cons hlt, List.cons_append]

theorem Inv.resume (hi : s.Inv) {c : Handle} (hp : s.phase = .pass)
    (hc : s.currentReadyCoros[s.coroIndex]? = some c) : (s.resume c).Inv := by
  have hq := readyQueue_resume hc
  refine ⟨?_, coro_ok_modify hi.coro fun coro _ => ⟨by simp, by simp, by simp⟩⟩
  have hv := hi.view.resume hq (by simp [Sched.view, hp])
  refine Eq.subst (motive := View.Ok) ?_ hv
  symm
  refine View.ext ?_ rfl rfl rfl ?_ rfl ?_ rfl
  · refine (coroState_update (s := s) rfl).trans ?_
    have hready : s.coroState c = .ready := by
      have hcount := hi.view.queue c
      by_contra hne
      simp [Sched.view, hq, hne] at hcount
    cases hl : s.coros c with
    | none => simp [coroState, hl] at hready
    | some coro => rfl
  · exact pendingOf_modify (s := s) rfl fun _ => rfl
  · exact monitorsOf_modify (s := s) rfl fun _ => rfl

theorem Inv.destroySignal (hi : s.Inv) (ref : Handle) : (s.destroySignal ref).Inv := by
  unfold Sched.destroySignal
  split
  · next signal hs => exact hi.dropSignal hs
  · exact hi

theorem Inv.triggerMonitor (hi : s.Inv) (ref : Handle) : (s.triggerMonitor ref).Inv := by
  unfold Sched.triggerMonitor
  split
  · next monitor hm =>
    refine ((hi.raiseSignal monitor.signal).dropMonitor ?_).log _
    rw [(raiseSignal_frame s monitor.signal).1]
    exact hm
  · exact hi

theorem destroySignal_pendingOf {c h : Handle} {l : List Handle} (ho : s.ownerOf h = some c)
    (hl : s.pendingOf c = some (h :: l)) : (s.destroySignal h).pendingOf c = some l := by
  obtain ⟨signal, hs, rfl⟩ := Option.map_eq_some_iff.mp ho
  have hpending := congrFun (congrArg View.pending (view_dropSignal s h signal)) signal.owner
  simp only [destroySignal, hs]
  refine hpending.trans ?_
  simp [View.dropSignal, view, hl]

theorem destroySignal_frame (s : Sched) (h : Handle) :
    (s.destroySignal h).monitorsOf = s.monitorsOf ∧ (s.destroySignal h).phase = s.phase := by
  unfold destroySignal
  split
  · exact ⟨monitorsOf_modify (s := s) rfl fun _ => rfl, rfl⟩
  · exact ⟨rfl, rfl⟩

/-- "Destroy all signals" empties the list of the dead coroutine and leaves the monitors alone. -/
theorem destroySignals_spec (l : List Handle) : ∀ {s : Sched} {c : Handle}, s.Inv →
    s.pendingOf c = some l →
    (l.foldl destroySignal s).Inv ∧ (l.foldl destroySignal s).pendingOf c = some [] ∧
      (l.foldl destroySignal s).monitorsOf = s.monitorsOf ∧
      (l.foldl destroySignal s).phase = s.phase := by
  induction l with
  | nil => exact fun hi hl => ⟨hi, hl, rfl, rfl⟩
  | cons h l ih =>
    intro s c hi hl
    have hown : s.ownerOf h = some c := hi.view.signals.own c _ hl h List.mem_cons_self
    obtain ⟨hi', hp', hm', hph'⟩ := ih (hi.destroySignal h) (destroySignal_pendingOf hown hl)
    obtain ⟨hm, hph⟩ := destroySignal_frame s h
    exact ⟨hi', hp', hm'.trans hm, hph'.trans hph⟩

/-- "Trigger all monitors" empties the other list of the dead coroutine. -/
theorem triggerMonitors_spec (l : List Handle) : ∀ {s : Sched} {c : Handle}, s.Inv →
    s.monitorsOf c = some l → s.pendingOf c = some [] →
    (l.foldl triggerMonitor s).Inv ∧ (l.foldl triggerMonitor s).monitorsOf c = some [] ∧
      (l.foldl triggerMonitor s).pendingOf c = some [] ∧
      (l.foldl triggerMonitor s).phase = s.phase := by
  induction l with
  | nil => exact fun hi hl hp => ⟨hi, hl, hp, rfl⟩
  | cons m l ih =>
    intro s c hi hl hp
    have htarget : s.targetOf m = some c := hi.view.filed.own c _ hl m List.mem_cons_self
    obtain ⟨monitor, hm, ht⟩ := Option.map_eq_some_iff.mp htarget
    have htrigger : s.triggerMonitor m =
        ((s.raiseSignal monitor.signal).1.dropMonitor m monitor).log (.firedMonitor m) := by
      simp only [triggerMonitor, hm]
    obtain ⟨hmon, hphase, _, hlists, _⟩ := raiseSignal_frame s monitor.signal
    have hview := view_dropMonitor (s.raiseSignal monitor.signal).1 m monitor
    have hmonitors : (s.triggerMonitor m).monitorsOf c = some l := by
      rw [htrigger]
      refine (congrFun (congrArg View.monitors hview) c).trans ?_
      simp [View.dropMonitor, view, ht, hlists, hl]
    have hpending : (s.triggerMonitor m).pendingOf c = some [] := by
      rw [htrigger]
      refine (congrFun (congrArg View.pending hview) c).trans ?_
      show (s.raiseSignal monitor.signal).1.pendingOf c = some []
      cases hs : s.signals monitor.signal with
      | none =>
        rw [raiseSignal_none hs]
        exact hp
      | some signal =>
        rw [raiseSignal_pendingOf hs, Function.update_apply]
        split
        · next he => rw [← he, hp]; rfl
        · exact hp
    have hphase' : (s.triggerMonitor m).phase = s.phase := by
      rw [htrigger]
      exact hphase
    obtain ⟨hi', hm', hp', hph'⟩ := ih (hi.triggerMonitor m) hmonitors hpending
    rw [List.foldl_cons]
    exact ⟨hi', hm', hp', hph'.trans hphase'⟩

theorem Inv.removeCoro (hi : s.Inv) {c : Handle} (ha : s.phase.active = some c)
    (hp : s.pendingOf c = some []) (hm : s.monitorsOf c = some []) : (s.removeCoro c).Inv := by
  obtain ⟨coro, hc, _⟩ := Option.map_eq_some_iff.mp hp
  unfold Sched.removeCoro
  simp only [hc]
  refine ⟨?_, coro_ok_update hi.coro nofun⟩
  refine Eq.subst (motive := View.Ok) ?_ (hi.view.remove ha hp hm)
  symm
  exact View.ext ((coroState_update (s := s) rfl).trans rfl) rfl rfl rfl
    ((pendingOf_update (s := s) rfl).trans rfl) rfl ((monitorsOf_update (s := s) rfl).trans rfl) rfl

theorem Inv.destroyCoro (hi : s.Inv) {c : Handle} (ha : s.phase.active = some c) :
    (s.destroyCoro c).Inv := by
  obtain ⟨coro, hc⟩ := live_of_running ((hi.view.active c).mpr ha)
  have hp : s.pendingOf c = some coro.pendingSignals := by simp [pendingOf, hc]
  have hm : s.monitorsOf c = some coro.monitors := by simp [monitorsOf, hc]
  obtain ⟨hi₁, hp₁, hm₁, hph₁⟩ := destroySignals_spec coro.pendingSignals hi hp
  rw [← hm₁] at hm
  obtain ⟨hi₂, hm₂, hp₂, hph₂⟩ := triggerMonitors_spec coro.monitors hi₁ hm hp₁
  simp only [Sched.destroyCoro, hc]
  exact hi₂.removeCoro (by rw [hph₂, hph₁, ha]) hp₂ hm₂

/-! ## Every reachable state -/

theorem Inv.init : Sched.init.Inv := by
  refine ⟨?_, nofun⟩
  refine ⟨fun c => ?_, fun c => ?_, ?_, ?_, fun c => ?_, fun c => Iff.rfl, ?_, ?_, ?_, ?_⟩
  all_goals simp [Sched.view, Sched.init, readyQueue, coroState, pendingOf]
  · exact Filed.empty
  · exact Filed.empty
  all_goals simp [ownerOf, targetOf]

/-- Between two passes the current list is empty. -/
def Idle (s : Sched) : Prop := s.phase = .outside ∨ s.phase = .polling → s.currentReadyCoros = []

theorem suspend_phase (s : Sched) (c : Handle) : (s.suspend c).phase = .pass := (suspend_frame s c).1

theorem waitForSignals_phase (s : Sched) (c : Handle) (signals : List Handle) (waitAll : Bool) :
    (s.waitForSignals c signals waitAll).phase = .pass ∨
      (s.waitForSignals c signals waitAll).phase = s.phase := by
  cases hc : s.coros c with
  | none =>
    simp [waitForSignals, hc]
  | some coro =>
    rw [waitForSignals_eq hc]
    split
    · exact .inl (suspend_phase _ _)
    · exact .inr rfl

theorem removeCoro_phase (s : Sched) (c : Handle) : (s.removeCoro c).phase = .pass := by
  unfold removeCoro
  split <;> rfl

theorem destroyCoro_phase (s : Sched) (c : Handle) : (s.destroyCoro c).phase = .pass := by
  unfold destroyCoro
  split
  · exact removeCoro_phase _ _
  · exact removeCoro_phase _ _

theorem Effect.idle {s s' : Sched} {a : Action} (he : Effect s a s') (hidle : s.Idle) : s'.Idle := by
  -- An action either keeps the phase and the list, or leaves the pass or enters it.
  have hnot : ∀ t : Sched, t.phase ≠ .outside → t.phase ≠ .polling → t.Idle :=
    fun t h₁ h₂ h => absurd h (not_or.mpr ⟨h₁, h₂⟩)
  have hraise : ∀ ref, (s.raiseSignal ref).1.Idle := by
    intro ref hphase
    obtain ⟨_, hp, _, _, hcur, _⟩ := raiseSignal_frame s ref
    rw [hp] at hphase
    rw [hcur]
    exact hidle hphase
  cases he with
  | spawn _ _ => exact hidle
  | makeSignal hp _ =>
    unfold Sched.makeSignal
    split <;> exact hidle
  | raise _ => exact hraise _
  | monitor _ _ =>
    unfold Sched.monitor
    split
    · exact hidle
    · exact hraise _
  | unmonitor _ =>
    unfold Sched.unmonitor
    split <;> exact hidle
  | yield hp => exact hnot _ (by rw [suspend_phase]; simp) (by rw [suspend_phase]; simp)
  | @wait c signals waitAll hp =>
    rcases waitForSignals_phase s c signals waitAll with h | h
    · exact hnot _ (by rw [h]; simp) (by rw [h]; simp)
    · exact hnot _ (by rw [h, hp]; simp) (by rw [h, hp]; simp)
  | daemonize hp =>
    unfold Sched.daemonize
    split
    · split <;> exact hidle
    · exact hidle
  | finish hp => exact hnot _ (by simp) (by simp)
  | issue _ _ => exact hidle
  | terminate _ => exact hidle
  | enterLoop _ => exact hnot _ (by simp) (by simp)
  | resume _ _ => exact hnot _ (by simp [Sched.resume]) (by simp [Sched.resume])
  | destroy _ => exact hnot _ (by simp [destroyCoro_phase]) (by simp [destroyCoro_phase])
  | endPass _ _ => exact fun _ => rfl
  | swap _ => exact hnot _ (by simp [Sched.swap]) (by simp [Sched.swap])

theorem Inv.effect (hi : s.Inv) (hidle : s.Idle) {a : Action} {s' : Sched} (he : Effect s a s') :
    s'.Inv := by
  cases he with
  | spawn _ fresh => exact hi.spawnEx _ fresh
  | makeSignal _ fresh => exact hi.makeSignal _ fresh
  | raise _ => exact hi.raiseSignal _
  | monitor _ fresh => exact hi.monitor _ _ fresh
  | unmonitor _ => exact hi.unmonitor _
  | yield hp => exact suspend_inv hi.view (by rw [hp]; rfl) fun c' coro _ => hi.coro c' coro
  | wait hp => exact hi.waitForSignals (by rw [hp]; rfl) _ _
  | daemonize _ => exact hi.daemonize _
  | finish hp => exact ⟨hi.view.setPhase (by simp [Sched.view, hp]), hi.coro⟩
  | issue _ fresh => exact ⟨hi.view.issue fresh.1, hi.coro⟩
  | terminate _ => exact ⟨hi.view, hi.coro⟩
  | enterLoop hp =>
    refine ⟨?_, hi.coro⟩
    refine Eq.subst (motive := View.Ok) ?_
      (hi.view.setPhase (show Phase.pass.active = _ by simp [Sched.view, hp]))
    refine View.ext rfl ?_ rfl rfl rfl rfl rfl rfl
    show s.readyQueue = _
    simp [Sched.view, readyQueue, hidle (.inl hp)]
  | resume hp hc => exact hi.resume hp hc
  | destroy hp => exact hi.destroyCoro (by rw [hp]; rfl)
  | endPass hp hlen =>
    refine ⟨?_, hi.coro⟩
    have hactive : (if s.shouldTerminate then Phase.outside else .polling).active =
        s.phase.active := by
      rw [hp]
      split <;> rfl
    refine Eq.subst (motive := View.Ok) ?_ (hi.view.setPhase hactive)
    refine View.ext rfl ?_ rfl rfl rfl rfl rfl rfl
    show s.readyQueue = _
    simp [Sched.view, readyQueue, Sched.endPass, List.drop_eq_nil_of_le hlen]
  | swap hp =>
    refine ⟨?_, hi.coro⟩
    refine Eq.subst (motive := View.Ok) ?_
      (hi.view.setPhase (show Phase.pass.active = _ by simp [Sched.view, hp]))
    refine View.ext rfl ?_ rfl rfl rfl rfl rfl rfl
    show s.readyQueue = _
    simp [Sched.view, readyQueue, Sched.swap, hidle (.inr hp)]

/-- The invariant holds in every reachable state. -/
theorem inv_of_reachable (h : machine.Reachable s) : s.Inv ∧ s.Idle := by
  refine Machine.invariant (P := fun s => s.Inv ∧ s.Idle) ?_ ?_ h
  · rintro s rfl
    exact ⟨Inv.init, fun _ => rfl⟩
  · intro s a _ ih he
    have heff := Effect.of_enabled he
    exact ⟨ih.1.effect ih.2 heff, heff.idle ih.2⟩

end Sched

end Bio
