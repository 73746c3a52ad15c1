import Mathlib.Data.Finset.Card
import Bio.SchedulerHistory

/-!
# Coroutine accounting and rounds

What `bio_loop` counts and in which order it resumes coroutines.

* `Steady`: most functions of the scheduler only append to the ready list of the next pass, and leave
  the counters and the daemon flags alone.
* `Counted`: `num_coros` and `num_daemons` count the live coroutines and the live daemons.
* `InRounds`: the pass resumes what became ready between the last two swaps, in that order.

Results: `loop_accounting`, `rounds_fifo`.
-/

namespace Bio

/-- The history since the last swap of the ready lists, and the part between that swap and the one
before it. -/
structure Rounds where
  last : List Event
  current : List Event

def Rounds.add (r : Rounds) (e : Event) : Rounds :=
  if e = .swapped then ⟨r.current, []⟩ else ⟨r.last, r.current ++ [e]⟩

/-- The last two rounds of a history. -/
def rounds (history : List Event) : Rounds := history.foldl Rounds.add ⟨[], []⟩

/-- The coroutines that became ready, in their order. -/
def readied (l : List Event) : List Handle := l.filterMap fun
  | .becameReady c => some c
  | _ => none

/-- The coroutines that were resumed, in their order. -/
def resumed (l : List Event) : List Handle := l.filterMap fun
  | .resumed c => some c
  | _ => none

theorem rounds_append (l l' : List Event) :
    rounds (l ++ l') = l'.foldl Rounds.add (rounds l) := List.foldl_append ..

theorem rounds_swap (l : List Event) : rounds (l ++ [.swapped]) = ⟨(rounds l).current, []⟩ :=
  rounds_append l _

theorem rounds_quiet {l' : List Event} (h : .swapped ∉ l') : ∀ l : List Event,
    rounds (l ++ l') = ⟨(rounds l).last, (rounds l).current ++ l'⟩ := by
  induction l' with
  | nil => simp [rounds]
  | cons e l' ih =>
    intro l
    have hne : e ≠ .swapped := fun heq => h (heq ▸ List.mem_cons_self)
    have hone : rounds (l ++ [e]) = ⟨(rounds l).last, (rounds l).current ++ [e]⟩ := by
      rw [rounds_append]
      exact if_neg hne
    rw [List.append_cons l e l', ih (fun hmem => h (List.mem_cons_of_mem _ hmem)), hone]
    simp

@[simp] theorem readied_append (l l' : List Event) : readied (l ++ l') = readied l ++ readied l' :=
  List.filterMap_append ..

@[simp] theorem resumed_append (l l' : List Event) : resumed (l ++ l') = resumed l ++ resumed l' :=
  List.filterMap_append ..

namespace Sched

variable {s s' s'' : Sched}

/-! ## What most functions leave alone -/

/-- The daemon flag of a live coroutine. -/
def daemonOf (s : Sched) (c : Handle) : Option Bool := (s.coros c).map Coro.daemon

/-- The pass is as far as before, and what became ready is at the end of the other list. -/
structure Grows (s s' : Sched) : Prop where
  current : s'.currentReadyCoros = s.currentReadyCoros
  index : s'.coroIndex = s.coroIndex
  next : ∃ l, s'.history = s.history ++ l ∧ s'.nextReadyCoros = s.nextReadyCoros ++ readied l ∧
    resumed l = [] ∧ .swapped ∉ l

/-- The same coroutines are live, with the same flags and counters. -/
structure Steady (s s' : Sched) : Prop extends Grows s s' where
  daemons : s'.daemonOf = s.daemonOf
  numCoros : s'.numCoros = s.numCoros
  numDaemons : s'.numDaemons = s.numDaemons

theorem Grows.trans (h : Grows s s') (h' : Grows s' s'') : Grows s s'' := by
  obtain ⟨l, hl, hnext, hres, hswap⟩ := h.next
  obtain ⟨l', hl', hnext', hres', hswap'⟩ := h'.next
  refine ⟨h'.current.trans h.current, h'.index.trans h.index, l ++ l', ?_, ?_, ?_, ?_⟩
  · rw [hl', hl, List.append_assoc]
  · rw [hnext', hnext, readied_append, List.append_assoc]
  · rw [resumed_append, hres, hres']
    rfl
  · exact fun hmem => (List.mem_append.mp hmem).elim hswap hswap'

theorem Steady.refl (s : Sched) : Steady s s where
  current := rfl
  index := rfl
  next := ⟨[], by simp [readied, resumed]⟩
  daemons := rfl
  numCoros := rfl
  numDaemons := rfl

theorem Steady.trans (h : Steady s s') (h' : Steady s' s'') : Steady s s'' where
  toGrows := h.toGrows.trans h'.toGrows
  daemons := h'.daemons.trans h.daemons
  numCoros := h'.numCoros.trans h.numCoros
  numDaemons := h'.numDaemons.trans h.numDaemons

theorem daemonOf_update {c : Handle} {v : Option Coro}
    (h : s'.coros = Function.update s.coros c v) :
    s'.daemonOf = Function.update s.daemonOf c (v.map Coro.daemon) := by
  funext x
  by_cases hx : x = c
  · subst hx
    simp [daemonOf, h]
  · simp [daemonOf, h, hx]

theorem daemonOf_same {c : Handle} {v : Option Coro}
    (h : s'.coros = Function.update s.coros c v) (hv : v.map Coro.daemon = s.daemonOf c) :
    s'.daemonOf = s.daemonOf := by
  rw [daemonOf_update h, hv, Function.update_eq_self]

/-- One coroutine changes, but not its flag, and it may be pushed. -/
theorem Steady.update {c : Handle} {v : Option Coro} {e : List Event}
    (hcoros : s'.coros = Function.update s.coros c v) (hv : v.map Coro.daemon = s.daemonOf c)
    (hhistory : s'.history = s.history ++ e) (hresumed : resumed e = []) (hswap : .swapped ∉ e)
    (hnext : s'.nextReadyCoros = s.nextReadyCoros ++ readied e)
    (hrest : s'.currentReadyCoros = s.currentReadyCoros ∧ s'.coroIndex = s.coroIndex ∧
      s'.numCoros = s.numCoros ∧ s'.numDaemons = s.numDaemons) : Steady s s' where
  current := hrest.1
  index := hrest.2.1
  next := ⟨e, hhistory, hnext, hresumed, hswap⟩
  daemons := daemonOf_same hcoros hv
  numCoros := hrest.2.2.1
  numDaemons := hrest.2.2.2

theorem map_daemon {c : Handle} {f : Coro → Coro} (hf : ∀ coro, (f coro).daemon = coro.daemon) :
    ((s.coros c).map f).map Coro.daemon = s.daemonOf c := by
  cases hc : s.coros c <;> simp [daemonOf, hc, hf]

theorem steady_log (s : Sched) {e : Event} (hr : ∀ c, e ≠ .resumed c) (hb : ∀ c, e ≠ .becameReady c)
    (hs : e ≠ .swapped) : Steady s (s.log e) where
  current := rfl
  index := rfl
  next := by
    refine ⟨[e], rfl, ?_, ?_, by simpa using hs.symm⟩
    · cases e <;> simp [log, readied] at hb ⊢
    · cases e <;> simp [resumed] at hr ⊢
  daemons := rfl
  numCoros := rfl
  numDaemons := rfl

theorem steady_notifyOwner (s : Sched) (signal : Signal) : Steady s (s.notifyOwner signal).1 := by
  rcases notifyOwner_cases s signal with he | ⟨owner, ho, _, ⟨_, he⟩ | ⟨_, he⟩⟩ <;> rw [he]
  · exact Steady.refl s
  · exact Steady.update (e := []) rfl (by simp [daemonOf, ho]) (by simp [setCoro]) rfl (by simp)
      (by simp [setCoro, readied]) ⟨rfl, rfl, rfl, rfl⟩
  · exact Steady.update (e := [.becameReady signal.owner]) rfl (by simp [daemonOf, ho]) rfl rfl
      (by simp) rfl ⟨rfl, rfl, rfl, rfl⟩

theorem steady_dropSignal (s : Sched) (ref : Handle) (signal : Signal) :
    Steady s (s.dropSignal ref signal) :=
  Steady.update (e := []) rfl (map_daemon fun _ => rfl) (by simp [dropSignal]) rfl (by simp)
    (by simp [dropSignal, readied]) ⟨rfl, rfl, rfl, rfl⟩

theorem steady_dropMonitor (s : Sched) (ref : Handle) (monitor : Monitor) :
    Steady s (s.dropMonitor ref monitor) :=
  Steady.update (e := []) rfl (map_daemon fun _ => rfl) (by simp [dropMonitor]) rfl (by simp)
    (by simp [dropMonitor, readied]) ⟨rfl, rfl, rfl, rfl⟩

theorem steady_raiseSignal (s : Sched) (ref : Handle) : Steady s (s.raiseSignal ref).1 := by
  cases hs : s.signals ref with
  | none =>
    rw [raiseSignal_none hs]
    exact Steady.refl s
  | some signal =>
    rw [raiseSignal_some hs]
    exact ((steady_notifyOwner s signal).trans (steady_dropSignal _ ref signal)).trans
      (steady_log _ nofun nofun nofun)

theorem steady_destroySignal (s : Sched) (ref : Handle) : Steady s (s.destroySignal ref) := by
  unfold destroySignal
  split
  · exact steady_dropSignal s ref _
  · exact Steady.refl s

theorem steady_triggerMonitor (s : Sched) (ref : Handle) : Steady s (s.triggerMonitor ref) := by
  unfold triggerMonitor
  split
  · exact ((steady_raiseSignal s _).trans (steady_dropMonitor _ ref _)).trans
      (steady_log _ nofun nofun nofun)
  · exact Steady.refl s

theorem steady_foldl {f : Sched → Handle → Sched} (hf : ∀ s h, Steady s (f s h))
    (l : List Handle) (s : Sched) : Steady s (l.foldl f s) :=
  foldl_induction (P := Steady s) (fun t h ht => ht.trans (hf t h)) l (Steady.refl s)

theorem steady_beforeRemove (s : Sched) (coro : Coro) : Steady s (s.beforeRemove coro) :=
  (steady_foldl steady_destroySignal _ s).trans (steady_foldl steady_triggerMonitor _ _)

theorem steady_suspend (s : Sched) (c : Handle) : Steady s (s.suspend c) := by
  cases hc : s.coros c with
  | none =>
    simp only [suspend, hc]
    exact { Steady.refl s with }
  | some coro =>
    rw [suspend_eq hc]
    split
    · exact Steady.update (e := []) rfl (by simp [daemonOf, hc]) (by simp [setCoro]) rfl (by simp)
        (by simp [setCoro, readied]) ⟨rfl, rfl, rfl, rfl⟩
    · exact Steady.update (e := [.becameReady c]) rfl (by simp [daemonOf, hc]) rfl rfl (by simp) rfl
        ⟨rfl, rfl, rfl, rfl⟩

theorem steady_waitForSignals (s : Sched) (c : Handle) (signals : List Handle) (waitAll : Bool) :
    Steady s (s.waitForSignals c signals waitAll) := by
  cases hc : s.coros c with
  | none =>
    simp only [waitForSignals, hc]
    exact Steady.refl s
  | some coro =>
    have hloop : Steady s (s.afterWaitLoop c coro signals) :=
      Steady.update (e := []) rfl (by simp [daemonOf, hc]) (by simp [afterWaitLoop, stamp, setCoro]) rfl
        (by simp) (by simp [afterWaitLoop, stamp, setCoro, readied]) ⟨rfl, rfl, rfl, rfl⟩
    rw [waitForSignals_eq hc]
    split
    · refine hloop.trans (Steady.trans ?_ (steady_suspend _ c))
      exact Steady.update (e := []) rfl (map_daemon fun _ => rfl) (by simp [modifyCoro]) rfl (by simp)
        (by simp [modifyCoro, readied]) ⟨rfl, rfl, rfl, rfl⟩
    · exact hloop

theorem steady_makeSignal (s : Sched) (c h : Handle) : Steady s (s.makeSignal c h) := by
  unfold makeSignal
  split
  · next coro hc =>
    exact Steady.update (e := [.madeSignal c h]) rfl (by simp [daemonOf, hc]) rfl rfl (by simp)
      (by simp [readied]) ⟨rfl, rfl, rfl, rfl⟩
  · exact Steady.refl s

theorem steady_monitor (s : Sched) (coro signal h : Handle) :
    Steady s (s.monitor coro signal h).1 := by
  unfold monitor
  split
  · exact Steady.update (e := [.monitored h coro signal]) rfl (map_daemon fun _ => rfl) rfl rfl
      (by simp) (by simp [readied]) ⟨rfl, rfl, rfl, rfl⟩
  · exact steady_raiseSignal s signal

theorem steady_unmonitor (s : Sched) (ref : Handle) : Steady s (s.unmonitor ref) := by
  unfold unmonitor
  split
  · exact (steady_dropMonitor s ref _).trans (steady_log _ nofun nofun nofun)
  · exact Steady.refl s

/-! ## The counters -/

/-- The counters agree with the live coroutines and their flags. -/
def Counted (s : Sched) : Prop :=
  ∃ live : Finset Handle, (∀ c, c ∈ live ↔ s.daemonOf c ≠ none) ∧ s.numCoros = live.card ∧
    s.numDaemons = (live.filter fun c => s.daemonOf c = some true).card

theorem Counted.same (hc : s.Counted) (hd : s'.daemonOf = s.daemonOf)
    (hn : s'.numCoros = s.numCoros) (hm : s'.numDaemons = s.numDaemons) : s'.Counted := by
  rw [Counted, hd, hn, hm]
  exact hc

theorem Counted.steady (hc : s.Counted) (h : Steady s s') : s'.Counted :=
  hc.same h.daemons h.numCoros h.numDaemons

/-- A coroutine is added. -/
theorem Counted.spawnEx (hc : s.Counted) (daemon : Bool) {h : Handle} (hnew : s.daemonOf h = none) :
    (s.spawnEx daemon h).Counted := by
  obtain ⟨live, hlive, hn, hm⟩ := hc
  have hd : (s.spawnEx daemon h).daemonOf = Function.update s.daemonOf h (some daemon) :=
    (daemonOf_update (s := s) rfl).trans rfl
  have hnot : h ∉ live := fun hmem => (hlive h).mp hmem hnew
  refine ⟨insert h live, fun c => ?_, ?_, ?_⟩
  · rw [hd, Finset.mem_insert, hlive, Function.update_apply]
    split
    · next heq => simp [heq]
    · next hne => simp [hne]
  · rw [Finset.card_insert_of_notMem hnot]
    show s.numCoros + 1 = _
    rw [hn]
    rfl
  · have hrest : (live.filter fun c => (s.spawnEx daemon h).daemonOf c = some true) =
        live.filter fun c => s.daemonOf c = some true := by
      refine Finset.filter_congr fun c hmem => ?_
      have hne : c ≠ h := fun heq => hnot (heq ▸ hmem)
      rw [hd, Function.update_of_ne hne]
    rw [Finset.filter_insert, hd, Function.update_self, ← hd, hrest]
    show (if daemon = true then s.numDaemons + 1 else s.numDaemons) = _
    cases daemon with
    | false => simpa using hm
    | true =>
      rw [if_pos rfl, if_pos rfl, Finset.card_insert_of_notMem, hm]
      · rfl
      · exact fun hmem => hnot (Finset.mem_filter.mp hmem).1

/-- A coroutine becomes a daemon. -/
theorem Counted.daemonize (hc : s.Counted) (c : Handle) : (s.daemonize c).Counted := by
  unfold Sched.daemonize
  split
  · next coro hcoro =>
    split
    · exact hc
    · next hflag =>
      obtain ⟨live, hlive, hn, hm⟩ := hc
      have hold : s.daemonOf c = some false := by simpa [daemonOf, hcoro] using hflag
      have hd : Sched.daemonOf { s.setCoro c { coro with daemon := true } with
          numDaemons := s.numDaemons + 1 } = Function.update s.daemonOf c (some true) :=
        (daemonOf_update (s := s) rfl).trans rfl
      refine ⟨live, fun x => ?_, hn, ?_⟩
      · rw [hd, hlive, Function.update_apply]
        split
        · next heq => simp [heq, hold]
        · rfl
      · have hinsert : (live.filter fun x => Function.update s.daemonOf c (some true) x = some true) =
            insert c (live.filter fun x => s.daemonOf x = some true) := by
          ext x
          simp only [Finset.mem_filter, Finset.mem_insert, Function.update_apply]
          by_cases hx : x = c
          · subst hx
            simp [(hlive x).mpr (by simp [hold])]
          · simp [hx]
        rw [hd, hinsert, Finset.card_insert_of_notMem (by simp [hold])]
        show s.numDaemons + 1 = _
        rw [hm]
        rfl
  · exact hc

/-- A coroutine is removed. -/
theorem Counted.removeCoro (hc : s.Counted) (c : Handle) : (s.removeCoro c).Counted := by
  unfold Sched.removeCoro
  split
  · next coro hcoro =>
    obtain ⟨live, hlive, hn, hm⟩ := hc
    have hold : s.daemonOf c = some coro.daemon := by simp [daemonOf, hcoro]
    have hmem : c ∈ live := (hlive c).mpr (by simp [hold])
    set t : Sched := { s with
      coros := Function.update s.coros c none
      numCoros := s.numCoros - 1
      numDaemons := if coro.daemon then s.numDaemons - 1 else s.numDaemons
      phase := .pass
      history := s.history ++ [.terminated c] } with ht
    have hd : t.daemonOf = Function.update s.daemonOf c none :=
      (daemonOf_update (s := s) rfl).trans rfl
    refine ⟨live.erase c, fun x => ?_, ?_, ?_⟩
    · rw [hd, Finset.mem_erase, hlive, Function.update_apply]
      split
      · next heq => simp [heq]
      · next hne => simp [hne]
    · -- The removed coroutine was counted, so the counter does not go below zero.
      have hpos := Finset.card_pos.mpr ⟨c, hmem⟩
      rw [Finset.card_erase_of_mem hmem]
      show s.numCoros - 1 = _
      omega
    · have hrest : ((live.erase c).filter fun x => t.daemonOf x = some true) =
          (live.filter fun x => s.daemonOf x = some true).erase c := by
        ext x
        simp only [Finset.mem_filter, Finset.mem_erase, hd, Function.update_apply]
        by_cases hx : x = c <;> simp [hx]
      rw [hrest]
      show (if coro.daemon = true then s.numDaemons - 1 else s.numDaemons) = _
      split
      · next hflag =>
        have hin : c ∈ live.filter fun x => s.daemonOf x = some true := by
          simp [hmem, hold, hflag]
        have hpos := Finset.card_pos.mpr ⟨c, hin⟩
        rw [Finset.card_erase_of_mem hin]
        omega
      · next hflag =>
        rw [Finset.erase_eq_of_notMem (by simp [hold, hflag]), hm]
  · exact hc.same rfl rfl rfl

/-- The step lemma. -/
theorem Counted.effect (hc : s.Counted) (hi : s.Inv) {a : Action} (he : Effect s a s') :
    s'.Counted := by
  cases he with
  | @spawn daemon h _ fresh =>
    refine hc.spawnEx daemon ?_
    by_contra hne
    obtain ⟨coro, hcoro⟩ := Option.ne_none_iff_exists'.mp (mt Option.map_eq_none_iff.mpr hne)
    exact fresh.2 (issued_of_live hi hcoro)
  | makeSignal _ _ => exact hc.steady (steady_makeSignal s _ _)
  | raise _ => exact hc.steady (steady_raiseSignal s _)
  | monitor _ _ => exact hc.steady (steady_monitor s _ _ _)
  | unmonitor _ => exact hc.steady (steady_unmonitor s _)
  | yield _ => exact hc.steady (steady_suspend s _)
  | wait _ => exact hc.steady (steady_waitForSignals s _ _ _)
  | daemonize _ => exact hc.daemonize _
  | @resume c _ _ => exact hc.same (daemonOf_same (s := s) rfl (map_daemon fun _ => rfl)) rfl rfl
  | @destroy c hp =>
    cases hcoro : s.coros c with
    | none =>
      simp only [destroyCoro, hcoro]
      exact hc.removeCoro c
    | some coro =>
      rw [destroyCoro_eq hcoro]
      exact (hc.steady (steady_beforeRemove s coro)).removeCoro c
  | finish _ | issue _ _ | terminate _ | enterLoop _ | endPass _ _ | swap _ => exact hc.same rfl rfl rfl

theorem counted_of_reachable (h : machine.Reachable s) : s.Counted := by
  refine Machine.invariant (P := Counted) ?_ ?_ h
  · rintro s rfl
    exact ⟨∅, fun c => by simp [Sched.init, daemonOf], rfl, rfl⟩
  · exact fun s a hr hc he => hc.effect (inv_of_reachable hr).1 (Effect.of_enabled he)

/-- The counters are exact in every reachable state. So `bio_loop` returns only when every live
coroutine is a daemon, and during `bio_terminate` only when no coroutine is live. -/
theorem loop_accounting (h : machine.Reachable s) :
    (∃ live : Finset Handle, (∀ c, c ∈ live ↔ ∃ coro, s.coros c = some coro) ∧
      s.numCoros = live.card ∧
      s.numDaemons = (live.filter fun c => (s.coros c).any Coro.daemon).card) ∧
    0 ≤ s.numDaemons ∧ s.numDaemons ≤ s.numCoros ∧
    (machine.enabled s .endPass → (machine.perform s .endPass).phase = .outside →
      (∀ c coro, s.coros c = some coro → coro.daemon = true) ∧
      (s.isTerminating = true → ∀ c, s.coros c = none)) := by
  obtain ⟨live, hlive, hn, hm⟩ := counted_of_reachable h
  have hmem : ∀ c, c ∈ live ↔ ∃ coro, s.coros c = some coro := by
    intro c
    rw [hlive, daemonOf, ne_eq, Option.map_eq_none_iff, ← ne_eq, Option.ne_none_iff_exists']
  have hflag : ∀ c, s.daemonOf c = some true ↔ (s.coros c).any Coro.daemon = true := by
    intro c
    cases hc : s.coros c <;> simp [daemonOf, hc]
  have hcard : s.numDaemons = (live.filter fun c => (s.coros c).any Coro.daemon).card := by
    rw [hm]
    simp only [hflag]
  have hle := Finset.card_filter_le live fun c => (s.coros c).any Coro.daemon
  refine ⟨⟨live, hmem, hn, hcard⟩, by omega, by omega, fun _ hout => ?_⟩
  -- The loop returns only where `shouldTerminate` says so.
  have hterminate : s.shouldTerminate = true := by
    by_contra hnot
    have hphase : (machine.perform s .endPass).phase = .polling := if_neg hnot
    rw [hphase] at hout
    cases hout
  unfold shouldTerminate at hterminate
  have hempty : s.numCoros = 0 → ∀ c, s.coros c = none := by
    intro hzero c
    by_contra hne
    have hpos := Finset.card_pos.mpr ⟨c, (hmem c).mpr (Option.ne_none_iff_exists'.mp hne)⟩
    omega
  split at hterminate
  · -- During `bio_terminate` the loop waits for daemons too.
    have hnone := hempty (by simpa using hterminate)
    exact ⟨fun c coro hc => by simp [hnone c] at hc, fun _ => hnone⟩
  · next hrun =>
    -- As many daemons as coroutines, so the daemons are all of them.
    have hall : (live.filter fun c => (s.coros c).any Coro.daemon) = live := by
      refine Finset.eq_of_subset_of_card_le (Finset.filter_subset _ _) ?_
      have heq : s.numCoros = s.numDaemons := by simpa using hterminate
      omega
    refine ⟨fun c coro hc => ?_, fun hterm => absurd hterm hrun⟩
    have hin : c ∈ live.filter fun c => (s.coros c).any Coro.daemon := by
      rw [hall]
      exact (hmem c).mpr ⟨coro, hc⟩
    simpa [hc] using (Finset.mem_filter.mp hin).2

/-- A coroutine turns itself into a daemon, so the loop returns while it is live. -/
theorem loop_accounting_daemon :
    let s := machine.run Sched.init [.spawn false ⟨0, 1⟩, .enterLoop, .endPass, .swap, .resume,
      .daemonize, .daemonize, .yield]
    s.numCoros = 1 ∧ s.numDaemons = 1 ∧ (machine.perform s .endPass).phase = .outside ∧
      ∀ c coro, s.coros c = some coro → coro.daemon = true := by
  intro s
  have hr : machine.Reachable s := Machine.Reachable.run (.init rfl) (by decide)
  obtain ⟨_, _, _, hexit⟩ := loop_accounting hr
  exact ⟨rfl, rfl, rfl, (hexit (by decide) rfl).1⟩

/-! ## Rounds -/

/-- The ready lists are what became ready in the last two rounds, up to where the pass is. -/
structure InRounds (s : Sched) : Prop where
  next : readied (rounds s.history).current = s.nextReadyCoros
  pass : resumed (rounds s.history).current ++ s.currentReadyCoros.drop s.coroIndex =
    readied (rounds s.history).last
  nodup : (readied (rounds s.history).last).Nodup

theorem InRounds.grows (hr : s.InRounds) (h : Grows s s') : s'.InRounds := by
  obtain ⟨l, hl, hnext, hres, hswap⟩ := h.next
  have hrounds : rounds s'.history = ⟨(rounds s.history).last, (rounds s.history).current ++ l⟩ := by
    rw [hl]
    exact rounds_quiet hswap s.history
  refine ⟨?_, ?_, ?_⟩ <;> rw [hrounds]
  · rw [readied_append, hr.next, hnext]
  · rw [resumed_append, hres, List.append_nil, h.current, h.index, hr.pass]
  · exact hr.nodup

/-- The pass is over: everything that was ready has been resumed. -/
theorem InRounds.passOver (hr : s.InRounds) (h : s.currentReadyCoros.length ≤ s.coroIndex) :
    resumed (rounds s.history).current = readied (rounds s.history).last := by
  have hpass := hr.pass
  rwa [List.drop_eq_nil_of_le h, List.append_nil] at hpass

/-- The step lemma. -/
theorem InRounds.effect (hr : s.InRounds) (hi : s.Inv) (hidle : s.Idle) {a : Action}
    (he : Effect s a s') : s'.InRounds := by
  cases he with
  | @spawn daemon h _ _ =>
    exact hr.grows ⟨rfl, rfl, [.becameReady h], rfl, rfl, rfl, by simp⟩
  | makeSignal _ _ => exact hr.grows (steady_makeSignal s _ _).toGrows
  | raise _ => exact hr.grows (steady_raiseSignal s _).toGrows
  | monitor _ _ => exact hr.grows (steady_monitor s _ _ _).toGrows
  | unmonitor _ => exact hr.grows (steady_unmonitor s _).toGrows
  | yield _ => exact hr.grows (steady_suspend s _).toGrows
  | wait _ => exact hr.grows (steady_waitForSignals s _ _ _).toGrows
  | daemonize _ =>
    unfold Sched.daemonize
    split
    · split
      · exact hr
      · exact ⟨hr.next, hr.pass, hr.nodup⟩
    · exact hr
  | finish _ | issue _ _ | terminate _ => exact ⟨hr.next, hr.pass, hr.nodup⟩
  | enterLoop hp =>
    -- `bio_loop` starts with an empty list: the last call of it ended after a whole pass.
    refine ⟨hr.next, ?_, hr.nodup⟩
    have hpass := hr.pass
    rw [hidle (.inl hp)] at hpass
    show _ ++ s.currentReadyCoros.drop 0 = _
    rw [hidle (.inl hp)]
    simpa using hpass
  | @resume c _ hc =>
    have hrounds : rounds (s.resume c).history =
        ⟨(rounds s.history).last, (rounds s.history).current ++ [.resumed c]⟩ :=
      rounds_quiet (by simp) s.history
    obtain ⟨hlt, hget⟩ := List.getElem?_eq_some_iff.mp hc
    refine ⟨?_, ?_, ?_⟩ <;> rw [hrounds]
    · rw [readied_append, hr.next]
      simp [readied, Sched.resume, modifyCoro]
    · -- The head of the rest of the pass moves to the resumed ones.
      rw [resumed_append, ← hr.pass, List.drop_eq_getElem_cons hlt, hget]
      simp [resumed, Sched.resume, modifyCoro]
    · exact hr.nodup
  | @destroy c _ =>
    have hremove : ∀ t : Sched, t.InRounds → (t.removeCoro c).InRounds := by
      intro t ht
      unfold Sched.removeCoro
      split
      · exact ht.grows ⟨rfl, rfl, [.terminated c], rfl, by simp [readied], rfl, by simp⟩
      · exact ⟨ht.next, ht.pass, ht.nodup⟩
    cases hcoro : s.coros c with
    | none =>
      simp only [destroyCoro, hcoro]
      exact hremove s hr
    | some coro =>
      rw [destroyCoro_eq hcoro]
      exact hremove _ (hr.grows (steady_beforeRemove s coro).toGrows)
  | endPass _ hle =>
    refine ⟨hr.next, ?_, hr.nodup⟩
    show resumed _ ++ [].drop 0 = _
    rw [List.drop_nil, List.append_nil]
    exact hr.passOver hle
  | swap hp =>
    have hrounds : rounds s.swap.history = ⟨(rounds s.history).current, []⟩ := rounds_swap s.history
    have hcurrent := hidle (.inr hp)
    refine ⟨?_, ?_, ?_⟩ <;> rw [hrounds]
    · exact hcurrent.symm
    · exact hr.next.symm
    · show (readied (rounds s.history).current).Nodup
      rw [hr.next]
      -- A coroutine is in the two lists together at most once.
      refine List.nodup_iff_count_le_one.mpr fun c => ?_
      have hcount : s.readyQueue.count c = if s.coroState c = .ready then 1 else 0 :=
        hi.view.queue c
      rw [readyQueue, List.count_append] at hcount
      split at hcount <;> omega

theorem inRounds_of_reachable (h : machine.Reachable s) : s.InRounds := by
  refine Machine.invariant (P := InRounds) ?_ ?_ h
  · rintro s rfl
    exact ⟨rfl, rfl, List.nodup_nil⟩
  · intro s a hr hrounds he
    obtain ⟨hi, hidle⟩ := inv_of_reachable hr
    exact hrounds.effect hi hidle (Effect.of_enabled he)

/-- `bio_loop` is not in the middle of a pass. -/
def PassOver (s : Sched) : Prop := s.phase.active = none ∧ s.currentReadyCoros.length ≤ s.coroIndex

theorem passOver_of_idle (hidle : s.Idle) (hp : s.phase = .outside ∨ s.phase = .polling) :
    s.PassOver := by
  refine ⟨?_, by rw [hidle hp]; exact Nat.zero_le _⟩
  rcases hp with hp | hp <;> rw [hp] <;> rfl

/-- The events of an action that is not a resumption. -/
theorem Effect.resumed_eq {a : Action} (he : Effect s a s') (ha : a ≠ .resume) :
    resumed s'.history = resumed s.history := by
  obtain ⟨l, hl, hp⟩ := he.appends
  have hnone : resumed l = [] := by
    refine List.filterMap_eq_nil_iff.mpr fun e hmem => ?_
    have hrecords := hp e hmem
    cases e with
    | resumed c => cases a <;> simp [records, Event.ofRaise, Event.ofNotify, Event.ofTrigger] at hrecords ha
    | _ => rfl
  rw [hl, resumed_append, hnone, List.append_nil]

theorem run_appends {as : List Action} (hl : machine.Legal s as) :
    ∃ l, (machine.run s as).history = s.history ++ l := by
  refine Machine.run_invariant (P := fun t => ∃ l, t.history = s.history ++ l) ?_ ⟨[], by simp⟩ hl
  rintro t a ⟨l, hl⟩ he
  obtain ⟨l', hl', _⟩ := (Effect.of_step he).appends
  exact ⟨l ++ l', by rw [hl', hl, List.append_assoc]⟩

/-- The rounds of a history that is one swap longer. -/
theorem rounds_next {l l' : List Event} (h : (l ++ l').count .swapped = l.count .swapped + 1) :
    ∃ l₁ l₂, rounds (l ++ l') = ⟨(rounds l).current ++ l₁, l₂⟩ := by
  have hone : l'.count .swapped = 1 := by
    rw [List.count_append] at h
    omega
  obtain ⟨l₁, l₂, rfl⟩ := List.append_of_mem (List.count_pos_iff.mp (by omega : 0 < l'.count .swapped))
  simp only [List.count_append, List.count_cons_self] at hone
  refine ⟨l₁, l₂, ?_⟩
  have h₁ : .swapped ∉ l₁ := List.count_eq_zero.mp (by omega)
  have h₂ : .swapped ∉ l₂ := List.count_eq_zero.mp (by omega)
  rw [List.append_cons, ← List.append_assoc, ← List.append_assoc, rounds_quiet h₂, rounds_swap,
    rounds_quiet h₁]
  rfl

/-- A pass resumes exactly what became ready between the last two swaps, in that order and each of
them once. What becomes ready during a pass is resumed once in the pass after the next swap, nothing
that is ready is skipped, and nobody is resumed while a coroutine is running. -/
theorem rounds_fifo (h : machine.Reachable s) :
    resumed (rounds s.history).current ++ s.currentReadyCoros.drop s.coroIndex =
      readied (rounds s.history).last ∧
    (readied (rounds s.history).last).Nodup ∧
    (s.PassOver → resumed (rounds s.history).current = readied (rounds s.history).last) ∧
    (s.phase = .outside ∨ s.phase = .polling → s.PassOver) ∧
    readied (rounds s.history).current = s.nextReadyCoros ∧
    (∀ c, s.coroState c = .ready →
      c ∈ s.currentReadyCoros.drop s.coroIndex ∨ c ∈ s.nextReadyCoros) ∧
    (∀ c as, c ∈ s.nextReadyCoros → machine.Legal s as →
      (machine.run s as).history.count .swapped = s.history.count .swapped + 1 →
      (machine.run s as).PassOver →
      (resumed (rounds (machine.run s as).history).current).count c = 1) ∧
    (∀ c as, s.phase.active = some c →
      (machine.restrict fun t _ => t.phase.active = some c).Legal s as →
      resumed (machine.run s as).history = resumed s.history) := by
  obtain ⟨hi, hidle⟩ := inv_of_reachable h
  have hr := inRounds_of_reachable h
  refine ⟨hr.pass, hr.nodup, fun hover => hr.passOver hover.2, passOver_of_idle hidle, hr.next,
    fun c hc => ?_, fun c as hc hlegal hswaps hover => ?_, fun c as _ hlegal => ?_⟩
  · -- Nothing that is ready is skipped.
    have hcount : s.readyQueue.count c = if s.coroState c = .ready then 1 else 0 := hi.view.queue c
    rw [if_pos hc] at hcount
    exact List.mem_append.mp (List.count_pos_iff.mp (by rw [← readyQueue, hcount]; decide))
  · -- What became ready in this round is what the pass after the next swap goes through.
    have hr' := inRounds_of_reachable (h.run hlegal)
    obtain ⟨l, hl⟩ := run_appends hlegal
    rw [hl] at hswaps
    obtain ⟨l₁, l₂, hrounds⟩ := rounds_next hswaps
    have hmem : c ∈ readied (rounds (machine.run s as).history).last := by
      rw [hl, hrounds, readied_append]
      exact List.mem_append_left _ (hr.next ▸ hc)
    rw [hr'.passOver hover.2]
    exact List.count_eq_one_of_mem hr'.nodup hmem
  · -- While a coroutine is active no step is a resumption.
    rw [← Machine.run_restrict (M := machine) (fun t _ => t.phase.active = some c)]
    refine Machine.run_invariant (P := fun t => resumed t.history = resumed s.history) ?_ rfl hlegal
    rintro t a ht ⟨he, hactive⟩
    refine ((Effect.of_step he).resumed_eq ?_).trans ht
    rintro rfl
    rw [he.1] at hactive
    cases hactive

/-- A coroutine raises the signal of another one, which runs in the next pass. -/
theorem rounds_fifo_raise :
    let s := machine.run Sched.init [.spawn false ⟨0, 1⟩, .spawn false ⟨1, 1⟩, .enterLoop, .endPass,
      .swap, .resume, .makeSignal ⟨2, 1⟩, .wait [⟨2, 1⟩] true, .resume, .raise ⟨2, 1⟩]
    let s' := machine.run s [.yield, .endPass, .swap, .resume, .yield, .resume, .yield]
    s.phase = .running ⟨1, 1⟩ ∧ s.nextReadyCoros = [⟨0, 1⟩] ∧
      resumed (rounds s'.history).current = [⟨0, 1⟩, ⟨1, 1⟩] ∧
      (resumed (rounds s'.history).current).count ⟨0, 1⟩ = 1 := by
  intro s s'
  have hr : machine.Reachable s := Machine.Reachable.run (.init rfl) (by decide)
  obtain ⟨_, _, _, _, _, _, hnext, _⟩ := rounds_fifo hr
  refine ⟨rfl, rfl, rfl, hnext ⟨0, 1⟩ _ (List.mem_singleton.mpr rfl) ?_ rfl ⟨rfl, ?_⟩⟩ <;> decide

end Sched

end Bio
