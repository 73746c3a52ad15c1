import Bio.Lib.Table
import Bio.WindowsPipe
import Mathlib.Data.List.Perm.Subperm

/-!
# The acceptors of a named pipe

* `PipeState.Exact`: the list has the records of the calls that wait, and each client handle is closed once
  or returned once.
* `PipeState.Inv`: what holds in all runs. The records of the calls that wait are in the list, next to those
  of calls that have failed.

Result: `acceptors_exact_iff`.
-/

namespace Bio

namespace PipeState

variable {s : PipeState} {c : Handle} {f : AcceptFrame} {socket : PipeSocket} {data : PipeListenData}
  {n : Nat} {ns : List Nat}

/-- The call `n` is between its registration and its return. -/
def Inside (s : PipeState) (n : Nat) : Prop := ∃ c f, s.frames c = some f ∧ f.call = n

/-- How often the client handle of a call was closed or returned. -/
def settled (s : PipeState) (n : Nat) : Nat :=
  s.closed.count (s.acceptors n).handle + s.returned.count (s.acceptors n).handle

/-- The calls whose records are in the list of the socket. Before the first call there is no list. -/
def Lists (s : PipeState) (socket : PipeSocket) (ns : List Nat) : Prop :=
  if socket.listenData = none then ns = [] else s.links.IsRing .acceptors (ns.map .record)

/-- What is promised: as long as the pipe is open, its list has exactly the records of the calls that wait.
A call that was cancelled leaves its client handle to `bio_net_pipe_close`, and all other calls return it or
close it themselves. -/
structure Exact (s : PipeState) : Prop where
  list : ∀ socket, s.socket = some socket → ∃ ns, s.Lists socket ns ∧ ∀ n, n ∈ ns ↔ s.Inside n
  inside : ∀ n, s.Inside n → s.settled n = if (s.acceptors n).cancelled then 1 else 0
  outside : ∀ n < s.calls, ¬s.Inside n → s.settled n = 1

/-- A call gets to `ConnectNamedPipe`. -/
def Connects (s : PipeState) (answers : AcceptAnswers) : Prop :=
  (∃ socket, s.socket = some socket ∧
    (socket.listenData = none → ∃ data, answers.listenData = .ok data)) ∧
  answers.newInstance = .ok () ∧ answers.port = .ok ()

/-- `ConnectNamedPipe` connects, or will. -/
def ConnectOk (connect : Except Nat Unit) : Prop :=
  ∀ e, connect = .error e → e = errorIoPending ∨ e = errorPipeConnected ∨ e = errorSuccess

/-- A call that was resumed takes the answer of `GetOverlappedResult` for a failure. -/
def Fails (f : AcceptFrame) (overlapped : Except Nat Unit) : Prop :=
  f.stage = .pending ∧ ∃ e, overlapped = .error e ∧ e ≠ errorPipeConnected ∧ e ≠ errorSuccess

/-- The guard: no call fails behind its registration unless it was cancelled, and a call that was cancelled
and connected all the same was not given an error that was set before. -/
def AcceptOk (s : PipeState) : PipeAction → Prop
  | .accept _ _ answers => s.Connects answers → ConnectOk answers.connect
  | .resume c overlapped => ∀ f ∈ s.frames c,
      (Fails f overlapped → (s.acceptors f.call).cancelled = true) ∧
      (¬Fails f overlapped → (s.acceptors f.call).cancelled = true → hasError f.error = false)
  | _ => True

/-- What holds in all runs. -/
structure Inv (s : PipeState) : Prop where
  calls : ∀ n, s.Inside n → n < s.calls
  one : ∀ c d f g, s.frames c = some f → s.frames d = some g → f.call = g.call → c = d
  clients : ∀ n < s.calls, (s.acceptors n).handle < s.handles
  distinct : ∀ m < s.calls, ∀ n < s.calls,
    (s.acceptors m).handle = (s.acceptors n).handle → m = n
  logs : ∀ h ∈ s.closed ++ s.returned, h < s.handles
  current : ∀ socket, s.socket = some socket → socket.handle < s.handles ∧
    (∀ n < s.calls, (s.acceptors n).handle ≠ socket.handle) ∧ socket.handle ∉ s.closed ++ s.returned
  list : ∀ socket, s.socket = some socket →
    ∃ ns, s.Lists socket ns ∧ (∀ n, s.Inside n → n ∈ ns) ∧ ∀ n ∈ ns, n < s.calls
  unused : ∀ socket, s.socket = some socket → socket.listenData = none → s.calls = 0
  waiting : s.socket ≠ none → ∀ n, s.Inside n → (s.acceptors n).cancelled = false
  cancelled : s.socket = none → ∀ n, s.Inside n → (s.acceptors n).cancelled = true

/-! ## The list -/

theorem record_injective : Function.Injective PipeNode.record := fun _ _ h => PipeNode.record.inj h

theorem Lists.unique {ns' : List Nat} (h : s.Lists socket ns) (h' : s.Lists socket ns') : ns = ns' := by
  unfold Lists at h h'
  split at h
  · next hnone =>
    rw [if_pos hnone] at h'
    rw [h, h']
  · next hsome =>
    rw [if_neg hsome] at h'
    exact record_injective.list_map (h.unique h')

theorem nodup_of_ring {l : Links PipeNode} (h : l.IsRing .acceptors (ns.map .record)) : ns.Nodup :=
  (List.nodup_cons.mp h.nodup).2.of_map _

/-- The record of a new call is put at the end of the list. -/
theorem ring_append {l : Links PipeNode} (h : l.IsRing .acceptors (ns.map .record)) (hn : n ∉ ns) :
    (l.append .acceptors (.record n)).IsRing .acceptors ((ns ++ [n]).map .record) := by
  rw [List.map_append]
  refine h.append fun hmem => ?_
  rcases List.mem_cons.mp hmem with heq | hmem
  · cases heq
  · obtain ⟨m, hm, heq⟩ := List.mem_map.mp hmem
    exact hn (record_injective heq ▸ hm)

theorem ring_remove {l : Links PipeNode} (h : l.IsRing .acceptors (ns.map .record)) (hn : n ∈ ns) :
    (l.remove (.record n)).IsRing .acceptors ((ns.erase n).map .record) := by
  have hring := h.remove (List.mem_map_of_mem hn)
  rwa [← List.map_erase record_injective] at hring

theorem Lists.nodup (h : s.Lists socket ns) : ns.Nodup := by
  unfold Lists at h
  split at h
  · rw [h]
    exact List.nodup_nil
  · exact nodup_of_ring h

/-- A record is taken out of the list. -/
theorem Lists.remove (h : s.Lists socket ns) (hn : n ∈ ns) :
    (s.unregister n).Lists socket (ns.erase n) := by
  unfold Lists at h
  split at h
  · rw [h] at hn
    cases hn
  · next hsome => exact (if_neg hsome).mpr (ring_remove h hn)

/-- `bio_net_pipe_close` goes through the whole list: all records are cancelled, and their handles closed. -/
theorem closeAcceptors_ring {fuel : Nat} (h : s.links.IsRing .acceptors (ns.map .record))
    (hfuel : ns.length ≤ fuel) : ∃ links, s.closeAcceptors fuel =
      { s with
        links := links
        acceptors := fun n =>
          if n ∈ ns then { s.acceptors n with cancelled := true } else s.acceptors n
        closed := s.closed ++ ns.map fun n => (s.acceptors n).handle } := by
  induction ns generalizing s fuel with
  | nil =>
    refine ⟨s.links, ?_⟩
    have hempty : s.links.isEmpty .acceptors = true := h.isEmpty_iff.mpr rfl
    cases fuel with
    | zero => simp [closeAcceptors]
    | succ fuel => simp [closeAcceptors, hempty]
  | cons n ns ih =>
    cases fuel with
    | zero => exact absurd hfuel (Nat.not_succ_le_zero _)
    | succ fuel =>
      have hnodup := nodup_of_ring h
      have hempty : s.links.isEmpty .acceptors = false :=
        Bool.eq_false_iff.mpr fun h' => nomatch h.isEmpty_iff.mp h'
      have hrest := ring_remove h List.mem_cons_self
      rw [List.erase_cons_head] at hrest
      let t : PipeState := { s.unregister n with
        acceptors := Function.update s.acceptors n { s.acceptors n with cancelled := true } }.closeClient n
      have hstep : s.closeAcceptors (fuel + 1) = t.closeAcceptors fuel := by
        rw [closeAcceptors, hempty, h.next_list]
        rfl
      obtain ⟨links, heq⟩ := ih (s := t) hrest (Nat.le_of_succ_le_succ hfuel)
      have hacceptors : ∀ m, t.acceptors m =
          if m = n then { s.acceptors n with cancelled := true } else s.acceptors m :=
        fun m => Function.update_apply ..
      have hhandles : ∀ m, (t.acceptors m).handle = (s.acceptors m).handle := by
        intro m
        rw [hacceptors]
        split
        · next heq => rw [heq]
        · rfl
      have hmarked : (fun m => if m ∈ ns then { t.acceptors m with cancelled := true } else t.acceptors m) =
          fun m => if m ∈ n :: ns then { s.acceptors m with cancelled := true } else s.acceptors m := by
        funext m
        rw [hacceptors]
        rcases eq_or_ne m n with rfl | hm
        · have hnot : m ∉ ns := (List.nodup_cons.mp hnodup).1
          rw [if_neg hnot, if_pos rfl, if_pos List.mem_cons_self]
        · simp only [List.mem_cons, hm, false_or, if_false]
      have hclosed : t.closed ++ ns.map (fun m => (t.acceptors m).handle) =
          s.closed ++ (n :: ns).map fun m => (s.acceptors m).handle := by
        show (s.closed ++ [(t.acceptors n).handle]) ++ _ = _
        simp only [hhandles, List.map_cons, List.append_assoc, List.singleton_append]
      refine ⟨links, ?_⟩
      rw [hstep, heq, hmarked, hclosed]
      rfl

/-! ## What the calls do -/

/-- What a call does up to its wait, once the kind of the pipe is known. -/
inductive AcceptEffect (s : PipeState) (c : Handle) (socket : PipeSocket) (data : PipeListenData)
    (answers : AcceptAnswers) : PipeState → Prop
  | noInstance {e : Nat} : answers.newInstance = .error e → AcceptEffect s c socket data answers s
  | noPort {e : Nat} : answers.port = .error e →
      AcceptEffect s c socket data answers ((s.takeInstance socket data).closeClient s.calls)
  | fails : answers.newInstance = .ok () → answers.port = .ok () → ¬ConnectOk answers.connect →
      AcceptEffect s c socket data answers
        (((s.takeInstance socket data).register s.calls).closeClient s.calls)
  | connects : ConnectOk answers.connect →
      AcceptEffect s c socket data answers
        ((((s.takeInstance socket data).register s.calls).unregister s.calls).returnClient s.calls)
  | waits (f : AcceptFrame) : f.call = s.calls → ConnectOk answers.connect →
      AcceptEffect s c socket data answers
        (((s.takeInstance socket data).register s.calls).setFrame c (some f))

/-- A call that was not cancelled and connects returns its client. -/
theorem acceptRegistered_of_uncancelled (hcancelled : (s.acceptors n).cancelled = false)
    (error : Option Bool) : (s.acceptRegistered n error).1 = (s.unregister n).returnClient n := by
  unfold acceptRegistered
  dsimp only
  rw [if_neg]
  · rfl
  · show ¬(!hasError error && (s.acceptors n).cancelled) = true
    rw [hcancelled, Bool.and_false]
    nofun

theorem acceptEnd_error (s : PipeState) (n e : Nat) :
    (s.acceptEnd n (.error e)).1 = if (s.acceptors n).cancelled then s else s.closeClient n := rfl

theorem acceptListening_effect (s : PipeState) (c : Handle) (error : Option Bool) (socket : PipeSocket)
    (data : PipeListenData) (answers : AcceptAnswers) :
    AcceptEffect s c socket data answers (s.acceptListening c error socket data answers).1 := by
  have htaken : ((s.takeInstance socket data).acceptors s.calls).cancelled = false := by
    simp [takeInstance]
  unfold acceptListening
  cases hinstance : answers.newInstance with
  | error e => exact .noInstance hinstance
  | ok _ =>
    dsimp only
    cases hport : answers.port with
    | error e =>
      dsimp only
      rw [acceptEnd_error, htaken]
      exact .noPort hport
    | ok _ =>
      dsimp only
      generalize (if socket.completionMode = .unknown then
        (if answers.skips then CompletionMode.skipOnSuccess else .always) else socket.completionMode) =
          completionMode
      unfold acceptConnect
      have hregistered : ((((s.takeInstance socket data).register s.calls)).acceptors
        s.calls).cancelled = false := htaken
      cases hconnect : answers.connect with
      | error errorCode =>
        dsimp only
        split
        · next hpending =>
          refine .waits _ rfl fun e he => .inl ?_
          rw [hconnect] at he
          exact (Except.error.inj he).symm.trans hpending
        · next hpending =>
          unfold acceptChecked
          split
          · next hfailed =>
            dsimp only
            rw [acceptEnd_error, hregistered]
            refine .fails hinstance hport fun hok => ?_
            rcases hok errorCode hconnect with h | h | h
            · exact hpending h
            · exact hfailed.1 h
            · exact hfailed.2 h
          · next hconnected =>
            dsimp only
            rw [acceptRegistered_of_uncancelled hregistered]
            refine .connects fun e he => .inr ?_
            rw [hconnect] at he
            obtain rfl := Except.error.inj he
            by_contra hnot
            exact hconnected ⟨fun h => hnot (.inl h), fun h => hnot (.inr h)⟩
      | ok _ =>
        have hok : ConnectOk answers.connect := fun e he => nomatch hconnect.symm.trans he
        dsimp only
        split
        · dsimp only
          rw [acceptRegistered_of_uncancelled hregistered]
          exact .connects hok
        · exact .waits _ rfl hok

/-- What a call does behind its wait. -/
inductive ResumeEffect (s : PipeState) (c : Handle) (f : AcceptFrame) (overlapped : Except Nat Unit) :
    PipeState → Prop
  | fails : Fails f overlapped → (s.acceptors f.call).cancelled = false →
      ResumeEffect s c f overlapped ((s.setFrame c none).closeClient f.call)
  | failsCancelled : Fails f overlapped → (s.acceptors f.call).cancelled = true →
      ResumeEffect s c f overlapped (s.setFrame c none)
  | connects : ¬Fails f overlapped → (s.acceptors f.call).cancelled = false →
      ResumeEffect s c f overlapped (((s.setFrame c none).unregister f.call).returnClient f.call)
  | cancelled : ¬Fails f overlapped → (s.acceptors f.call).cancelled = true → hasError f.error = false →
      ResumeEffect s c f overlapped ((s.setFrame c none).unregister f.call)
  | returnsClosed : ¬Fails f overlapped → (s.acceptors f.call).cancelled = true →
      hasError f.error = true →
      ResumeEffect s c f overlapped (((s.setFrame c none).unregister f.call).returnClient f.call)

theorem resume_registered (s : PipeState) (c : Handle) {overlapped : Except Nat Unit}
    (hok : ¬Fails f overlapped) :
    ResumeEffect s c f overlapped ((s.setFrame c none).acceptRegistered f.call f.error).1 := by
  cases hcancelled : (s.acceptors f.call).cancelled with
  | false =>
    have hsame : ((s.setFrame c none).acceptors f.call).cancelled = false := hcancelled
    rw [acceptRegistered_of_uncancelled hsame]
    exact .connects hok hcancelled
  | true =>
    have hsame : (((s.setFrame c none).unregister f.call).acceptors f.call).cancelled = true := hcancelled
    unfold acceptRegistered
    dsimp only
    rw [hsame, Bool.and_true]
    cases herror : hasError f.error with
    | false =>
      rw [if_pos (by rfl), acceptEnd_error, if_pos hsame]
      exact .cancelled hok hcancelled herror
    | true =>
      rw [if_neg (by nofun)]
      exact .returnsClosed hok hcancelled herror

theorem resumeAccept_effect (s : PipeState) (c : Handle) (f : AcceptFrame)
    (overlapped : Except Nat Unit) :
    ResumeEffect s c f overlapped (s.resumeAccept c f overlapped).1 := by
  have hchecked : ∀ errorCode, (Fails f overlapped ↔
      errorCode ≠ errorPipeConnected ∧ errorCode ≠ errorSuccess) →
      ResumeEffect s c f overlapped ((s.setFrame c none).acceptChecked f.call f.error errorCode).1 := by
    intro errorCode hfails
    unfold acceptChecked
    split
    · next hfailed =>
      rw [acceptEnd_error]
      split
      · next hcancelled => exact .failsCancelled (hfails.mpr hfailed) hcancelled
      · next hcancelled => exact .fails (hfails.mpr hfailed) (Bool.eq_false_iff.mpr hcancelled)
    · next hconnected => exact resume_registered s c (mt hfails.mp hconnected)
  unfold resumeAccept
  cases hstage : f.stage with
  | connected => exact resume_registered s c fun h => nomatch hstage.symm.trans h.1
  | pending =>
    cases overlapped with
    | ok _ =>
      refine hchecked errorSuccess (iff_of_false ?_ fun h => h.2 rfl)
      rintro ⟨_, _, h, _⟩
      cases h
    | error errorCode =>
      refine hchecked errorCode ⟨?_, fun h => ⟨hstage, errorCode, rfl, h⟩⟩
      rintro ⟨_, e, heq, h⟩
      obtain rfl := Except.error.inj heq
      exact h

/-! ## Who is inside -/

theorem inside_setFrame_some (hnone : s.frames c = none) :
    (s.setFrame c (some f)).Inside n ↔ s.Inside n ∨ n = f.call := by
  constructor
  · rintro ⟨d, g, hg, rfl⟩
    rcases Table.insert_some hg with ⟨_, rfl⟩ | ⟨_, hold⟩
    · exact .inr rfl
    · exact .inl ⟨d, g, hold, rfl⟩
  · rintro (⟨d, g, hg, rfl⟩ | rfl)
    · have hne : d ≠ c := by
        rintro rfl
        exact nomatch hnone.symm.trans hg
      exact ⟨d, g, (Function.update_of_ne hne ..).trans hg, rfl⟩
    · exact ⟨c, f, Function.update_self .., rfl⟩

theorem inside_setFrame_none (hi : s.Inv) (hf : s.frames c = some f) :
    (s.setFrame c none).Inside n ↔ s.Inside n ∧ n ≠ f.call := by
  constructor
  · rintro ⟨d, g, hg, rfl⟩
    obtain ⟨hne, hold⟩ := Table.erase_some hg
    exact ⟨⟨d, g, hold, rfl⟩, fun heq => hne (hi.one d c g f hold hf heq)⟩
  · rintro ⟨⟨d, g, hg, rfl⟩, hne⟩
    have hd : d ≠ c := by
      rintro rfl
      exact hne (congrArg AcceptFrame.call (Option.some.inj (hg.symm.trans hf)))
    exact ⟨d, g, (Function.update_of_ne hd ..).trans hg, rfl⟩

theorem inside_complete (s : PipeState) (c : Handle) :
    (s.perform (.complete c)).Inside n ↔ s.Inside n := by
  constructor
  · rintro ⟨d, g, hg, rfl⟩
    rcases Table.update_some hg with ⟨rfl, hnew⟩ | ⟨_, hold⟩
    · obtain ⟨f, hf, rfl⟩ := Option.map_eq_some_iff.mp hnew
      exact ⟨d, f, hf, rfl⟩
    · exact ⟨d, g, hold, rfl⟩
  · rintro ⟨d, g, hg, rfl⟩
    rcases eq_or_ne d c with rfl | hd
    · refine ⟨d, { g with raised := true }, (Function.update_self ..).trans ?_, rfl⟩
      rw [hg]
      rfl
    · exact ⟨d, g, (Function.update_of_ne hd ..).trans hg, rfl⟩

/-- The list of a socket that was listened on. -/
theorem lists_iff (hdata : socket.listenData = some data) :
    s.Lists socket ns ↔ s.links.IsRing .acceptors (ns.map .record) := by
  rw [Lists, if_neg (by rw [hdata]; nofun)]

/-! ## The invariant -/

/-- Fewer calls are inside, or the same. -/
theorem Inv.inside_le {s' : PipeState} (hi : s.Inv)
    (hframes : ∀ d g, s'.frames d = some g → ∃ f, s.frames d = some f ∧ g.call = f.call)
    (hrest : s' = { s with frames := s'.frames }) : s'.Inv := by
  have hinside : ∀ n, s'.Inside n → s.Inside n := by
    rintro n ⟨d, g, hg, rfl⟩
    obtain ⟨f, hf, hcall⟩ := hframes d g hg
    exact ⟨d, f, hf, hcall.symm⟩
  rw [hrest] at hinside hframes ⊢
  refine ⟨fun n hn => hi.calls n (hinside n hn), fun c d f g hf hg hcall => ?_, hi.clients, hi.distinct,
    hi.logs, hi.current, fun socket hsocket => ?_, hi.unused, fun hopen n hn => ?_, fun hclosed n hn => ?_⟩
  · obtain ⟨f', hf', hcall'⟩ := hframes c f hf
    obtain ⟨g', hg', hcall''⟩ := hframes d g hg
    exact hi.one c d f' g' hf' hg' (hcall'.symm.trans (hcall.trans hcall''))
  · obtain ⟨ns, hlist, hall, hlt⟩ := hi.list socket hsocket
    exact ⟨ns, hlist, fun n hn => hall n (hinside n hn), hlt⟩
  · exact hi.waiting hopen n (hinside n hn)
  · exact hi.cancelled hclosed n (hinside n hn)

/-- The client handle of a call is closed or returned. -/
theorem Inv.settle (hi : s.Inv) (hn : n < s.calls) {closed returned : List Nat}
    (hlogs : ∀ h ∈ closed ++ returned, h ∈ s.closed ++ s.returned ∨ h = (s.acceptors n).handle) :
    Inv { s with closed := closed, returned := returned } := by
  refine ⟨hi.calls, hi.one, hi.clients, hi.distinct, fun h hh => ?_, fun socket hsocket => ?_, hi.list,
    hi.unused, hi.waiting, hi.cancelled⟩
  · rcases hlogs h hh with hold | rfl
    · exact hi.logs h hold
    · exact hi.clients n hn
  · obtain ⟨hlt, hother, hnot⟩ := hi.current socket hsocket
    refine ⟨hlt, hother, fun hh => ?_⟩
    rcases hlogs _ hh with hold | heq
    · exact hnot hold
    · exact hother n hn heq.symm

theorem Inv.closeClient (hi : s.Inv) (hn : n < s.calls) : (s.closeClient n).Inv := by
  refine hi.settle hn fun h hh => ?_
  simp only [List.mem_append, List.mem_singleton] at hh ⊢
  tauto

theorem Inv.returnClient (hi : s.Inv) (hn : n < s.calls) : (s.returnClient n).Inv := by
  refine hi.settle hn fun h hh => ?_
  simp only [List.mem_append, List.mem_singleton] at hh ⊢
  tauto

/-- Another list holds the calls inside. -/
theorem Inv.relink (hi : s.Inv) (links : Links PipeNode)
    (hlist : ∀ socket, s.socket = some socket → ∃ ns, Lists { s with links := links } socket ns ∧
      (∀ n, s.Inside n → n ∈ ns) ∧ ∀ n ∈ ns, n < s.calls) : Inv { s with links := links } :=
  ⟨hi.calls, hi.one, hi.clients, hi.distinct, hi.logs, hi.current, hlist, hi.unused, hi.waiting,
    hi.cancelled⟩

/-- The new instance takes the place of the handle of the client. -/
theorem Inv.takeInstance (hi : s.Inv) (hsocket : s.socket = some socket)
    (hdata : socket.listenData = some data) : (s.takeInstance socket data).Inv := by
  obtain ⟨hlt, hother, hnot⟩ := hi.current socket hsocket
  have hacceptors : ∀ n, (s.takeInstance socket data).acceptors n =
      if n = s.calls then ⟨socket.handle, false⟩ else s.acceptors n := fun n =>
    Function.update_apply ..
  have hold : ∀ n < s.calls, (s.takeInstance socket data).acceptors n = s.acceptors n := fun n hn => by
    rw [hacceptors, if_neg (Nat.ne_of_lt hn)]
  have hhandles : ∀ n < s.calls + 1, ((s.takeInstance socket data).acceptors n).handle < s.handles := by
    intro n hn
    rw [hacceptors]
    split
    · exact hlt
    · next hne => exact hi.clients n (by omega)
  refine ⟨fun n hn => Nat.lt_succ_of_lt (hi.calls n hn), hi.one,
    fun n hn => Nat.lt_succ_of_lt (hhandles n hn), fun m hm n hn heq => ?_,
    fun h hh => Nat.lt_succ_of_lt (hi.logs h hh), fun socket' hsocket' => ?_, fun socket' hsocket' => ?_,
    fun socket' hsocket' hnone => ?_, fun _ n hn => ?_, nofun⟩
  · rw [hacceptors, hacceptors] at heq
    split at heq <;> split at heq
    · omega
    · exact absurd heq.symm (hother n (Nat.lt_of_le_of_ne (Nat.le_of_lt_succ hn) ‹_›))
    · exact absurd heq (hother m (Nat.lt_of_le_of_ne (Nat.le_of_lt_succ hm) ‹_›))
    · exact hi.distinct m (Nat.lt_of_le_of_ne (Nat.le_of_lt_succ hm) ‹_›) n
        (Nat.lt_of_le_of_ne (Nat.le_of_lt_succ hn) ‹_›) heq
  · cases hsocket'
    exact ⟨Nat.lt_succ_self _, fun n hn => Nat.ne_of_lt (hhandles n hn),
      fun hh => Nat.lt_irrefl _ (hi.logs _ hh)⟩
  · cases hsocket'
    obtain ⟨ns, hlist, hall, hcalls⟩ := hi.list socket hsocket
    rw [lists_iff hdata] at hlist
    exact ⟨ns, (lists_iff rfl).mpr hlist, hall, fun n hn => Nat.lt_succ_of_lt (hcalls n hn)⟩
  · cases hsocket'
    cases hnone
  · rw [hold n (hi.calls n hn)]
    exact hi.waiting (by rw [hsocket]; nofun) n hn

/-- The record of a new call is registered. -/
theorem ring_taken (hi : s.Inv) (hsocket : s.socket = some socket)
    (hdata : socket.listenData = some data) :
    ∃ ns, s.links.IsRing .acceptors (ns.map .record) ∧ (∀ n, s.Inside n → n ∈ ns) ∧
      (∀ n ∈ ns, n < s.calls) ∧
      ((s.takeInstance socket data).register s.calls).links.IsRing .acceptors
        ((ns ++ [s.calls]).map .record) := by
  obtain ⟨ns, hlist, hall, hcalls⟩ := hi.list socket hsocket
  rw [lists_iff hdata] at hlist
  exact ⟨ns, hlist, hall, hcalls, ring_append hlist fun hmem => Nat.lt_irrefl _ (hcalls _ hmem)⟩

/-- The calls of the list behind a registration. -/
theorem lt_of_taken {k : Nat} (h : ∀ n ∈ ns, n < k) : ∀ n ∈ ns ++ [k], n < k + 1 := by
  intro n hn
  rcases List.mem_append.mp hn with hn | hn
  · exact Nat.lt_succ_of_lt (h n hn)
  · rw [List.mem_singleton.mp hn]
    exact Nat.lt_succ_self _

theorem Inv.register (hi : s.Inv) (hsocket : s.socket = some socket)
    (hdata : socket.listenData = some data) :
    ((s.takeInstance socket data).register s.calls).Inv := by
  obtain ⟨ns, _, hall, hcalls, hring⟩ := ring_taken hi hsocket hdata
  refine (hi.takeInstance hsocket hdata).relink _ fun socket' hsocket' => ?_
  cases hsocket'
  exact ⟨ns ++ [s.calls], (lists_iff rfl).mpr hring, fun n hn => List.mem_append_left _ (hall n hn),
    lt_of_taken hcalls⟩

theorem Inv.accept {s' : PipeState} {answers : AcceptAnswers} (hi : s.Inv)
    (hsocket : s.socket = some socket) (hdata : socket.listenData = some data)
    (hnone : s.frames c = none) (he : AcceptEffect s c socket data answers s') : s'.Inv := by
  have htaken := hi.takeInstance hsocket hdata
  have hregistered := hi.register hsocket hdata
  cases he with
  | noInstance _ => exact hi
  | noPort _ => exact htaken.closeClient (Nat.lt_succ_self _)
  | fails _ _ _ => exact hregistered.closeClient (Nat.lt_succ_self _)
  | connects _ =>
    obtain ⟨ns, _, hall, hcalls, hring⟩ := ring_taken hi hsocket hdata
    have hremoved := ring_remove hring (List.mem_append_right ns (List.mem_singleton_self _))
    refine (hregistered.relink _ fun socket' hsocket' => ?_).returnClient (Nat.lt_succ_self _)
    cases hsocket'
    refine ⟨_, (lists_iff rfl).mpr hremoved, fun n hn => ?_,
      fun n hn => lt_of_taken hcalls n (List.mem_of_mem_erase hn)⟩
    refine (List.mem_erase_of_ne ?_).mpr (List.mem_append_left _ (hall n hn))
    exact Nat.ne_of_lt (hi.calls n hn)
  | waits f hcall _ =>
    have hinside : ∀ n, (((s.takeInstance socket data).register s.calls).setFrame c (some f)).Inside n →
        s.Inside n ∨ n = s.calls := fun n hn => hcall ▸ (inside_setFrame_some hnone).mp hn
    obtain ⟨ns, _, hall, hcalls, hring⟩ := ring_taken hi hsocket hdata
    refine ⟨fun n hn => ?_, fun d d' g g' hg hg' heq => ?_, hregistered.clients, hregistered.distinct,
      hregistered.logs, hregistered.current, fun socket' hsocket' => ?_, hregistered.unused,
      fun hopen n hn => ?_, nofun⟩
    · rcases hinside n hn with hold | rfl
      · exact Nat.lt_succ_of_lt (hi.calls n hold)
      · exact Nat.lt_succ_self _
    · have hfresh : ∀ d g, s.frames d = some g → g.call ≠ f.call := fun d g hg heq =>
        Nat.lt_irrefl _ (hcall ▸ heq ▸ hi.calls _ ⟨d, g, hg, rfl⟩)
      rcases Table.insert_some hg with ⟨rfl, rfl⟩ | ⟨_, hold⟩ <;>
        rcases Table.insert_some hg' with ⟨rfl, rfl⟩ | ⟨_, hold'⟩
      · rfl
      · exact absurd heq.symm (hfresh d' g' hold')
      · exact absurd heq (hfresh d g hold)
      · exact hi.one d d' g g' hold hold' heq
    · cases hsocket'
      refine ⟨ns ++ [s.calls], (lists_iff rfl).mpr hring, fun n hn => ?_, lt_of_taken hcalls⟩
      rcases hinside n hn with hold | rfl
      · exact List.mem_append_left _ (hall n hold)
      · exact List.mem_append_right _ (List.mem_singleton_self _)
    · rcases hinside n hn with hold | rfl
      · exact hregistered.waiting hopen n hold
      · show (Function.update s.acceptors s.calls _ s.calls).cancelled = false
        rw [Function.update_self]

/-- The first call makes the list. -/
theorem Inv.initListen (hi : s.Inv) (hsocket : s.socket = some socket)
    (hnone : socket.listenData = none) (data : PipeListenData) :
    (s.initListen socket data).Inv := by
  obtain ⟨ns, hlist, hall, _⟩ := hi.list socket hsocket
  rw [Lists, if_pos hnone] at hlist
  subst hlist
  refine ⟨hi.calls, hi.one, hi.clients, hi.distinct, hi.logs, fun socket' hsocket' => ?_,
    fun socket' hsocket' => ?_, fun socket' hsocket' hnone' => ?_,
    fun _ => hi.waiting (by rw [hsocket]; nofun), nofun⟩
  · cases hsocket'
    exact hi.current socket hsocket
  · cases hsocket'
    exact ⟨[], (lists_iff rfl).mpr (.init s.links .acceptors), hall, nofun⟩
  · cases hsocket'
    cases hnone'

theorem Exact.initListen (he : s.Exact) (hsocket : s.socket = some socket)
    (hnone : socket.listenData = none) (data : PipeListenData) :
    (s.initListen socket data).Exact := by
  obtain ⟨ns, hlist, hall⟩ := he.list socket hsocket
  rw [Lists, if_pos hnone] at hlist
  subst hlist
  refine ⟨fun socket' hsocket' => ?_, he.inside, he.outside⟩
  cases hsocket'
  exact ⟨[], (lists_iff rfl).mpr (.init s.links .acceptors), hall⟩

/-- The ways through a call up to its wait: without an open pipe that can be listened on it changes
nothing. -/
theorem accept_cases (hi : s.Inv) (c : Handle) (error : Option Bool) (answers : AcceptAnswers) :
    ((s.netPipeAccept c error answers).1 = s ∧ ¬s.Connects answers) ∨
    ∃ s₁ socket data, s₁.socket = some socket ∧ socket.listenData = some data ∧
      s₁.frames = s.frames ∧ s₁.Inv ∧ (s.Exact → s₁.Exact) ∧
      (s.Connects answers ↔ answers.newInstance = .ok () ∧ answers.port = .ok ()) ∧
      AcceptEffect s₁ c socket data answers (s.netPipeAccept c error answers).1 := by
  unfold netPipeAccept Connects
  cases hsocket : s.socket with
  | none => exact .inl ⟨rfl, fun h => nomatch h.1.choose_spec.1⟩
  | some socket =>
    dsimp only
    cases hdata : socket.listenData with
    | some data =>
      refine .inr ⟨s, socket, data, hsocket, hdata, rfl, hi, id, ?_, acceptListening_effect ..⟩
      exact and_iff_right ⟨socket, rfl, fun h => nomatch hdata.symm.trans h⟩
    | none =>
      dsimp only
      cases hanswer : answers.listenData with
      | error e =>
        refine .inl ⟨rfl, ?_⟩
        rintro ⟨⟨socket', hsocket', h⟩, _⟩
        cases hsocket'
        obtain ⟨data, h⟩ := h hdata
        cases h
      | ok data =>
        refine .inr ⟨s.initListen socket data, _, data, rfl, rfl, rfl, hi.initListen hsocket hdata data,
          fun he => he.initListen hsocket hdata data, ?_, acceptListening_effect ..⟩
        exact and_iff_right ⟨socket, rfl, fun _ => ⟨data, rfl⟩⟩

/-- A call returns. -/
theorem Inv.clear (hi : s.Inv) (c : Handle) : (s.setFrame c none).Inv :=
  hi.inside_le (fun _ g hg => ⟨g, (Table.erase_some hg).2, rfl⟩) rfl

/-- The record of a call that has returned is taken out of the list. -/
theorem Inv.unregister (hi : s.Inv) (hf : s.frames c = some f) :
    ((s.setFrame c none).unregister f.call).Inv := by
  refine (hi.clear c).relink _ fun socket hsocket => ?_
  obtain ⟨ns, hlist, hall, hcalls⟩ := hi.list socket hsocket
  have hmem : f.call ∈ ns := hall _ ⟨c, f, hf, rfl⟩
  refine ⟨ns.erase f.call, hlist.remove hmem, fun n hn => ?_, fun n hn => hcalls n (List.mem_of_mem_erase hn)⟩
  obtain ⟨hold, hne⟩ := (inside_setFrame_none hi hf).mp hn
  exact (List.mem_erase_of_ne hne).mpr (hall n hold)

theorem Inv.resume {s' : PipeState} {overlapped : Except Nat Unit} (hi : s.Inv)
    (hf : s.frames c = some f) (he : ResumeEffect s c f overlapped s') : s'.Inv := by
  have hn : f.call < s.calls := hi.calls _ ⟨c, f, hf, rfl⟩
  cases he with
  | fails _ _ => exact (hi.clear c).closeClient hn
  | failsCancelled _ _ => exact hi.clear c
  | connects _ _ => exact (hi.unregister hf).returnClient hn
  | cancelled _ _ _ => exact hi.unregister hf
  | returnsClosed _ _ _ => exact (hi.unregister hf).returnClient hn

/-- What `bio_net_pipe_close` leaves behind. -/
theorem netPipeClose_eq (hi : s.Inv) (hsocket : s.socket = some socket) :
    ∃ ns links, s.Lists socket ns ∧ ns.Nodup ∧ (∀ n, s.Inside n → n ∈ ns) ∧ (∀ n ∈ ns, n < s.calls) ∧
      s.netPipeClose =
        { s with
          socket := none
          links := links
          acceptors := fun n =>
            if n ∈ ns then { s.acceptors n with cancelled := true } else s.acceptors n
          closed := s.closed ++ ns.map (fun n => (s.acceptors n).handle) ++ [socket.handle] } := by
  obtain ⟨ns, hlist, hall, hcalls⟩ := hi.list socket hsocket
  unfold netPipeClose
  rw [hsocket]
  dsimp only
  cases hdata : socket.listenData with
  | none =>
    have hnil : ns = [] := by
      rwa [Lists, if_pos hdata] at hlist
    subst hnil
    refine ⟨[], s.links, hlist, List.nodup_nil, hall, nofun, ?_⟩
    have hzero := hi.unused socket hsocket hdata
    simp [closeAcceptors, hzero]
  | some data =>
    have hring := (lists_iff hdata).mp hlist
    have hnodup := nodup_of_ring hring
    have hfuel : ns.length ≤ s.calls := by
      have hsub : ns ⊆ List.range s.calls := fun n hn => List.mem_range.mpr (hcalls n hn)
      simpa using (hnodup.subperm hsub).length_le
    obtain ⟨links, heq⟩ := closeAcceptors_ring hring hfuel
    refine ⟨ns, links, hlist, hnodup, hall, hcalls, ?_⟩
    rw [heq]

theorem netPipeClose_handle (hi : s.Inv) (n : Nat) :
    (s.netPipeClose.acceptors n).handle = (s.acceptors n).handle := by
  cases hsocket : s.socket with
  | none => rw [netPipeClose, hsocket]
  | some socket =>
    obtain ⟨_, _, _, _, _, _, heq⟩ := netPipeClose_eq hi hsocket
    rw [heq]
    dsimp only
    split <;> rfl

theorem Inv.close (hi : s.Inv) : s.netPipeClose.Inv := by
  cases hsocket : s.socket with
  | none =>
    rw [netPipeClose, hsocket]
    exact hi
  | some socket =>
    obtain ⟨ns, links, _, _, hall, hcalls, heq⟩ := netPipeClose_eq hi hsocket
    have hhandles := netPipeClose_handle hi
    rw [heq] at hhandles ⊢
    refine ⟨hi.calls, hi.one, fun n hn => hhandles n ▸ hi.clients n hn, fun m hm n hn h => ?_,
      fun h hh => ?_, nofun, nofun, nofun, fun h => absurd rfl h, fun _ n hn => ?_⟩
    · rw [hhandles, hhandles] at h
      exact hi.distinct m hm n hn h
    · rcases List.mem_append.mp hh with hh | hh
      · rcases List.mem_append.mp hh with hh | hh
        · rcases List.mem_append.mp hh with hh | hh
          · exact hi.logs h (List.mem_append_left _ hh)
          · obtain ⟨n, hn, rfl⟩ := List.mem_map.mp hh
            exact hi.clients n (hcalls n hn)
        · rw [List.mem_singleton.mp hh]
          exact (hi.current socket hsocket).1
      · exact hi.logs h (List.mem_append_right _ hh)
    · dsimp only
      rw [if_pos (hall n hn)]

theorem Inv.step (hi : s.Inv) {a : PipeAction} (he : machine.enabled s a) :
    (machine.perform s a).Inv := by
  cases a with
  | accept c error answers =>
    rcases accept_cases hi c error answers with ⟨heq, _⟩ |
      ⟨s₁, socket, data, hsocket, hdata, hframes, hi₁, _, _, heffect⟩
    · show (s.netPipeAccept c error answers).1.Inv
      rw [heq]
      exact hi
    · exact hi₁.accept hsocket hdata ((congrFun hframes c).trans he) heffect
  | complete c =>
    refine hi.inside_le (fun d g hg => ?_) rfl
    rcases Table.update_some hg with ⟨rfl, hnew⟩ | ⟨_, hold⟩
    · obtain ⟨f, hf, rfl⟩ := Option.map_eq_some_iff.mp hnew
      exact ⟨f, hf, rfl⟩
    · exact ⟨g, hold, rfl⟩
  | resume c overlapped =>
    obtain ⟨f, hf, _⟩ := (Option.any_eq_true ..).mp he
    have heq : machine.perform s (.resume c overlapped) = (s.resumeAccept c f overlapped).1 := by
      show s.perform (.resume c overlapped) = _
      rw [perform, hf]
    rw [heq]
    exact hi.resume hf (resumeAccept_effect s c f overlapped)
  | close => exact hi.close

theorem inv_of_reachable (hr : machine.Reachable s) : s.Inv := by
  refine Machine.invariant (P := Inv) ?_ (fun s a _ hi he => hi.step he) hr
  rintro _ rfl
  have hnone : ∀ n, ¬init.Inside n := fun n ⟨_, _, hf, _⟩ => nomatch hf
  refine ⟨fun n hn => absurd hn (hnone n), fun _ _ _ _ hf => (nomatch hf), nofun, nofun, nofun,
    fun socket hsocket => ?_, fun socket hsocket => ?_, fun _ _ _ => rfl, fun _ n hn => absurd hn (hnone n), nofun⟩
  · cases hsocket
    exact ⟨Nat.one_pos, nofun, nofun⟩
  · cases hsocket
    exact ⟨[], rfl, fun n hn => absurd hn (hnone n), nofun⟩

/-! ## The promise -/

theorem settled_closeClient (s : PipeState) (m n : Nat) : (s.closeClient m).settled n =
    s.settled n + if (s.acceptors m).handle = (s.acceptors n).handle then 1 else 0 := by
  simp only [settled, closeClient, List.count_append, List.count_singleton, beq_iff_eq]
  omega

theorem settled_returnClient (s : PipeState) (m n : Nat) : (s.returnClient m).settled n =
    s.settled n + if (s.acceptors m).handle = (s.acceptors n).handle then 1 else 0 := by
  simp only [settled, returnClient, List.count_append, List.count_singleton, beq_iff_eq]
  omega

theorem acceptors_taken (s : PipeState) (socket : PipeSocket) (data : PipeListenData)
    (hn : n < s.calls) : (s.takeInstance socket data).acceptors n = s.acceptors n :=
  Function.update_of_ne (Nat.ne_of_lt hn) ..

/-- The handle of a new call is neither closed nor returned yet. -/
theorem settled_taken (hi : s.Inv) (hsocket : s.socket = some socket) (data : PipeListenData) :
    (s.takeInstance socket data).settled s.calls = 0 := by
  have hnot := (hi.current socket hsocket).2.2
  have hhandle : ((s.takeInstance socket data).acceptors s.calls).handle = socket.handle := by
    simp [takeInstance]
  rw [settled, hhandle]
  refine Nat.add_eq_zero_iff.mpr ⟨List.count_eq_zero.mpr fun h => ?_, List.count_eq_zero.mpr fun h => ?_⟩
  · exact hnot (List.mem_append_left _ h)
  · exact hnot (List.mem_append_right _ h)

/-- The new call is over, and its handle was closed or returned. -/
theorem Exact.settle {s' : PipeState} (he : s.Exact) (hi : s.Inv) (hsocket : s.socket = some socket)
    (data : PipeListenData) (hframes : s'.frames = s.frames) (hcalls : s'.calls = s.calls + 1)
    (hacceptors : ∀ n < s.calls, s'.acceptors n = s.acceptors n)
    (hsettled : ∀ n ≤ s.calls, s'.settled n = (s.takeInstance socket data).settled n +
      if n = s.calls then 1 else 0)
    (hlist : ∃ socket' ns, s'.socket = some socket' ∧ s'.Lists socket' ns ∧ ∀ n, n ∈ ns ↔ s.Inside n) :
    s'.Exact := by
  have hinside : ∀ n, s'.Inside n ↔ s.Inside n := fun n => by rw [Inside, Inside, hframes]
  have hold : ∀ n < s.calls, s'.settled n = s.settled n := fun n hn => by
    rw [hsettled n (Nat.le_of_lt hn), if_neg (Nat.ne_of_lt hn), settled, acceptors_taken _ _ _ hn]
    rfl
  refine ⟨fun socket'' hsocket'' => ?_, fun n hn => ?_, fun n hn hout => ?_⟩
  · obtain ⟨socket', ns, hsocket', hns, hiff⟩ := hlist
    obtain rfl := Option.some.inj (hsocket'.symm.trans hsocket'')
    exact ⟨ns, hns, fun n => (hiff n).trans (hinside n).symm⟩
  · have hn' := (hinside n).mp hn
    rw [hold n (hi.calls n hn'), hacceptors n (hi.calls n hn')]
    exact he.inside n hn'
  · rw [hcalls] at hn
    rcases Nat.lt_succ_iff_lt_or_eq.mp hn with hlt | rfl
    · rw [hold n hlt]
      exact he.outside n hlt fun h => hout ((hinside n).mpr h)
    · rw [hsettled _ (Nat.le_refl _), settled_taken hi hsocket data, if_pos rfl]

/-- Two calls have the same client handle only when they are the same. -/
theorem handle_taken (hi : s.Inv) (hsocket : s.socket = some socket)
    (hdata : socket.listenData = some data) (hn : n ≤ s.calls) :
    ((s.takeInstance socket data).acceptors s.calls).handle =
      ((s.takeInstance socket data).acceptors n).handle ↔ n = s.calls := by
  refine ⟨fun h => ?_, fun h => h ▸ rfl⟩
  exact (hi.takeInstance hsocket hdata).distinct n (Nat.lt_succ_of_le hn) s.calls (Nat.lt_succ_self _)
    h.symm

/-- A new call keeps the promise unless it fails behind its registration. -/
theorem exact_accept_iff {s' : PipeState} {answers : AcceptAnswers} (he : s.Exact) (hi : s.Inv)
    (hsocket : s.socket = some socket) (hdata : socket.listenData = some data)
    (hnone : s.frames c = none) (heffect : AcceptEffect s c socket data answers s') :
    s'.Exact ↔ (answers.newInstance = .ok () ∧ answers.port = .ok () → ConnectOk answers.connect) := by
  obtain ⟨ns, hring, hall, hcalls, hring'⟩ := ring_taken hi hsocket hdata
  have hns : ∀ n, n ∈ ns ↔ s.Inside n := by
    obtain ⟨ns', hlist, hiff⟩ := he.list socket hsocket
    obtain rfl := hlist.unique ((lists_iff hdata).mpr hring)
    exact hiff
  have hcount : ∀ n ≤ s.calls, (if ((s.takeInstance socket data).acceptors s.calls).handle =
      ((s.takeInstance socket data).acceptors n).handle then 1 else 0) =
      if n = s.calls then 1 else 0 := fun n hn =>
    if_congr (handle_taken hi hsocket hdata hn) rfl rfl
  cases heffect with
  | noInstance hinstance =>
    exact iff_of_true he fun h => nomatch hinstance.symm.trans h.1
  | noPort hport =>
    refine iff_of_true ?_ fun h => nomatch hport.symm.trans h.2
    refine he.settle hi hsocket data rfl rfl (fun n hn => acceptors_taken s socket data hn) (fun n hn => ?_)
      ⟨_, ns, rfl, (lists_iff rfl).mpr hring, hns⟩
    rw [settled_closeClient, hcount n hn]
  | connects hok =>
    refine iff_of_true ?_ fun _ => hok
    have hremoved := ring_remove hring' (List.mem_append_right ns (List.mem_singleton_self _))
    have hnot : s.calls ∉ ns := fun h => Nat.lt_irrefl _ (hcalls _ h)
    rw [List.erase_append_right _ hnot, List.erase_cons_head, List.append_nil] at hremoved
    refine he.settle hi hsocket data rfl rfl (fun n hn => acceptors_taken s socket data hn) (fun n hn => ?_)
      ⟨_, ns, rfl, (lists_iff rfl).mpr hremoved, hns⟩
    rw [← hcount n hn]
    exact settled_returnClient _ _ _
  | fails hinstance hport hfails =>
    refine iff_of_false (fun he' => ?_) fun h => hfails (h ⟨hinstance, hport⟩)
    -- The record stays in the list.
    obtain ⟨ns', hlist, hiff⟩ := he'.list _ rfl
    have hsame := hlist.unique ((lists_iff rfl).mpr hring')
    have hin : s.Inside s.calls :=
      (hiff s.calls).mp (hsame ▸ List.mem_append_right ns (List.mem_singleton_self _))
    exact Nat.lt_irrefl _ (hi.calls _ hin)
  | waits f hcall hok =>
    refine iff_of_true ?_ fun _ => hok
    have hinside : ∀ n, (((s.takeInstance socket data).register s.calls).setFrame c (some f)).Inside n ↔
        s.Inside n ∨ n = s.calls := fun n => hcall ▸ inside_setFrame_some hnone
    have hold : ∀ n < s.calls,
        (((s.takeInstance socket data).register s.calls).setFrame c (some f)).settled n = s.settled n :=
      fun n hn => by
        show (s.takeInstance socket data).settled n = _
        rw [settled, acceptors_taken _ _ _ hn]
        rfl
    refine ⟨fun socket' hsocket' => ?_, fun n hn => ?_, fun n hn hout => ?_⟩
    · cases hsocket'
      refine ⟨ns ++ [s.calls], (lists_iff rfl).mpr hring', fun n => ?_⟩
      rw [List.mem_append, List.mem_singleton, hns n, hinside n]
    · rcases (hinside n).mp hn with hin | rfl
      · rw [hold n (hi.calls n hin)]
        show _ = if ((s.takeInstance socket data).acceptors n).cancelled then 1 else 0
        rw [acceptors_taken _ _ _ (hi.calls n hin)]
        exact he.inside n hin
      · rw [show (((s.takeInstance socket data).register s.calls).setFrame c (some f)).settled s.calls =
          0 from settled_taken hi hsocket data]
        simp [setFrame, register, takeInstance]
    · have hne : n ≠ s.calls := fun h => hout ((hinside n).mpr (.inr h))
      have hlt : n < s.calls := Nat.lt_of_le_of_ne (Nat.le_of_lt_succ hn) hne
      rw [hold n hlt]
      exact he.outside n hlt fun h => hout ((hinside n).mpr (.inl h))

/-- Two calls that wait or have returned have the same client handle only when they are the same. -/
theorem handle_iff (hi : s.Inv) {m : Nat} (hm : m < s.calls) (hn : n < s.calls) :
    (s.acceptors m).handle = (s.acceptors n).handle ↔ n = m :=
  ⟨fun h => (hi.distinct m hm n hn h).symm, fun h => h ▸ rfl⟩

/-- A call returns behind its wait, in a state that differs in the links and in what happened to its
handle. -/
theorem Exact.return {s' : PipeState} (he : s.Exact) (hi : s.Inv) (hf : s.frames c = some f)
    (hframes : s'.frames = Function.update s.frames c none) (hcalls : s'.calls = s.calls)
    (hacceptors : s'.acceptors = s.acceptors)
    (hother : ∀ n < s.calls, n ≠ f.call → s'.settled n = s.settled n) (hown : s'.settled f.call = 1)
    (hlist : ∀ socket, s'.socket = some socket →
      ∃ ns, s'.Lists socket ns ∧ ∀ n, n ∈ ns ↔ s.Inside n ∧ n ≠ f.call) : s'.Exact := by
  have hinside : ∀ n, s'.Inside n ↔ s.Inside n ∧ n ≠ f.call := fun n => by
    rw [← inside_setFrame_none hi hf, Inside, Inside, hframes]
    rfl
  refine ⟨fun socket hsocket => ?_, fun n hn => ?_, fun n hn hout => ?_⟩
  · obtain ⟨ns, hns, hiff⟩ := hlist socket hsocket
    exact ⟨ns, hns, fun n => (hiff n).trans (hinside n).symm⟩
  · obtain ⟨hin, hne⟩ := (hinside n).mp hn
    rw [hother n (hi.calls n hin) hne, hacceptors]
    exact he.inside n hin
  · rw [hcalls] at hn
    by_cases hne : n = f.call
    · rw [hne, hown]
    · rw [hother n hn hne]
      exact he.outside n hn fun h => hout ((hinside n).mpr ⟨h, hne⟩)

/-- A call that is resumed keeps the promise unless it fails without having been cancelled, or returns the
handle that was closed. -/
theorem exact_resume_iff {s' : PipeState} {overlapped : Except Nat Unit} (he : s.Exact) (hi : s.Inv)
    (hf : s.frames c = some f) (heffect : ResumeEffect s c f overlapped s') :
    s'.Exact ↔ (Fails f overlapped → (s.acceptors f.call).cancelled = true) ∧
      (¬Fails f overlapped → (s.acceptors f.call).cancelled = true → hasError f.error = false) := by
  have hin : s.Inside f.call := ⟨c, f, hf, rfl⟩
  have hn := hi.calls _ hin
  have hsettled := he.inside _ hin
  -- Only the calls of a pipe that was closed are cancelled.
  have hclosed : (s.acceptors f.call).cancelled = true → s.socket = none := by
    intro hcancelled
    by_contra hopen
    exact nomatch (hi.waiting hopen _ hin).symm.trans hcancelled
  cases heffect with
  | fails hfails hcancelled =>
    refine iff_of_false (fun he' => ?_) fun h => nomatch hcancelled.symm.trans (h.1 hfails)
    -- The record stays in the list.
    have hopen : s.socket ≠ none := fun hnone => nomatch hcancelled.symm.trans (hi.cancelled hnone _ hin)
    obtain ⟨socket, hsocket⟩ := Option.ne_none_iff_exists'.mp hopen
    obtain ⟨ns, hlist, hiff⟩ := he.list socket hsocket
    obtain ⟨ns', hlist', hiff'⟩ := he'.list socket hsocket
    obtain rfl := Lists.unique (s := s) hlist hlist'
    exact ((inside_setFrame_none hi hf).mp ((hiff' _).mp ((hiff _).mpr hin))).2 rfl
  | failsCancelled hfails hcancelled =>
    refine iff_of_true ?_ ⟨fun _ => hcancelled, fun h => absurd hfails h⟩
    rw [hcancelled] at hsettled
    refine he.return hi hf rfl rfl rfl (fun _ _ _ => rfl) hsettled fun socket hsocket => ?_
    exact nomatch (hclosed hcancelled).symm.trans hsocket
  | connects hok hcancelled =>
    refine iff_of_true ?_ ⟨fun h => absurd h hok, fun _ h => nomatch hcancelled.symm.trans h⟩
    rw [hcancelled] at hsettled
    refine he.return hi hf rfl rfl rfl (fun m hm hne => ?_) ?_ fun socket hsocket => ?_
    · rw [settled_returnClient]
      show s.settled m + (if (s.acceptors f.call).handle = (s.acceptors m).handle then 1 else 0) = _
      rw [if_neg (mt (handle_iff hi hn hm).mp hne)]
      rfl
    · rw [settled_returnClient, if_pos rfl]
      exact congrArg (· + 1) hsettled
    · have hsocket' : s.socket = some socket := hsocket
      obtain ⟨ns, hlist, hiff⟩ := he.list socket hsocket'
      refine ⟨ns.erase f.call, hlist.remove ((hiff _).mpr hin), fun m => ?_⟩
      rw [hlist.nodup.mem_erase_iff, hiff m, and_comm]
  | cancelled hok hcancelled herror =>
    refine iff_of_true ?_ ⟨fun h => absurd h hok, fun _ _ => herror⟩
    rw [hcancelled] at hsettled
    refine he.return hi hf rfl rfl rfl (fun _ _ _ => rfl) hsettled fun socket hsocket => ?_
    exact nomatch (hclosed hcancelled).symm.trans hsocket
  | returnsClosed hok hcancelled herror =>
    refine iff_of_false (fun he' => ?_) fun h => nomatch herror.symm.trans (h.2 hok hcancelled)
    -- The handle was closed, and is returned.
    rw [hcancelled, if_pos rfl] at hsettled
    have hout := he'.outside f.call hn fun h => ((inside_setFrame_none hi hf).mp h).2 rfl
    rw [settled_returnClient, if_pos rfl] at hout
    have hsame : ((s.setFrame c none).unregister f.call).settled f.call = 1 := hsettled
    omega

/-- `bio_net_pipe_close` keeps the promise. -/
theorem Exact.close (he : s.Exact) (hi : s.Inv) : s.netPipeClose.Exact := by
  cases hsocket : s.socket with
  | none =>
    rw [netPipeClose, hsocket]
    exact he
  | some socket =>
    obtain ⟨ns, links, hlist, hnodup, hall, hcalls, heq⟩ := netPipeClose_eq hi hsocket
    obtain ⟨ns', hlist', hiff⟩ := he.list socket hsocket
    obtain rfl := hlist.unique hlist'
    have hother := (hi.current socket hsocket).2.1
    have hhandles := netPipeClose_handle hi
    have hnodup' : (ns.map fun n => (s.acceptors n).handle).Nodup :=
      hnodup.map_on fun m hm n hn h => hi.distinct m (hcalls m hm) n (hcalls n hn) h
    have hsettled : ∀ n < s.calls, s.netPipeClose.settled n = s.settled n + if n ∈ ns then 1 else 0 := by
      intro n hn
      have hlast : List.count (s.acceptors n).handle [socket.handle] = 0 :=
        List.count_eq_zero.mpr fun h => hother n hn (List.mem_singleton.mp h)
      have hmap : List.count (s.acceptors n).handle (ns.map fun n => (s.acceptors n).handle) =
          if n ∈ ns then 1 else 0 := by
        split
        · next hmem => exact List.count_eq_one_of_mem hnodup' (List.mem_map_of_mem hmem)
        · next hmem =>
          refine List.count_eq_zero.mpr fun h => hmem ?_
          obtain ⟨m, hm, h⟩ := List.mem_map.mp h
          exact hi.distinct m (hcalls m hm) n hn h ▸ hm
      rw [settled, hhandles, heq]
      simp only [List.count_append, hlast, hmap, settled]
      omega
    have hinside : ∀ n, s.netPipeClose.Inside n ↔ s.Inside n := fun n => by
      rw [heq]
      rfl
    refine ⟨fun socket' hsocket' => ?_, fun n hn => ?_, fun n hn hout => ?_⟩
    · rw [heq] at hsocket'
      cases hsocket'
    · have hin := (hinside n).mp hn
      have hmem := (hiff n).mpr hin
      have hcancelled : (s.netPipeClose.acceptors n).cancelled = true := by
        rw [heq]
        simp only [hmem, if_true]
      have hbefore := he.inside n hin
      rw [hi.waiting (by rw [hsocket]; nofun) n hin] at hbefore
      rw [hsettled n (hi.calls n hin), hbefore, if_pos hmem, hcancelled]
      rfl
    · have hn' : n < s.calls := by
        rw [heq] at hn
        exact hn
      have hnot : ¬s.Inside n := fun h => hout ((hinside n).mpr h)
      rw [hsettled n hn', if_neg (mt (hiff n).mp hnot)]
      exact he.outside n hn' hnot

theorem Exact.complete (he : s.Exact) (c : Handle) : (s.perform (.complete c)).Exact := by
  refine ⟨fun socket hsocket => ?_, fun n hn => he.inside n ((inside_complete s c).mp hn),
    fun n hn hout => he.outside n hn fun h => hout ((inside_complete s c).mpr h)⟩
  obtain ⟨ns, hlist, hiff⟩ := he.list socket hsocket
  exact ⟨ns, hlist, fun n => (hiff n).trans (inside_complete s c).symm⟩

/-- A step keeps the promise exactly when it meets the guard. -/
theorem exact_step_iff (he : s.Exact) (hi : s.Inv) {a : PipeAction} (hen : machine.enabled s a) :
    (machine.perform s a).Exact ↔ s.AcceptOk a := by
  cases a with
  | accept c error answers =>
    rcases accept_cases hi c error answers with ⟨heq, hnot⟩ |
      ⟨s₁, socket, data, hsocket, hdata, hframes, hi₁, he₁, hconnects, heffect⟩
    · refine iff_of_true ?_ fun h => absurd h hnot
      show (s.netPipeAccept c error answers).1.Exact
      rw [heq]
      exact he
    · rw [AcceptOk, hconnects]
      exact exact_accept_iff (he₁ he) hi₁ hsocket hdata ((congrFun hframes c).trans hen) heffect
  | complete c => exact iff_of_true (he.complete c) trivial
  | resume c overlapped =>
    obtain ⟨f, hf, _⟩ := (Option.any_eq_true ..).mp hen
    have heq : machine.perform s (.resume c overlapped) = (s.resumeAccept c f overlapped).1 := by
      show s.perform (.resume c overlapped) = _
      rw [perform, hf]
    rw [heq, exact_resume_iff he hi hf (resumeAccept_effect s c f overlapped)]
    constructor
    · intro h f' hf'
      obtain rfl := Option.some.inj (hf.symm.trans hf')
      exact h
    · exact fun h => h f hf
  | close => exact iff_of_true (he.close hi) trivial

theorem exact_init : init.Exact := by
  have hnone : ∀ n, ¬init.Inside n := fun n ⟨_, _, hf, _⟩ => nomatch hf
  refine ⟨fun socket hsocket => ?_, fun n hn => absurd hn (hnone n), nofun⟩
  cases hsocket
  exact ⟨[], rfl, fun n => iff_of_false nofun (hnone n)⟩

/-- In every run, as long as the pipe is open its list has exactly the records of the calls that wait, and
every client handle is closed once or returned once, exactly when no call fails behind its registration
unless it was cancelled, and none that was cancelled returns a client because its `error` was set before. -/
theorem acceptors_exact_iff {as : List PipeAction} (hl : machine.Legal init as) :
    (∀ bs, bs <+: as → (machine.run init bs).Exact) ↔ (machine.restrict AcceptOk).Legal init as := by
  have hiff := Machine.always_step_iff (M := machine) (Q := AcceptOk) (K := fun _ _ => True) (P := Exact)
    rfl exact_init
    (fun _ _ hr he hen hok => ⟨trivial, (exact_step_iff he (inv_of_reachable hr) hen).mpr hok⟩)
    (fun _ _ hr he hen _ he' => (exact_step_iff he (inv_of_reachable hr) hen).mp he') hl
  exact ⟨fun h => hiff.mp ⟨fun _ _ _ => trivial, h⟩, fun h => (hiff.mpr h).2⟩

/-- A call that gets to `ConnectNamedPipe`, and the answer there. -/
def acceptOne (connect : Except Nat Unit) : PipeAction :=
  .accept ⟨1, 1⟩ none ⟨.ok ⟨false, []⟩, .ok (), true, .ok (), connect⟩

/-- A client connects to a call that waits for it, and the pipe is closed. -/
def acceptPending : List PipeAction :=
  [acceptOne (.error errorIoPending), .complete ⟨1, 1⟩, .resume ⟨1, 1⟩ (.ok ()), .close]

theorem acceptors_exact_iff_pending :
    (machine.run init acceptPending).returned = [0] ∧ (machine.run init acceptPending).closed = [1] ∧
    ((∀ bs, bs <+: acceptPending → (machine.run init bs).Exact) ↔
      (machine.restrict AcceptOk).Legal init acceptPending) ∧
    (machine.restrict AcceptOk).Legal init acceptPending := by
  have haccept : init.AcceptOk (acceptOne (.error errorIoPending)) := fun _ e he =>
    .inl (Except.error.inj he).symm
  have hresume : ∀ s : PipeState, (∀ f ∈ s.frames ⟨1, 1⟩, (s.acceptors f.call).cancelled = false) →
      s.AcceptOk (.resume ⟨1, 1⟩ (.ok ())) := by
    intro s hs f hf
    refine ⟨?_, fun _ h => nomatch (hs f hf).symm.trans h⟩
    rintro ⟨_, _, h, _⟩
    cases h
  refine ⟨by decide +kernel, by decide +kernel, acceptors_exact_iff (by decide +kernel), ?_⟩
  exact ⟨⟨by decide +kernel, haccept⟩, ⟨by decide +kernel, trivial⟩,
    ⟨by decide +kernel, hresume _ (by decide +kernel)⟩, ⟨trivial, trivial⟩, trivial⟩

/-- The call fails at once with `ERROR_NO_DATA`, and the pipe is closed. -/
def acceptRefused : List PipeAction := [acceptOne (.error 232), .close]

/-- Behind the call that fails the list has its record, and `bio_net_pipe_close` closes its handle
again. -/
theorem accept_leaves_record :
    machine.Legal init acceptRefused ∧
    (machine.run init (acceptRefused.take 1)).frames ⟨1, 1⟩ = none ∧
    (machine.run init (acceptRefused.take 1)).links.next .acceptors = some (.record 0) ∧
    (machine.run init acceptRefused).closed = [0, 0, 1] ∧
    ¬∀ bs, bs <+: acceptRefused → (machine.run init bs).Exact := by
  refine ⟨by decide +kernel, by decide +kernel, by decide +kernel, by decide +kernel, fun h => ?_⟩
  have hexact := h acceptRefused List.prefix_rfl
  have hnone : ¬(machine.run init acceptRefused).Inside 0 := by
    rintro ⟨c, f, hf, _⟩
    cases hf
  exact absurd (hexact.outside 0 (by decide +kernel) hnone) (by decide +kernel)

end PipeState

end Bio
