import Bio.Handle
import Mathlib.Data.BitVec

/-!
# The completion ring on Linux

`bio_drain_io_completions`, `bio_platform_poll_signal` and `bio_acquire_io_req` of
`src/linux/platform.c`. They call each other: an exit signal makes the drain acquire an entry of the
submission ring, and when that ring is full, acquiring one submits and drains.

* The rings are those of liburing. `io_uring_get_sqe` fails when the submission ring is full,
  submitting empties it, and `io_uring_for_each_cqe` walks from the head to the tail. The head and the
  tail of the completion ring are wrapping counters.
* The kernel completes entries only while the program is in `io_uring_enter`. `upcoming` holds what it
  will do in the calls to come.
* What a completion does to the rest of the program (`IoHandlers`) does not touch the rings.
* The recursion is on fuel, since it need not end.
* `dispatched` is a ghost: the completions that were dispatched, in their order.

Result: `drain_once_iff`.
-/

namespace Bio

/-- An entry of the submission ring, by what its user data and its buffer refer to. -/
inductive IoEntry
  /-- a request of the coroutine, from one of its calls of `bio_submit_io_req` -/
  | request (coro : Handle) (call : Nat)
  /-- the read of `bio_platform_poll_signal` -/
  | signalPoll
  /-- the futex wait of `bio_platform_update` -/
  | futexWait
  /-- the eventfd read of a call of `bio_platform_update` -/
  | eventfdRead (update : Nat)
deriving DecidableEq, Repr

/-- `struct io_uring_cqe`. -/
structure Cqe where
  entry : IoEntry
  res : Int
  flags : BitVec 32
deriving DecidableEq, Repr

/-- What a completion does to the rest of the program. -/
structure IoHandlers (σ : Type*) where
  /-- the result is stored in the request and its signal is raised -/
  complete : σ → Handle → Nat → Cqe → σ
  /-- `bio_handle_exit_signal` -/
  handleExitSignal : σ → σ

/-- The rings, `signal_polled` and the rest of the program. -/
structure IoRing (σ : Type*) where
  sqEntries : Nat
  /-- the entries that were acquired and not submitted yet -/
  sq : List IoEntry
  /-- the entries that the kernel has -/
  inFlight : List IoEntry
  cqEntries : Nat
  cqEntries_lt : cqEntries < 2 ^ 32
  cqEntries_dvd : cqEntries ∣ 2 ^ 32
  khead : BitVec 32
  ktail : BitVec 32
  cqes : Nat → Cqe
  signalPolled : Bool
  rest : σ
  upcoming : List (List Cqe)
  dispatched : List Cqe

namespace IoRing

/-- A completion ring of two entries. -/
theorem two_lt : 2 < 2 ^ 32 := by decide

theorem two_dvd : 2 ∣ 2 ^ 32 := by decide

variable {σ : Type*}

/-- `io_uring_get_sqe` succeeds. -/
def hasRoom (s : IoRing σ) : Bool := s.sq.length < s.sqEntries

def pushSqe (s : IoRing σ) (entry : IoEntry) : IoRing σ := { s with sq := s.sq ++ [entry] }

/-- `io_uring_cq_ready`. -/
def ready (s : IoRing σ) : Nat := (s.ktail - s.khead).toNat

/-- The completion at a position of the ring. -/
def cqe (s : IoRing σ) (position : BitVec 32) : Cqe := s.cqes (position.toNat % s.cqEntries)

/-- The `n` completions from a position on. -/
def walk (s : IoRing σ) (position : BitVec 32) : Nat → List Cqe
  | 0 => []
  | n + 1 => s.cqe position :: walk s (position + 1) n

/-- The completions that are available. -/
def available (s : IoRing σ) : List Cqe := s.walk s.khead s.ready

/-- `io_uring_cq_advance`. -/
def cqAdvance (s : IoRing σ) (n : Nat) : IoRing σ := { s with khead := s.khead + BitVec.ofNat 32 n }

/-- The kernel completes an entry, if there is room in the completion ring. -/
def post (s : IoRing σ) (cqe : Cqe) : IoRing σ :=
  if cqe.entry ∈ s.inFlight ∧ s.ready < s.cqEntries then
    { s with
      inFlight := s.inFlight.erase cqe.entry
      cqes := Function.update s.cqes (s.ktail.toNat % s.cqEntries) cqe
      ktail := s.ktail + 1 }
  else s

/-- The entries are handed to the kernel. -/
def submit (s : IoRing σ) : IoRing σ := { s with sq := [], inFlight := s.inFlight ++ s.sq }

/-- The kernel does the next thing of `upcoming`. -/
def getEvents (s : IoRing σ) : IoRing σ :=
  match s.upcoming with
  | [] => s
  | events :: upcoming => events.foldl post { s with upcoming := upcoming }

/-- `io_uring_submit_and_get_events`. -/
def submitAndGetEvents (s : IoRing σ) : IoRing σ := s.submit.getEvents

/-- `bio_platform_poll_signal`. -/
def pollSignal (acquireIoReq : IoRing σ → Option (IoRing σ)) (s : IoRing σ) : Option (IoRing σ) :=
  if s.signalPolled then some s
  else (acquireIoReq s).map fun s => { s.pushSqe .signalPoll with signalPolled := true }

variable (h : IoHandlers σ)

/-- The body of the loop of `bio_drain_io_completions`. -/
def dispatch (acquireIoReq : IoRing σ → Option (IoRing σ)) (s : IoRing σ) (cqe : Cqe) :
    Option (IoRing σ) :=
  let s := { s with dispatched := s.dispatched ++ [cqe] }
  match cqe.entry with
  | .signalPoll =>
    (pollSignal acquireIoReq { s with signalPolled := false }).map fun s =>
      { s with rest := h.handleExitSignal s.rest }
  | .request coro call => some { s with rest := h.complete s.rest coro call cqe }
  -- The user data is `NULL`.
  | .futexWait | .eventfdRead _ => some s

mutual

/-- The loop of `bio_drain_io_completions` and what follows it. -/
def drainLoop : Nat → IoRing σ → BitVec 32 → Nat → Option (IoRing σ)
  | 0, _, _, _ => none
  | fuel + 1, s, head, i =>
    if head = s.ktail then some (s.cqAdvance i)
    else
      match s.dispatch h (acquireIoReq fuel) (s.cqe head) with
      | some s => drainLoop fuel s (head + 1) (i + 1)
      | none => none

/-- `bio_acquire_io_req`, without the entry that it returns. -/
def acquireIoReq : Nat → IoRing σ → Option (IoRing σ)
  | 0, s => if s.hasRoom then some s else none
  | fuel + 1, s =>
    if s.hasRoom then some s
    else
      match drainLoop fuel s.submitAndGetEvents s.submitAndGetEvents.khead 0 with
      | some s => acquireIoReq fuel s
      | none => none

end

/-- `bio_drain_io_completions`. -/
def drainIoCompletions (fuel : Nat) (s : IoRing σ) : Option (IoRing σ) := drainLoop h fuel s s.khead 0

/-! ## Drains that do not re-enter -/

section Drain

variable {h : IoHandlers σ} {s t : IoRing σ} {head : BitVec 32}

/-- The completions of reads of the signalfd. -/
def exitSignals (cqes : List Cqe) : Nat := cqes.countP fun cqe => cqe.entry = .signalPoll

/-- The reads of the signalfd that have not completed. -/
def polls (s : IoRing σ) : Nat := (s.sq ++ s.inFlight).count .signalPoll

/-- The body of the loop when there is room in the submission ring. -/
def handle (h : IoHandlers σ) (s : IoRing σ) (cqe : Cqe) : IoRing σ :=
  let s := { s with dispatched := s.dispatched ++ [cqe] }
  match cqe.entry with
  | .signalPoll =>
    { s.pushSqe .signalPoll with signalPolled := true, rest := h.handleExitSignal s.rest }
  | .request coro call => { s with rest := h.complete s.rest coro call cqe }
  | .futexWait | .eventfdRead _ => s

/-- What a completion leaves alone when there is room. -/
structure SameRing (s t : IoRing σ) : Prop where
  sqEntries : t.sqEntries = s.sqEntries
  inFlight : t.inFlight = s.inFlight
  cqEntries : t.cqEntries = s.cqEntries
  khead : t.khead = s.khead
  ktail : t.ktail = s.ktail
  cqes : t.cqes = s.cqes
  upcoming : t.upcoming = s.upcoming

theorem SameRing.trans {u : IoRing σ} (hst : SameRing s t) (htu : SameRing t u) : SameRing s u where
  sqEntries := htu.sqEntries.trans hst.sqEntries
  inFlight := htu.inFlight.trans hst.inFlight
  cqEntries := htu.cqEntries.trans hst.cqEntries
  khead := htu.khead.trans hst.khead
  ktail := htu.ktail.trans hst.ktail
  cqes := htu.cqes.trans hst.cqes
  upcoming := htu.upcoming.trans hst.upcoming

theorem walk_congr (hcqes : t.cqes = s.cqes) (hentries : t.cqEntries = s.cqEntries)
    (position : BitVec 32) (n : Nat) : t.walk position n = s.walk position n := by
  induction n generalizing position with
  | zero => rfl
  | succ n ih => rw [walk, walk, ih, cqe, cqe, hcqes, hentries]

theorem SameRing.walk (hst : SameRing s t) (position : BitVec 32) (n : Nat) :
    t.walk position n = s.walk position n := walk_congr hst.cqes hst.cqEntries position n

theorem sameRing_handle (h : IoHandlers σ) (s : IoRing σ) (cqe : Cqe) : SameRing s (s.handle h cqe) := by
  unfold handle
  dsimp only
  split <;> exact ⟨rfl, rfl, rfl, rfl, rfl, rfl, rfl⟩

theorem handle_dispatched (h : IoHandlers σ) (s : IoRing σ) (cqe : Cqe) :
    (s.handle h cqe).dispatched = s.dispatched ++ [cqe] := by
  unfold handle
  dsimp only
  split <;> rfl

/-- An exit signal takes an entry of the submission ring. -/
theorem handle_sq (h : IoHandlers σ) (s : IoRing σ) (cqe : Cqe) :
    (s.handle h cqe).sq = s.sq ++ List.replicate (exitSignals [cqe]) .signalPoll := by
  unfold handle exitSignals
  dsimp only
  split
  · next heq => simp [heq, pushSqe]
  · next heq => simp [heq]
  · next heq => simp [heq]
  · next heq => simp [heq]

theorem dispatch_room {acquireIoReq : IoRing σ → Option (IoRing σ)} {cqe : Cqe}
    (hacquire : ∀ s : IoRing σ, s.hasRoom = true → acquireIoReq s = some s)
    (hroom : cqe.entry = .signalPoll → s.hasRoom = true) :
    s.dispatch h acquireIoReq cqe = some (s.handle h cqe) := by
  unfold dispatch handle
  cases hentry : cqe.entry with
  | signalPoll =>
    have hroom' := hacquire { s with dispatched := s.dispatched ++ [cqe], signalPolled := false }
      (hroom hentry)
    simp only [pollSignal, hroom', Bool.false_eq_true, if_false, Option.map_some]
    rfl
  | request coro call => rfl
  | futexWait => rfl
  | eventfdRead update => rfl

theorem acquire_room (h : IoHandlers σ) (fuel : Nat) (hroom : s.hasRoom = true) :
    s.acquireIoReq h fuel = some s := by
  cases fuel <;> rw [acquireIoReq, if_pos hroom]

theorem toNat_sub_succ {a b : BitVec 32} {n : Nat} (hn : (a - b).toNat = n + 1) :
    (a - (b + 1)).toNat = n := by
  bv_omega

theorem ne_of_toNat_sub {a b : BitVec 32} {n : Nat} (hn : (a - b).toNat = n + 1) : b ≠ a := by
  rintro rfl
  simp at hn

theorem exitSignals_cons (cqe : Cqe) (cqes : List Cqe) :
    exitSignals (cqe :: cqes) = exitSignals [cqe] + exitSignals cqes := by
  rw [← List.singleton_append, exitSignals, List.countP_append]
  rfl

theorem exitSignals_walk (s : IoRing σ) (head : BitVec 32) (n : Nat) :
    exitSignals (s.walk head (n + 1)) =
      exitSignals [s.cqe head] + exitSignals (s.walk (head + 1) n) := exitSignals_cons ..

/-- When the exit signals find room in the submission ring, the loop handles one completion after the
other and stops at the tail. -/
theorem drainLoop_room {n : Nat} (hn : (s.ktail - head).toNat = n) (i : Nat)
    (hroom : 0 < exitSignals (s.walk head n) →
      s.sq.length + exitSignals (s.walk head n) ≤ s.sqEntries) (fuel : Nat) :
    drainLoop h fuel s head i =
      if n < fuel then some (((s.walk head n).foldl (handle h) s).cqAdvance (i + n)) else none := by
  induction fuel generalizing s head i n with
  | zero => rfl
  | succ fuel ih =>
    cases n with
    | zero =>
      have heq : head = s.ktail := by bv_omega
      rw [drainLoop, if_pos heq, if_pos (Nat.succ_pos fuel)]
      rfl
    | succ n =>
      have hsame := sameRing_handle h s (s.cqe head)
      have hcount := exitSignals_walk s head n
      have hdispatch : s.dispatch h (acquireIoReq h fuel) (s.cqe head) =
          some (s.handle h (s.cqe head)) := by
        refine dispatch_room (fun s hs => acquire_room h fuel hs) fun hentry => ?_
        have hone : exitSignals [s.cqe head] = 1 := by simp [exitSignals, hentry]
        exact decide_eq_true (by omega)
      have hn' : ((s.handle h (s.cqe head)).ktail - (head + 1)).toNat = n := by
        rw [hsame.ktail]
        exact toNat_sub_succ hn
      rw [drainLoop, if_neg (ne_of_toNat_sub hn), hdispatch]
      dsimp only
      rw [ih hn' (i + 1) ?_, hsame.walk, Nat.add_right_comm]
      · simp only [Nat.succ_lt_succ_iff]
        rfl
      · rw [hsame.walk, handle_sq, hsame.sqEntries, List.length_append, List.length_replicate]
        omega

theorem sameRing_foldl (h : IoHandlers σ) (cqes : List Cqe) (s : IoRing σ) :
    SameRing s (cqes.foldl (handle h) s) := by
  induction cqes generalizing s with
  | nil => exact ⟨rfl, rfl, rfl, rfl, rfl, rfl, rfl⟩
  | cons cqe cqes ih => exact (sameRing_handle h s cqe).trans (ih _)

theorem foldl_dispatched (h : IoHandlers σ) (cqes : List Cqe) (s : IoRing σ) :
    (cqes.foldl (handle h) s).dispatched = s.dispatched ++ cqes := by
  induction cqes generalizing s with
  | nil => simp
  | cons cqe cqes ih =>
    rw [List.foldl_cons, ih, handle_dispatched, List.append_assoc]
    rfl

theorem handle_polls (h : IoHandlers σ) (s : IoRing σ) (cqe : Cqe) :
    (s.handle h cqe).polls = s.polls + exitSignals [cqe] := by
  rw [polls, handle_sq, (sameRing_handle h s cqe).inFlight, polls]
  simp only [List.count_append, List.count_replicate_self]
  omega

theorem foldl_polls (h : IoHandlers σ) (cqes : List Cqe) (s : IoRing σ) :
    (cqes.foldl (handle h) s).polls = s.polls + exitSignals cqes := by
  induction cqes generalizing s with
  | nil => rfl
  | cons cqe cqes ih =>
    rw [List.foldl_cons, ih, handle_polls, exitSignals_cons cqe cqes, Nat.add_assoc]

/-! ## Drains that re-enter -/

/-- The ways through the body of the loop. -/
theorem dispatch_cases {acquireIoReq : IoRing σ → Option (IoRing σ)} {cqe : Cqe}
    (ht : s.dispatch h acquireIoReq cqe = some t) :
    (cqe.entry = .signalPoll ∧ ∃ u,
      acquireIoReq { s with dispatched := s.dispatched ++ [cqe], signalPolled := false } = some u ∧
        t = { u.pushSqe .signalPoll with signalPolled := true, rest := h.handleExitSignal u.rest }) ∨
    (∃ coro call, cqe.entry = .request coro call ∧
      t = { s with dispatched := s.dispatched ++ [cqe], rest := h.complete s.rest coro call cqe }) ∨
    (cqe.entry ≠ .signalPoll ∧ t = { s with dispatched := s.dispatched ++ [cqe] }) := by
  unfold dispatch at ht
  cases hentry : cqe.entry with
  | signalPoll =>
    simp only [hentry, pollSignal, Bool.false_eq_true, if_false, Option.map_map,
      Option.map_eq_some_iff] at ht
    obtain ⟨u, hu, rfl⟩ := ht
    exact .inl ⟨rfl, u, hu, rfl⟩
  | request coro call =>
    simp only [hentry, Option.some.injEq] at ht
    exact .inr (.inl ⟨coro, call, rfl, ht.symm⟩)
  | _ =>
    simp only [hentry, Option.some.injEq] at ht
    exact .inr (.inr ⟨by simp, ht.symm⟩)

/-- A completion adds itself to what was dispatched. -/
theorem dispatch_grows {acquireIoReq : IoRing σ → Option (IoRing σ)} {cqe : Cqe}
    (hacquire : ∀ s t, acquireIoReq s = some t → s.dispatched.length ≤ t.dispatched.length)
    (ht : s.dispatch h acquireIoReq cqe = some t) : s.dispatched.length < t.dispatched.length := by
  rcases dispatch_cases ht with ⟨_, u, hu, rfl⟩ | ⟨_, _, _, rfl⟩ | ⟨_, rfl⟩
  · have hlen := hacquire _ u hu
    rw [List.length_append] at hlen
    exact hlen
  · simp
  · simp

theorem post_dispatched (s : IoRing σ) (cqe : Cqe) : (s.post cqe).dispatched = s.dispatched := by
  unfold post
  split <;> rfl

/-- What the submission and every new completion keep, `io_uring_submit_and_get_events` keeps. -/
theorem submit_induction {P : IoRing σ → Prop} (hpost : ∀ s cqe, P s → P (s.post cqe))
    (hsubmit : ∀ upcoming, P { s.submit with upcoming := upcoming }) : P s.submitAndGetEvents := by
  unfold submitAndGetEvents getEvents
  split
  · exact hsubmit _
  · next events upcoming _ =>
    exact List.foldlRecOn (motive := P) events post (hsubmit upcoming) fun t ht cqe _ => hpost t cqe ht

theorem submit_dispatched (s : IoRing σ) : s.submitAndGetEvents.dispatched = s.dispatched :=
  submit_induction (P := fun t => t.dispatched = s.dispatched)
    (fun t cqe ht => (post_dispatched t cqe).trans ht) fun _ => rfl

/-- The kernel does not let the tail run into the head. -/
theorem post_ne (hne : s.khead ≠ s.ktail) (cqe : Cqe) : (s.post cqe).khead ≠ (s.post cqe).ktail := by
  unfold post
  split
  · next hpost =>
    have hlt := hpost.2
    have hcq := s.cqEntries_lt
    unfold ready at hlt
    show s.khead ≠ s.ktail + 1
    bv_omega
  · exact hne

theorem submit_ne (hne : s.khead ≠ s.ktail) :
    s.submitAndGetEvents.khead ≠ s.submitAndGetEvents.ktail :=
  submit_induction (P := fun t => t.khead ≠ t.ktail) (fun _ cqe ht => post_ne ht cqe) fun _ => hne

/-- The induction over a drain and the drains in it. `L` relates the state at a head of the loop to its end, and
`A` the two ends of an acquisition. -/
theorem drain_induction {L : IoRing σ → IoRing σ → BitVec 32 → Prop} {A : IoRing σ → IoRing σ → Prop}
    (hdone : ∀ s i, L s (s.cqAdvance i) s.ktail)
    (hround : ∀ s u t head acquireIoReq, (∀ x y, acquireIoReq x = some y → A x y) →
      s.dispatch h acquireIoReq (s.cqe head) = some u → L u t (head + 1) → L s t head)
    (hroom : ∀ s, A s s)
    (hdrain : ∀ s u t, L s.submitAndGetEvents u s.submitAndGetEvents.khead → A u t → A s t)
    (fuel : Nat) :
    (∀ s t head i, drainLoop h fuel s head i = some t → L s t head) ∧
      ∀ s t, acquireIoReq h fuel s = some t → A s t := by
  induction fuel with
  | zero =>
    refine ⟨fun s t head i ht => ?_, fun s t ht => ?_⟩
    · rw [drainLoop] at ht
      cases ht
    · rw [acquireIoReq] at ht
      split at ht
      · cases ht
        exact hroom s
      · cases ht
  | succ fuel ih =>
    obtain ⟨ihloop, ihacquire⟩ := ih
    refine ⟨fun s t head i ht => ?_, fun s t ht => ?_⟩
    · rw [drainLoop] at ht
      split at ht
      · next heq =>
        cases ht
        exact heq ▸ hdone s i
      · split at ht
        · next u hu => exact hround s u t head _ ihacquire hu (ihloop u t _ _ ht)
        · cases ht
    · rw [acquireIoReq] at ht
      split at ht
      · cases ht
        exact hroom s
      · split at ht
        · next u hu => exact hdrain s u t (ihloop _ u _ _ hu) (ihacquire u t ht)
        · cases ht

/-- Each round of the loop dispatches a completion, and acquiring an entry undoes none. -/
theorem grows (h : IoHandlers σ) (fuel : Nat) :
    (∀ s t : IoRing σ, ∀ head i, drainLoop h fuel s head i = some t →
      s.dispatched.length + (t.ktail - head).toNat ≤ t.dispatched.length) ∧
    ∀ s t : IoRing σ, acquireIoReq h fuel s = some t → s.dispatched.length ≤ t.dispatched.length := by
  refine drain_induction
    (L := fun s t head => s.dispatched.length + (t.ktail - head).toNat ≤ t.dispatched.length)
    (A := fun s t => s.dispatched.length ≤ t.dispatched.length)
    (fun s i => ?_) (fun s u t head acquireIoReq hacquire hu hmore => ?_) (fun s => Nat.le_refl _)
    (fun s u t hloop hrest => ?_) fuel
  · simp [cqAdvance]
  · have hone := dispatch_grows hacquire hu
    bv_omega
  · rw [submit_dispatched] at hloop
    exact Nat.le_trans (Nat.le_trans (Nat.le_add_right _ _) hloop) hrest

/-- A loop that finds a completion dispatches it. -/
theorem drainLoop_grows {fuel i : Nat} (hne : head ≠ s.ktail)
    (ht : drainLoop h fuel s head i = some t) : s.dispatched.length < t.dispatched.length := by
  cases fuel with
  | zero =>
    rw [drainLoop] at ht
    cases ht
  | succ fuel =>
    rw [drainLoop, if_neg hne] at ht
    split at ht
    · next u hu =>
      have hone := dispatch_grows (grows h fuel).2 hu
      have hmore := (grows h fuel).1 u t _ _ ht
      omega
    · cases ht

/-- When the submission ring is full and completions are available, acquiring an entry dispatches
some of them. -/
theorem acquire_grows {fuel : Nat} (hfull : s.hasRoom = false) (hne : s.khead ≠ s.ktail)
    (ht : acquireIoReq h fuel s = some t) : s.dispatched.length < t.dispatched.length := by
  have hnot : ¬s.hasRoom = true := by simp [hfull]
  cases fuel with
  | zero =>
    rw [acquireIoReq, if_neg hnot] at ht
    cases ht
  | succ fuel =>
    rw [acquireIoReq, if_neg hnot] at ht
    split at ht
    · next u hu =>
      have hone := drainLoop_grows (submit_ne hne) hu
      rw [submit_dispatched] at hone
      exact Nat.lt_of_lt_of_le hone ((grows h fuel).2 u t ht)
    · cases ht

/-- An exit signal that finds the submission ring full is dispatched twice. -/
theorem dispatch_again {fuel : Nat} {cqe : Cqe} (hentry : cqe.entry = .signalPoll)
    (hfull : s.hasRoom = false) (hne : s.khead ≠ s.ktail)
    (ht : s.dispatch h (acquireIoReq h fuel) cqe = some t) :
    s.dispatched.length + 1 < t.dispatched.length := by
  rcases dispatch_cases ht with ⟨_, u, hu, rfl⟩ | ⟨_, _, hrequest, _⟩ | ⟨hother, _⟩
  · have hlen := acquire_grows (by exact hfull) (by exact hne) hu
    rw [List.length_append] at hlen
    exact hlen
  · rw [hentry] at hrequest
    cases hrequest
  · exact absurd hentry hother

/-- The loop either finds room for every exit signal, or dispatches more completions than there are
between its start and the tail. -/
theorem drainLoop_cases {n fuel i : Nat} (hn : (s.ktail - head).toNat = n) (hne : s.khead ≠ s.ktail)
    (ht : drainLoop h fuel s head i = some t) :
    (t.polls = s.polls + exitSignals (s.walk head n) ∧
      (exitSignals (s.walk head n) = 0 ∨ s.hasRoom = true)) ∨
    s.dispatched.length + (t.ktail - head).toNat < t.dispatched.length := by
  induction n generalizing s head i fuel with
  | zero =>
    have heq : head = s.ktail := by bv_omega
    cases fuel with
    | zero =>
      rw [drainLoop] at ht
      cases ht
    | succ fuel =>
      rw [drainLoop, if_pos heq] at ht
      cases ht
      exact .inl ⟨rfl, .inl rfl⟩
  | succ n ih =>
    cases fuel with
    | zero =>
      rw [drainLoop] at ht
      cases ht
    | succ fuel =>
      rw [drainLoop, if_neg (ne_of_toNat_sub hn)] at ht
      split at ht
      · next u hu =>
        by_cases hroom : (s.cqe head).entry = .signalPoll → s.hasRoom = true
        · -- The completion is handled without a drain.
          rw [dispatch_room (fun s hs => acquire_room h fuel hs) hroom] at hu
          obtain rfl := Option.some.inj hu
          have hsame := sameRing_handle h s (s.cqe head)
          have hcount := exitSignals_walk s head n
          rcases ih (s := s.handle h (s.cqe head))
            (by rw [hsame.ktail]; exact toNat_sub_succ hn)
            (by rw [hsame.khead, hsame.ktail]; exact hne) ht with ⟨hpolls, hroom'⟩ | hmore
          · rw [hsame.walk] at hpolls hroom'
            refine .inl ⟨?_, ?_⟩
            · rw [hpolls, handle_polls, hcount, Nat.add_assoc]
            · by_cases hentry : (s.cqe head).entry = .signalPoll
              · exact .inr (hroom hentry)
              · have hzero : exitSignals [s.cqe head] = 0 := by simp [exitSignals, hentry]
                rcases hroom' with hnone | hroom'
                · exact .inl (by omega)
                · right
                  rw [hasRoom, handle_sq, hzero, hsame.sqEntries] at hroom'
                  simpa [hasRoom] using hroom'
          · right
            rw [handle_dispatched, List.length_append, List.length_singleton] at hmore
            bv_omega
        · -- The drain is entered again, from the same head, and what it dispatches is dispatched twice.
          right
          push Not at hroom
          obtain ⟨hentry, hfull⟩ := hroom
          have hagain := dispatch_again hentry (by simpa using hfull) hne hu
          have hmore := (grows h fuel).1 u t _ _ ht
          bv_omega
      · cases ht

/-- Each completion that is available before the call, or becomes so during it, was dispatched once and
in the order of the ring, the head advanced by as many and not past the tail, and at most one read of
the signalfd has not completed. -/
structure DispatchedOnce (s t : IoRing σ) : Prop where
  dispatched : t.dispatched = s.dispatched ++ t.walk s.khead (t.ktail - s.khead).toNat
  advanced : t.khead = s.khead + BitVec.ofNat 32 (t.dispatched.length - s.dispatched.length)
  within : t.dispatched.length - s.dispatched.length ≤ (t.ktail - s.khead).toNat
  polled : t.polls ≤ 1

theorem length_walk (s : IoRing σ) (position : BitVec 32) (n : Nat) :
    (s.walk position n).length = n := by
  induction n generalizing position with
  | zero => rfl
  | succ n ih => rw [walk, List.length_cons, ih]

/-- The call, when the exit signals find room. -/
theorem drain_room (hroom : 0 < exitSignals s.available →
      s.sq.length + exitSignals s.available ≤ s.sqEntries) (fuel : Nat) :
    s.drainIoCompletions h fuel =
      if s.ready < fuel then some ((s.available.foldl (handle h) s).cqAdvance s.ready) else none := by
  rw [drainIoCompletions, drainLoop_room rfl 0 hroom fuel, Nat.zero_add]
  rfl

theorem dispatchedOnce_of_room (h : IoHandlers σ) (hpolls : s.polls + exitSignals s.available ≤ 1) :
    DispatchedOnce s ((s.available.foldl (handle h) s).cqAdvance s.ready) := by
  generalize ht : s.available.foldl (handle h) s = t
  have hsame : SameRing s t := ht ▸ sameRing_foldl h s.available s
  have hdispatched : t.dispatched = s.dispatched ++ s.available :=
    ht ▸ foldl_dispatched h s.available s
  have hlength : t.dispatched.length - s.dispatched.length = s.ready := by
    rw [hdispatched, List.length_append, available, length_walk, Nat.add_sub_cancel_left]
  refine ⟨?_, ?_, ?_, ?_⟩
  · show t.dispatched = s.dispatched ++ (t.cqAdvance s.ready).walk s.khead (t.ktail - s.khead).toNat
    rw [hdispatched, walk_congr (s := s) (t := t.cqAdvance s.ready) hsame.cqes hsame.cqEntries,
      hsame.ktail]
    rfl
  · show t.khead + BitVec.ofNat 32 s.ready = s.khead + BitVec.ofNat 32 (t.dispatched.length - _)
    rw [hlength, hsame.khead]
  · show t.dispatched.length - s.dispatched.length ≤ (t.ktail - s.khead).toNat
    rw [hlength, hsame.ktail]
    exact Nat.le_refl _
  · show t.polls ≤ 1
    rw [← ht, foldl_polls]
    exact hpolls

/-- For any handlers, rings and behaviour of the kernel: one call of `bio_drain_io_completions`
returns after it has dispatched each completion once, with at most one read of the signalfd that has
not completed, exactly when an exit signal finds room in the submission ring and there is at most one
such read, completed ones included. -/
theorem drain_once_iff (h : IoHandlers σ) (s : IoRing σ) :
    (∃ fuel t, s.drainIoCompletions h fuel = some t ∧ DispatchedOnce s t) ↔
      (exitSignals s.available = 0 ∨ s.hasRoom = true) ∧ s.polls + exitSignals s.available ≤ 1 := by
  constructor
  · rintro ⟨fuel, t, ht, honce⟩
    by_cases hne : s.khead = s.ktail
    · -- The ring is empty, and the call does nothing.
      have hready : s.ready = 0 := by simp [ready, hne]
      have hempty : s.available = [] := by rw [available, hready, walk]
      cases fuel with
      | zero =>
        rw [drainIoCompletions, drainLoop] at ht
        cases ht
      | succ fuel =>
        rw [drainIoCompletions, drainLoop, if_pos hne] at ht
        cases ht
        rw [hempty]
        exact ⟨.inl rfl, honce.polled⟩
    · rcases drainLoop_cases rfl hne ht with ⟨hpolls, hroom⟩ | hmore
      · exact ⟨hroom, hpolls ▸ honce.polled⟩
      · have hlength := congrArg List.length honce.dispatched
        rw [List.length_append, length_walk] at hlength
        omega
  · rintro ⟨hroom, hpolls⟩
    refine ⟨s.ready + 1, _, (drain_room (fun hpos => ?_) _).trans (if_pos (Nat.lt_succ_self _)),
      dispatchedOnce_of_room h hpolls⟩
    have hlt : s.sq.length < s.sqEntries := by
      simpa [hasRoom] using hroom.resolve_left (Nat.ne_of_gt hpos)
    omega

/-- An exit signal in front of a full submission ring of one entry. -/
def fullRing : IoRing Unit where
  sqEntries := 1
  sq := [.request ⟨0, 1⟩ 0]
  inFlight := []
  cqEntries := 2
  cqEntries_lt := two_lt
  cqEntries_dvd := two_dvd
  khead := 0
  ktail := 1
  cqes := fun _ => ⟨.signalPoll, 128, 0⟩
  signalPolled := true
  rest := ()
  upcoming := []
  dispatched := []

/-- The exit signal is dispatched twice, the head runs past the tail, and two reads of the signalfd are
left. -/
theorem exit_signal_dispatched_twice :
    ∃ t, fullRing.drainIoCompletions ⟨fun _ _ _ _ => (), fun _ => ()⟩ 6 = some t ∧
      fullRing.available = [⟨.signalPoll, 128, 0⟩] ∧ fullRing.polls = 0 ∧
      t.dispatched = [⟨.signalPoll, 128, 0⟩, ⟨.signalPoll, 128, 0⟩] ∧
      t.khead = 2 ∧ t.ktail = 1 ∧ t.polls = 2 ∧ ¬DispatchedOnce fullRing t := by
  refine ⟨_, rfl, rfl, rfl, rfl, rfl, rfl, rfl, fun honce => ?_⟩
  exact absurd honce.polled (by decide)

end Drain

/-! ## What the kernel does -/

section Kernel

variable {h : IoHandlers σ} {s t : IoRing σ}

theorem walk_append (s : IoRing σ) (position : BitVec 32) (n : Nat) :
    s.walk position (n + 1) = s.walk position n ++ [s.cqe (position + BitVec.ofNat 32 n)] := by
  induction n generalizing position with
  | zero => simp [walk]
  | succ n ih =>
    have hnext : position + 1 + BitVec.ofNat 32 n = position + BitVec.ofNat 32 (n + 1) := by bv_omega
    rw [walk, ih, hnext, walk]
    rfl

/-- Two positions that are less than the size of the ring apart have different slots. -/
theorem slot_ne (s : IoRing σ) {p q : BitVec 32} (hne : p ≠ q) (hlt : (q - p).toNat < s.cqEntries) :
    p.toNat % s.cqEntries ≠ q.toNat % s.cqEntries := by
  intro heq
  obtain ⟨k, hk⟩ := s.cqEntries_dvd
  have hcq := s.cqEntries_lt
  have hmod : (q - p).toNat % s.cqEntries = 0 := by
    have hsub : (q - p).toNat = (2 ^ 32 - p.toNat + q.toNat) % 2 ^ 32 := BitVec.toNat_sub ..
    have hp : p.toNat < 2 ^ 32 := p.isLt
    have hzero : (2 ^ 32 - p.toNat + q.toNat) ≡ (2 ^ 32 - p.toNat + p.toNat) [MOD s.cqEntries] :=
      Nat.ModEq.add_left _ heq.symm
    rw [hsub, Nat.mod_mod_of_dvd _ s.cqEntries_dvd]
    rw [Nat.sub_add_cancel hp.le] at hzero
    exact hzero.trans (Nat.modEq_zero_iff_dvd.mpr s.cqEntries_dvd)
  rw [Nat.mod_eq_of_lt hlt] at hmod
  exact hne (by bv_omega)

/-- A new completion becomes the last one. -/
theorem available_post {new : Cqe} (hlt : s.ready < s.cqEntries)
    (ht : t.khead = s.khead) (hentries : t.cqEntries = s.cqEntries) (htail : t.ktail = s.ktail + 1)
    (hcqes : t.cqes = Function.update s.cqes (s.ktail.toNat % s.cqEntries) new) :
    t.available = s.available ++ [new] := by
  have hcq := s.cqEntries_lt
  have hready : t.ready = s.ready + 1 := by
    rw [ready, htail, ht]
    unfold ready at hlt ⊢
    bv_omega
  have hlast : s.khead + BitVec.ofNat 32 s.ready = s.ktail := by
    rw [ready]
    bv_omega
  have hold : ∀ n ≤ s.ready, t.walk s.khead n = s.walk s.khead n := by
    intro n
    induction n with
    | zero => exact fun _ => rfl
    | succ n ih =>
      intro hn
      rw [walk_append, walk_append, ih (by omega), cqe, cqe, hcqes, hentries,
        Function.update_of_ne]
      unfold ready at hn hlt
      refine s.slot_ne ?_ ?_
      · bv_omega
      · bv_omega
  rw [available, ht, hready, walk_append, hold _ le_rfl, hlast, cqe, hentries, hcqes,
    Function.update_self]
  rfl

theorem available_congr (hcqes : t.cqes = s.cqes) (hentries : t.cqEntries = s.cqEntries)
    (hkhead : t.khead = s.khead) (hktail : t.ktail = s.ktail) : t.available = s.available := by
  rw [available, available, ready, ready, hkhead, hktail, walk_congr hcqes hentries]

/-- An entry was completed. -/
structure Posted (s : IoRing σ) (cqe : Cqe) (t : IoRing σ) : Prop where
  inFlight : cqe.entry ∈ s.inFlight
  erased : t.inFlight = s.inFlight.erase cqe.entry
  available : t.available = s.available ++ [cqe]
  sq : t.sq = s.sq
  sqEntries : t.sqEntries = s.sqEntries
  signalPolled : t.signalPolled = s.signalPolled
  rest : t.rest = s.rest
  upcoming : t.upcoming = s.upcoming

theorem post_cases (s : IoRing σ) (cqe : Cqe) : s.post cqe = s ∨ Posted s cqe (s.post cqe) := by
  unfold post
  split
  · next hpost =>
    exact .inr ⟨hpost.1, rfl, available_post hpost.2 rfl rfl rfl rfl, rfl, rfl, rfl, rfl, rfl⟩
  · exact .inl rfl

theorem available_submit (s : IoRing σ) : s.submit.available = s.available :=
  available_congr rfl rfl rfl rfl

theorem available_advance (hst : SameRing s t) : (t.cqAdvance s.ready).available = [] := by
  have hzero : (t.cqAdvance s.ready).ready = 0 := by
    show (t.ktail - (t.khead + BitVec.ofNat 32 s.ready)).toNat = 0
    rw [hst.ktail, hst.khead, ready]
    bv_omega
  rw [available, hzero]
  rfl

end Kernel

end IoRing

end Bio
