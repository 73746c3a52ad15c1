import Bio.Lib.Heap
import Bio.Handle

/-!
# The timer heap

The first half of `src/timer.c`: the heap of delayed raises, the clock that it caches and the platform
clock, as one machine. `bio_raise_signal` does not touch the heap, so both functions return what they
raise, in order.

* Times are integers: no due time leaves the range of `bio_time_t`.
* The capacity and the indices are natural numbers. They stay in the range of `int32_t` while fewer than
  `2 ^ 30` timers are pending whenever one more comes (`timerCapacity_dvd`).
* `earliest` is a ghost of an entry: no definition reads it. So is `fired`.

Results: `fits_of_reachable`, `timerCapacity_dvd`, `expired_in_order`, `timer_heap_exact`, `raise_not_early`.
-/

namespace Bio

/-- `bio_timer_entry_t`. -/
structure TimerEntry where
  dueTimeMs : Int
  signal : Handle
  /-- the platform clock at the call of `bio_raise_signal_after`, plus the delay -/
  earliest : Int
deriving DecidableEq, Repr

/-- `BIO_INITIAL_TIMER_CAPACITY`. -/
def initialTimerCapacity : Nat := 4

/-- The timers' part of `bio_ctx`, and the memory behind `timer_entries`. -/
structure TimerHeap where
  timerEntries : Nat → TimerEntry
  numTimers : Nat
  timerCapacity : Nat
  currentTimeMs : Int

namespace TimerHeap

/-- `bio_timer_init`. The new memory holds anything. -/
def init (clock : Int) (memory : Nat → TimerEntry) : TimerHeap where
  timerEntries := memory
  numTimers := 0
  timerCapacity := initialTimerCapacity
  currentTimeMs := clock

/-- The array grows when it is full. -/
def reserve (t : TimerHeap) : TimerHeap :=
  if t.numTimers = t.timerCapacity then { t with timerCapacity := t.timerCapacity * 2 } else t

/-- "Heap insert the new timer". Its due time is counted from the cached clock. -/
def insert (t : TimerHeap) (clock : Int) (signal : Handle) (timeMs : Int) : TimerHeap :=
  let t := t.reserve
  { t with
    timerEntries := Heap.push TimerEntry.dueTimeMs t.timerEntries t.numTimers
      { dueTimeMs := t.currentTimeMs + timeMs, signal := signal, earliest := clock + timeMs }
    numTimers := t.numTimers + 1 }

/-- `bio_raise_signal_after`, with the signals that it raises at once. -/
def raiseSignalAfter (t : TimerHeap) (clock : Int) (signal : Handle) (timeMs : Int) :
    TimerHeap × List Handle :=
  if timeMs > 0 then (t.insert clock signal timeMs, []) else (t, [signal])

/-- The loop of `bio_timer_update`: the entries that it removes, and what is left. -/
def expire (currentTime : Int) : (Nat → TimerEntry) → Nat → List TimerEntry × (Nat → TimerEntry) × Nat
  | entries, 0 => ([], entries, 0)
  | entries, numEntries + 1 =>
    if (entries 0).dueTimeMs ≤ currentTime then
      let (fired, rest) :=
        expire currentTime (Heap.popRoot TimerEntry.dueTimeMs entries numEntries) numEntries
      (entries 0 :: fired, rest)
    else ([], entries, numEntries + 1)

/-- `bio_timer_update`, with the entries whose signals it raises. -/
def update (t : TimerHeap) (clock : Int) : TimerHeap × List TimerEntry :=
  let (fired, entries, numEntries) := expire clock t.timerEntries t.numTimers
  ({ t with currentTimeMs := clock, timerEntries := entries, numTimers := numEntries }, fired)

/-- `bio_time_until_next_timer`. -/
def timeUntilNextTimer (t : TimerHeap) (clock : Int) : Int :=
  if t.numTimers > 0 then
    let dueTime := (t.timerEntries 0).dueTimeMs
    if dueTime < clock then 0 else dueTime - clock
  else -1

/-- The entries that wait in the heap. -/
def contents (t : TimerHeap) : Multiset TimerEntry := Heap.contents t.timerEntries t.numTimers

/-- The heap is ordered by due time. -/
def Ordered (t : TimerHeap) : Prop := Heap.Ordered TimerEntry.dueTimeMs t.timerEntries t.numTimers

variable {t : TimerHeap} {clock : Int}

theorem reserve_eq (t : TimerHeap) : ∃ n, t.reserve = { t with timerCapacity := n } := by
  unfold reserve
  split
  · exact ⟨_, rfl⟩
  · exact ⟨t.timerCapacity, rfl⟩

/-- The spec of the insertion. -/
theorem insert_spec (t : TimerHeap) (clock : Int) (signal : Handle) (timeMs : Int) :
    (t.insert clock signal timeMs).contents =
      ⟨t.currentTimeMs + timeMs, signal, clock + timeMs⟩ ::ₘ t.contents ∧
    (t.Ordered → (t.insert clock signal timeMs).Ordered) ∧
    (t.insert clock signal timeMs).currentTimeMs = t.currentTimeMs := by
  obtain ⟨n, hn⟩ := reserve_eq t
  unfold insert
  rw [hn]
  exact ⟨Heap.contents_push TimerEntry.dueTimeMs, fun h => Heap.Ordered.push h _, rfl⟩

/-- The entries are within the memory. -/
structure Fits (t : TimerHeap) : Prop where
  capacity_pos : 0 < t.timerCapacity
  numTimers_le : t.numTimers ≤ t.timerCapacity

/-- The index of the new entry is within it. -/
theorem Fits.reserve (h : t.Fits) : t.numTimers < t.reserve.timerCapacity := by
  have hpos := h.capacity_pos
  have hle := h.numTimers_le
  unfold TimerHeap.reserve
  split
  · show t.numTimers < t.timerCapacity * 2
    omega
  · omega

theorem Fits.insert (h : t.Fits) (clock : Int) (signal : Handle) (timeMs : Int) :
    (t.insert clock signal timeMs).Fits := by
  have hroom := h.reserve
  have hnum : t.reserve.numTimers = t.numTimers := by
    obtain ⟨n, hn⟩ := reserve_eq t
    rw [hn]
  refine ⟨Nat.zero_lt_of_lt hroom, ?_⟩
  show t.reserve.numTimers + 1 ≤ t.reserve.timerCapacity
  omega

theorem expire_le (currentTime : Int) (entries : Nat → TimerEntry) (numEntries : Nat) :
    (expire currentTime entries numEntries).2.2 ≤ numEntries := by
  induction numEntries generalizing entries with
  | zero => exact Nat.le_refl 0
  | succ n ih =>
    rw [expire]
    split
    · exact Nat.le_succ_of_le (ih _)
    · exact Nat.le_refl _

theorem Fits.update (h : t.Fits) (clock : Int) : (t.update clock).1.Fits :=
  ⟨h.capacity_pos, (expire_le clock t.timerEntries t.numTimers).trans h.numTimers_le⟩

/-- What the loop of the update removes and leaves. -/
structure Expired (currentTime : Int) (entries : Nat → TimerEntry) (numEntries : Nat)
    (result : List TimerEntry × (Nat → TimerEntry) × Nat) : Prop where
  contents : ↑result.1 + Heap.contents result.2.1 result.2.2 = Heap.contents entries numEntries
  ordered : Heap.Ordered TimerEntry.dueTimeMs result.2.1 result.2.2
  sorted : (result.1.map TimerEntry.dueTimeMs).Pairwise (· ≤ ·)
  due : ∀ e ∈ result.1, e.dueTimeMs ≤ currentTime
  later : ∀ e ∈ Heap.contents result.2.1 result.2.2, currentTime < e.dueTimeMs

theorem expired_expire {currentTime : Int} {numEntries : Nat} {entries : Nat → TimerEntry}
    (h : Heap.Ordered TimerEntry.dueTimeMs entries numEntries) :
    Expired currentTime entries numEntries (expire currentTime entries numEntries) := by
  induction numEntries generalizing entries with
  | zero => exact ⟨by simp [expire], by simpa [expire] using h, by simp [expire], by simp [expire],
      by simp [expire]⟩
  | succ n ih =>
    rw [expire]
    split
    · rename_i hdue
      obtain ⟨hcontents, hordered, hsorted, hdues, hlater⟩ := ih h.popRoot
      have hall : entries 0 ::ₘ
          Heap.contents (Heap.popRoot TimerEntry.dueTimeMs entries n) n =
            Heap.contents entries (n + 1) := Heap.contents_popRoot _
      refine ⟨?_, hordered, ?_, ?_, hlater⟩
      · rw [← hall, ← hcontents, ← Multiset.cons_coe, Multiset.cons_add]
      · -- The root is not later than anything that was left, in particular than what is removed next.
        refine List.pairwise_cons.mpr ⟨fun d hd => ?_, hsorted⟩
        obtain ⟨e, he, rfl⟩ := List.mem_map.mp hd
        refine h.le_of_mem ?_
        rw [← hall, ← hcontents]
        simp [he]
      · rintro e (_ | ⟨_, he⟩)
        · exact hdue
        · exact hdues e he
    · rename_i hlater
      refine ⟨by simp, h, by simp, by simp, fun e he => ?_⟩
      exact (not_le.mp hlater).trans_le (h.le_of_mem he)

theorem update_spec (h : t.Ordered) (clock : Int) :
    Expired clock t.timerEntries t.numTimers
      ((t.update clock).2, (t.update clock).1.timerEntries, (t.update clock).1.numTimers) :=
  expired_expire h

/-- An update removes what is due. -/
theorem fired_eq (h : t.Ordered) (clock : Int) :
    ↑(t.update clock).2 = t.contents.filter fun e => e.dueTimeMs ≤ clock := by
  obtain ⟨hcontents, _, _, hdue, hlater⟩ := update_spec h clock
  rw [contents, ← hcontents, Multiset.filter_add, Multiset.filter_eq_self.mpr hdue,
    Multiset.filter_eq_nil.mpr fun e he => not_le.mpr (hlater e he), Multiset.add_zero]

/-- An update leaves what is not due. -/
theorem left_eq (h : t.Ordered) (clock : Int) :
    (t.update clock).1.contents = t.contents.filter fun e => clock < e.dueTimeMs := by
  obtain ⟨hcontents, _, _, hdue, hlater⟩ := update_spec h clock
  have hdone : (↑(t.update clock).2 : Multiset TimerEntry).filter (fun e => clock < e.dueTimeMs) = 0 :=
    Multiset.filter_eq_nil.mpr fun e he => not_lt.mpr (hdue e he)
  have hkept : (t.update clock).1.contents.filter (fun e => clock < e.dueTimeMs) =
      (t.update clock).1.contents := Multiset.filter_eq_self.mpr hlater
  have hsplit : ↑(t.update clock).2 + (t.update clock).1.contents = t.contents := hcontents
  rw [← hsplit, Multiset.filter_add, hdone, hkept, Multiset.zero_add]

/-- The root of a heap that is not empty. -/
theorem root_mem (hpos : 0 < t.numTimers) : t.timerEntries 0 ∈ t.contents :=
  Heap.mem_contents.mpr ⟨0, hpos, rfl⟩

theorem contents_eq_zero : t.contents = 0 ↔ t.numTimers = 0 := by
  rw [contents, Heap.contents, Multiset.map_eq_zero, ← Multiset.card_eq_zero, Multiset.card_range]

/-- No timer is pending. -/
theorem timeUntilNextTimer_none : t.timeUntilNextTimer clock = -1 ↔ t.contents = 0 := by
  rw [contents_eq_zero, timeUntilNextTimer]
  split
  · dsimp only
    split <;> omega
  · exact iff_of_true rfl (by omega)

/-- The time until the next timer is counted to the entry that is due first. -/
theorem timeUntilNextTimer_some (h : t.Ordered) {e : TimerEntry} (he : e ∈ t.contents)
    (hleast : ∀ e' ∈ t.contents, e.dueTimeMs ≤ e'.dueTimeMs) :
    t.timeUntilNextTimer clock = max 0 (e.dueTimeMs - clock) := by
  have hpos : 0 < t.numTimers := by
    refine Nat.pos_of_ne_zero fun hzero => ?_
    rw [contents_eq_zero.mpr hzero] at he
    exact Multiset.notMem_zero e he
  have hroot : (t.timerEntries 0).dueTimeMs = e.dueTimeMs :=
    le_antisymm (h.le_of_mem he) (hleast _ (root_mem hpos))
  rw [timeUntilNextTimer, if_pos hpos, hroot]
  dsimp only
  split <;> omega

/-- What an update removes was in the heap. -/
theorem mem_of_fired (h : t.Ordered) {e : TimerEntry} (he : e ∈ (t.update clock).2) :
    e ∈ t.contents := by
  rw [contents, ← (update_spec h clock).contents]
  exact Multiset.mem_add.mpr (.inl he)

/-- What an update leaves was in the heap. -/
theorem mem_of_left (h : t.Ordered) {e : TimerEntry} (he : e ∈ (t.update clock).1.contents) :
    e ∈ t.contents := by
  rw [contents, ← (update_spec h clock).contents]
  exact Multiset.mem_add.mpr (.inr he)

end TimerHeap

/-! ## Runs -/

/-- The heap, the platform clock, and the entries that the updates have removed so far, each with the
clock that the update read. -/
structure TimerCtx where
  heap : TimerHeap
  clock : Int
  fired : List (TimerEntry × Int)

/-- Time passes, or one of the two functions is called. -/
inductive TimerCall
  | tick (ms : Nat)
  | raiseAfter (signal : Handle) (timeMs : Int)
  | update
deriving DecidableEq, Repr

namespace TimerCtx

def init (clock : Int) (memory : Nat → TimerEntry) : TimerCtx where
  heap := TimerHeap.init clock memory
  clock := clock
  fired := []

/-- `bio_raise_signal_after` now. -/
def raiseAfter (t : TimerCtx) (signal : Handle) (timeMs : Int) : TimerCtx :=
  { t with heap := (t.heap.raiseSignalAfter t.clock signal timeMs).1 }

/-- `bio_timer_update` now. -/
def update (t : TimerCtx) : TimerCtx :=
  { t with
    heap := (t.heap.update t.clock).1
    fired := t.fired ++ (t.heap.update t.clock).2.map fun e => (e, t.clock) }

def perform (t : TimerCtx) : TimerCall → TimerCtx
  | .tick ms => { t with clock := t.clock + ms }
  | .raiseAfter signal timeMs => t.raiseAfter signal timeMs
  | .update => t.update

/-- All runs from `bio_timer_init`. The clock never goes backwards. -/
def machine : Machine TimerCtx TimerCall where
  init := fun t => ∃ clock memory, t = init clock memory
  enabled := fun _ _ => True
  perform := perform

instance (t : TimerCtx) (a : TimerCall) : Decidable (machine.enabled t a) :=
  inferInstanceAs (Decidable True)

variable {t : TimerCtx}

/-- The cached clock separates what has been removed from what is in the heap. -/
structure Inv (t : TimerCtx) : Prop where
  ordered : t.heap.Ordered
  behind : t.heap.currentTimeMs ≤ t.clock
  pending : ∀ e ∈ t.heap.contents, t.heap.currentTimeMs < e.dueTimeMs
  fired : ∀ f ∈ t.fired, f.1.dueTimeMs ≤ t.heap.currentTimeMs
  sorted : (t.fired.map fun f => f.1.dueTimeMs).Pairwise (· ≤ ·)

theorem Inv.init (clock : Int) (memory : Nat → TimerEntry) : (init clock memory).Inv where
  ordered := Heap.Ordered.zero
  behind := le_refl clock
  pending := by simp [TimerCtx.init, TimerHeap.init, TimerHeap.contents]
  fired := by simp [TimerCtx.init]
  sorted := by simp [TimerCtx.init]

theorem Inv.raiseAfter (h : t.Inv) (signal : Handle) (timeMs : Int) :
    (t.raiseAfter signal timeMs).Inv := by
  unfold TimerCtx.raiseAfter TimerHeap.raiseSignalAfter
  split
  · rename_i hpos
    obtain ⟨hcontents, hordered, hcached⟩ := t.heap.insert_spec t.clock signal timeMs
    refine ⟨hordered h.ordered, hcached.trans_le h.behind, fun e he => ?_, fun f hf => ?_, h.sorted⟩
    · simp only [hcontents, hcached, Multiset.mem_cons] at he ⊢
      rcases he with rfl | he
      · exact Int.lt_add_of_pos_right _ hpos
      · exact h.pending e he
    · exact (h.fired f hf).trans_eq hcached.symm
  · exact ⟨h.ordered, h.behind, h.pending, h.fired, h.sorted⟩

theorem Inv.update (h : t.Inv) : t.update.Inv := by
  obtain ⟨-, hordered, hsorted, hdue, hlater⟩ := TimerHeap.update_spec h.ordered t.clock
  refine ⟨hordered, le_refl t.clock, hlater, fun f hf => ?_, ?_⟩
  · rcases List.mem_append.mp hf with hf | hf
    · exact (h.fired f hf).trans h.behind
    · obtain ⟨e, he, rfl⟩ := List.mem_map.mp hf
      exact hdue e he
  · -- What was removed before is not later than the old cached clock, what is removed now is.
    simp only [TimerCtx.update, List.map_append, List.map_map]
    refine List.pairwise_append.mpr ⟨h.sorted, hsorted, fun a ha b hb => ?_⟩
    obtain ⟨f, hf, rfl⟩ := List.mem_map.mp ha
    obtain ⟨e, he, rfl⟩ := List.mem_map.mp hb
    exact (h.fired f hf).trans (h.pending e (TimerHeap.mem_of_fired h.ordered he)).le

theorem Inv.step (h : t.Inv) (a : TimerCall) : (machine.perform t a).Inv := by
  cases a with
  | tick ms =>
    exact ⟨h.ordered, h.behind.trans (Int.le_add_of_nonneg_right (Int.natCast_nonneg ms)), h.pending,
      h.fired, h.sorted⟩
  | raiseAfter signal timeMs => exact h.raiseAfter signal timeMs
  | update => exact h.update

theorem inv_of_reachable (hr : machine.Reachable t) : t.Inv :=
  Machine.invariant (fun _ ⟨clock, memory, h⟩ => h ▸ Inv.init clock memory)
    (fun _ a _ h _ => h.step a) hr

/-- No entry is ever outside of the memory. -/
theorem fits_of_reachable (hr : machine.Reachable t) : t.heap.Fits := by
  refine Machine.invariant (P := fun t => t.heap.Fits) ?_ ?_ hr
  · rintro _ ⟨clock, memory, rfl⟩
    exact ⟨show 0 < initialTimerCapacity by decide, Nat.zero_le _⟩
  · intro t a _ h _
    cases a with
    | tick ms => exact h
    | raiseAfter signal timeMs =>
      show (t.heap.raiseSignalAfter t.clock signal timeMs).1.Fits
      unfold TimerHeap.raiseSignalAfter
      split
      · exact h.insert t.clock signal timeMs
      · exact h
    | update => exact h.update t.clock

/-- Fewer than `2 ^ 30` timers are pending when one more is inserted. -/
def FewPending (t : TimerCtx) : TimerCall → Prop
  | .raiseAfter _ timeMs => 0 < timeMs → t.heap.numTimers < 2 ^ 30
  | _ => True

/-- The capacity is a power of two up to `2 ^ 30` then, so that no doubling leaves the range of `int32_t`. -/
theorem timerCapacity_dvd (hr : (machine.restrict FewPending).Reachable t) :
    t.heap.timerCapacity ∣ 2 ^ 30 := by
  refine Machine.invariant (P := fun t => t.heap.timerCapacity ∣ 2 ^ 30) ?_ ?_ hr
  · rintro _ ⟨clock, memory, rfl⟩
    show 2 ^ 2 ∣ 2 ^ 30
    exact pow_dvd_pow 2 (by decide)
  · rintro t a - h ⟨-, hfew⟩
    cases a with
    | tick ms => exact h
    | raiseAfter signal timeMs =>
      show (t.heap.raiseSignalAfter t.clock signal timeMs).1.timerCapacity ∣ 2 ^ 30
      unfold TimerHeap.raiseSignalAfter
      split
      · next hpos =>
        show t.heap.reserve.timerCapacity ∣ 2 ^ 30
        unfold TimerHeap.reserve
        split
        · next hfull => exact double_dvd h (hfull ▸ hfew hpos)
        · exact h
      · exact h
    | update => exact h

/-- Over a whole run the entries leave the heap in the order of their due times, and an update leaves
only entries that are due later than the clock it read. -/
theorem expired_in_order (hr : machine.Reachable t) :
    (t.fired.map fun f => f.1.dueTimeMs).Pairwise (· ≤ ·) ∧
    ∀ e ∈ (machine.perform t .update).heap.contents, t.clock < e.dueTimeMs :=
  ⟨(inv_of_reachable hr).sorted, (inv_of_reachable hr).update.pending⟩

/-- Each of the three functions of the heap, in every reachable heap and for every clock. -/
theorem timer_heap_exact (hr : machine.Reachable t) (now : Int) :
    (↑(t.heap.update now).2 = t.heap.contents.filter (fun e => e.dueTimeMs ≤ now) ∧
      ((t.heap.update now).2.map TimerEntry.dueTimeMs).Pairwise (· ≤ ·) ∧
      (t.heap.update now).1.contents = t.heap.contents.filter (fun e => now < e.dueTimeMs) ∧
      (t.heap.update now).1.Ordered) ∧
    (∀ signal timeMs, 0 < timeMs →
      (t.heap.raiseSignalAfter now signal timeMs).1.contents =
        ⟨t.heap.currentTimeMs + timeMs, signal, now + timeMs⟩ ::ₘ t.heap.contents ∧
      (t.heap.raiseSignalAfter now signal timeMs).1.Ordered) ∧
    (t.heap.timeUntilNextTimer now = -1 ↔ t.heap.contents = 0) ∧
    ∀ e ∈ t.heap.contents, (∀ e' ∈ t.heap.contents, e.dueTimeMs ≤ e'.dueTimeMs) →
      t.heap.timeUntilNextTimer now = max 0 (e.dueTimeMs - now) := by
  have hordered := (inv_of_reachable hr).ordered
  have hupdate := TimerHeap.update_spec hordered now
  refine ⟨⟨TimerHeap.fired_eq hordered now, hupdate.sorted, TimerHeap.left_eq hordered now,
    hupdate.ordered⟩, fun signal timeMs hpos => ?_, TimerHeap.timeUntilNextTimer_none,
    fun e he hleast => TimerHeap.timeUntilNextTimer_some hordered he hleast⟩
  obtain ⟨hcontents, hkept, -⟩ := t.heap.insert_spec now signal timeMs
  rw [TimerHeap.raiseSignalAfter, if_pos hpos]
  exact ⟨hcontents, hkept hordered⟩

def zeroMemory : Nat → TimerEntry := fun _ => ⟨0, Handle.invalid, 0⟩

/-- A later and shorter delay that is inserted between two updates. -/
theorem expired_in_order_shorter :
    let t := machine.run (init 0 zeroMemory) [.raiseAfter ⟨0, 1⟩ 30, .raiseAfter ⟨1, 1⟩ 10, .tick 20,
      .update, .raiseAfter ⟨2, 1⟩ 5, .tick 20, .update]
    (t.fired.map fun f => f.1.dueTimeMs) = [10, 25, 30] ∧
      (t.fired.map fun f => f.1.dueTimeMs).Pairwise (· ≤ ·) := by
  intro t
  have hr : machine.Reachable t := Machine.Reachable.run (.init ⟨0, zeroMemory, rfl⟩) (by decide)
  exact ⟨by decide +kernel, (expired_in_order hr).1⟩

/-- Five timers, so the array has grown. Two of them are due at 20, at the same time. -/
theorem timer_heap_exact_five :
    let t := machine.run (init 0 zeroMemory) [.raiseAfter ⟨0, 1⟩ 30, .raiseAfter ⟨1, 1⟩ 20,
      .raiseAfter ⟨2, 1⟩ 50, .raiseAfter ⟨3, 1⟩ 20, .raiseAfter ⟨4, 1⟩ 40]
    (t.heap.update 20).2.map TimerEntry.signal = [⟨1, 1⟩, ⟨3, 1⟩] ∧
      (↑(t.heap.update 20).2 = t.heap.contents.filter fun e => e.dueTimeMs ≤ 20) ∧
      (t.heap.update 20).1.timeUntilNextTimer 20 = 10 := by
  intro t
  have hr : machine.Reachable t := Machine.Reachable.run (.init ⟨0, zeroMemory, rfl⟩) (by decide)
  exact ⟨by decide +kernel, (timer_heap_exact hr 20).1.1, by decide +kernel⟩

/-! ## The clock at the call -/

/-- No entry was removed before the delay of its call had passed on the platform clock. -/
def NeverEarly (t : TimerCtx) : Prop := ∀ f ∈ t.fired, f.1.earliest ≤ f.2

/-- The delay is positive only in calls that find the cached clock up to date. -/
def ClockFresh (t : TimerCtx) : TimerCall → Prop
  | .raiseAfter _ timeMs => 0 < timeMs → t.heap.currentTimeMs = t.clock
  | _ => True

/-- With an up-to-date clock, an entry is due when the delay has passed. -/
structure Punctual (t : TimerCtx) : Prop where
  inv : t.Inv
  pending : ∀ e ∈ t.heap.contents, e.earliest = e.dueTimeMs
  fired : t.NeverEarly

theorem Punctual.init (clock : Int) (memory : Nat → TimerEntry) : (init clock memory).Punctual where
  inv := Inv.init clock memory
  pending := by simp [TimerCtx.init, TimerHeap.init, TimerHeap.contents]
  fired := by simp [NeverEarly, TimerCtx.init]

theorem Punctual.step (h : t.Punctual) {a : TimerCall} (ha : t.ClockFresh a) :
    (machine.perform t a).Punctual := by
  refine ⟨h.inv.step a, ?_, ?_⟩
  · cases a with
    | tick ms => exact h.pending
    | raiseAfter signal timeMs =>
      intro e he
      simp only [machine, perform, TimerCtx.raiseAfter, TimerHeap.raiseSignalAfter] at he
      split at he
      · rename_i hpos
        rw [(t.heap.insert_spec t.clock signal timeMs).1, Multiset.mem_cons] at he
        rcases he with rfl | he
        · exact congrArg (· + timeMs) (ha hpos).symm
        · exact h.pending e he
      · exact h.pending e he
    | update =>
      exact fun e he => h.pending e (TimerHeap.mem_of_left h.inv.ordered he)
  · cases a with
    | tick ms => exact h.fired
    | raiseAfter signal timeMs => exact h.fired
    | update =>
      intro f hf
      rcases List.mem_append.mp hf with hf | hf
      · exact h.fired f hf
      · obtain ⟨e, he, rfl⟩ := List.mem_map.mp hf
        have hdue := (TimerHeap.update_spec h.inv.ordered t.clock).due e he
        exact (h.pending e (TimerHeap.mem_of_fired h.inv.ordered he)).trans_le hdue

/-- When every call of `bio_raise_signal_after` finds the cached clock up to date, nothing is raised
before its delay has passed. -/
theorem raise_not_early (hr : (machine.restrict ClockFresh).Reachable t) : t.NeverEarly := by
  have hpunctual : t.Punctual := Machine.invariant (M := machine.restrict ClockFresh)
    (fun _ ⟨clock, memory, h⟩ => h ▸ Punctual.init clock memory) (fun _ _ _ h he => h.step he.2) hr
  exact hpunctual.fired

instance (t : TimerCtx) : ∀ a, Decidable (t.ClockFresh a)
  | .raiseAfter _ timeMs => inferInstanceAs (Decidable (0 < timeMs → t.heap.currentTimeMs = t.clock))
  | .tick _ | .update => isTrue trivial

instance (t : TimerCtx) (a : TimerCall) : Decidable ((machine.restrict ClockFresh).enabled t a) :=
  inferInstanceAs (Decidable (True ∧ t.ClockFresh a))

theorem raise_not_early_updated :
    let t := (machine.restrict ClockFresh).run (init 0 zeroMemory)
      [.tick 10, .update, .raiseAfter ⟨0, 1⟩ 20, .tick 20, .update]
    t.fired = [(⟨30, ⟨0, 1⟩, 30⟩, 30)] ∧ t.NeverEarly := by
  intro t
  have hr : (machine.restrict ClockFresh).Reachable t :=
    Machine.Reachable.run (.init ⟨0, zeroMemory, rfl⟩) (by decide +kernel)
  exact ⟨by decide +kernel, raise_not_early hr⟩

/-- A coroutine has run for 10 ms since the last update when it asks for a raise after 20 ms. -/
theorem raised_early :
    let t := machine.run (init 0 zeroMemory) [.tick 10, .raiseAfter ⟨0, 1⟩ 20, .tick 10, .update]
    machine.Reachable t ∧ t.fired = [(⟨20, ⟨0, 1⟩, 30⟩, 20)] ∧ ¬t.NeverEarly := by
  intro t
  have hfired : t.fired = [(⟨20, ⟨0, 1⟩, 30⟩, 20)] := by decide +kernel
  refine ⟨Machine.Reachable.run (.init ⟨0, zeroMemory, rfl⟩) (by decide), hfired, fun h => ?_⟩
  exact absurd (h (⟨20, ⟨0, 1⟩, 30⟩, 20) (by simp [hfired])) (by decide)

end TimerCtx

end Bio
