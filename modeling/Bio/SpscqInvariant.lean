import Bio.Spscq
import Bio.Lib.Handoff

/-!
# Interleavings of the queue

1. `no_lost_wakeup`: a thread sleeps on a condition that is met only while the other thread is about
   to signal it. The queue is an instance of the protocol of `Handoff`.
2. `spscq_fifo`: the queue is a bounded FIFO. Of all steps of a thread four matter for it, two of
   them before the slot is accessed (`CoreMove`); the others leave the `Core` of the state alone.
-/

namespace Bio

open Handoff (Stance Move)

/-! ## Wake-ups -/

def ProducerPc.stance {α : Type*} : ProducerPc α → Stance
  | .recheck _ | .unlock _ => .holds
  | .wait _ => .decided
  | .asleep _ => .asleep
  | .raiseLock => .raises
  | .raiseSignal => .signals
  | .raiseUnlock => .signalled
  | _ => .away

def ConsumerPc.stance {α : Type*} : ConsumerPc α → Stance
  | .recheck | .unlock => .holds
  | .wait => .decided
  | .asleep => .asleep
  | .raiseLock _ => .raises
  | .raiseSignal _ => .signals
  | .raiseUnlock _ => .signalled
  | _ => .away

/-- The producer is the thread `true` of the protocol. -/
def Party.thread : Party → Bool
  | .producer => true
  | .consumer => false

namespace Spscq

variable {α : Type*} {q : Spscq α}

/-- The queue as the protocol of two threads: the producer is blocked by a full queue, the consumer
by an empty one. -/
def handoff (q : Spscq α) : Handoff.State where
  stance := fun
    | true => q.producer.stance
    | false => q.consumer.stance
  mutex := fun
    | true => q.produceMtx.map Party.thread
    | false => q.consumeMtx.map Party.thread
  blocked := fun
    | true => q.count = q.size
    | false => q.count = 0#32

theorem wakeProducer_stance (q : Spscq α) :
    q.wakeProducer.producer.stance = q.producer.stance.wake := by
  unfold wakeProducer
  cases hpc : q.producer <;> simp [hpc, ProducerPc.stance]

theorem wakeConsumer_stance (q : Spscq α) :
    q.wakeConsumer.consumer.stance = q.consumer.stance.wake := by
  unfold wakeConsumer
  cases hpc : q.consumer <;> simp [hpc, ConsumerPc.stance]

/-- A signal changes nothing but the thread that it wakes. -/
theorem wakeProducer_eq (q : Spscq α) : ∃ pc, q.wakeProducer = { q with producer := pc } ∧
    pc.stance = q.producer.stance.wake :=
  ⟨q.wakeProducer.producer, by unfold wakeProducer; split <;> rfl, wakeProducer_stance q⟩

theorem wakeConsumer_eq (q : Spscq α) : ∃ pc, q.wakeConsumer = { q with consumer := pc } ∧
    pc.stance = q.consumer.stance.wake :=
  ⟨q.wakeConsumer.consumer, by unfold wakeConsumer; split <;> rfl, wakeConsumer_stance q⟩

theorem move_producerStep (hr : q.producerReady = true) :
    Move true q.handoff q.producerStep.handoff := by
  have hstance : q.handoff.stance true = q.producer.stance := rfl
  cases hpc : q.producer with
  | idle _ => simp [producerReady, hpc] at hr
  | asleep item => simp [producerReady, hpc] at hr
  | check item wait =>
    refine Move.stay.of_eq ?_ ?_ ?_ <;> simp only [producerStep, hpc]
    all_goals rintro (_ | _) <;> split <;> (try split) <;> simp [handoff, hpc, ProducerPc.stance]
  | lock item =>
    refine Move.of_eq (.lock (by rw [hstance, hpc]; rfl) ?_) ?_ ?_ ?_
    · simpa [producerReady, hpc, handoff] using hr
    all_goals rintro (_ | _) <;> simp [handoff, producerStep, hpc, ProducerPc.stance, Party.thread]
  | recheck item =>
    by_cases hfull : q.count = q.size
    · refine Move.of_eq (.decide (by rw [hstance, hpc]; rfl) (by simp [handoff, hfull])) ?_ ?_ ?_
      all_goals rintro (_ | _) <;> simp [handoff, producerStep, hpc, hfull, ProducerPc.stance]
    · refine Move.stay.of_eq ?_ ?_ ?_
      all_goals rintro (_ | _) <;> simp [handoff, producerStep, hpc, hfull, ProducerPc.stance]
  | wait item =>
    refine Move.of_eq (.sleep (by rw [hstance, hpc]; rfl)) ?_ ?_ ?_
    all_goals rintro (_ | _) <;> simp [handoff, producerStep, hpc, ProducerPc.stance]
  | unlock item =>
    refine Move.of_eq (.unlock (by rw [hstance, hpc]; rfl)) ?_ ?_ ?_
    all_goals rintro (_ | _) <;> simp [handoff, producerStep, hpc, ProducerPc.stance]
  | fetchTail item =>
    refine Move.stay.of_eq ?_ ?_ ?_
    all_goals rintro (_ | _) <;> simp [handoff, producerStep, hpc, ProducerPc.stance]
  | write item tail =>
    refine Move.stay.of_eq ?_ ?_ ?_
    all_goals rintro (_ | _) <;> simp [handoff, producerStep, hpc, ProducerPc.stance]
  | incCount =>
    refine Move.of_eq (.change q.producerStep.handoff.blocked (by rw [hstance, hpc]; rfl)) ?_ ?_
      fun _ => rfl
    all_goals rintro (_ | _) <;> by_cases hzero : q.count = 0#32 <;>
      simp [handoff, producerStep, hpc, hzero, ProducerPc.stance]
  | raiseLock =>
    refine Move.of_eq (.lockOther (by rw [hstance, hpc]; rfl) ?_) ?_ ?_ ?_
    · simpa [producerReady, hpc, handoff] using hr
    all_goals rintro (_ | _) <;> simp [handoff, producerStep, hpc, ProducerPc.stance, Party.thread]
  | raiseSignal =>
    obtain ⟨pc, heq, hwake⟩ := wakeConsumer_eq q
    refine Move.of_eq (.signal (by rw [hstance, hpc]; rfl)) ?_ ?_ ?_
    all_goals rintro (_ | _) <;> simp [handoff, producerStep, hpc, heq, hwake, ProducerPc.stance]
  | raiseUnlock =>
    refine Move.of_eq (.unlockOther (by rw [hstance, hpc]; rfl)) ?_ ?_ ?_
    all_goals rintro (_ | _) <;> simp [handoff, producerStep, hpc, ProducerPc.stance]

theorem move_consumerStep (hr : q.consumerReady = true) :
    Move false q.handoff q.consumerStep.handoff := by
  have hstance : q.handoff.stance false = q.consumer.stance := rfl
  cases hpc : q.consumer with
  | idle _ => simp [consumerReady, hpc] at hr
  | asleep => simp [consumerReady, hpc] at hr
  | check wait =>
    refine Move.stay.of_eq ?_ ?_ ?_ <;> simp only [consumerStep, hpc]
    all_goals rintro (_ | _) <;> split <;> (try split) <;> simp [handoff, hpc, ConsumerPc.stance]
  | lock =>
    refine Move.of_eq (.lock (by rw [hstance, hpc]; rfl) ?_) ?_ ?_ ?_
    · simpa [consumerReady, hpc, handoff] using hr
    all_goals rintro (_ | _) <;> simp [handoff, consumerStep, hpc, ConsumerPc.stance, Party.thread]
  | recheck =>
    by_cases hempty : q.count = 0#32
    · refine Move.of_eq (.decide (by rw [hstance, hpc]; rfl) (by simp [handoff, hempty])) ?_ ?_ ?_
      all_goals rintro (_ | _) <;> simp [handoff, consumerStep, hpc, hempty, ConsumerPc.stance]
    · refine Move.stay.of_eq ?_ ?_ ?_
      all_goals rintro (_ | _) <;> simp [handoff, consumerStep, hpc, hempty, ConsumerPc.stance]
  | wait =>
    refine Move.of_eq (.sleep (by rw [hstance, hpc]; rfl)) ?_ ?_ ?_
    all_goals rintro (_ | _) <;> simp [handoff, consumerStep, hpc, ConsumerPc.stance]
  | unlock =>
    refine Move.of_eq (.unlock (by rw [hstance, hpc]; rfl)) ?_ ?_ ?_
    all_goals rintro (_ | _) <;> simp [handoff, consumerStep, hpc, ConsumerPc.stance]
  | fetchHead =>
    refine Move.stay.of_eq ?_ ?_ ?_
    all_goals rintro (_ | _) <;> simp [handoff, consumerStep, hpc, ConsumerPc.stance]
  | read head =>
    refine Move.stay.of_eq ?_ ?_ ?_
    all_goals rintro (_ | _) <;> simp [handoff, consumerStep, hpc, ConsumerPc.stance]
  | decCount item =>
    refine Move.of_eq (.change q.consumerStep.handoff.blocked (by rw [hstance, hpc]; rfl)) ?_ ?_
      fun _ => rfl
    all_goals rintro (_ | _) <;> by_cases hfull : q.count = q.size <;>
      simp [handoff, consumerStep, hpc, hfull, ConsumerPc.stance]
  | raiseLock item =>
    refine Move.of_eq (.lockOther (by rw [hstance, hpc]; rfl) ?_) ?_ ?_ ?_
    · simpa [consumerReady, hpc, handoff] using hr
    all_goals rintro (_ | _) <;> simp [handoff, consumerStep, hpc, ConsumerPc.stance, Party.thread]
  | raiseSignal item =>
    obtain ⟨pc, heq, hwake⟩ := wakeProducer_eq q
    refine Move.of_eq (.signal (by rw [hstance, hpc]; rfl)) ?_ ?_ ?_
    all_goals rintro (_ | _) <;> simp [handoff, consumerStep, hpc, heq, hwake, ConsumerPc.stance]
  | raiseUnlock item =>
    refine Move.of_eq (.unlockOther (by rw [hstance, hpc]; rfl)) ?_ ?_ ?_
    all_goals rintro (_ | _) <;> simp [handoff, consumerStep, hpc, ConsumerPc.stance]

theorem producer_idle (h : q.producerIdle = true) : ∃ r, q.producer = .idle r := by
  unfold producerIdle at h
  split at h
  · next r hpc => exact ⟨r, hpc⟩
  · cases h

theorem consumer_idle (h : q.consumerIdle = true) : ∃ r, q.consumer = .idle r := by
  unfold consumerIdle at h
  split at h
  · next r hpc => exact ⟨r, hpc⟩
  · cases h

theorem move_producerWake (h : q.producerAsleep = true) :
    Move true q.handoff q.wakeProducer.handoff := by
  obtain ⟨item, hpc⟩ : ∃ item, q.producer = .asleep item := by
    unfold producerAsleep at h
    split at h
    · next item hpc => exact ⟨item, hpc⟩
    · cases h
  refine Move.of_eq (.wake (show q.producer.stance = _ by rw [hpc]; rfl)) ?_ ?_ ?_
  all_goals rintro (_ | _) <;> simp [handoff, wakeProducer, hpc, ProducerPc.stance]

theorem move_consumerWake (h : q.consumerAsleep = true) :
    Move false q.handoff q.wakeConsumer.handoff := by
  have hpc : q.consumer = .asleep := by
    unfold consumerAsleep at h
    split at h
    · assumption
    · cases h
  refine Move.of_eq (.wake (show q.consumer.stance = _ by rw [hpc]; rfl)) ?_ ?_ ?_
  all_goals rintro (_ | _) <;> simp [handoff, wakeConsumer, hpc, ConsumerPc.stance]

/-- Every action is a move of one of the two threads. -/
theorem move_of_enabled {a : SpscqAction α} (he : (machine α).enabled q a) :
    ∃ p, Move p q.handoff ((machine α).perform q a).handoff := by
  cases a with
  | produce item wait =>
    refine ⟨true, Move.stay.of_eq ?_ (fun _ => rfl) fun _ => rfl⟩
    obtain ⟨r, hidle⟩ := producer_idle he
    rintro (_ | _)
    · rfl
    · show (ProducerPc.check item wait).stance = q.producer.stance
      rw [hidle]
      rfl
  | producerStep => exact ⟨true, move_producerStep he⟩
  | producerWake => exact ⟨true, move_producerWake he⟩
  | consume wait =>
    refine ⟨false, Move.stay.of_eq ?_ (fun _ => rfl) fun _ => rfl⟩
    obtain ⟨r, hidle⟩ := consumer_idle he
    rintro (_ | _)
    · show (ConsumerPc.check wait : ConsumerPc α).stance = q.consumer.stance
      rw [hidle]
      rfl
    · rfl
  | consumerStep => exact ⟨false, move_consumerStep he⟩
  | consumerWake => exact ⟨false, move_consumerWake he⟩

theorem handoff_ok (h : (machine α).Reachable q) : Handoff.Ok q.handoff := by
  refine Machine.invariant (P := fun q => Handoff.Ok q.handoff) ?_ ?_ h
  · rintro q ⟨size, _, rfl⟩ p
    cases p <;> exact ⟨by simp [handoff, init, ProducerPc.stance, ConsumerPc.stance],
      by simp [handoff, init, ProducerPc.stance, ConsumerPc.stance],
      by simp [handoff, init, ProducerPc.stance, ConsumerPc.stance]⟩
  · intro q a _ hok he
    obtain ⟨p, hm⟩ := move_of_enabled he
    exact hok.move hm

/-- The producer is between its increment of the count and the signal. -/
def producerRaising (q : Spscq α) : Prop := q.producer = .raiseLock ∨ q.producer = .raiseSignal

/-- The consumer is between its decrement of the count and the signal. -/
def consumerRaising (q : Spscq α) : Prop :=
  ∃ item, q.consumer = .raiseLock item ∨ q.consumer = .raiseSignal item

/-- No wake-up is lost: the consumer sleeps although there are values, or the producer sleeps
although there is room, only while the other one is about to signal. -/
theorem no_lost_wakeup (h : (machine α).Reachable q) :
    (q.consumerAsleep = true → 0 < q.count.toNat → q.producerRaising) ∧
    (q.producerAsleep = true → q.count.toNat < q.size.toNat → q.consumerRaising) := by
  have hok := handoff_ok h
  constructor
  · intro hasleep hcount
    have hstance : q.consumer.stance.drowsy = true := by
      unfold consumerAsleep at hasleep
      split at hasleep
      · next hpc => rw [hpc]; rfl
      · cases hasleep
    have hblocked : q.handoff.blocked false = false := by
      refine decide_eq_false fun heq => ?_
      rw [heq] at hcount
      exact absurd hcount (by decide)
    have hraising : q.producer.stance.raising = true := (hok false).wake hstance hblocked
    unfold producerRaising
    cases hpc : q.producer <;> simp [hpc, ProducerPc.stance] at hraising ⊢
  · intro hasleep hcount
    have hstance : q.producer.stance.drowsy = true := by
      unfold producerAsleep at hasleep
      split at hasleep
      · next hpc => rw [hpc]; rfl
      · cases hasleep
    have hblocked : q.handoff.blocked true = false := by
      refine decide_eq_false fun heq => ?_
      rw [heq] at hcount
      exact Nat.lt_irrefl _ hcount
    have hraising : q.consumer.stance.raising = true := (hok true).wake hstance hblocked
    unfold consumerRaising
    cases hpc : q.consumer <;> simp [hpc, ConsumerPc.stance] at hraising ⊢

/-- The consumer sleeps, the producer has put a value and is about to signal. -/
theorem no_lost_wakeup_raising :
    let q := (machine Nat).run (init 1#32) [.consume true, .consumerStep, .consumerStep,
      .consumerStep, .consumerStep, .produce 7 false, .producerStep, .producerStep, .producerStep,
      .producerStep]
    q.consumerAsleep = true ∧ q.count = 1#32 ∧ q.producerRaising := by
  intro q
  have hr : (machine Nat).Reachable q :=
    Machine.Reachable.run (.init ⟨1#32, ⟨0, by decide⟩, rfl⟩) (by decide)
  exact ⟨rfl, rfl, (no_lost_wakeup hr).1 rfl (by decide)⟩

end Spscq

/-! ## The FIFO -/

/-- How far the producer is, as far as the queue is concerned. -/
inductive ProducerStage (α : Type*)
  | out
  /-- it has seen that there is room -/
  | committed
  | fetched (item : α) (tail : BitVec 32)
  | wrote

inductive ConsumerStage (α : Type*)
  | out
  /-- it has seen that there is a value -/
  | committed
  | fetched (head : BitVec 32)
  | got (item : Option α)

def ProducerPc.stage {α : Type*} : ProducerPc α → ProducerStage α
  | .unlock _ | .fetchTail _ => .committed
  | .write item tail => .fetched item tail
  | .incCount => .wrote
  | _ => .out

def ConsumerPc.stage {α : Type*} : ConsumerPc α → ConsumerStage α
  | .unlock | .fetchHead => .committed
  | .read head => .fetched head
  | .decCount item => .got item
  | _ => .out

/-- The value that a call has taken out and not returned yet. -/
def ConsumerPc.taken {α : Type*} : ConsumerPc α → List (Option α)
  | .raiseLock item | .raiseSignal item | .raiseUnlock item => [item]
  | _ => []

/-- The part of the state that the FIFO is about. -/
structure Core (α : Type*) where
  size : BitVec 32
  count : BitVec 32
  head : BitVec 32
  tail : BitVec 32
  values : BitVec 32 → Option α
  unread : BitVec 32 → Bool
  written : List α
  produced : List α
  taken : List (Option α)
  producer : ProducerStage α
  consumer : ConsumerStage α

def Spscq.core {α : Type*} (q : Spscq α) : Core α where
  size := q.size
  count := q.count
  head := q.head
  tail := q.tail
  values := q.values
  unread := q.unread
  written := q.written
  produced := q.produced
  taken := q.consumed ++ q.consumer.taken
  producer := q.producer.stage
  consumer := q.consumer.stage

/-- What a step can do to the core. -/
inductive CoreMove {α : Type*} (c : Core α) : Core α → Prop
  | stay : CoreMove c c
  | commit : c.producer = .out → c.count ≠ c.size → CoreMove c { c with producer := .committed }
  | fetchTail (item : α) : c.producer = .committed →
      CoreMove c { c with producer := .fetched item c.tail, tail := c.tail + 1#32 }
  | write {item : α} {tail : BitVec 32} : c.producer = .fetched item tail → CoreMove c
      { c with
        producer := .wrote
        values := Function.update c.values (Ring.index tail c.size) (some item)
        unread := Function.update c.unread (Ring.index tail c.size) true
        written := c.written ++ [item] }
  | incCount : c.producer = .wrote → CoreMove c
      { c with producer := .out, count := c.count + 1#32, produced := c.written }
  | reserve : c.consumer = .out → c.count ≠ 0#32 → CoreMove c { c with consumer := .committed }
  | fetchHead : c.consumer = .committed →
      CoreMove c { c with consumer := .fetched c.head, head := c.head + 1#32 }
  | read {head : BitVec 32} : c.consumer = .fetched head → CoreMove c
      { c with
        consumer := .got (c.values (Ring.index head c.size))
        unread := Function.update c.unread (Ring.index head c.size) false }
  | decCount {item : Option α} : c.consumer = .got item → CoreMove c
      { c with consumer := .out, count := c.count - 1#32, taken := c.taken ++ [item] }

theorem CoreMove.of_eq {α : Type*} {c c' d : Core α} (hm : CoreMove c c') (h : d = c') :
    CoreMove c d := h ▸ hm

namespace Spscq

variable {α : Type*} {q : Spscq α}

/-- A step of the producer that keeps its stage and the fields of the core. -/
theorem core_producer (pc : ProducerPc α) (hstage : pc.stage = q.producer.stage)
    (mtx mtx' : Option Party) :
    core { q with producer := pc, produceMtx := mtx, consumeMtx := mtx' } = q.core := by
  simp only [core, hstage]

theorem core_consumer (pc : ConsumerPc α) (hstage : pc.stage = q.consumer.stage)
    (htaken : pc.taken = q.consumer.taken) (mtx mtx' : Option Party) :
    core { q with consumer := pc, produceMtx := mtx, consumeMtx := mtx' } = q.core := by
  simp only [core, hstage, htaken]

theorem core_wakeConsumer (q : Spscq α) : q.wakeConsumer.core = q.core := by
  unfold wakeConsumer
  split
  · next hpc => exact core_consumer _ (by rw [hpc]; rfl) (by rw [hpc]; rfl) _ _
  · rfl

theorem core_wakeProducer (q : Spscq α) : q.wakeProducer.core = q.core := by
  unfold wakeProducer
  split
  · next item hpc => exact core_producer _ (by rw [hpc]; rfl) _ _
  · rfl

theorem coreMove_producerStep (hr : q.producerReady = true) :
    CoreMove q.core q.producerStep.core := by
  have hstage : q.core.producer = q.producer.stage := rfl
  have hstay : ∀ (pc : ProducerPc α) (mtx mtx' : Option Party), pc.stage = q.producer.stage →
      CoreMove q.core (core { q with producer := pc, produceMtx := mtx, consumeMtx := mtx' }) :=
    fun pc mtx mtx' h => (core_producer pc h mtx mtx').symm ▸ CoreMove.stay
  cases hpc : q.producer with
  | idle _ => simp [producerReady, hpc] at hr
  | asleep item => simp [producerReady, hpc] at hr
  | check item wait =>
    simp only [producerStep, hpc]
    split
    · split
      · exact hstay _ _ _ (by rw [hpc]; rfl)
      · exact hstay _ _ _ (by rw [hpc]; rfl)
    · next hfull => exact CoreMove.commit (by rw [hstage, hpc]; rfl) hfull
  | recheck item =>
    simp only [producerStep, hpc]
    split
    · exact hstay _ _ _ (by rw [hpc]; rfl)
    · next hfull => exact CoreMove.commit (by rw [hstage, hpc]; rfl) hfull
  | fetchTail item =>
    simp only [producerStep, hpc]
    exact CoreMove.fetchTail item (by rw [hstage, hpc]; rfl)
  | write item tail =>
    simp only [producerStep, hpc]
    exact CoreMove.write (by rw [hstage, hpc]; rfl)
  | incCount =>
    simp only [producerStep, hpc]
    have hmove := CoreMove.incCount (c := q.core) (by rw [hstage, hpc]; rfl)
    split
    · exact hmove
    · exact hmove
  | raiseSignal =>
    simp only [producerStep, hpc]
    have hcore : core { q.wakeConsumer with producer := .raiseUnlock } = q.core := by
      rw [← core_wakeConsumer q]
      refine core_producer _ ?_ _ _
      obtain ⟨pc, heq, _⟩ := wakeConsumer_eq q
      rw [heq, hpc]
      rfl
    exact hcore ▸ CoreMove.stay
  | lock item => simpa only [producerStep, hpc] using hstay _ _ _ (by rw [hpc]; rfl)
  | wait item => simpa only [producerStep, hpc] using hstay _ _ _ (by rw [hpc]; rfl)
  | unlock item => simpa only [producerStep, hpc] using hstay _ _ _ (by rw [hpc]; rfl)
  | raiseLock => simpa only [producerStep, hpc] using hstay _ _ _ (by rw [hpc]; rfl)
  | raiseUnlock => simpa only [producerStep, hpc] using hstay _ _ _ (by rw [hpc]; rfl)

theorem coreMove_consumerStep (hr : q.consumerReady = true) :
    CoreMove q.core q.consumerStep.core := by
  have hstage : q.core.consumer = q.consumer.stage := rfl
  have hstay : ∀ (pc : ConsumerPc α) (mtx mtx' : Option Party), pc.stage = q.consumer.stage →
      pc.taken = q.consumer.taken →
      CoreMove q.core (core { q with consumer := pc, produceMtx := mtx, consumeMtx := mtx' }) :=
    fun pc mtx mtx' h h' => (core_consumer pc h h' mtx mtx').symm ▸ CoreMove.stay
  cases hpc : q.consumer with
  | idle _ => simp [consumerReady, hpc] at hr
  | asleep => simp [consumerReady, hpc] at hr
  | check wait =>
    simp only [consumerStep, hpc]
    split
    · split
      · exact hstay _ _ _ (by rw [hpc]; rfl) (by rw [hpc]; rfl)
      · exact hstay _ _ _ (by rw [hpc]; rfl) (by rw [hpc]; rfl)
    · next hempty =>
      refine CoreMove.of_eq (CoreMove.reserve (c := q.core) (by rw [hstage, hpc]; rfl) hempty) ?_
      simp [core, hpc, ConsumerPc.taken, ConsumerPc.stage]
  | recheck =>
    simp only [consumerStep, hpc]
    split
    · exact hstay _ _ _ (by rw [hpc]; rfl) (by rw [hpc]; rfl)
    · next hempty =>
      refine CoreMove.of_eq (CoreMove.reserve (c := q.core) (by rw [hstage, hpc]; rfl) hempty) ?_
      simp [core, hpc, ConsumerPc.taken, ConsumerPc.stage]
  | fetchHead =>
    simp only [consumerStep, hpc]
    refine CoreMove.of_eq (CoreMove.fetchHead (c := q.core) (by rw [hstage, hpc]; rfl)) ?_
    simp [core, hpc, ConsumerPc.taken, ConsumerPc.stage]
  | read head =>
    simp only [consumerStep, hpc]
    refine CoreMove.of_eq (CoreMove.read (c := q.core) (by rw [hstage, hpc]; rfl)) ?_
    simp [core, hpc, ConsumerPc.taken, ConsumerPc.stage, slot]
  | decCount item =>
    simp only [consumerStep, hpc]
    have hmove := CoreMove.decCount (show q.core.consumer = .got item by rw [hstage, hpc]; rfl)
    split
    · refine CoreMove.of_eq hmove ?_
      simp [core, hpc, ConsumerPc.taken, ConsumerPc.stage]
    · refine CoreMove.of_eq hmove ?_
      simp [core, hpc, ConsumerPc.taken, ConsumerPc.stage]
  | raiseSignal item =>
    simp only [consumerStep, hpc]
    have hcore : core { q.wakeProducer with consumer := .raiseUnlock item } = q.core := by
      obtain ⟨pc, heq, _⟩ := wakeProducer_eq q
      rw [← core_wakeProducer q]
      refine core_consumer _ ?_ ?_ _ _
      · rw [heq, hpc]
        rfl
      · rw [heq, hpc]
        rfl
    exact hcore ▸ CoreMove.stay
  | raiseUnlock item =>
    refine CoreMove.of_eq CoreMove.stay ?_
    simp [consumerStep, core, hpc, ConsumerPc.taken, ConsumerPc.stage]
  | lock => simpa only [consumerStep, hpc] using hstay _ _ _ (by rw [hpc]; rfl) (by rw [hpc]; rfl)
  | wait => simpa only [consumerStep, hpc] using hstay _ _ _ (by rw [hpc]; rfl) (by rw [hpc]; rfl)
  | unlock => simpa only [consumerStep, hpc] using hstay _ _ _ (by rw [hpc]; rfl) (by rw [hpc]; rfl)
  | raiseLock item =>
    simpa only [consumerStep, hpc] using hstay _ _ _ (by rw [hpc]; rfl) (by rw [hpc]; rfl)

theorem coreMove_of_enabled {a : SpscqAction α} (he : (machine α).enabled q a) :
    CoreMove q.core ((machine α).perform q a).core := by
  cases a with
  | produce item wait =>
    obtain ⟨r, hidle⟩ := producer_idle he
    have hcore : ((machine α).perform q (.produce item wait)).core = q.core :=
      core_producer _ (by rw [hidle]; rfl) _ _
    exact hcore ▸ CoreMove.stay
  | producerStep => exact coreMove_producerStep he
  | producerWake => exact (core_wakeProducer q).symm ▸ CoreMove.stay
  | consume wait =>
    obtain ⟨r, hidle⟩ := consumer_idle he
    have hcore : ((machine α).perform q (.consume wait)).core = q.core :=
      core_consumer _ (by rw [hidle]; rfl) (by rw [hidle]; rfl) _ _
    exact hcore ▸ CoreMove.stay
  | consumerStep => exact coreMove_consumerStep he
  | consumerWake => exact (core_wakeConsumer q).symm ▸ CoreMove.stay

end Spscq

/-- How many fetches of the tail have not been followed by a write. -/
def ProducerStage.tailAhead {α : Type*} : ProducerStage α → Nat
  | .fetched _ _ => 1
  | _ => 0

/-- How many writes have not been counted. -/
def ProducerStage.writtenAhead {α : Type*} : ProducerStage α → Nat
  | .wrote => 1
  | _ => 0

/-- How many fetches of the head have not been counted. -/
def ConsumerStage.headAhead {α : Type*} : ConsumerStage α → Nat
  | .fetched _ | .got _ => 1
  | _ => 0

/-- How many reads have not been counted. -/
def ConsumerStage.readAhead {α : Type*} : ConsumerStage α → Nat
  | .got _ => 1
  | _ => 0

namespace Core

variable {α : Type*} {c c' : Core α} {k : Nat}

/-- The slot of the value with the number `n`. -/
def slotOf (c : Core α) (n : Nat) : BitVec 32 := Ring.index (BitVec.ofNat 32 n) c.size

/-- The counters follow the numbers of the values, and the slots hold the values that were written
and are not taken. -/
structure Inv (k : Nat) (c : Core α) : Prop where
  size : c.size.toNat = 2 ^ k
  written : c.written.length = c.produced.length + c.producer.writtenAhead
  produced : c.produced = c.written.take c.produced.length
  taken : c.taken = (c.written.take c.taken.length).map some
  count : c.count.toNat + c.taken.length = c.produced.length
  bound : c.produced.length ≤ c.taken.length + 2 ^ k
  tail : c.tail = BitVec.ofNat 32 (c.written.length + c.producer.tailAhead)
  head : c.head = BitVec.ofNat 32 (c.taken.length + c.consumer.headAhead)
  room : c.producer ≠ .out → c.produced.length < c.taken.length + 2 ^ k
  write : ∀ item tail, c.producer = .fetched item tail → tail = BitVec.ofNat 32 c.written.length
  avail : c.consumer ≠ .out → c.taken.length < c.produced.length
  read : ∀ head, c.consumer = .fetched head → head = BitVec.ofNat 32 c.taken.length
  got : ∀ item, c.consumer = .got item → item = c.written[c.taken.length]?
  window : Ring.Window k c.size (BitVec.ofNat 32 c.taken.length) c.values
    (c.written.drop c.taken.length)
  unread : ∀ i, c.unread i = true ↔
    ∃ n, c.taken.length + c.consumer.readAhead ≤ n ∧ n < c.written.length ∧ i = c.slotOf n

theorem Inv.init {size : BitVec 32} (hsize : size.toNat = 2 ^ k) :
    (Spscq.init size : Spscq α).core.Inv k := by
  refine ⟨hsize, rfl, rfl, rfl, rfl, Nat.zero_le _, rfl, rfl, ?_, nofun, ?_, nofun, nofun,
    Ring.Window.empty hsize, ?_⟩
  all_goals simp [Spscq.core, Spscq.init, ProducerPc.stage, ConsumerPc.stage, ConsumerPc.taken]

theorem Inv.taken_le (hi : c.Inv k) : c.taken.length ≤ c.written.length := by
  have := hi.count
  have := hi.written
  omega

theorem Inv.read_le (hi : c.Inv k) :
    c.taken.length + c.consumer.readAhead ≤ c.produced.length := by
  have hcount := hi.count
  have havail := hi.avail
  cases hc : c.consumer with
  | got item =>
    have := havail (by rw [hc]; nofun)
    exact this
  | _ =>
    show c.taken.length + 0 ≤ _
    omega

/-- Values whose numbers differ by less than the size have different slots. -/
theorem Inv.slotOf_inj (hi : c.Inv k) {m n : Nat} (hle : m ≤ n) (hlt : n < m + 2 ^ k)
    (h : c.slotOf m = c.slotOf n) : m = n := by
  have hn : BitVec.ofNat 32 n = BitVec.ofNat 32 m + BitVec.ofNat 32 (n - m) := by
    rw [← BitVec.ofNat_add]
    congr 1
    omega
  have hindex : Ring.index (BitVec.ofNat 32 m + BitVec.ofNat 32 0) c.size =
      Ring.index (BitVec.ofNat 32 m + BitVec.ofNat 32 (n - m)) c.size := by
    rw [← hn, BitVec.add_zero]
    exact h
  have := Ring.index_inj hi.size (Nat.two_pow_pos k) (by omega) hindex
  omega

theorem Inv.commit (hi : c.Inv k) (hp : c.producer = .out) (hfull : c.count ≠ c.size) :
    Inv k { c with producer := .committed } := by
  have hcount := hi.count
  have hbound := hi.bound
  have hne : c.count.toNat ≠ 2 ^ k := by
    rw [← hi.size]
    exact fun heq => hfull (BitVec.eq_of_toNat_eq heq)
  have hroom : c.produced.length < c.taken.length + 2 ^ k := by omega
  have hw := hi.written
  have ht := hi.tail
  rw [hp] at hw ht
  exact { hi with written := hw, tail := ht, room := fun _ => hroom, write := nofun }

theorem Inv.fetchTail (hi : c.Inv k) (item : α) (hp : c.producer = .committed) :
    Inv k { c with producer := .fetched item c.tail, tail := c.tail + 1#32 } := by
  have hw := hi.written
  have ht := hi.tail
  have hroom := hi.room (by rw [hp]; nofun)
  rw [hp] at hw ht
  have ht' : c.tail = BitVec.ofNat 32 c.written.length := ht
  refine { hi with
    written := hw
    tail := ?_
    room := fun _ => hroom
    write := fun _ _ heq => ?_ }
  · show c.tail + 1#32 = BitVec.ofNat 32 (c.written.length + 1)
    rw [ht', BitVec.ofNat_add]
  · cases heq
    exact ht'

theorem Inv.writeSlot (hi : c.Inv k) {item : α} {tail : BitVec 32}
    (hp : c.producer = .fetched item tail) : Inv k
      { c with
        producer := .wrote
        values := Function.update c.values (Ring.index tail c.size) (some item)
        unread := Function.update c.unread (Ring.index tail c.size) true
        written := c.written ++ [item] } := by
  have hroom := hi.room (by rw [hp]; nofun)
  have htaken := hi.taken_le
  have hw : c.written.length = c.produced.length + 0 := by
    have := hi.written
    rwa [hp] at this
  have ht := hi.tail
  obtain rfl := hi.write item tail hp
  rw [hp] at ht
  have hlen : (c.written ++ [item]).length = c.written.length + 1 := by simp
  have hle : c.produced.length ≤ c.written.length := by omega
  refine { hi with
    written := ?_
    produced := ?_
    taken := ?_
    tail := ?_
    room := fun _ => hroom
    write := nofun
    got := fun item' heq => ?_
    window := ?_
    unread := fun i => ?_ }
  · show (c.written ++ [item]).length = c.produced.length + 1
    omega
  · show c.produced = (c.written ++ [item]).take c.produced.length
    rw [List.take_append_of_le_length (by omega)]
    exact hi.produced
  · show c.taken = ((c.written ++ [item]).take c.taken.length).map some
    rw [List.take_append_of_le_length htaken]
    exact hi.taken
  · show c.tail = BitVec.ofNat 32 ((c.written ++ [item]).length + 0)
    rw [hlen]
    exact ht
  · -- The consumer may hold a value already. It was written before.
    show item' = (c.written ++ [item])[c.taken.length]?
    have havail := hi.avail (by show c.consumer ≠ _; rw [show c.consumer = _ from heq]; nofun)
    rw [List.getElem?_append_left (by omega)]
    exact hi.got item' heq
  · -- The next slot behind the window.
    have hlast : BitVec.ofNat 32 c.taken.length +
        BitVec.ofNat 32 (c.written.drop c.taken.length).length =
        BitVec.ofNat 32 c.written.length := by
      rw [← BitVec.ofNat_add, List.length_drop]
      congr 1
      omega
    have hpush := hi.window.push (by rw [List.length_drop]; omega) item
    rw [hlast] at hpush
    show Ring.Window k c.size _ _ ((c.written ++ [item]).drop c.taken.length)
    rw [List.drop_append_of_le_length htaken]
    exact hpush
  · show Function.update c.unread (Ring.index _ c.size) true i = true ↔
      ∃ n, c.taken.length + c.consumer.readAhead ≤ n ∧ n < (c.written ++ [item]).length ∧
        i = c.slotOf n
    rw [hlen, Function.update_apply]
    split
    · next heq => exact ⟨fun _ => ⟨_, Nat.le_trans hi.read_le hle, Nat.lt_succ_self _, heq⟩,
        fun _ => rfl⟩
    · next hne =>
      rw [hi.unread]
      refine exists_congr fun n => and_congr_right fun _ => and_congr_left fun heq => ?_
      -- Another slot is not that of the new value, so nothing changes for it.
      have hn : n ≠ c.written.length := fun h => hne (heq.trans (by rw [h]; rfl))
      omega

theorem Inv.incCount (hi : c.Inv k) (hp : c.producer = .wrote) :
    Inv k { c with producer := .out, count := c.count + 1#32, produced := c.written } := by
  have hroom := hi.room (by rw [hp]; nofun)
  have hw : c.written.length = c.produced.length + 1 := by
    have := hi.written
    rwa [hp] at this
  have ht := hi.tail
  rw [hp] at ht
  have hlt : 2 ^ k < 2 ^ 32 := Ring.two_pow_lt hi.size
  have hcount := hi.count
  -- The count does not wrap around, since there was room.
  have hadd : (c.count + 1#32).toNat = c.count.toNat + 1 := by
    rw [BitVec.toNat_add]
    exact Nat.mod_eq_of_lt (by show c.count.toNat + 1 < _; omega)
  refine { hi with
    written := rfl
    produced := (List.take_length).symm
    count := ?_
    bound := ?_
    tail := ht
    room := fun h => absurd rfl h
    write := nofun
    avail := fun h => ?_ }
  · show (c.count + 1#32).toNat + c.taken.length = c.written.length
    omega
  · show c.written.length ≤ c.taken.length + _
    omega
  · have havail := hi.avail h
    show c.taken.length < c.written.length
    omega

theorem Inv.reserve (hi : c.Inv k) (hc : c.consumer = .out) (hne : c.count ≠ 0#32) :
    Inv k { c with consumer := .committed } := by
  have hcount := hi.count
  have hpos : c.count.toNat ≠ 0 := fun heq => hne (BitVec.eq_of_toNat_eq heq)
  have hh := hi.head
  have hu := hi.unread
  rw [hc] at hh hu
  have havail : c.taken.length < c.produced.length := by omega
  exact { hi with
    head := hh
    avail := fun _ => havail
    read := nofun
    got := nofun
    unread := hu }

theorem Inv.fetchHead (hi : c.Inv k) (hc : c.consumer = .committed) :
    Inv k { c with consumer := .fetched c.head, head := c.head + 1#32 } := by
  have havail := hi.avail (by rw [hc]; nofun)
  have hu := hi.unread
  have hh : c.head = BitVec.ofNat 32 c.taken.length := by
    have := hi.head
    rwa [hc] at this
  rw [hc] at hu
  refine { hi with
    head := ?_
    avail := fun _ => havail
    read := fun _ heq => ?_
    got := nofun
    unread := hu }
  · show c.head + 1#32 = BitVec.ofNat 32 (c.taken.length + 1)
    rw [hh, BitVec.ofNat_add]
  · cases heq
    exact hh

/-- The first value that is not taken, in front of the others. -/
theorem drop_taken (hlt : c.taken.length < c.written.length) :
    c.written.drop c.taken.length =
      c.written[c.taken.length] :: c.written.drop (c.taken.length + 1) :=
  List.drop_eq_getElem_cons hlt

theorem Inv.readSlot (hi : c.Inv k) {head : BitVec 32} (hc : c.consumer = .fetched head) :
    Inv k
      { c with
        consumer := .got (c.values (Ring.index head c.size))
        unread := Function.update c.unread (Ring.index head c.size) false } := by
  have havail := hi.avail (by rw [hc]; nofun)
  have hw := hi.written
  have hlt : c.taken.length < c.written.length := by omega
  obtain rfl := hi.read head hc
  have hh := hi.head
  have hu : ∀ i, c.unread i = true ↔
      ∃ n, c.taken.length ≤ n ∧ n < c.written.length ∧ i = c.slotOf n := by
    have := hi.unread
    rwa [hc] at this
  rw [hc] at hh
  have hfits := hi.window.fits
  rw [List.length_drop] at hfits
  refine { hi with
    head := hh
    avail := fun _ => havail
    read := nofun
    got := fun item heq => ?_
    unread := fun i => ?_ }
  · cases heq
    have hwin := hi.window
    rw [drop_taken hlt] at hwin
    rw [hwin.head, List.getElem?_eq_getElem hlt]
  · show Function.update c.unread (c.slotOf c.taken.length) false i = true ↔
      ∃ n, c.taken.length + 1 ≤ n ∧ n < c.written.length ∧ i = c.slotOf n
    rw [Function.update_apply]
    split
    · next heq =>
      refine ⟨nofun, ?_⟩
      rintro ⟨n, hle, hn, hslot⟩
      -- No later value is in the slot that was read: the window is not longer than the ring.
      have := hi.slotOf_inj (by omega) (by omega) (heq.symm.trans hslot)
      omega
    · next hne =>
      rw [hu]
      refine exists_congr fun n => ?_
      constructor
      · rintro ⟨hle, hn, hslot⟩
        have : n ≠ c.taken.length := fun h => hne (hslot.trans (by rw [h]))
        exact ⟨by omega, hn, hslot⟩
      · rintro ⟨hle, hn, hslot⟩
        exact ⟨by omega, hn, hslot⟩

theorem Inv.decCount (hi : c.Inv k) {item : Option α} (hc : c.consumer = .got item) :
    Inv k { c with consumer := .out, count := c.count - 1#32, taken := c.taken ++ [item] } := by
  have havail := hi.avail (by rw [hc]; nofun)
  have hw := hi.written
  have hlt : c.taken.length < c.written.length := by omega
  have hbound := hi.bound
  have hcount := hi.count
  have hh := hi.head
  have hu := hi.unread
  have hgot := hi.got item hc
  rw [hc] at hh hu
  rw [List.getElem?_eq_getElem hlt] at hgot
  have hlen : (c.taken ++ [item]).length = c.taken.length + 1 := by simp
  -- The value that is taken is still counted.
  have hsub : (c.count - 1#32).toNat = c.count.toNat - 1 := by
    refine BitVec.toNat_sub_of_le ?_
    rw [BitVec.le_def]
    show 1 ≤ _
    omega
  refine { hi with
    taken := ?_
    count := ?_
    bound := ?_
    head := ?_
    room := fun h => ?_
    avail := fun h => absurd rfl h
    read := nofun
    got := nofun
    window := ?_
    unread := ?_ }
  · show c.taken ++ [item] = (c.written.take (c.taken ++ [item]).length).map some
    rw [hlen, List.take_succ_eq_append_getElem hlt, List.map_append, ← hi.taken, hgot]
    rfl
  · show (c.count - 1#32).toNat + (c.taken ++ [item]).length = c.produced.length
    omega
  · show c.produced.length ≤ (c.taken ++ [item]).length + _
    omega
  · show c.head = BitVec.ofNat 32 ((c.taken ++ [item]).length + 0)
    rw [hlen]
    exact hh
  · have hroom := hi.room h
    show c.produced.length < (c.taken ++ [item]).length + _
    omega
  · show Ring.Window k c.size (BitVec.ofNat 32 (c.taken ++ [item]).length) c.values
      (c.written.drop (c.taken ++ [item]).length)
    have hwin := hi.window
    rw [drop_taken hlt] at hwin
    rw [hlen, BitVec.ofNat_add]
    exact hwin.pop
  · show ∀ i, c.unread i = true ↔
      ∃ n, (c.taken ++ [item]).length + 0 ≤ n ∧ n < c.written.length ∧ i = c.slotOf n
    rw [hlen]
    exact hu

theorem Inv.move (hi : c.Inv k) (hm : CoreMove c c') : c'.Inv k := by
  cases hm with
  | stay => exact hi
  | commit hp hfull => exact hi.commit hp hfull
  | fetchTail item hp => exact hi.fetchTail item hp
  | write hp => exact hi.writeSlot hp
  | incCount hp => exact hi.incCount hp
  | reserve hc hne => exact hi.reserve hc hne
  | fetchHead hc => exact hi.fetchHead hc
  | read hc => exact hi.readSlot hc
  | decCount hc => exact hi.decCount hc

/-- The slot that the producer is about to write holds no value that is still to be read. -/
theorem Inv.unread_tail (hi : c.Inv k) {item : α} {tail : BitVec 32}
    (hp : c.producer = .fetched item tail) : c.unread (Ring.index tail c.size) = false := by
  have hroom := hi.room (by rw [hp]; nofun)
  have hw : c.written.length = c.produced.length + 0 := by
    have := hi.written
    rwa [hp] at this
  rw [hi.write item tail hp, Bool.eq_false_iff]
  intro hunread
  obtain ⟨n, hle, hlt, hslot⟩ := (hi.unread _).mp hunread
  have := hi.slotOf_inj (Nat.le_of_lt hlt) (by omega) hslot.symm
  omega

/-- The slot that the consumer is about to read holds a value that was not read yet. -/
theorem Inv.unread_head (hi : c.Inv k) {head : BitVec 32} (hc : c.consumer = .fetched head) :
    c.unread (Ring.index head c.size) = true := by
  have havail := hi.avail (by rw [hc]; nofun)
  have hw := hi.written
  rw [hi.read head hc, hi.unread, hc]
  exact ⟨c.taken.length, Nat.le_refl _, by omega, rfl⟩

end Core

namespace Spscq

variable {α : Type*} {q : Spscq α}

theorem core_inv (h : (machine α).Reachable q) : ∃ k, q.core.Inv k := by
  refine Machine.invariant (P := fun q => ∃ k, q.core.Inv k) ?_ ?_ h
  · rintro q ⟨size, ⟨k, hsize⟩, rfl⟩
    exact ⟨k, Core.Inv.init hsize⟩
  · rintro q a _ ⟨k, hi⟩ he
    exact ⟨k, hi.move (coreMove_of_enabled he)⟩

/-- A call of `bio_spscq_produce` returns `false` only from its first check. -/
theorem producerStep_refused (hr : q.producerReady = true)
    (h : q.producerStep.producer = .idle (some false)) :
    (∃ item, q.producer = .check item false) ∧ q.count = q.size ∧
      q.producerStep = { q with producer := .idle (some false) } := by
  cases hpc : q.producer with
  | idle _ => simp [producerReady, hpc] at hr
  | check item wait =>
    cases wait <;> by_cases hfull : q.count = q.size <;> simp [producerStep, hpc, hfull] at h ⊢
  | recheck item => by_cases hfull : q.count = q.size <;> simp [producerStep, hpc, hfull] at h
  | incCount => by_cases hzero : q.count = 0#32 <;> simp [producerStep, hpc, hzero] at h
  | _ => simp [producerStep, hpc] at h

/-- A call of `bio_spscq_consume` returns `NULL` only from its first check. -/
theorem consumerStep_refused (hr : q.consumerReady = true)
    (h : q.consumerStep.consumer = .idle none) :
    q.consumer = .check false ∧ q.count = 0#32 ∧
      q.consumerStep = { q with consumer := .idle none } := by
  cases hpc : q.consumer with
  | idle _ => simp [consumerReady, hpc] at hr
  | check wait =>
    cases wait <;> by_cases hempty : q.count = 0#32 <;> simp [consumerStep, hpc, hempty] at h ⊢
  | recheck => by_cases hempty : q.count = 0#32 <;> simp [consumerStep, hpc, hempty] at h
  | decCount item => by_cases hfull : q.count = q.size <;> simp [consumerStep, hpc, hfull] at h
  | _ => simp [consumerStep, hpc] at h

/-- In every interleaving the queue is a bounded FIFO: what was consumed is a prefix of what was
produced, no more than `size` values are in it, a slot is written only when its value was read and
read only when it was written, and a call that is refused leaves the queue alone. -/
theorem spscq_fifo (h : (machine α).Reachable q) :
    q.consumed <+: q.produced.map some ∧
    (q.count.toNat ≤ q.size.toNat ∧
      q.count.toNat + (q.consumed ++ q.consumer.taken).length = q.produced.length ∧
      q.written.length ≤ (q.consumed ++ q.consumer.taken).length + q.size.toNat) ∧
    (∀ item tail, q.producer = .write item tail → q.unread (q.slot tail) = false) ∧
    (∀ head, q.consumer = .read head → q.unread (q.slot head) = true) ∧
    (q.producerReady = true → q.producerStep.producer = .idle (some false) →
      (∃ item, q.producer = .check item false) ∧ q.count = q.size ∧
        q.producerStep = { q with producer := .idle (some false) }) ∧
    (q.consumerReady = true → q.consumerStep.consumer = .idle none →
      q.consumer = .check false ∧ q.count = 0#32 ∧
        q.consumerStep = { q with consumer := .idle none }) := by
  obtain ⟨k, hi⟩ := core_inv h
  have hsize : q.size.toNat = 2 ^ k := hi.size
  have hcount : q.count.toNat + (q.consumed ++ q.consumer.taken).length = q.produced.length :=
    hi.count
  have hbound : q.produced.length ≤ (q.consumed ++ q.consumer.taken).length + 2 ^ k := hi.bound
  have hfits : (q.written.drop (q.consumed ++ q.consumer.taken).length).length ≤ 2 ^ k :=
    hi.window.fits
  rw [List.length_drop] at hfits
  refine ⟨?_, ⟨by omega, hcount, by omega⟩, fun item tail hpc => ?_, fun head hpc => ?_,
    producerStep_refused, consumerStep_refused⟩
  · -- The taken values are counted among the produced ones, which are the first written ones.
    have htaken : q.consumed ++ q.consumer.taken =
        (q.written.take (q.consumed ++ q.consumer.taken).length).map some := hi.taken
    have hproduced : q.produced = q.written.take q.produced.length := hi.produced
    have hprefix : (q.consumed ++ q.consumer.taken) <+: q.produced.map some := by
      rw [htaken, hproduced]
      exact (List.take_prefix_take_left (by omega)).map some
    exact (List.prefix_append _ _).trans hprefix
  · exact hi.unread_tail (show q.producer.stage = .fetched item tail by rw [hpc]; rfl)
  · exact hi.unread_head (show q.consumer.stage = _ by rw [hpc]; rfl)

/-- A queue of size one that is full refuses a second value. -/
theorem spscq_fifo_full :
    let q := (machine Nat).run (init 1#32) [.produce 7 false, .producerStep, .producerStep,
      .producerStep, .producerStep, .producerStep, .producerStep, .producerStep, .produce 8 false]
    q.producerReady = true ∧ q.producerStep.producer = .idle (some false) ∧
      q.producerStep = { q with producer := .idle (some false) } := by
  intro q
  have hr : (machine Nat).Reachable q :=
    Machine.Reachable.run (.init ⟨1#32, ⟨0, by decide⟩, rfl⟩) (by decide)
  obtain ⟨_, _, _, _, hrefused, _⟩ := spscq_fifo hr
  exact ⟨rfl, rfl, (hrefused rfl rfl).2.2⟩

end Spscq

end Bio
