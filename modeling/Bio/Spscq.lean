import Bio.Lib.Machine
import Bio.Lib.Ring

/-!
# The queue between the scheduler and a worker

`bio_spscq_t` of `src/thread.c` with its one producer and its one consumer. Each atomic load or
add, each slot access, each lock, unlock, wait and signal is one step, and the two threads take
their steps in any order. The counters are 32-bit and wrap. A sleeping thread may also wake up
without a signal, as C11 allows.

The fields `unread`, `written`, `produced` and `consumed` are ghosts. A value is counted as produced
when the count is incremented: from then on the consumer can take it, and the call returns `true`.
-/

namespace Bio

/-- The two threads. -/
inductive Party
  | producer | consumer
deriving DecidableEq, Repr

/-- Where the producer is in `bio_spscq_produce`, and the locals that are live there. -/
inductive ProducerPc (α : Type*)
  /-- outside, with what the last call returned -/
  | idle (returned : Option Bool)
  /-- `atomic_load(&queue->count) == queue->size` -/
  | check (item : α) (wait : Bool)
  /-- `mtx_lock`, also on the way out of `cnd_wait` -/
  | lock (item : α)
  /-- the condition of the `while` -/
  | recheck (item : α)
  /-- about to call `cnd_wait` -/
  | wait (item : α)
  /-- in `cnd_wait`, with the mutex released -/
  | asleep (item : α)
  | unlock (item : α)
  | fetchTail (item : α)
  | write (item : α) (tail : BitVec 32)
  /-- `atomic_fetch_add(&queue->count, 1) == 0` -/
  | incCount
  /-- the three steps of `bio_thread_signal_raise(&queue->can_consume)` -/
  | raiseLock
  | raiseSignal
  | raiseUnlock
deriving DecidableEq, Repr

/-- Where the consumer is in `bio_spscq_consume`. -/
inductive ConsumerPc (α : Type*)
  /-- outside, with what the last call returned, `none` for `NULL` -/
  | idle (returned : Option (Option α))
  /-- `atomic_load(&queue->count) == 0` -/
  | check (wait : Bool)
  | lock
  | recheck
  | wait
  | asleep
  | unlock
  | fetchHead
  | read (head : BitVec 32)
  /-- `atomic_fetch_add(&queue->count, -1) == queue->size` -/
  | decCount (item : Option α)
  /-- the three steps of `bio_thread_signal_raise(&queue->can_produce)` -/
  | raiseLock (item : Option α)
  | raiseSignal (item : Option α)
  | raiseUnlock (item : Option α)
deriving DecidableEq, Repr

/-- `bio_spscq_t` and its two threads. A mutex is the thread that holds it. A slot that was never
written is `none`. -/
structure Spscq (α : Type*) where
  size : BitVec 32
  count : BitVec 32
  head : BitVec 32
  tail : BitVec 32
  values : BitVec 32 → Option α
  /-- `can_produce.mtx` -/
  produceMtx : Option Party
  /-- `can_consume.mtx` -/
  consumeMtx : Option Party
  producer : ProducerPc α
  consumer : ConsumerPc α
  /-- the slots that were written and not read since -/
  unread : BitVec 32 → Bool
  written : List α
  produced : List α
  /-- what the calls of `bio_spscq_consume` returned -/
  consumed : List (Option α)

inductive SpscqAction (α : Type*)
  /-- the producer calls `bio_spscq_produce` -/
  | produce (item : α) (wait : Bool)
  | producerStep
  /-- the producer wakes up without a signal -/
  | producerWake
  /-- the consumer calls `bio_spscq_consume` -/
  | consume (wait : Bool)
  | consumerStep
  | consumerWake
deriving DecidableEq, Repr

namespace Spscq

variable {α : Type*}

/-- `bio_spscq_init`. -/
def init (size : BitVec 32) : Spscq α where
  size := size
  count := 0#32
  head := 0#32
  tail := 0#32
  values := fun _ => none
  produceMtx := none
  consumeMtx := none
  producer := .idle none
  consumer := .idle none
  unread := fun _ => false
  written := []
  produced := []
  consumed := []

/-- `tail & (queue->size - 1)`. -/
def slot (q : Spscq α) (v : BitVec 32) : BitVec 32 := Ring.index v q.size

/-- `cnd_signal(&queue->can_consume.cnd)`: the consumer is the only thread that sleeps there. -/
def wakeConsumer (q : Spscq α) : Spscq α :=
  match q.consumer with
  | .asleep => { q with consumer := .lock }
  | _ => q

/-- `cnd_signal(&queue->can_produce.cnd)`. -/
def wakeProducer (q : Spscq α) : Spscq α :=
  match q.producer with
  | .asleep item => { q with producer := .lock item }
  | _ => q

/-- One step of `bio_spscq_produce`. -/
def producerStep (q : Spscq α) : Spscq α :=
  match q.producer with
  | .idle _ => q
  | .check item wait =>
    if q.count = q.size then
      if wait then { q with producer := .lock item } else { q with producer := .idle (some false) }
    else { q with producer := .fetchTail item }
  | .lock item => { q with producer := .recheck item, produceMtx := some .producer }
  | .recheck item =>
    if q.count = q.size then { q with producer := .wait item }
    else { q with producer := .unlock item }
  | .wait item => { q with producer := .asleep item, produceMtx := none }
  | .asleep _ => q
  | .unlock item => { q with producer := .fetchTail item, produceMtx := none }
  | .fetchTail item => { q with producer := .write item q.tail, tail := q.tail + 1#32 }
  | .write item tail =>
    { q with
      producer := .incCount
      values := Function.update q.values (q.slot tail) (some item)
      unread := Function.update q.unread (q.slot tail) true
      written := q.written ++ [item] }
  | .incCount =>
    { q with
      producer := if q.count = 0#32 then .raiseLock else .idle (some true)
      count := q.count + 1#32
      produced := q.written }
  | .raiseLock => { q with producer := .raiseSignal, consumeMtx := some .producer }
  | .raiseSignal => { q.wakeConsumer with producer := .raiseUnlock }
  | .raiseUnlock => { q with producer := .idle (some true), consumeMtx := none }

/-- One step of `bio_spscq_consume`. -/
def consumerStep (q : Spscq α) : Spscq α :=
  match q.consumer with
  | .idle _ => q
  | .check wait =>
    if q.count = 0#32 then
      if wait then { q with consumer := .lock } else { q with consumer := .idle none }
    else { q with consumer := .fetchHead }
  | .lock => { q with consumer := .recheck, consumeMtx := some .consumer }
  | .recheck =>
    if q.count = 0#32 then { q with consumer := .wait } else { q with consumer := .unlock }
  | .wait => { q with consumer := .asleep, consumeMtx := none }
  | .asleep => q
  | .unlock => { q with consumer := .fetchHead, consumeMtx := none }
  | .fetchHead => { q with consumer := .read q.head, head := q.head + 1#32 }
  | .read head =>
    { q with
      consumer := .decCount (q.values (q.slot head))
      unread := Function.update q.unread (q.slot head) false }
  | .decCount item =>
    if q.count = q.size then { q with consumer := .raiseLock item, count := q.count - 1#32 }
    else
      { q with
        consumer := .idle (some item)
        count := q.count - 1#32
        consumed := q.consumed ++ [item] }
  | .raiseLock item => { q with consumer := .raiseSignal item, produceMtx := some .consumer }
  | .raiseSignal item => { q.wakeProducer with consumer := .raiseUnlock item }
  | .raiseUnlock item =>
    { q with consumer := .idle (some item), produceMtx := none, consumed := q.consumed ++ [item] }

/-- The producer can take its step: it is in a call, does not sleep, and a mutex that it locks is
free. -/
def producerReady (q : Spscq α) : Bool :=
  match q.producer with
  | .idle _ | .asleep _ => false
  | .lock _ => q.produceMtx.isNone
  | .raiseLock => q.consumeMtx.isNone
  | _ => true

def consumerReady (q : Spscq α) : Bool :=
  match q.consumer with
  | .idle _ | .asleep => false
  | .lock => q.consumeMtx.isNone
  | .raiseLock _ => q.produceMtx.isNone
  | _ => true

def producerIdle (q : Spscq α) : Bool :=
  match q.producer with
  | .idle _ => true
  | _ => false

def consumerIdle (q : Spscq α) : Bool :=
  match q.consumer with
  | .idle _ => true
  | _ => false

def producerAsleep (q : Spscq α) : Bool :=
  match q.producer with
  | .asleep _ => true
  | _ => false

def consumerAsleep (q : Spscq α) : Bool :=
  match q.consumer with
  | .asleep => true
  | _ => false

def enabled (q : Spscq α) : SpscqAction α → Prop
  | .produce _ _ => q.producerIdle = true
  | .producerStep => q.producerReady = true
  | .producerWake => q.producerAsleep = true
  | .consume _ => q.consumerIdle = true
  | .consumerStep => q.consumerReady = true
  | .consumerWake => q.consumerAsleep = true

def perform (q : Spscq α) : SpscqAction α → Spscq α
  | .produce item wait => { q with producer := .check item wait }
  | .producerStep => q.producerStep
  | .producerWake => q.wakeProducer
  | .consume wait => { q with consumer := .check wait }
  | .consumerStep => q.consumerStep
  | .consumerWake => q.wakeConsumer

/-- All interleavings of the two threads, from a queue of some power-of-two size. -/
def machine (α : Type*) : Machine (Spscq α) (SpscqAction α) where
  init := fun q => ∃ size : BitVec 32, (∃ k, size.toNat = 2 ^ k) ∧ q = init size
  enabled := enabled
  perform := perform

instance (q : Spscq α) : ∀ a : SpscqAction α, Decidable ((machine α).enabled q a)
  | .produce _ _ => inferInstanceAs (Decidable (q.producerIdle = true))
  | .producerStep => inferInstanceAs (Decidable (q.producerReady = true))
  | .producerWake => inferInstanceAs (Decidable (q.producerAsleep = true))
  | .consume _ => inferInstanceAs (Decidable (q.consumerIdle = true))
  | .consumerStep => inferInstanceAs (Decidable (q.consumerReady = true))
  | .consumerWake => inferInstanceAs (Decidable (q.consumerAsleep = true))

end Spscq

end Bio
