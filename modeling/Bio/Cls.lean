import Bio.Lib.Links
import Bio.Mailbox

/-!
# Coroutine-local storage

`bio_get_cls` of `src/scheduler.c` and the cleanup of the local storage in `bio_loop`, on top of the
scheduler. A coroutine has a hash table of its own, which its first call makes: the buckets are lists, and
the entries have their links in themselves.

* A spec is a pointer. What it points to and what it hashes to are parameters.
* An entry is the number of its allocation, and so is its object. It stays what it was when it was freed:
  this is what the code reads if it follows a link to it.
* `init` is user code, inside of `bio_get_cls`. The call waits for it in `calls`, behind those that `init`
  itself makes.
* The cleanup callbacks run outside of all coroutines, where `bio_get_cls` returns `NULL`, so that none of
  them gets at a table. What else they do are actions of the scheduler in the phase `dying`.
* `objects`, `inits`, `returns`, `cleanups` and `freed` are ghosts: whose object it is and of which spec, the
  objects that `init` was called with, the values of `bio_get_cls`, the objects that `cleanup` was called
  with, and the entries that were freed.
-/

namespace Bio

/-- `bio_cls_t`: which of its callbacks are not `NULL`. -/
structure ClsSpec where
  size : Nat
  init : Bool
  cleanup : Bool
deriving DecidableEq, Repr

/-- The specs of a program, with their hash values. -/
structure ClsSpecs (σ : Type*) where
  hash : σ → BitVec 64
  spec : σ → ClsSpec

/-- `bio_splittable64`. -/
def splittable64 (x : BitVec 64) : BitVec 64 :=
  let x := x ^^^ (x >>> 30)
  let x := x * 0xbf58476d1ce4e5b9#64
  let x := x ^^^ (x >>> 27)
  let x := x * 0x94d049bb133111eb#64
  x ^^^ (x >>> 31)

/-- The specs are hashed by their addresses. -/
def addressSpecs (spec : BitVec 64 → ClsSpec) : ClsSpecs (BitVec 64) := ⟨splittable64, spec⟩

/-- `bio_scheduler_init`, for the number of buckets. -/
def clsBuckets (numClsBuckets : Int) : Nat :=
  if numClsBuckets = 0 then 4 else (nextPow2 (BitVec.ofInt 32 numClsBuckets)).toNat

/-- The links of a bucket and those of an entry. -/
inductive ClsNode
  | bucket (index : Nat)
  | entry (number : Nat)
deriving DecidableEq, Repr

/-- `bio_cls_entry_t` without its link. `data` has `size` bytes. -/
structure ClsEntry (σ : Type*) where
  spec : σ
  size : Nat
deriving DecidableEq, Repr

/-- The locals of a call of `bio_get_cls` while `init` runs. -/
structure ClsCall (σ : Type*) where
  cls : σ
  bucketIndex : Nat
  newEntry : Nat
deriving DecidableEq, Repr

/-- A call of `bio_get_cls` that has returned. -/
structure ClsReturn (σ : Type*) where
  coro : Handle
  cls : σ
  object : Nat
deriving DecidableEq, Repr

structure ClsState (σ : Type*) where
  sched : Sched
  numBuckets : Nat
  /-- `cls_buckets` of the coroutines -/
  buckets : Handle → Option (Links ClsNode)
  entries : Nat → Option (ClsEntry σ)
  /-- the calls of a coroutine that wait for `init`, the innermost one first -/
  calls : Handle → List (ClsCall σ)
  objects : List (Handle × σ)
  inits : List Nat
  returns : List (ClsReturn σ)
  cleanups : List Nat
  freed : List Nat

namespace ClsState

variable {σ : Type*} [DecidableEq σ] (p : ClsSpecs σ)

/-- `BIO_LIST_INIT` of all buckets. -/
def makeBuckets (numBuckets : Nat) : Links ClsNode :=
  (List.range numBuckets).foldl (fun l i => l.init (.bucket i)) ⟨fun _ => none, fun _ => none⟩

/-- `bucket_index`. -/
def bucketIndex (numBuckets : Nat) (cls : σ) : Nat :=
  (p.hash cls &&& (BitVec.ofNat 64 numBuckets - 1#64)).toNat

/-- `entry->spec == cls`. -/
def specIs (s : ClsState σ) (cls : σ) (n : Nat) : Bool :=
  (s.entries n).any fun entry => entry.spec = cls

/-- The loop of `bio_get_cls` over a bucket, with a bound on its rounds. That it does not need more is
`findEntry_ring`. -/
def findEntry (s : ClsState σ) (l : Links ClsNode) (bucket : ClsNode) (cls : σ) :
    Nat → Option ClsNode → Option Nat
  | 0, _ => none
  | fuel + 1, itr =>
    if itr = some bucket then none
    else
      match itr with
      | some (.entry n) =>
        if s.specIs cls n then some n
        else s.findEntry l bucket cls fuel (l.next (.entry n))
      | _ => none

def returnObject (s : ClsState σ) (c : Handle) (cls : σ) (n : Nat) : ClsState σ :=
  { s with returns := s.returns ++ [⟨c, cls, n⟩] }

/-- `bio_get_cls` behind `init`. -/
def insertEntry (s : ClsState σ) (c : Handle) (call : ClsCall σ) : ClsState σ :=
  { s with
    buckets := Function.update s.buckets c ((s.buckets c).map fun (l : Links ClsNode) =>
      l.append (.bucket call.bucketIndex) (.entry call.newEntry)) }.returnObject c call.cls call.newEntry

/-- The new entry of `bio_get_cls`. -/
def newEntry (s : ClsState σ) (c : Handle) (cls : σ) : ClsState σ :=
  { s with
    entries := Function.update s.entries s.objects.length (some ⟨cls, (p.spec cls).size⟩)
    objects := s.objects ++ [(c, cls)] }

/-- `bio_get_cls` calls `init`. -/
def callInit (s : ClsState σ) (c : Handle) (call : ClsCall σ) : ClsState σ :=
  { s with
    calls := Function.update s.calls c (call :: s.calls c)
    inits := s.inits ++ [call.newEntry] }

/-- `bio_get_cls` from the hash on, up to its call of `init` or to its end. -/
def lookup (s : ClsState σ) (c : Handle) (buckets : Links ClsNode) (cls : σ) : ClsState σ :=
  let bucketIndex := bucketIndex p s.numBuckets cls
  let bucket : ClsNode := .bucket bucketIndex
  match s.findEntry buckets bucket cls (s.objects.length + 1) (buckets.next bucket) with
  | some n => s.returnObject c cls n
  | none =>
    let call : ClsCall σ := ⟨cls, bucketIndex, s.objects.length⟩
    let s := s.newEntry p c cls
    if (p.spec cls).init then s.callInit c call else s.insertEntry c call

/-- `bio_get_cls`. -/
def getCls (s : ClsState σ) (cls : σ) : ClsState σ :=
  match s.sched.phase.mcoRunning with
  | some c =>
    match s.buckets c with
    | some buckets => s.lookup p c buckets cls
    | none =>
      let buckets := makeBuckets s.numBuckets
      { s with buckets := Function.update s.buckets c (some buckets) }.lookup p c buckets cls
  | none => s

/-- `init` returns to the innermost call of `bio_get_cls`. -/
def initDone (s : ClsState σ) (c : Handle) : ClsState σ :=
  match s.calls c with
  | call :: calls => { s with calls := Function.update s.calls c calls }.insertEntry c call
  | [] => s

/-- `bio_loop` calls `cleanup` and frees the entry. -/
def cleanupEntry (s : ClsState σ) (n : Nat) : ClsState σ :=
  match s.entries n with
  | some entry =>
    { s with
      cleanups := if (p.spec entry.spec).cleanup then s.cleanups ++ [n] else s.cleanups
      freed := s.freed ++ [n] }
  | none => s

/-- The inner loop of the cleanup, with a bound on its rounds. That it does not need more is
`cleanupBucket_ring`. -/
def cleanupBucket (l : Links ClsNode) (bucket : ClsNode) :
    Nat → ClsState σ → Option ClsNode → ClsState σ
  | 0, s, _ => s
  | fuel + 1, s, itr =>
    if itr = some bucket then s
    else
      match itr with
      | some (.entry n) =>
        let next := l.next (.entry n)
        cleanupBucket l bucket fuel (s.cleanupEntry p n) next
      | _ => s

/-- "Cleanup all CLS". -/
def cleanupCls (s : ClsState σ) (c : Handle) : ClsState σ :=
  match s.buckets c with
  | some buckets =>
    let s := (List.range s.numBuckets).foldl (fun s i =>
      s.cleanupBucket p buckets (.bucket i) (s.objects.length + 1) (buckets.next (.bucket i))) s
    { s with buckets := Function.update s.buckets c none }
  | none => s

end ClsState

inductive ClsAction (σ : Type*)
  /-- the rest of the program -/
  | sched (a : Action)
  | getCls (cls : σ)
  /-- `init` returns -/
  | initDone

namespace ClsState

variable {σ : Type*} [DecidableEq σ] (p : ClsSpecs σ)

/-- A coroutine does not terminate inside of `bio_get_cls`. -/
def enabled (s : ClsState σ) : ClsAction σ → Prop
  | .sched a => s.sched.enabled a ∧
      (a = .finish → s.sched.phase.mcoRunning.all (fun c => s.calls c = []) = true)
  | .getCls _ => s.sched.phase.userCode = true
  | .initDone => s.sched.phase.mcoRunning.any (fun c => s.calls c ≠ []) = true

def perform (s : ClsState σ) : ClsAction σ → ClsState σ
  | .sched a =>
    let s' := { s with sched := s.sched.perform a }
    match a, s.sched.phase.mcoRunning with
    | .finish, some c => s'.cleanupCls p c
    | _, _ => s'
  | .getCls cls => s.getCls p cls
  | .initDone =>
    match s.sched.phase.mcoRunning with
    | some c => s.initDone c
    | none => s

/-- `bio_init` with that option. -/
def init (σ : Type*) (numClsBuckets : Int) : ClsState σ where
  sched := Sched.init
  numBuckets := clsBuckets numClsBuckets
  buckets := fun _ => none
  entries := fun _ => none
  calls := fun _ => []
  objects := []
  inits := []
  returns := []
  cleanups := []
  freed := []

/-- All interleavings of coroutines that call `bio_get_cls`, also from `init`. -/
def machine (numClsBuckets : Int) : Machine (ClsState σ) (ClsAction σ) where
  init := fun s => s = init σ numClsBuckets
  enabled := enabled
  perform := perform p

instance (numClsBuckets : Int) (s : ClsState σ) : ∀ a, Decidable ((machine p numClsBuckets).enabled s a)
  | .sched a => inferInstanceAs (Decidable (s.sched.enabled a ∧
      (a = .finish → s.sched.phase.mcoRunning.all (fun c => s.calls c = []) = true)))
  | .getCls _ => inferInstanceAs (Decidable (s.sched.phase.userCode = true))
  | .initDone =>
    inferInstanceAs (Decidable (s.sched.phase.mcoRunning.any (fun c => s.calls c ≠ []) = true))

end ClsState

end Bio
