import Bio.Cls
import Bio.SchedulerLocal
import Mathlib.Data.List.Perm.Subperm

/-!
# The objects of coroutine-local storage

* `ClsState.Exact`: one object for each coroutine and spec, which was initialized before it was returned and
  is cleaned up when its coroutine has terminated.
* `ClsState.Tables`: what holds of the hash tables in all runs. A bucket has the entries of its hash
  values that no call of `bio_get_cls` is still busy with.
* `ClsState.Ledger`: what holds in all runs of the callbacks and the values returned.

Result: `one_object_iff`.
-/

namespace Bio

namespace ClsState

variable {σ : Type*} {p : ClsSpecs σ} {s : ClsState σ} {c : Handle} {cls : σ} {n : Nat}

/-- What is promised. A coroutine has one object of a spec, and its calls with that spec return it and no
others do. `init` was run for it before, and only once. `cleanup` is run for it once when its coroutine has
terminated, and its memory is freed then. -/
structure Exact (p : ClsSpecs σ) (s : ClsState σ) : Prop where
  one : s.objects.Nodup
  same : ∀ r ∈ s.returns, ∀ r' ∈ s.returns,
    r.object = r'.object ↔ r.coro = r'.coro ∧ r.cls = r'.cls
  own : ∀ r ∈ s.returns, s.objects[r.object]? = some (r.coro, r.cls)
  initialized : ∀ r ∈ s.returns,
    s.inits.count r.object = (if (p.spec r.cls).init then 1 else 0) ∧
    ∀ call ∈ s.calls r.coro, call.newEntry ≠ r.object
  once : ∀ n, s.inits.count n ≤ 1
  kept : ∀ (n : Nat) c cls, s.objects[n]? = some (c, cls) → s.sched.Inside c →
    n ∉ s.cleanups ∧ n ∉ s.freed
  cleaned : ∀ (n : Nat) c cls, s.objects[n]? = some (c, cls) → ¬s.sched.Inside c →
    s.cleanups.count n = (if (p.spec cls).cleanup then 1 else 0) ∧ s.freed.count n = 1
  others : ∀ n ∈ s.cleanups ++ s.freed, n < s.objects.length

/-- The guard: a coroutine does not ask for a spec while it is in the `init` of that spec. -/
def Acyclic (s : ClsState σ) : ClsAction σ → Prop
  | .getCls cls => ∀ c ∈ s.sched.phase.mcoRunning, ∀ call ∈ s.calls c, call.cls ≠ cls
  | _ => True

/-- The entry `n` belongs in the bucket `i` of the coroutine. -/
def Filed (p : ClsSpecs σ) (s : ClsState σ) (c : Handle) (i n : Nat) : Prop :=
  (∃ cls, s.objects[n]? = some (c, cls) ∧ bucketIndex p s.numBuckets cls = i) ∧
  ∀ call ∈ s.calls c, call.newEntry ≠ n

/-- A table has the entries that belong in its buckets. -/
def Holds (p : ClsSpecs σ) (s : ClsState σ) (c : Handle) (l : Links ClsNode) : Prop :=
  ∀ i < s.numBuckets, ∃ ns : List Nat, l.IsRing (.bucket i) (ns.map .entry) ∧
    ∀ n, n ∈ ns ↔ s.Filed p c i n

/-- What holds of the tables in all runs. -/
structure Tables (p : ClsSpecs σ) (s : ClsState σ) : Prop where
  sched : Sched.machine.Reachable s.sched
  positive : 0 < s.numBuckets
  bounded : s.numBuckets ≤ 2 ^ 30
  owners : ∀ (n : Nat) c cls, s.objects[n]? = some (c, cls) → c ∈ s.sched.issued
  entries : ∀ (n : Nat) c cls, s.objects[n]? = some (c, cls) → s.entries n = some ⟨cls, (p.spec cls).size⟩
  calls : ∀ c, ∀ call ∈ s.calls c, s.objects[call.newEntry]? = some (c, call.cls) ∧
    call.bucketIndex = bucketIndex p s.numBuckets call.cls
  distinct : ∀ c, ((s.calls c).map ClsCall.newEntry).Nodup
  table : ∀ c l, s.buckets c = some l → s.Holds p c l
  noTable : ∀ c, s.sched.Inside c → s.buckets c = none → ∀ (n : Nat) cls, s.objects[n]? ≠ some (c, cls)
  gone : ∀ c, ¬s.sched.Inside c → s.buckets c = none ∧ s.calls c = []

/-- What holds of the callbacks and the values returned in all runs. -/
structure Ledger (p : ClsSpecs σ) (s : ClsState σ) : Prop where
  own : ∀ r ∈ s.returns, s.objects[r.object]? = some (r.coro, r.cls)
  done : ∀ r ∈ s.returns, ∀ call ∈ s.calls r.coro, call.newEntry ≠ r.object
  inits : ∀ (n : Nat) c cls, s.objects[n]? = some (c, cls) →
    s.inits.count n = if (p.spec cls).init then 1 else 0
  kept : ∀ (n : Nat) c cls, s.objects[n]? = some (c, cls) → s.sched.Inside c →
    n ∉ s.cleanups ∧ n ∉ s.freed
  cleaned : ∀ (n : Nat) c cls, s.objects[n]? = some (c, cls) → ¬s.sched.Inside c →
    s.cleanups.count n = (if (p.spec cls).cleanup then 1 else 0) ∧ s.freed.count n = 1
  known : ∀ n ∈ s.inits ++ s.cleanups ++ s.freed, n < s.objects.length

/-! ## The buckets -/

/-- The option is rounded up to the next power of two. -/
theorem clsBuckets_isLeast {option : Int} (hpos : 0 < option) (hle : option ≤ 2 ^ 30) :
    IsLeast {b : Nat | (∃ k, b = 2 ^ k) ∧ option.toNat ≤ b} (clsBuckets option) := by
  have heq : (BitVec.ofInt 32 option).toNat = option.toNat := by
    rw [BitVec.toNat_ofInt]
    omega
  rw [clsBuckets, if_neg (by omega), ← heq]
  exact nextPow2_isLeast (by omega) (by omega)

theorem clsBuckets_bounds {option : Int} (hpos : 0 < option) (hle : option ≤ 2 ^ 30) :
    0 < clsBuckets option ∧ clsBuckets option ≤ 2 ^ 30 := by
  have hleast := clsBuckets_isLeast hpos hle
  refine ⟨?_, hleast.2 ⟨⟨30, rfl⟩, by omega⟩⟩
  obtain ⟨k, hk⟩ := hleast.1.1
  exact hk ▸ Nat.two_pow_pos k

/-- Every hash value has its bucket. -/
theorem bucketIndex_lt {b : Nat} (hpos : 0 < b) (hle : b ≤ 2 ^ 30) (cls : σ) :
    bucketIndex p b cls < b := by
  have hb : (BitVec.ofNat 64 b - 1#64).toNat = b - 1 := by
    rw [BitVec.toNat_sub, BitVec.toNat_ofNat, BitVec.toNat_ofNat]
    omega
  have hand : bucketIndex p b cls ≤ b - 1 := by
    rw [bucketIndex, BitVec.toNat_and, hb]
    exact Nat.and_le_right
  omega

theorem entry_injective : Function.Injective ClsNode.entry := fun _ _ h => ClsNode.entry.inj h

theorem bucket_not_mem (i : Nat) (ns : List Nat) : ClsNode.bucket i ∉ ns.map ClsNode.entry := by
  intro h
  obtain ⟨_, _, h⟩ := List.mem_map.mp h
  cases h

theorem entry_mem_iff {i : Nat} {ns : List Nat} :
    ClsNode.entry n ∈ ClsNode.bucket i :: ns.map ClsNode.entry ↔ n ∈ ns := by
  rw [List.mem_cons, or_iff_right (by nofun), List.mem_map_of_injective entry_injective]

theorem nodup_of_bucket {l : Links ClsNode} {i : Nat} {ns : List Nat}
    (h : l.IsRing (.bucket i) (ns.map .entry)) : ns.Nodup :=
  (List.nodup_cons.mp h.nodup).2.of_map _

/-- A new table has empty buckets. -/
theorem makeBuckets_ring {b i : Nat} (h : i < b) : (makeBuckets b).IsRing (.bucket i) [] := by
  induction b with
  | zero => cases h
  | succ b ih =>
    rw [makeBuckets, List.range_succ, List.foldl_concat]
    rcases Nat.lt_succ_iff_lt_or_eq.mp h with hlt | rfl
    · refine (ih hlt).init_other fun hmem => ?_
      have heq := ClsNode.bucket.inj (List.mem_singleton.mp hmem)
      exact Nat.lt_irrefl _ (heq ▸ hlt)
    · exact .init ..

/-- The loop of `bio_get_cls` goes through the whole bucket, up to the first entry of the spec. -/
theorem findEntry_ring [DecidableEq σ] {l : Links ClsNode} {i : Nat} {ns : List Nat} {fuel : Nat}
    (h : l.Joined (ns.map ClsNode.entry ++ [ClsNode.bucket i])) (hfuel : ns.length < fuel) :
    s.findEntry l (.bucket i) cls fuel (ns.map ClsNode.entry ++ [ClsNode.bucket i]).head? =
      ns.find? (s.specIs cls) := by
  induction ns generalizing fuel with
  | nil =>
    cases fuel with
    | zero => cases hfuel
    | succ fuel => exact if_pos rfl
  | cons n ns ih =>
    cases fuel with
    | zero => cases hfuel
    | succ fuel =>
      have hrest := ih h.tail (Nat.lt_of_succ_lt_succ hfuel)
      rw [List.map_cons, List.cons_append, List.head?_cons, findEntry, if_neg nofun, List.find?_cons,
        h.next_eq, hrest]
      cases s.specIs cls n <;> rfl

/-! ## The tables -/

/-- The objects behind an allocation. -/
theorem object_concat {objects : List (Handle × σ)} {d : Handle} {k : σ} :
    (objects ++ [(c, cls)])[n]? = some (d, k) ↔
      objects[n]? = some (d, k) ∨ n = objects.length ∧ d = c ∧ k = cls := by
  rcases Nat.lt_trichotomy n objects.length with hlt | rfl | hgt
  · rw [List.getElem?_append_left hlt]
    exact ⟨.inl, fun h => h.resolve_right fun h' => Nat.ne_of_lt hlt h'.1⟩
  · rw [List.getElem?_concat_length, List.getElem?_eq_none (Nat.le_refl _), Option.some.injEq,
      Prod.mk.injEq]
    exact ⟨fun h => .inr ⟨rfl, h.1.symm, h.2.symm⟩, fun h =>
      h.elim nofun fun h' => ⟨h'.2.1.symm, h'.2.2.symm⟩⟩
  · rw [List.getElem?_eq_none (by simp; omega), List.getElem?_eq_none (Nat.le_of_lt hgt)]
    exact iff_of_false nofun fun h => h.elim nofun fun h' => Nat.ne_of_gt hgt h'.1

theorem lt_of_object {o : Handle × σ} (h : s.objects[n]? = some o) : n < s.objects.length :=
  (List.getElem?_eq_some_iff.mp h).1

/-- A call that waits for `init`: `bio_get_cls` between the allocation and its callback. -/
def pushCall (s : ClsState σ) (c : Handle) (call : ClsCall σ) : ClsState σ :=
  { s with calls := Function.update s.calls c (call :: s.calls c) }

def popCall (s : ClsState σ) (c : Handle) (calls : List (ClsCall σ)) : ClsState σ :=
  { s with calls := Function.update s.calls c calls }

theorem popCall_pushCall (s : ClsState σ) (c : Handle) (call : ClsCall σ) :
    (s.pushCall c call).popCall c (s.calls c) = s := by
  rw [popCall, pushCall]
  simp only [Function.update_idem, Function.update_eq_self]

/-- The new call for a spec. -/
def newCall (p : ClsSpecs σ) (s : ClsState σ) (cls : σ) : ClsCall σ :=
  ⟨cls, bucketIndex p s.numBuckets cls, s.objects.length⟩

theorem pushCall_calls {call : ClsCall σ} : (s.pushCall c call).calls c = call :: s.calls c :=
  Function.update_self ..

theorem mem_pushCall {call k : ClsCall σ} {d : Handle} :
    k ∈ (s.pushCall c call).calls d ↔ k ∈ s.calls d ∨ d = c ∧ k = call := by
  show k ∈ Function.update s.calls c (call :: s.calls c) d ↔ _
  rcases eq_or_ne d c with rfl | hd
  · rw [Function.update_self, List.mem_cons, or_comm]
    simp only [true_and]
  · rw [Function.update_of_ne hd]
    simp only [hd, false_and, or_false]

/-- The first call of a coroutine makes its table. -/
theorem Tables.makeTable (h : s.Tables p) (hc : s.sched.Inside c) (hnone : s.buckets c = none) :
    Tables p { s with buckets := Function.update s.buckets c (some (makeBuckets s.numBuckets)) } := by
  refine { h with table := fun d l hl => ?_, noTable := fun d hd hl => ?_, gone := fun d hd => ?_ }
  · rcases Table.insert_some hl with ⟨rfl, rfl⟩ | ⟨_, hold⟩
    · refine fun i hi => ⟨[], makeBuckets_ring hi, fun n => iff_of_false nofun ?_⟩
      rintro ⟨⟨cls, hn, _⟩, _⟩
      exact h.noTable d hc hnone n cls hn
    · exact h.table d l hold
  · have hne : d ≠ c := by
      rintro rfl
      exact nomatch (Function.update_self ..).symm.trans hl
    exact h.noTable d hd ((Function.update_of_ne hne ..).symm.trans hl)
  · have hne : d ≠ c := by
      rintro rfl
      exact hd hc
    exact ⟨(Function.update_of_ne hne ..).trans (h.gone d hd).1, (h.gone d hd).2⟩

/-- An entry that waits for `init` is in no bucket. -/
theorem filed_newEntry {d : Handle} {i : Nat} :
    ((s.newEntry p c cls).pushCall c (newCall p s cls)).Filed p d i n ↔ s.Filed p d i n := by
  constructor
  · rintro ⟨⟨k, hn, hi⟩, hcalls⟩
    rcases object_concat.mp hn with hold | ⟨rfl, rfl, rfl⟩
    · exact ⟨⟨k, hold, hi⟩, fun call hcall => hcalls call (mem_pushCall.mpr (.inl hcall))⟩
    · exact absurd rfl (hcalls _ (mem_pushCall.mpr (.inr ⟨rfl, rfl⟩)))
  · rintro ⟨⟨k, hn, hi⟩, hcalls⟩
    refine ⟨⟨k, object_concat.mpr (.inl hn), hi⟩, fun call hcall => ?_⟩
    rcases mem_pushCall.mp hcall with hold | ⟨_, rfl⟩
    · exact hcalls call hold
    · exact (Nat.ne_of_lt (lt_of_object hn)).symm

theorem Tables.newEntry (h : s.Tables p) (cls : σ) (hc : s.sched.Inside c) (hsome : s.buckets c ≠ none) :
    ((s.newEntry p c cls).pushCall c (newCall p s cls)).Tables p := by
  refine ⟨h.sched, h.positive, h.bounded, fun n d k hn => ?_, fun n d k hn => ?_, fun d call hcall => ?_,
    fun d => ?_, fun d l hl i hi => ?_, fun d hd hnone n k hn => ?_, fun d hd => ?_⟩
  · rcases object_concat.mp hn with hold | ⟨_, rfl, _⟩
    · exact h.owners n d k hold
    · exact hc.within.issued
  · show Function.update s.entries s.objects.length _ n = _
    rcases object_concat.mp hn with hold | ⟨rfl, _, rfl⟩
    · rw [Function.update_of_ne (Nat.ne_of_lt (lt_of_object hold))]
      exact h.entries n d k hold
    · exact Function.update_self ..
  · rcases mem_pushCall.mp hcall with hold | ⟨rfl, rfl⟩
    · exact ⟨object_concat.mpr (.inl (h.calls d call hold).1), (h.calls d call hold).2⟩
    · exact ⟨object_concat.mpr (.inr ⟨rfl, rfl, rfl⟩), rfl⟩
  · show ((Function.update s.calls c (newCall p s cls :: s.calls c) d).map ClsCall.newEntry).Nodup
    rcases eq_or_ne d c with rfl | hd
    · rw [Function.update_self, List.map_cons]
      refine List.nodup_cons.mpr ⟨fun hmem => ?_, h.distinct d⟩
      obtain ⟨call, hcall, heq⟩ := List.mem_map.mp hmem
      exact Nat.ne_of_lt (lt_of_object (h.calls d call hcall).1) heq
    · rw [Function.update_of_ne hd]
      exact h.distinct d
  · obtain ⟨ns, hring, hall⟩ := h.table d l hl i hi
    exact ⟨ns, hring, fun n => (hall n).trans (filed_newEntry).symm⟩
  · rcases object_concat.mp hn with hold | ⟨_, rfl, _⟩
    · exact h.noTable d hd hnone n k hold
    · exact hsome hnone
  · have hne : d ≠ c := by
      rintro rfl
      exact hd hc
    exact ⟨(h.gone d hd).1, (Function.update_of_ne hne ..).trans (h.gone d hd).2⟩

theorem popCall_sublist {call : ClsCall σ} {calls : List (ClsCall σ)} (hcalls : s.calls c = call :: calls)
    (d : Handle) : List.Sublist ((s.popCall c calls).calls d) (s.calls d) := by
  show List.Sublist (Function.update s.calls c calls d) (s.calls d)
  rcases eq_or_ne d c with rfl | hd
  · rw [Function.update_self, hcalls]
    exact List.sublist_cons_self call calls
  · rw [Function.update_of_ne hd]

theorem Tables.fresh (h : s.Tables p) {call : ClsCall σ} {calls : List (ClsCall σ)}
    (hcalls : s.calls c = call :: calls) : ∀ k ∈ calls, k.newEntry ≠ call.newEntry := by
  have hdistinct := h.distinct c
  rw [hcalls, List.map_cons] at hdistinct
  exact fun k hk heq => (List.nodup_cons.mp hdistinct).1 (heq ▸ List.mem_map_of_mem hk)

/-- Which entries are in the buckets behind an insertion. -/
theorem filed_insertEntry (h : s.Tables p) {call : ClsCall σ} {calls : List (ClsCall σ)}
    (hcalls : s.calls c = call :: calls) {d : Handle} {i : Nat} :
    ((s.popCall c calls).insertEntry c call).Filed p d i n ↔
      s.Filed p d i n ∨ d = c ∧ i = call.bucketIndex ∧ n = call.newEntry := by
  obtain ⟨hown, hindex⟩ := h.calls c call (hcalls ▸ List.mem_cons_self)
  have hfresh := h.fresh hcalls
  show (_ ∧ ∀ k ∈ Function.update s.calls c calls d, k.newEntry ≠ n) ↔ _
  rcases eq_or_ne d c with rfl | hd
  · rw [Function.update_self, Filed, hcalls, List.forall_mem_cons]
    constructor
    · rintro ⟨⟨k, hn, hi⟩, hrest⟩
      by_cases heq : call.newEntry = n
      · subst heq
        obtain ⟨_, rfl⟩ := Prod.mk.inj (Option.some.inj (hn.symm.trans hown))
        exact .inr ⟨rfl, hi.symm.trans hindex.symm, rfl⟩
      · exact .inl ⟨⟨k, hn, hi⟩, heq, hrest⟩
    · rintro (⟨hk, _, hrest⟩ | ⟨_, rfl, rfl⟩)
      · exact ⟨hk, hrest⟩
      · exact ⟨⟨call.cls, hown, hindex.symm⟩, hfresh⟩
  · rw [Function.update_of_ne hd]
    exact ⟨.inl, fun h' => h'.resolve_right fun h'' => hd h''.1⟩

/-- An entry is put into its bucket. -/
theorem Tables.insertEntry (h : s.Tables p) {call : ClsCall σ} {calls : List (ClsCall σ)}
    (hcalls : s.calls c = call :: calls) : ((s.popCall c calls).insertEntry c call).Tables p := by
  obtain ⟨hown, hindex⟩ := h.calls c call (hcalls ▸ List.mem_cons_self)
  have hc : s.sched.Inside c := by
    by_contra hnot
    exact nomatch hcalls.symm.trans (h.gone c hnot).2
  have hsub := popCall_sublist hcalls
  refine ⟨h.sched, h.positive, h.bounded, h.owners, h.entries, fun d k hk => h.calls d k ((hsub d).subset hk),
    fun d => (h.distinct d).sublist ((hsub d).map _), fun d l hl i hi => ?_, fun d hd hnone => ?_,
    fun d hd => ?_⟩
  · -- The bucket of the entry has it at its end, all others stay the same.
    rcases Table.update_some hl with ⟨rfl, hnew⟩ | ⟨hne, hold⟩
    · obtain ⟨l', hl', rfl⟩ := Option.map_eq_some_iff.mp hnew
      obtain ⟨ns, hring, hall⟩ := h.table d l' hl' i hi
      have hb : call.bucketIndex < s.numBuckets := hindex ▸ bucketIndex_lt h.positive h.bounded _
      obtain ⟨ms, hring', hall'⟩ := h.table d l' hl' _ hb
      have hnot : ∀ (j : Nat) (ms : List Nat), (∀ n, n ∈ ms ↔ s.Filed p d j n) → call.newEntry ∉ ms := fun j ms hms hmem =>
        ((hms _).mp hmem).2 call (hcalls ▸ List.mem_cons_self) rfl
      rcases eq_or_ne i call.bucketIndex with rfl | hij
      · refine ⟨ns ++ [call.newEntry], ?_, fun n => ?_⟩
        · rw [List.map_append]
          exact hring.append fun hmem => hnot _ ns hall (entry_mem_iff.mp hmem)
        · rw [List.mem_append, List.mem_singleton, hall, filed_insertEntry h hcalls]
          simp only [true_and]
      · refine ⟨ns, hring.append_other hring' (fun x hx hx' => ?_) fun hmem =>
          hnot _ ns hall (entry_mem_iff.mp hmem), fun n => ?_⟩
        · rcases List.mem_cons.mp hx with rfl | hmem
          · rcases List.mem_cons.mp hx' with heq | hmem'
            · exact hij (ClsNode.bucket.inj heq)
            · exact bucket_not_mem i ms hmem'
          · obtain ⟨n, hn, rfl⟩ := List.mem_map.mp hmem
            have hfiled := (hall n).mp hn
            have hfiled' := (hall' n).mp (entry_mem_iff.mp hx')
            obtain ⟨k, hk, rfl⟩ := hfiled.1
            obtain ⟨k', hk', heq⟩ := hfiled'.1
            obtain ⟨_, rfl⟩ := Prod.mk.inj (Option.some.inj (hk.symm.trans hk'))
            exact hij heq
        · rw [hall, filed_insertEntry h hcalls]
          simp only [hij, false_and, and_false, or_false]
    · obtain ⟨ns, hring, hall⟩ := h.table d l hold i hi
      refine ⟨ns, hring, fun n => ?_⟩
      rw [hall, filed_insertEntry h hcalls]
      simp only [hne, false_and, or_false]
  · refine h.noTable d hd ?_
    have hmap : Function.update s.buckets c _ d = none := hnone
    exact (Table.update_map_eq_none d).mp hmap
  · have hne : d ≠ c := by
      rintro rfl
      exact hd hc
    refine ⟨(Function.update_of_ne hne ..).trans (h.gone d hd).1, ?_⟩
    exact (Function.update_of_ne hne ..).trans (h.gone d hd).2

/-! ## The calls -/

/-- A loop over entries needs no more rounds than there are objects. -/
theorem length_le_objects {ns : List Nat} (hnodup : ns.Nodup) (hlt : ∀ n ∈ ns, n < s.objects.length) :
    ns.length ≤ s.objects.length := by
  have hsub := List.subperm_of_subset hnodup fun n hn => List.mem_range.mpr (hlt n hn)
  exact hsub.length_le.trans_eq List.length_range

theorem lt_of_filed {i : Nat} (h : s.Filed p c i n) : n < s.objects.length :=
  lt_of_object h.1.choose_spec.1

/-- What a call of `bio_get_cls` does up to its callback. -/
inductive GetEffect (p : ClsSpecs σ) (s : ClsState σ) (c : Handle) (cls : σ) : ClsState σ → Prop
  | returns (n : Nat) : s.objects[n]? = some (c, cls) → (∀ call ∈ s.calls c, call.newEntry ≠ n) →
      GetEffect p s c cls (s.returnObject c cls n)
  | inits : (∀ n : Nat, s.objects[n]? = some (c, cls) → ∃ call ∈ s.calls c, call.newEntry = n) →
      (p.spec cls).init = true →
      GetEffect p s c cls ((s.newEntry p c cls).callInit c (newCall p s cls))
  | creates : (∀ n : Nat, s.objects[n]? = some (c, cls) → ∃ call ∈ s.calls c, call.newEntry = n) →
      (p.spec cls).init = false →
      GetEffect p s c cls ((s.newEntry p c cls).insertEntry c (newCall p s cls))

section Steps

variable [DecidableEq σ]

theorem specIs_iff (h : s.Tables p) {k : σ} (hn : s.objects[n]? = some (c, k)) :
    s.specIs cls n = true ↔ k = cls := by
  rw [specIs, h.entries n c k hn]
  exact decide_eq_true_iff

theorem lookup_effect (h : s.Tables p) {l : Links ClsNode} (hl : s.buckets c = some l) :
    GetEffect p s c cls (s.lookup p c l cls) := by
  obtain ⟨ns, hring, hall⟩ := h.table c l hl _ (bucketIndex_lt (p := p) h.positive h.bounded cls)
  have hlength : ns.length < s.objects.length + 1 := Nat.lt_succ_of_le
    (length_le_objects (nodup_of_bucket hring) fun n hn => lt_of_filed ((hall n).mp hn))
  unfold lookup
  dsimp only
  rw [hring.joined.next_eq, findEntry_ring hring.joined.tail hlength]
  cases hfind : ns.find? (s.specIs cls) with
  | some n =>
    obtain ⟨⟨k, hn, _⟩, hcalls⟩ := (hall n).mp (List.mem_of_find?_eq_some hfind)
    obtain rfl := (specIs_iff h hn).mp (List.find?_some hfind)
    exact .returns n hn hcalls
  | none =>
    have habsent : ∀ n : Nat, s.objects[n]? = some (c, cls) → ∃ call ∈ s.calls c, call.newEntry = n := by
      intro n hn
      by_contra hnot
      have hmem : n ∈ ns := (hall n).mpr ⟨⟨cls, hn, rfl⟩, fun call hcall heq => hnot ⟨call, hcall, heq⟩⟩
      exact List.find?_eq_none.mp hfind n hmem ((specIs_iff h hn).mpr rfl)
    dsimp only
    split
    · next hinit => exact .inits habsent hinit
    · next hinit => exact .creates habsent (Bool.eq_false_iff.mpr hinit)

/-- The first call of a coroutine makes its table, and then goes on like any other. -/
theorem getCls_effect (h : s.Tables p) (hp : s.sched.phase = .running c) (cls : σ) :
    ∃ b, Tables p { s with buckets := b } ∧ b c ≠ none ∧
      GetEffect p { s with buckets := b } c cls (s.getCls p cls) := by
  cases hl : s.buckets c with
  | some l =>
    have hget : s.getCls p cls = s.lookup p c l cls := by simp [getCls, hp, Phase.mcoRunning, hl]
    rw [hget]
    exact ⟨s.buckets, h, by simp [hl], lookup_effect h hl⟩
  | none =>
    have htable := h.makeTable (Sched.Inside.of_running h.sched hp) hl
    have hget : s.getCls p cls =
        { s with buckets := Function.update s.buckets c (some (makeBuckets s.numBuckets)) }.lookup p c
          (makeBuckets s.numBuckets) cls := by
      simp [getCls, hp, Phase.mcoRunning, hl]
    rw [hget]
    exact ⟨_, htable, by simp [Function.update_self], lookup_effect htable (Function.update_self ..)⟩

end Steps

theorem Tables.get {s' : ClsState σ} (h : s.Tables p) (hc : s.sched.Inside c)
    (hsome : s.buckets c ≠ none) (he : GetEffect p s c cls s') : s'.Tables p := by
  cases he with
  | returns n _ _ => exact { h with }
  | inits _ _ => exact { h.newEntry cls hc hsome with }
  | creates _ _ =>
    have hpop := (h.newEntry cls hc hsome).insertEntry pushCall_calls
    rwa [← popCall_pushCall (s.newEntry p c cls) c (newCall p s cls)]

/-! ## The end of a coroutine -/

/-- The entry has a spec with a `cleanup`. -/
def cleans (p : ClsSpecs σ) (s : ClsState σ) (n : Nat) : Bool :=
  (s.entries n).any fun entry => (p.spec entry.spec).cleanup

/-- The entries are cleaned up, in that order. -/
def cleanedUp (p : ClsSpecs σ) (s : ClsState σ) (ns : List Nat) : ClsState σ :=
  { s with cleanups := s.cleanups ++ ns.filter (s.cleans p), freed := s.freed ++ ns }

theorem cleanedUp_nil : s.cleanedUp p [] = s := by
  simp only [cleanedUp, List.filter_nil, List.append_nil]

theorem cleanedUp_append (ns ms : List Nat) :
    (s.cleanedUp p ns).cleanedUp p ms = s.cleanedUp p (ns ++ ms) := by
  show ({ s with cleanups := (s.cleanups ++ ns.filter (s.cleans p)) ++ ms.filter (s.cleans p),
                 freed := (s.freed ++ ns) ++ ms } : ClsState σ) = _
  rw [List.append_assoc, List.append_assoc, ← List.filter_append]
  rfl

theorem cleanups_eq {ns : List Nat} (hall : ∀ n ∈ ns, s.entries n ≠ none) :
    ns.foldl (cleanupEntry p) s = s.cleanedUp p ns := by
  induction ns generalizing s with
  | nil => exact cleanedUp_nil.symm
  | cons n ns ih =>
    obtain ⟨entry, hentry⟩ := Option.ne_none_iff_exists'.mp (hall n List.mem_cons_self)
    have hone : s.cleanupEntry p n = s.cleanedUp p [n] := by
      have hcleans : s.cleans p n = (p.spec entry.spec).cleanup := by
        rw [cleans, hentry]
        rfl
      rw [cleanupEntry, hentry, cleanedUp, List.filter_cons, List.filter_nil, hcleans]
      dsimp only
      split
      · rfl
      · rw [List.append_nil]
    have hrest : ∀ m ∈ ns, (s.cleanedUp p [n]).entries m ≠ none := fun m hm =>
      hall m (List.mem_cons_of_mem n hm)
    rw [List.foldl_cons, hone, ih hrest, cleanedUp_append, List.singleton_append]

/-- The loop of the cleanup goes through the whole bucket. -/
theorem cleanupBucket_ring {l : Links ClsNode} {i : Nat} {ns : List Nat} {fuel : Nat}
    (h : l.Joined (ns.map ClsNode.entry ++ [ClsNode.bucket i])) (hfuel : ns.length < fuel) :
    s.cleanupBucket p l (.bucket i) fuel (ns.map ClsNode.entry ++ [ClsNode.bucket i]).head? =
      ns.foldl (cleanupEntry p) s := by
  induction ns generalizing fuel s with
  | nil =>
    cases fuel with
    | zero => cases hfuel
    | succ fuel => exact if_pos rfl
  | cons n ns ih =>
    cases fuel with
    | zero => cases hfuel
    | succ fuel =>
      rw [List.map_cons, List.cons_append, List.head?_cons, cleanupBucket, if_neg nofun, List.foldl_cons,
        ← ih h.tail (Nat.lt_of_succ_lt_succ hfuel), h.next_eq]

/-- The cleanup goes through all buckets, and meets every entry once. -/
theorem cleanupBuckets_eq (h : s.Tables p) {l : Links ClsNode} (hl : s.buckets c = some l) {b : Nat}
    (hb : b ≤ s.numBuckets) (s' : ClsState σ) (hentries : s'.entries = s.entries)
    (hobjects : s'.objects = s.objects) :
    ∃ ns : List Nat, ns.Nodup ∧ (∀ n, n ∈ ns ↔ ∃ i < b, s.Filed p c i n) ∧
      (List.range b).foldl (fun s i =>
        s.cleanupBucket p l (.bucket i) (s.objects.length + 1) (l.next (.bucket i))) s' =
      s'.cleanedUp p ns := by
  induction b with
  | zero =>
    refine ⟨[], List.nodup_nil, fun n => iff_of_false nofun ?_, ?_⟩
    · rintro ⟨i, hi, _⟩
      cases hi
    · exact cleanedUp_nil.symm
  | succ b ih =>
    obtain ⟨ns, hnodup, hall, heq⟩ := ih (Nat.le_of_succ_le hb)
    obtain ⟨ms, hring, hms⟩ := h.table c l hl b hb
    have hlength : ms.length < s'.objects.length + 1 := hobjects ▸ Nat.lt_succ_of_le
      (length_le_objects (nodup_of_bucket hring) fun n hn => lt_of_filed ((hms n).mp hn))
    have hfound : ∀ n ∈ ms, (s'.cleanedUp p ns).entries n ≠ none := by
      intro n hn
      obtain ⟨k, hk, _⟩ := ((hms n).mp hn).1
      show s'.entries n ≠ none
      rw [hentries, h.entries n c k hk]
      nofun
    refine ⟨ns ++ ms, ?_, fun n => ?_, ?_⟩
    · refine List.nodup_append.mpr ⟨hnodup, nodup_of_bucket hring, ?_⟩
      rintro n hn m hm rfl
      -- The index of a bucket is that of its entries.
      obtain ⟨i, hi, ⟨k, hk, rfl⟩, _⟩ := (hall n).mp hn
      obtain ⟨⟨k', hk', heq'⟩, _⟩ := (hms n).mp hm
      obtain ⟨_, rfl⟩ := Prod.mk.inj (Option.some.inj (hk.symm.trans hk'))
      exact Nat.lt_irrefl _ (heq' ▸ hi)
    · rw [List.mem_append, hall, hms]
      constructor
      · rintro (⟨i, hi, hn⟩ | hn)
        · exact ⟨i, Nat.lt_succ_of_lt hi, hn⟩
        · exact ⟨b, Nat.lt_succ_self b, hn⟩
      · rintro ⟨i, hi, hn⟩
        rcases Nat.lt_succ_iff_lt_or_eq.mp hi with hlt | rfl
        · exact .inl ⟨i, hlt, hn⟩
        · exact .inr hn
    · rw [List.range_succ, List.foldl_concat, heq, hring.joined.next_eq]
      show (s'.cleanedUp p ns).cleanupBucket p l (.bucket b) (s'.objects.length + 1) _ = _
      rw [cleanupBucket_ring hring.joined.tail hlength, cleanups_eq hfound, cleanedUp_append]

/-- A coroutine that terminates cleans up all its objects, each of them once. -/
theorem cleanupCls_eq (h : s.Tables p) (hc : s.sched.Inside c) (hcalls : s.calls c = [])
    (sched : Sched) :
    ∃ ns : List Nat, ns.Nodup ∧ (∀ n : Nat, n ∈ ns ↔ ∃ cls, s.objects[n]? = some (c, cls)) ∧
      cleanupCls p { s with sched := sched } c =
        { s with sched := sched, buckets := Function.update s.buckets c none }.cleanedUp p ns := by
  cases hl : s.buckets c with
  | none =>
    refine ⟨[], List.nodup_nil, fun n => iff_of_false nofun ?_, ?_⟩
    · rintro ⟨cls, hn⟩
      exact h.noTable c hc hl n cls hn
    · have hsame : Function.update s.buckets c none = s.buckets :=
        Function.update_eq_self_iff.mpr hl.symm
      simp only [cleanupCls, hl, hsame, cleanedUp_nil]
  | some l =>
    obtain ⟨ns, hnodup, hall, heq⟩ := cleanupBuckets_eq h hl (Nat.le_refl _) { s with sched := sched } rfl rfl
    refine ⟨ns, hnodup, fun n => (hall n).trans ?_, ?_⟩
    · constructor
      · rintro ⟨i, _, ⟨cls, hn, _⟩, _⟩
        exact ⟨cls, hn⟩
      · rintro ⟨cls, hn⟩
        refine ⟨_, bucketIndex_lt h.positive h.bounded cls, ⟨cls, hn, rfl⟩, fun call hcall => ?_⟩
        rw [hcalls] at hcall
        cases hcall
    · simp only [cleanupCls, hl]
      rw [heq]
      rfl

/-! ## What holds in all runs -/

/-- An action of the scheduler keeps the tables of the coroutines that are left. -/
theorem Tables.schedule (h : s.Tables p) {a : Action} (he : Sched.machine.enabled s.sched a)
    {b : Handle → Option (Links ClsNode)}
    (hb : ∀ d, (Sched.machine.perform s.sched a).Inside d → b d = s.buckets d)
    (hgone : ∀ d, ¬(Sched.machine.perform s.sched a).Inside d → b d = none ∧ s.calls d = []) :
    Tables p { s with sched := Sched.machine.perform s.sched a, buckets := b } := by
  refine { h with sched := h.sched.step he, owners := fun n d k hn => ?_, table := fun d l hl => ?_,
                  noTable := fun d hd hnone n k hn => ?_, gone := hgone }
  · exact (Sched.Effect.of_step he).stays_closed.issued d (h.owners n d k hn)
  · by_cases hd : (Sched.machine.perform s.sched a).Inside d
    · exact h.table d l ((hb d hd).symm.trans hl)
    · exact nomatch (hgone d hd).1.symm.trans hl
  · have hin := ((Sched.inside_step_iff h.sched he (h.owners n d k hn)).mp hd).1
    exact h.noTable d hin ((hb d hd).symm.trans hnone) n k hn

theorem cleans_eq (h : s.Tables p) (hn : s.objects[n]? = some (c, cls)) :
    s.cleans p n = (p.spec cls).cleanup := by
  rw [cleans, h.entries n c cls hn]
  rfl

/-- The objects of the coroutines that terminate are cleaned up. -/
theorem Ledger.schedule (h : s.Ledger p) (ht : s.Tables p) {a : Action}
    (he : Sched.machine.enabled s.sched a) {b : Handle → Option (Links ClsNode)} {ns : List Nat}
    (hnodup : ns.Nodup)
    (hns : ∀ n : Nat, n ∈ ns ↔ ∃ d k, s.objects[n]? = some (d, k) ∧ s.sched.Inside d ∧
      ¬(Sched.machine.perform s.sched a).Inside d) :
    Ledger p ({ s with sched := Sched.machine.perform s.sched a, buckets := b }.cleanedUp p ns) := by
  have hmem : ∀ {n : Nat} {d k}, s.objects[n]? = some (d, k) →
      (n ∈ ns ↔ s.sched.Inside d ∧ ¬(Sched.machine.perform s.sched a).Inside d) := by
    intro n d k hn
    rw [hns]
    constructor
    · rintro ⟨d', k', hn', hd⟩
      obtain ⟨rfl, _⟩ := Prod.mk.inj (Option.some.inj (hn.symm.trans hn'))
      exact hd
    · exact fun hd => ⟨d, k, hn, hd⟩
  have hin : ∀ {n : Nat} {d k}, s.objects[n]? = some (d, k) →
      (Sched.machine.perform s.sched a).Inside d → s.sched.Inside d := fun hn hd =>
    ((Sched.inside_step_iff ht.sched he (ht.owners _ _ _ hn)).mp hd).1
  refine ⟨h.own, h.done, h.inits, fun n d k hn hd => ?_, fun n d k hn hd => ?_, fun n hn => ?_⟩
  · obtain ⟨hcleanups, hfreed⟩ := h.kept n d k hn (hin hn hd)
    have hnot : n ∉ ns := fun hn' => ((hmem hn).mp hn').2 hd
    exact ⟨fun hn' => (List.mem_append.mp hn').elim hcleanups fun h' => hnot (List.mem_of_mem_filter h'),
      fun hn' => (List.mem_append.mp hn').elim hfreed hnot⟩
  · show (s.cleanups ++ ns.filter (s.cleans p)).count n = _ ∧ (s.freed ++ ns).count n = 1
    rw [List.count_append, List.count_append]
    by_cases hold : s.sched.Inside d
    · obtain ⟨hcleanups, hfreed⟩ := h.kept n d k hn hold
      have hin' : n ∈ ns := (hmem hn).mpr ⟨hold, hd⟩
      rw [List.count_eq_zero_of_not_mem hcleanups, List.count_eq_zero_of_not_mem hfreed,
        List.count_eq_one_of_mem hnodup hin', Nat.zero_add]
      refine ⟨?_, rfl⟩
      rw [← cleans_eq ht hn]
      split
      · next hcleans =>
        exact List.count_eq_one_of_mem (hnodup.filter _) (List.mem_filter.mpr ⟨hin', hcleans⟩)
      · next hcleans => exact List.count_eq_zero_of_not_mem fun h' => hcleans (List.mem_filter.mp h').2
    · have hnot : n ∉ ns := fun hn' => hold ((hmem hn).mp hn').1
      rw [List.count_eq_zero_of_not_mem hnot,
        List.count_eq_zero_of_not_mem fun h' => hnot (List.mem_of_mem_filter h')]
      exact h.cleaned n d k hn hold
  · have hlt : ∀ m ∈ ns, m < s.objects.length := fun m hm => by
      obtain ⟨d, k, hm', _⟩ := (hns m).mp hm
      exact lt_of_object hm'
    show n < s.objects.length
    rcases List.mem_append.mp hn with hn | hn
    · rcases List.mem_append.mp hn with hn | hn
      · exact h.known n (List.mem_append_left _ (List.mem_append_left _ hn))
      · rcases List.mem_append.mp hn with hn | hn
        · exact h.known n (List.mem_append_left _ (List.mem_append_right _ hn))
        · exact hlt n (List.mem_of_mem_filter hn)
    · rcases List.mem_append.mp hn with hn | hn
      · exact h.known n (List.mem_append_right _ hn)
      · exact hlt n hn

/-- A new object is initialized once if its spec has an `init`. -/
theorem Ledger.newEntry (h : s.Ledger p) (cls : σ) (hc : s.sched.Inside c) {ms : List Nat}
    (hms : ms = if (p.spec cls).init then [s.objects.length] else []) :
    Ledger p { (s.newEntry p c cls).pushCall c (newCall p s cls) with inits := s.inits ++ ms } := by
  have hnew : ∀ {m : Nat}, m ∈ s.inits ++ s.cleanups ++ s.freed → m ≠ s.objects.length := fun hm =>
    Nat.ne_of_lt (h.known _ hm)
  have hms' : ∀ m ∈ ms, m = s.objects.length := by
    intro m hm
    rw [hms] at hm
    split at hm
    · exact List.mem_singleton.mp hm
    · cases hm
  have hlength : ((s.newEntry p c cls).objects).length = s.objects.length + 1 := List.length_append
  refine ⟨fun r hr => object_concat.mpr (.inl (h.own r hr)), fun r hr call hcall => ?_,
    fun n d k hn => ?_, fun n d k hn hd => ?_, fun n d k hn hd => ?_, fun n hn => ?_⟩
  · rcases mem_pushCall.mp hcall with hold | ⟨_, rfl⟩
    · exact h.done r hr call hold
    · exact (Nat.ne_of_lt (lt_of_object (h.own r hr))).symm
  · show (s.inits ++ ms).count n = _
    rw [List.count_append]
    rcases object_concat.mp hn with hold | ⟨rfl, rfl, rfl⟩
    · have hnot : n ∉ ms := fun hn' => Nat.ne_of_lt (lt_of_object hold) (hms' n hn')
      rw [List.count_eq_zero_of_not_mem hnot]
      exact h.inits n d k hold
    · have hnot : s.objects.length ∉ s.inits := fun hn' =>
        hnew (List.mem_append_left _ (List.mem_append_left _ hn')) rfl
      rw [List.count_eq_zero_of_not_mem hnot, hms, Nat.zero_add]
      split
      · exact List.count_singleton_self
      · rfl
  · rcases object_concat.mp hn with hold | ⟨rfl, _, _⟩
    · exact h.kept n d k hold hd
    · exact ⟨fun hn' => hnew (List.mem_append_left _ (List.mem_append_right _ hn')) rfl,
        fun hn' => hnew (List.mem_append_right _ hn') rfl⟩
  · rcases object_concat.mp hn with hold | ⟨_, rfl, _⟩
    · exact h.cleaned n d k hold hd
    · exact absurd hc hd
  · show n < (s.newEntry p c cls).objects.length
    rw [hlength]
    have hold : n ∈ s.inits ++ s.cleanups ++ s.freed ∨ n ∈ ms := by
      simp only [List.mem_append] at hn ⊢
      tauto
    rcases hold with hold | hnew'
    · exact Nat.lt_succ_of_lt (h.known n hold)
    · exact hms' n hnew' ▸ Nat.lt_succ_self _

/-- `bio_get_cls` returns its new object. -/
theorem Ledger.insertEntry (h : s.Ledger p) (ht : s.Tables p) {call : ClsCall σ}
    {calls : List (ClsCall σ)} (hcalls : s.calls c = call :: calls) :
    ((s.popCall c calls).insertEntry c call).Ledger p := by
  refine { h with own := fun r hr => ?_, done := fun r hr k hk => ?_ }
  · rcases List.mem_append.mp hr with hold | hnew
    · exact h.own r hold
    · rw [List.mem_singleton.mp hnew]
      exact (ht.calls c call (hcalls ▸ List.mem_cons_self)).1
  · have hk' : k ∈ (s.popCall c calls).calls r.coro := hk
    rcases List.mem_append.mp hr with hold | hnew
    · exact h.done r hold k ((popCall_sublist hcalls r.coro).subset hk')
    · rw [List.mem_singleton.mp hnew] at hk' ⊢
      exact ht.fresh hcalls k ((Function.update_self c calls s.calls) ▸ hk')

theorem Ledger.get {s' : ClsState σ} (h : s.Ledger p) (ht : s.Tables p) (hc : s.sched.Inside c)
    (hsome : s.buckets c ≠ none) (he : GetEffect p s c cls s') : s'.Ledger p := by
  cases he with
  | returns n hn hcalls =>
    refine { h with own := fun r hr => ?_, done := fun r hr => ?_ }
    · rcases List.mem_append.mp hr with hold | hnew
      · exact h.own r hold
      · rw [List.mem_singleton.mp hnew]
        exact hn
    · rcases List.mem_append.mp hr with hold | hnew
      · exact h.done r hold
      · rw [List.mem_singleton.mp hnew]
        exact hcalls
  | inits _ hinit => exact h.newEntry cls hc (by rw [hinit]; rfl)
  | creates _ hinit =>
    have hms : [] = if (p.spec cls).init then [s.objects.length] else [] := by
      rw [hinit]
      rfl
    have hnew := h.newEntry cls hc hms
    rw [List.append_nil] at hnew
    have hpop := hnew.insertEntry (ht.newEntry cls hc hsome) pushCall_calls
    rwa [← popCall_pushCall (s.newEntry p c cls) c (newCall p s cls)]

/-- A coroutine ends when it returns from its entrypoint. -/
theorem ends_iff (ht : s.Tables p) {a : Action} (he : Sched.machine.enabled s.sched a)
    (hc : c ∈ s.sched.issued) :
    s.sched.Inside c ∧ ¬(Sched.machine.perform s.sched a).Inside c ↔
      a = .finish ∧ s.sched.phase = .running c := by
  rw [Sched.inside_step_iff ht.sched he hc]
  constructor
  · rintro ⟨hin, hnot⟩
    by_contra h
    exact hnot ⟨hin, h⟩
  · exact fun h => ⟨Sched.Inside.of_running ht.sched h.2, fun h' => h'.2 h⟩

/-- One object for each coroutine and spec is all that is missing. -/
theorem Ledger.exact (h : s.Ledger p) (hone : s.objects.Nodup) : s.Exact p := by
  refine ⟨hone, fun r hr r' hr' => ?_, h.own, fun r hr => ⟨h.inits _ _ _ (h.own r hr), h.done r hr⟩,
    fun n => ?_, h.kept, h.cleaned, fun n hn => ?_⟩
  · have hown := h.own r hr
    have hown' := h.own r' hr'
    constructor
    · intro heq
      rw [heq] at hown
      exact Prod.mk.inj (Option.some.inj (hown.symm.trans hown'))
    · rintro ⟨hcoro, hcls⟩
      rw [hcoro, hcls] at hown
      exact (List.getElem?_inj (lt_of_object hown) hone).mp (hown.trans hown'.symm)
  · by_cases hn : n < s.objects.length
    · rw [h.inits n _ _ (List.getElem?_eq_getElem hn)]
      split <;> omega
    · have hnot : n ∉ s.inits := fun hn' =>
        hn (h.known n (List.mem_append_left _ (List.mem_append_left _ hn')))
      rw [List.count_eq_zero_of_not_mem hnot]
      omega
  · refine h.known n ?_
    rcases List.mem_append.mp hn with hn | hn
    · exact List.mem_append_left _ (List.mem_append_right _ hn)
    · exact List.mem_append_right _ hn

/-- A call makes a second object for its coroutine and spec exactly when it is made from the `init` of that
spec. -/
theorem one_get_iff {s' : ClsState σ} (ht : s.Tables p) (hone : s.objects.Nodup)
    (he : GetEffect p s c cls s') : s'.objects.Nodup ↔ ∀ call ∈ s.calls c, call.cls ≠ cls := by
  have hnew : (∀ n : Nat, s.objects[n]? = some (c, cls) → ∃ call ∈ s.calls c, call.newEntry = n) →
      ((s.objects ++ [(c, cls)]).Nodup ↔ ∀ call ∈ s.calls c, call.cls ≠ cls) := by
    intro habsent
    rw [List.nodup_append]
    constructor
    · rintro ⟨_, _, hdisjoint⟩ call hcall rfl
      have hmem := List.mem_of_getElem? (ht.calls c call hcall).1
      exact hdisjoint _ hmem _ (List.mem_singleton_self _) rfl
    · refine fun h => ⟨hone, List.nodup_singleton _, ?_⟩
      rintro o ho o' ho' rfl
      rw [List.mem_singleton.mp ho'] at ho
      obtain ⟨n, hn⟩ := List.mem_iff_getElem?.mp ho
      obtain ⟨call, hcall, rfl⟩ := habsent n hn
      have heq := hn.symm.trans (ht.calls c call hcall).1
      exact h call hcall (Prod.mk.inj (Option.some.inj heq)).2.symm
  cases he with
  | returns n hn hcalls =>
    refine iff_of_true hone fun call hcall => ?_
    rintro rfl
    have hown := (ht.calls c call hcall).1
    exact hcalls call hcall ((List.getElem?_inj (lt_of_object hown) hone).mp (hown.trans hn.symm))
  | inits habsent _ => exact hnew habsent
  | creates habsent _ => exact hnew habsent

section Runs

variable [DecidableEq σ] {a : ClsAction σ} {option : Int}

theorem perform_finish (p : ClsSpecs σ) (hp : s.sched.phase = .running c) :
    s.perform p (.sched .finish) = cleanupCls p { s with sched := s.sched.perform .finish } c := by
  simp only [ClsState.perform, hp, Phase.mcoRunning]

theorem perform_sched (p : ClsSpecs σ) (s : ClsState σ) {a : Action} (ha : a ≠ .finish) :
    s.perform p (.sched a) = { s with sched := s.sched.perform a } := by
  cases a with
  | finish => exact absurd rfl ha
  | _ => rfl

/-- A coroutine that terminates is in no call of `bio_get_cls`. -/
theorem finish_enabled (he : (machine p option).enabled s (.sched .finish)) :
    ∃ c, s.sched.phase = .running c ∧ s.calls c = [] := by
  obtain ⟨c, hc⟩ := Option.isSome_iff_exists.mp he.1
  have hall := he.2 rfl
  rw [hc] at hall
  exact ⟨c, Phase.eq_running hc, of_decide_eq_true hall⟩

/-- A coroutine terminates, and its objects are cleaned up. -/
theorem inv_finish (ht : s.Tables p) (h : s.Ledger p)
    (he : (machine p option).enabled s (.sched .finish)) :
    (s.perform p (.sched .finish)).Tables p ∧ (s.perform p (.sched .finish)).Ledger p := by
  have hen : Sched.machine.enabled s.sched .finish := he.1
  obtain ⟨c, hp, hnone⟩ := finish_enabled he
  have hin := Sched.Inside.of_running ht.sched hp
  have hend : ∀ {d : Handle}, ¬(Sched.machine.perform s.sched .finish).Inside d → s.sched.Inside d →
      d = c := fun hnot hd => by
    have hrunning := ((ends_iff ht hen hd.within.issued).mp ⟨hd, hnot⟩).2
    exact Phase.running.inj (hrunning.symm.trans hp)
  obtain ⟨ns, hnodup, hns, heq⟩ := cleanupCls_eq ht hin hnone (s.sched.perform .finish)
  rw [perform_finish p hp, heq]
  constructor
  · have htables : Tables p { s with
        sched := Sched.machine.perform s.sched .finish
        buckets := Function.update s.buckets c none } := by
      refine ht.schedule hen (fun d hd => ?_) fun d hd => ?_
      · refine Function.update_of_ne ?_ ..
        rintro rfl
        exact ((Sched.inside_step_iff ht.sched hen hin.within.issued).mp hd).2 ⟨rfl, hp⟩
      · rcases eq_or_ne d c with rfl | hdc
        · exact ⟨Function.update_self .., hnone⟩
        · have hgone := ht.gone d fun h' => hdc (hend hd h')
          exact ⟨(Function.update_of_ne hdc ..).trans hgone.1, hgone.2⟩
    exact { htables with }
  · refine h.schedule ht hen hnodup fun n => (hns n).trans ⟨?_, ?_⟩
    · rintro ⟨k, hn⟩
      exact ⟨c, k, hn, (ends_iff ht hen hin.within.issued).mpr ⟨rfl, hp⟩⟩
    · rintro ⟨d, k, hn, hd, hnot⟩
      exact ⟨k, hend hnot hd ▸ hn⟩

theorem inv_sched {a : Action} (ht : s.Tables p) (h : s.Ledger p)
    (he : Sched.machine.enabled s.sched a) (ha : a ≠ .finish) :
    (s.perform p (.sched a)).Tables p ∧ (s.perform p (.sched a)).Ledger p := by
  have hstays : ∀ d ∈ s.sched.issued,
      ¬(s.sched.Inside d ∧ ¬(Sched.machine.perform s.sched a).Inside d) := fun d hd h' =>
    ha ((ends_iff ht he hd).mp h').1
  rw [perform_sched p s ha]
  constructor
  · refine ht.schedule he (fun _ _ => rfl) fun d hd => ht.gone d fun h' => ?_
    exact hstays d h'.within.issued ⟨h', hd⟩
  · have hledger := h.schedule ht he (b := s.buckets) List.nodup_nil fun n =>
      iff_of_false List.not_mem_nil fun ⟨d, k, hn, hd⟩ => hstays d (ht.owners n d k hn) hd
    rwa [cleanedUp_nil] at hledger

/-- The step lemma. -/
theorem inv_step (ht : s.Tables p) (h : s.Ledger p) (he : (machine p option).enabled s a) :
    (s.perform p a).Tables p ∧ (s.perform p a).Ledger p := by
  cases a with
  | sched a =>
    by_cases ha : a = .finish
    · subst ha
      exact inv_finish ht h he
    · exact inv_sched ht h he.1 ha
  | getCls cls =>
    show (s.getCls p cls).Tables p ∧ (s.getCls p cls).Ledger p
    cases hp : s.sched.phase.mcoRunning with
    | none =>
      rw [getCls, hp]
      exact ⟨ht, h⟩
    | some c =>
      have hp' := Phase.eq_running hp
      obtain ⟨b, htables, hsome, heffect⟩ := getCls_effect ht hp' cls
      have hin := Sched.Inside.of_running ht.sched hp'
      have hledger : Ledger p { s with buckets := b } := { h with }
      exact ⟨htables.get hin hsome heffect, hledger.get htables hin hsome heffect⟩
  | initDone =>
    obtain ⟨c, hp, hcalls⟩ := (Option.any_eq_true ..).mp he
    have heq : s.perform p .initDone = s.initDone c := by
      rw [ClsState.perform, hp]
    rw [heq, initDone]
    cases hlist : s.calls c with
    | nil => exact absurd hlist (of_decide_eq_true hcalls)
    | cons call calls => exact ⟨ht.insertEntry hlist, h.insertEntry ht hlist⟩

theorem inv_of_reachable (hpos : 0 < option) (hle : option ≤ 2 ^ 30)
    (h : (machine p option).Reachable s) : s.Tables p ∧ s.Ledger p := by
  refine Machine.invariant (P := fun s => s.Tables p ∧ s.Ledger p) ?_
    (fun s a _ hi he => inv_step hi.1 hi.2 he) h
  rintro s rfl
  obtain ⟨hpositive, hbounded⟩ := clsBuckets_bounds hpos hle
  refine ⟨⟨.init rfl, hpositive, hbounded, nofun, nofun, nofun, fun _ => List.nodup_nil, nofun,
    fun _ _ _ => nofun, fun _ _ => ⟨rfl, rfl⟩⟩, ⟨nofun, nofun, nofun, nofun, nofun, nofun⟩⟩

theorem objects_sched {a : Action} (ht : s.Tables p) (he : (machine p option).enabled s (.sched a)) :
    (s.perform p (.sched a)).objects = s.objects := by
  by_cases ha : a = .finish
  · subst ha
    obtain ⟨c, hp, hnone⟩ := finish_enabled he
    obtain ⟨ns, _, _, heq⟩ := cleanupCls_eq ht (Sched.Inside.of_running ht.sched hp) hnone
      (s.sched.perform .finish)
    rw [perform_finish p hp, heq]
    rfl
  · rw [perform_sched p s ha]

/-- The guard is what keeps the objects apart. -/
theorem one_step_iff (ht : s.Tables p) (hone : s.objects.Nodup) (he : (machine p option).enabled s a) :
    (s.perform p a).objects.Nodup ↔ s.Acyclic a := by
  cases a with
  | sched a =>
    rw [objects_sched ht he]
    exact iff_of_true hone trivial
  | initDone =>
    obtain ⟨c, hp, _⟩ := (Option.any_eq_true ..).mp he
    have heq : (s.perform p .initDone).objects = s.objects := by
      rw [ClsState.perform, hp]
      dsimp only
      rw [initDone]
      split <;> rfl
    rw [heq]
    exact iff_of_true hone trivial
  | getCls cls =>
    show (s.getCls p cls).objects.Nodup ↔ _
    cases hp : s.sched.phase.mcoRunning with
    | none =>
      rw [getCls, hp, Acyclic, hp]
      exact iff_of_true hone nofun
    | some c =>
      obtain ⟨b, htables, _, heffect⟩ := getCls_effect ht (Phase.eq_running hp) cls
      rw [one_get_iff htables hone heffect, Acyclic, hp]
      exact ⟨fun h d hd => Option.some.inj hd ▸ h, fun h => h c rfl⟩

/-- In every run the promise holds in all states exactly when no call of `bio_get_cls` asks for a spec
whose `init` its coroutine has not returned from. -/
theorem one_object_iff (hpos : 0 < option) (hle : option ≤ 2 ^ 30) {as : List (ClsAction σ)}
    (hl : (machine p option).Legal (init σ option) as) :
    (∀ bs, bs <+: as → ((machine p option).run (init σ option) bs).Exact p) ↔
      ((machine p option).restrict Acyclic).Legal (init σ option) as := by
  have hinit : (init σ option).Exact p :=
    (inv_of_reachable hpos hle (.init rfl)).2.exact List.nodup_nil
  have hiff := Machine.always_step_iff (M := machine p option) (Q := Acyclic) (K := fun _ _ => True)
    (P := Exact p) rfl hinit
    (fun s a hr hex he hok => by
      have hi := inv_of_reachable hpos hle hr
      exact ⟨trivial, (inv_step hi.1 hi.2 he).2.exact ((one_step_iff hi.1 hex.one he).mpr hok)⟩)
    (fun s a hr hex he _ hex' => (one_step_iff (inv_of_reachable hpos hle hr).1 hex.one he).mp hex'.one) hl
  exact ⟨fun h => hiff.mp ⟨fun _ _ _ => trivial, h⟩, fun h => (hiff.mpr h).2⟩

instance (s : ClsState σ) : ∀ a, Decidable (s.Acyclic a)
  | .getCls cls =>
    inferInstanceAs (Decidable (∀ c ∈ s.sched.phase.mcoRunning, ∀ call ∈ s.calls c, call.cls ≠ cls))
  | .sched _ | .initDone => .isTrue trivial

instance (s : ClsState σ) (a : ClsAction σ) :
    Decidable (((machine p option).restrict Acyclic).enabled s a) :=
  inferInstanceAs (Decidable ((machine p option).enabled s a ∧ s.Acyclic a))

end Runs

/-- Specs with both callbacks. -/
def callbackSpecs : ClsSpecs (BitVec 64) := addressSpecs fun _ => ⟨8, true, true⟩

/-- A coroutine starts. -/
def startOne : List (ClsAction (BitVec 64)) :=
  [.sched (.spawn false ⟨1, 1⟩), .sched .enterLoop, .sched .endPass, .sched .swap, .sched .resume]

/-- The `init` of one spec asks for another one. -/
def nestedCls : List (ClsAction (BitVec 64)) :=
  startOne ++ [.getCls 0x1000, .getCls 0x2000, .initDone, .initDone, .getCls 0x2000, .getCls 0x1000,
    .sched .finish, .sched .destroy]

theorem one_object_iff_nested :
    ((machine callbackSpecs 3).run (init _ 3) nestedCls).cleanups = [1, 0] ∧
    ((∀ bs, bs <+: nestedCls → ((machine callbackSpecs 3).run (init _ 3) bs).Exact callbackSpecs) ↔
      ((machine callbackSpecs 3).restrict Acyclic).Legal (init _ 3) nestedCls) ∧
    ((machine callbackSpecs 3).restrict Acyclic).Legal (init _ 3) nestedCls :=
  ⟨by decide +kernel, one_object_iff (by decide) (by decide) (by decide +kernel), by decide +kernel⟩

/-- The `init` of the second spec asks for the first one again. -/
def cyclicCls : List (ClsAction (BitVec 64)) :=
  startOne ++ [.getCls 0x1000, .getCls 0x2000, .getCls 0x1000, .initDone, .initDone, .initDone]

/-- The coroutine gets two objects for one spec. Each `init` has asked for another spec than its own. -/
theorem second_object :
    (machine callbackSpecs 3).Legal (init _ 3) cyclicCls ∧
    (((machine callbackSpecs 3).run (init _ 3) (cyclicCls.take 7)).calls ⟨1, 1⟩).map ClsCall.cls =
      [0x2000, 0x1000] ∧
    ((machine callbackSpecs 3).run (init _ 3) cyclicCls).returns =
      [⟨⟨1, 1⟩, 0x1000, 2⟩, ⟨⟨1, 1⟩, 0x2000, 1⟩, ⟨⟨1, 1⟩, 0x1000, 0⟩] ∧
    ¬∀ bs, bs <+: cyclicCls → ((machine callbackSpecs 3).run (init _ 3) bs).Exact callbackSpecs := by
  refine ⟨by decide +kernel, by decide +kernel, by decide +kernel, fun h => ?_⟩
  exact absurd (h cyclicCls List.prefix_rfl).one (by decide +kernel)

end ClsState

end Bio
