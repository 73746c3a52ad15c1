import Bio.Lib.Links
import Bio.Lib.Machine

/-!
# The list macros

`BIO_LIST_INIT`, `BIO_LIST_APPEND`, `BIO_LIST_REMOVE` and `BIO_LIST_POP` of `src/internal.h`, write by write. A
write through a null pointer has no result (`none`).

1. `listAppend_eq` and `listRemove_eq`: on the links of a list the writes are the two edits of `Lib/Links`.
2. `wellFormed_of_reachable`: any order of them on any lists keeps every list a ring of its items.
3. `list_macros`: what the macros do to a list, to its items and to the other lists.
4. `listPop_ruins`: a macro evaluates its argument each time it is used. The argument of `BIO_LIST_POP` is
   another node after the second write, so that it leaves no list. It has no caller.
-/

namespace Bio

variable {α : Type*} [DecidableEq α]

/-- `BIO_LIST_INIT`. -/
def listInit (list : α) (l : Links α) : Links α :=
  (l.setNext list (some list)).setPrev list (some list)

/-- `BIO_LIST_APPEND`. -/
def listAppend (list item : α) (l : Links α) : Option (Links α) := do
  let l := l.setNext item (some list)
  let l := l.setPrev item (l.prev list)
  let last ← l.prev list
  let l := l.setNext last (some item)
  return l.setPrev list (some item)

/-- `BIO_LIST_REMOVE`. The argument is an expression over the links. -/
def listRemove (item : Links α → Option α) (l : Links α) : Option (Links α) := do
  if (l.next (← item l)).isNone then
    return l
  let next ← l.next (← item l)
  let l := l.setPrev next (l.prev (← item l))
  let prev ← l.prev (← item l)
  let l := l.setNext prev (l.next (← item l))
  let l := l.setNext (← item l) none
  return l.setPrev (← item l) none

/-- `BIO_LIST_POP`. -/
def listPop (list : α) (l : Links α) : Option (Links α) := listRemove (fun l => l.next list) l

/-- The loop over a list, from `list->next` until it is at the list again, in which `fuel` links are followed at
most. -/
def listWalk (l : Links α) (list : α) : Nat → Option α → Option (List α)
  | 0, _ => none
  | fuel + 1, itr => do
    let node ← itr
    if node = list then
      return []
    return node :: (← listWalk l list fuel (l.next node))

/-! ## One list -/

theorem listAppend_eq {l : Links α} {list last : α} (item : α) (hlast : l.prev list = some last) :
    listAppend list item l = some (l.append list item) := by
  have hprev : ((l.setNext item (some list)).setPrev item (some last)).prev list = some last := by
    simp only [Links.setPrev, Links.setNext, Function.update_apply]
    split
    · rfl
    · exact hlast
  have hsame : (l.setNext item (some list)).prev list = some last := hlast
  simp only [listAppend, hsame, hprev, Links.append, hlast]
  rfl

/-- The links of the item are not changed before they are read. -/
theorem listRemove_eq {l : Links α} {item a b : α} (hnext : l.next item = some b)
    (hprev : l.prev item = some a) : listRemove (fun _ => some item) l = some (l.remove item) := by
  have hsame : (l.setPrev b (some a)).prev item = some a := by
    simp only [Links.setPrev, Function.update_apply]
    split
    · rfl
    · exact hprev
  have hsame' : (l.setPrev b (some a)).next item = some b := hnext
  simp only [listRemove, Links.remove, hnext, hprev, Option.bind_eq_bind, Option.bind_some, hsame, hsame']
  rfl

/-- An item that is in no list. -/
theorem listRemove_unlinked {l : Links α} {item : α} (hnext : l.next item = none) :
    listRemove (fun _ => some item) l = some l := by
  simp only [listRemove, hnext, Option.bind_eq_bind, Option.bind_some, Option.isNone_none, if_true]
  rfl

theorem listWalk_joined {l : Links α} {list : α} {nodes : List α}
    (h : l.Joined (nodes ++ [list])) (hlist : list ∉ nodes) :
    listWalk l list (nodes.length + 1) (nodes ++ [list]).head? = some nodes := by
  induction nodes with
  | nil => simp [listWalk]
  | cons x nodes ih =>
    have hne : x ≠ list := fun heq => hlist (heq ▸ List.mem_cons_self)
    have hrest := ih (List.IsChain.tail h) fun hmem => hlist (List.mem_cons_of_mem x hmem)
    have hnext : l.next x = (nodes ++ [list]).head? := Links.Joined.next_eq h
    show (if x = list then some [] else
      (listWalk l list (nodes.length + 1) (l.next x)).bind fun rest => some (x :: rest)) = some (x :: nodes)
    rw [if_neg hne, hnext, hrest]
    rfl

/-- The links are those of a list with the items: a loop over it visits each of them once and comes back, and
the two links of each node are inverse to each other. -/
structure IsList (l : Links α) (list : α) (items : List α) : Prop where
  ring : l.IsRing list items
  nodup : items.Nodup
  walk : listWalk l list (items.length + 1) (l.next list) = some items
  next_prev : ∀ a ∈ list :: items, ∃ b ∈ list :: items, l.next a = some b ∧ l.prev b = some a
  prev_next : ∀ b ∈ list :: items, ∃ a ∈ list :: items, l.prev b = some a ∧ l.next a = some b

theorem isList_of_ring {l : Links α} {list : α} {items : List α} (h : l.IsRing list items) :
    IsList l list items := by
  obtain ⟨hlist, hnodup⟩ := List.nodup_cons.mp h.nodup
  refine ⟨h, hnodup, ?_, fun _ => h.next_prev, fun _ => h.prev_next⟩
  rw [h.joined.next_eq]
  exact listWalk_joined h.joined.tail hlist

/-- No node of one list is in the other. -/
def Apart (list : α) (items : List α) (list' : α) (items' : List α) : Prop :=
  ∀ x ∈ list :: items, x ∉ list' :: items'

theorem listAppend_ring {l : Links α} {list item : α} {items : List α} (h : l.IsRing list items)
    (hitem : item ∉ list :: items) :
    ∃ l', listAppend list item l = some l' ∧ l'.IsRing list (items ++ [item]) ∧
      ∀ list' items', l.IsRing list' items' → Apart list' items' list items →
        item ∉ list' :: items' → l'.IsRing list' items' := by
  obtain ⟨last, _, hlast, _⟩ := h.prev_next List.mem_cons_self
  exact ⟨_, listAppend_eq item hlast, h.append hitem,
    fun _ _ h' hapart hitem' => h'.append_other h hapart hitem'⟩

theorem listRemove_ring {l : Links α} {list item : α} {items : List α} (h : l.IsRing list items)
    (hitem : item ∈ items) :
    ∃ l', listRemove (fun _ => some item) l = some l' ∧ l'.IsRing list (items.erase item) ∧
      l'.next item = none ∧ l'.prev item = none ∧
      ∀ list' items', l.IsRing list' items' → Apart list' items' list items →
        l'.IsRing list' items' := by
  have hmem : item ∈ list :: items := List.mem_cons_of_mem list hitem
  obtain ⟨b, _, hnext, _⟩ := h.next_prev hmem
  obtain ⟨a, _, hprev, _⟩ := h.prev_next hmem
  refine ⟨_, listRemove_eq hnext hprev, h.remove hitem, ?_, ?_,
    fun _ _ h' hapart => h'.remove_other h hapart hitem⟩
  · rw [Links.next_remove hnext hprev, if_pos rfl]
  · rw [Links.prev_remove hnext hprev, if_pos rfl]

/-! ## Many lists -/

/-- The links of all nodes, the items of each list that was initialised, and which nodes are marked as being in
no list. -/
structure ListState (α : Type*) where
  links : Links α
  lists : α → Option (List α)
  unlinked : α → Prop
  crashed : Bool

inductive ListOp (α : Type*)
  | init (list : α)
  | append (list item : α)
  | remove (item : α)

namespace ListState

/-- A macro was executed. -/
def wrote (s : ListState α) : Option (Links α) → ListState α
  | some l => { s with links := l }
  | none => { s with crashed := true }

def perform (s : ListState α) : ListOp α → ListState α
  | .init list =>
    { s with
      links := listInit list s.links
      lists := Function.update s.lists list (some [])
      unlinked := fun x => s.unlinked x ∧ x ≠ list }
  | .append list item =>
    { s.wrote (listAppend list item s.links) with
      lists := Function.update s.lists list ((s.lists list).map (· ++ [item]))
      unlinked := fun x => s.unlinked x ∧ x ≠ item }
  | .remove item =>
    { s.wrote (listRemove (fun _ => some item) s.links) with
      lists := fun list => (s.lists list).map (·.erase item)
      unlinked := fun x => s.unlinked x ∨ x = item }

def Member (s : ListState α) (x : α) : Prop := ∃ list items, s.lists list = some items ∧ x ∈ items

/-- Neither a list nor in one. -/
def Single (s : ListState α) (x : α) : Prop := s.lists x = none ∧ ¬ s.Member x

/-- Any order of the macros on any lists. Before there is a list the links are arbitrary; a node whose links
are null counts as marked. What is removed is in a list or marked, as it is when it was removed before. -/
def machine (α : Type*) [DecidableEq α] : Machine (ListState α) (ListOp α) where
  init := fun s => (∀ list, s.lists list = none) ∧ (∀ x, s.unlinked x → s.links.next x = none) ∧
    s.crashed = false
  enabled := fun s op =>
    match op with
    | .init list => s.Single list
    | .append list item => s.lists list ≠ none ∧ s.Single item
    | .remove item => s.Member item ∨ s.unlinked item
  perform := perform

/-- Any two of the lists are apart. -/
def AllApart (lists : α → Option (List α)) : Prop :=
  ∀ list items list' items', lists list = some items → lists list' = some items' → list ≠ list' →
    Apart list items list' items'

structure WellFormed (s : ListState α) : Prop where
  ring : ∀ list items, s.lists list = some items → s.links.IsRing list items
  apart : AllApart s.lists
  unlinked : ∀ x, s.unlinked x → s.links.next x = none
  alive : s.crashed = false

/-- One list changes. -/
theorem AllApart.update {lists : α → Option (List α)} (h : AllApart lists) {list : α} {items : List α}
    (hnew : ∀ list' items', lists list' = some items' → list ≠ list' → Apart list items list' items') :
    AllApart (Function.update lists list (some items)) := by
  intro list₁ items₁ list₂ items₂ h₁ h₂ hne
  rcases eq_or_ne list₁ list with rfl | hne₁
  · rw [Function.update_self] at h₁
    rw [Function.update_of_ne hne.symm] at h₂
    cases h₁
    exact hnew list₂ items₂ h₂ hne
  · rw [Function.update_of_ne hne₁] at h₁
    rcases eq_or_ne list₂ list with rfl | hne₂
    · rw [Function.update_self] at h₂
      cases h₂
      exact fun x hx hx' => hnew list₁ items₁ h₁ hne.symm x hx' hx
    · rw [Function.update_of_ne hne₂] at h₂
      exact h list₁ items₁ list₂ items₂ h₁ h₂ hne

omit [DecidableEq α] in
/-- A node in no list is in none of the rings. -/
theorem Single.not_mem {s : ListState α} {x list : α} {items : List α} (h : s.Single x)
    (hlist : s.lists list = some items) : x ∉ list :: items := by
  intro hmem
  rcases List.mem_cons.mp hmem with rfl | hmem
  · rw [h.1] at hlist
    cases hlist
  · exact h.2 ⟨list, items, hlist, hmem⟩

omit [DecidableEq α] in
/-- A node of a list is not marked. -/
theorem WellFormed.not_unlinked {s : ListState α} (h : s.WellFormed) {x list : α} {items : List α}
    (hlist : s.lists list = some items) (hmem : x ∈ list :: items) : ¬ s.unlinked x := by
  intro hx
  obtain ⟨b, _, hnext, _⟩ := (h.ring list items hlist).next_prev hmem
  rw [h.unlinked x hx] at hnext
  cases hnext

theorem init_wellFormed {s : ListState α} (h : s.WellFormed) {list : α} (hsingle : s.Single list) :
    (s.perform (.init list)).WellFormed := by
  refine ⟨fun list' items hitems => ?_, h.apart.update fun list' items hitems _ => ?_, fun x hx => ?_,
    h.alive⟩
  · rcases eq_or_ne list' list with rfl | hne
    · obtain rfl : [] = items := by simpa [perform] using hitems
      exact .init s.links list'
    · have hitems' : s.lists list' = some items := by simpa [perform, hne] using hitems
      exact (h.ring list' items hitems').init_other (hsingle.not_mem hitems')
  · rintro x hx hx'
    exact hsingle.not_mem hitems (List.mem_singleton.mp hx ▸ hx')
  · exact (Function.update_of_ne hx.2 ..).trans (h.unlinked x hx.1)

theorem append_wellFormed {s : ListState α} (h : s.WellFormed) {list item : α} {items : List α}
    (hlist : s.lists list = some items) (hsingle : s.Single item) :
    (s.perform (.append list item)).WellFormed := by
  have hring := h.ring list items hlist
  obtain ⟨last, hmem, hlast, _⟩ := hring.prev_next List.mem_cons_self
  have hperform : s.perform (.append list item) =
      { s with
        links := s.links.append list item
        lists := Function.update s.lists list (some (items ++ [item]))
        unlinked := fun x => s.unlinked x ∧ x ≠ item } := by
    simp only [perform, listAppend_eq item hlast, wrote, hlist, Option.map_some]
  rw [hperform]
  refine ⟨fun list' items' hitems => ?_, h.apart.update fun list' items' hitems hne => ?_,
    fun x hx => ?_, h.alive⟩
  · rcases eq_or_ne list' list with rfl | hne
    · obtain rfl : items ++ [item] = items' := by simpa using hitems
      exact hring.append (hsingle.not_mem hlist)
    · have hitems' : s.lists list' = some items' := by simpa [hne] using hitems
      exact (h.ring list' items' hitems').append_other hring
        (h.apart list' items' list items hitems' hlist hne) (hsingle.not_mem hitems')
  · rintro x hx hx'
    rw [← List.cons_append, List.mem_append, List.mem_singleton] at hx
    rcases hx with hx | rfl
    · exact h.apart list items list' items' hlist hitems hne x hx hx'
    · exact hsingle.not_mem hitems hx'
  · have hnot : x ≠ last := fun heq => h.not_unlinked hlist hmem (heq ▸ hx.1)
    rw [Links.next_append hlast, if_neg hnot, if_neg hx.2]
    exact h.unlinked x hx.1

/-- What `remove` does to the lists: the item goes from the one that it is in. -/
theorem WellFormed.lists_erase {s : ListState α} (h : s.WellFormed) {item list : α} {items : List α}
    (hlist : s.lists list = some items) (hitem : item ∈ items) :
    (fun list' => (s.lists list').map (·.erase item)) =
      Function.update s.lists list (some (items.erase item)) := by
  funext list'
  rcases eq_or_ne list' list with rfl | hne
  · rw [hlist, Function.update_self, Option.map_some]
  · rw [Function.update_of_ne hne]
    cases hlist' : s.lists list' with
    | none => rfl
    | some items' =>
      have hnot : item ∉ items' := fun hmem =>
        h.apart list items list' items' hlist hlist' hne.symm item (List.mem_cons_of_mem list hitem)
          (List.mem_cons_of_mem list' hmem)
      rw [Option.map_some, List.erase_of_not_mem hnot]

theorem remove_wellFormed {s : ListState α} (h : s.WellFormed) {item list : α} {items : List α}
    (hlist : s.lists list = some items) (hitem : item ∈ items) :
    (s.perform (.remove item)).WellFormed := by
  have hring := h.ring list items hlist
  have hmem : item ∈ list :: items := List.mem_cons_of_mem list hitem
  obtain ⟨b, _, hnext, _⟩ := hring.next_prev hmem
  obtain ⟨a, ha, hprev, _⟩ := hring.prev_next hmem
  have hperform : s.perform (.remove item) =
      { s with
        links := s.links.remove item
        lists := Function.update s.lists list (some (items.erase item))
        unlinked := fun x => s.unlinked x ∨ x = item } := by
    simp only [perform, listRemove_eq hnext hprev, wrote, h.lists_erase hlist hitem]
  rw [hperform]
  refine ⟨fun list' items' hitems => ?_, h.apart.update fun list' items' hitems hne => ?_,
    fun x hx => ?_, h.alive⟩
  · rcases eq_or_ne list' list with rfl | hne
    · obtain rfl : items.erase item = items' := by simpa using hitems
      exact hring.remove hitem
    · have hitems' : s.lists list' = some items' := by simpa [hne] using hitems
      exact (h.ring list' items' hitems').remove_other hring
        (h.apart list' items' list items hitems' hlist hne) hitem
  · refine fun x hx => h.apart list items list' items' hlist hitems hne x ?_
    exact (List.mem_cons.mp hx).elim (fun heq => heq ▸ List.mem_cons_self)
      fun hmem => List.mem_cons_of_mem list (List.mem_of_mem_erase hmem)
  · rw [Links.next_remove hnext hprev]
    split
    · rfl
    · next hne =>
      have hx' : s.unlinked x := hx.resolve_right hne
      have hnot : x ≠ a := fun heq => h.not_unlinked hlist ha (heq ▸ hx')
      rw [if_neg hnot]
      exact h.unlinked x hx'

/-- To remove a node that is in no list changes nothing. -/
theorem remove_unlinked {s : ListState α} (h : s.WellFormed) {item : α} (hitem : s.unlinked item) :
    s.perform (.remove item) = s := by
  have hlists : (fun list => (s.lists list).map (·.erase item)) = s.lists := by
    funext list
    cases hlist : s.lists list with
    | none => rfl
    | some items =>
      have hnot : item ∉ items := fun hmem => h.not_unlinked hlist (List.mem_cons_of_mem list hmem) hitem
      rw [Option.map_some, List.erase_of_not_mem hnot]
  have hunlinked : (fun x => s.unlinked x ∨ x = item) = s.unlinked := by
    funext x
    exact propext ⟨fun hx => hx.elim id fun heq => heq ▸ hitem, .inl⟩
  simp only [perform, listRemove_unlinked (h.unlinked item hitem), wrote, hlists, hunlinked]

theorem step_wellFormed {s : ListState α} (h : s.WellFormed) {op : ListOp α}
    (hen : (machine α).enabled s op) : (s.perform op).WellFormed := by
  cases op with
  | init list => exact init_wellFormed h hen
  | append list item =>
    obtain ⟨items, hlist⟩ := Option.ne_none_iff_exists'.mp hen.1
    exact append_wellFormed h hlist hen.2
  | remove item =>
    rcases hen with ⟨list, items, hlist, hitem⟩ | hitem
    · exact remove_wellFormed h hlist hitem
    · exact (remove_unlinked h hitem).symm ▸ h

theorem wellFormed_of_reachable {s : ListState α} (hs : (machine α).Reachable s) : s.WellFormed := by
  refine Machine.invariant (P := WellFormed) (fun s h => ?_) (fun _ _ _ h hen => step_wellFormed h hen) hs
  refine ⟨fun list items hlist => ?_, fun list items _ _ hlist => ?_, h.2.1, h.2.2⟩
  · rw [h.1] at hlist
    cases hlist
  · rw [h.1] at hlist
    cases hlist

end ListState

/-- The list macros implement sequences. Of any links and any list with the items:

* `BIO_LIST_APPEND` of a node that is not in it makes it the list with the node at the end;
* `BIO_LIST_REMOVE` of an item makes it the list without the item and leaves null links in the item, and then
  it changes nothing to remove the item again;
* the other lists are what they were.

After any order of them on any lists, each list has its items: a loop over it visits each item once and comes
back, and its links are inverse to each other. No macro follows a null pointer. -/
theorem list_macros :
    (∀ (l : Links α) list items item, IsList l list items → item ∉ list :: items →
      ∃ l', listAppend list item l = some l' ∧ IsList l' list (items ++ [item]) ∧
        ∀ list' items', IsList l list' items' → Apart list' items' list items →
          item ∉ list' :: items' → IsList l' list' items') ∧
    (∀ (l : Links α) list items item, IsList l list items → item ∈ items →
      ∃ l', listRemove (fun _ => some item) l = some l' ∧ IsList l' list (items.erase item) ∧
        l'.next item = none ∧ l'.prev item = none ∧
        listRemove (fun _ => some item) l' = some l' ∧
        ∀ list' items', IsList l list' items' → Apart list' items' list items →
          IsList l' list' items') ∧
    ∀ s, (ListState.machine α).Reachable s → s.crashed = false ∧
      ∀ list items, s.lists list = some items → IsList s.links list items := by
  refine ⟨fun l list items item h hitem => ?_, fun l list items item h hitem => ?_, fun s hs => ?_⟩
  · obtain ⟨l', happend, hring, hothers⟩ := listAppend_ring h.ring hitem
    exact ⟨l', happend, isList_of_ring hring, fun list' items' h' hapart hitem' =>
      isList_of_ring (hothers list' items' h'.ring hapart hitem')⟩
  · obtain ⟨l', hremove, hring, hnext, hprev, hothers⟩ := listRemove_ring h.ring hitem
    exact ⟨l', hremove, isList_of_ring hring, hnext, hprev, listRemove_unlinked hnext,
      fun list' items' h' hapart => isList_of_ring (hothers list' items' h'.ring hapart)⟩
  · have h := ListState.wellFormed_of_reachable hs
    exact ⟨h.alive, fun list items hlist => isList_of_ring (h.ring list items hlist)⟩

/-- Two items are put into a list, and the first is taken out twice. -/
theorem list_macros_twice :
    let s := (ListState.machine Nat).run
      ⟨⟨fun _ => none, fun _ => none⟩, fun _ => none, fun _ => True, false⟩
      [.init 0, .append 0 1, .append 0 2, .remove 1, .remove 1]
    s.crashed = false ∧ IsList s.links 0 [2] := by
  intro s
  have hs : (ListState.machine Nat).Reachable s := by
    refine Machine.Reachable.run (.init ⟨fun _ => rfl, fun _ _ => rfl, rfl⟩)
      ⟨⟨rfl, ?_⟩, ⟨nofun, rfl, ?_⟩, ⟨nofun, rfl, ?_⟩, .inl ⟨0, [1, 2], rfl, by decide⟩,
        .inr (.inr rfl), trivial⟩
    · exact fun ⟨_, _, hlist, _⟩ => nomatch hlist
    · rintro ⟨list, items, hlist, hmem⟩
      rcases eq_or_ne list 0 with rfl | hne
      · obtain rfl : [] = items := Option.some.inj hlist
        exact List.not_mem_nil hmem
      · exact nomatch (Function.update_of_ne hne ..).symm.trans hlist
    · rintro ⟨list, items, hlist, hmem⟩
      rcases eq_or_ne list 0 with rfl | hne
      · obtain rfl : [1] = items := Option.some.inj hlist
        exact absurd hmem (by decide)
      · have hlist' := (Function.update_of_ne hne ..).symm.trans hlist
        exact nomatch (Function.update_of_ne hne ..).symm.trans hlist'
  obtain ⟨hcrashed, hlists⟩ := list_macros.2.2 s hs
  exact ⟨hcrashed, hlists 0 [2] rfl⟩

/-! ## An argument that is evaluated again -/

theorem listPop_nil {l : Links α} {list : α} (h : l.IsRing list []) : listPop list l = none := by
  obtain ⟨hnext, hprev⟩ := List.isChain_pair.mp h.joined
  simp [listPop, listRemove, hnext, hprev, Links.setNext, Links.setPrev]

/-- Of a list with one item the second write empties the list, and the argument is the list itself then. -/
theorem listPop_single {l : Links α} {list x : α} (h : l.IsRing list [x]) : listPop list l = none := by
  obtain ⟨⟨hnext, hprev⟩, hrest⟩ := List.isChain_cons_cons.mp h.joined
  obtain ⟨hnext', hprev'⟩ := List.isChain_pair.mp hrest
  have hne : x ≠ list := fun heq => (List.nodup_cons.mp h.nodup).1 (heq ▸ List.mem_cons_self)
  simp [listPop, listRemove, hnext, hprev, hnext', Links.setNext, Links.setPrev, hne]

/-- Of a longer list it is the second item, whose links are cleared. -/
theorem listPop_cons {l : Links α} {list x y : α} {items : List α} (h : l.IsRing list (x :: y :: items)) :
    ∃ l', listPop list l = some l' ∧ l'.next list = some y ∧ l'.next y = none ∧ l'.next x = some y := by
  obtain ⟨⟨hnext, hprev⟩, hrest⟩ := List.isChain_cons_cons.mp h.joined
  obtain ⟨⟨hnext', hprev'⟩, _⟩ := List.isChain_cons_cons.mp hrest
  obtain ⟨hlist, hnodup⟩ := List.nodup_cons.mp h.nodup
  have hxy : x ≠ y := fun heq => (List.nodup_cons.mp hnodup).1 (heq ▸ List.mem_cons_self)
  have hx : x ≠ list := fun heq => hlist (heq ▸ List.mem_cons_self)
  have hy : y ≠ list := fun heq => hlist (heq ▸ List.mem_cons_of_mem x List.mem_cons_self)
  refine ⟨(((l.setPrev y (some list)).setNext list (some y)).setNext y none).setPrev y none,
    ?_, ?_, ?_, ?_⟩
  · simp [listPop, listRemove, hnext, hprev, hnext', Links.setNext, Links.setPrev, hxy, hy.symm]
  all_goals simp [Links.setNext, Links.setPrev, hnext', hxy, hx, hy.symm]

/-- `BIO_LIST_POP` follows a null pointer or leaves no list. -/
theorem listPop_ruins {l l' : Links α} {list : α} {items : List α} (h : IsList l list items)
    (hpop : listPop list l = some l') (items' : List α) : ¬ IsList l' list items' := by
  intro h'
  match items, h.ring with
  | [], hring => rw [listPop_nil hring] at hpop; cases hpop
  | [x], hring => rw [listPop_single hring] at hpop; cases hpop
  | x :: y :: items, hring =>
    obtain ⟨l'', hpop', hnext, hnull, _⟩ := listPop_cons hring
    rw [hpop] at hpop'
    cases hpop'
    obtain ⟨b, hb, hnextb, _⟩ := h'.next_prev list List.mem_cons_self
    obtain rfl : y = b := Option.some.inj (hnext.symm.trans hnextb)
    obtain ⟨c, _, hnextc, _⟩ := h'.next_prev y hb
    rw [hnull] at hnextc
    cases hnextc

end Bio
