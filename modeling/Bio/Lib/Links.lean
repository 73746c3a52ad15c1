import Mathlib.Data.List.Chain
import Mathlib.Data.List.Nodup
import Mathlib.Logic.Function.Basic

/-!
# Intrusive lists

Nodes that carry their own links, in a ring that begins and ends at the node of the list. A node that is in
no list has null links. `IsRing l list items` says that the links are those of a list of the items.

* `append`, `remove` and the rules `IsRing.append` and `IsRing.remove`.
* Several lists have their links in one place: what is done to one changes nothing in another
  (`IsRing.init_other`, `IsRing.append_other`).
* The items are determined by the links (`IsRing.unique`).
-/

/-- The links of all nodes. -/
structure Links (α : Type*) where
  next : α → Option α
  prev : α → Option α

namespace Links

variable {α : Type*} [DecidableEq α]

def setNext (l : Links α) (a : α) (v : Option α) : Links α :=
  { l with next := Function.update l.next a v }

def setPrev (l : Links α) (a : α) (v : Option α) : Links α :=
  { l with prev := Function.update l.prev a v }

/-- The list becomes empty. -/
def init (l : Links α) (list : α) : Links α := (l.setNext list (some list)).setPrev list (some list)

/-- The item is put at the end of the list. -/
def append (l : Links α) (list item : α) : Links α :=
  match l.prev list with
  | some last =>
    (((l.setNext item (some list)).setPrev item (some last)).setNext last (some item)).setPrev list
      (some item)
  | none => l

/-- The item is taken out of the list that it is in. -/
def remove (l : Links α) (item : α) : Links α :=
  match l.next item, l.prev item with
  | some next, some prev =>
    (((l.setPrev next (some prev)).setNext prev (some next)).setNext item none).setPrev item none
  | _, _ => l

/-- The list has no items, or was never used. -/
def isEmpty (l : Links α) (list : α) : Bool := l.next list = some list ∨ l.next list = none

/-- Each node of the sequence points to the next one, and is pointed to by it. -/
def Joined (l : Links α) (nodes : List α) : Prop :=
  nodes.IsChain fun a b => l.next a = some b ∧ l.prev b = some a

/-- The links are those of a list with the items. -/
structure IsRing (l : Links α) (list : α) (items : List α) : Prop where
  joined : l.Joined (list :: items ++ [list])
  nodup : (list :: items).Nodup

variable {l l' : Links α} {list item a b : α} {items nodes : List α}

omit [DecidableEq α] in
/-- Only the forward links of all nodes but the last one and the backward links of all but the first one
matter. -/
theorem Joined.congr (h : l.Joined nodes) (hnext : ∀ a ∈ nodes.dropLast, l'.next a = l.next a)
    (hprev : ∀ b ∈ nodes.tail, l'.prev b = l.prev b) : l'.Joined nodes := by
  induction nodes with
  | nil => exact .nil
  | cons a nodes ih =>
    cases nodes with
    | nil => exact .singleton a
    | cons b nodes =>
      obtain ⟨⟨hab, hba⟩, hrest⟩ := List.isChain_cons_cons.mp h
      refine List.isChain_cons_cons.mpr ⟨⟨?_, ?_⟩, ih hrest (fun x hx => ?_) fun x hx => ?_⟩
      · rw [hnext a List.mem_cons_self, hab]
      · rw [hprev b List.mem_cons_self, hba]
      · exact hnext x (List.mem_cons_of_mem a hx)
      · exact hprev x (List.mem_cons_of_mem b hx)

theorem IsRing.init (l : Links α) (list : α) : (l.init list).IsRing list [] where
  joined := List.isChain_pair.mpr ⟨Function.update_self .., Function.update_self ..⟩
  nodup := List.nodup_singleton list

/-- What `append` writes. -/
theorem next_append (hlast : l.prev list = some a) (x : α) :
    (l.append list item).next x =
      if x = a then some item else if x = item then some list else l.next x := by
  simp only [append, hlast, setNext, setPrev, Function.update_apply]

theorem prev_append (hlast : l.prev list = some a) (x : α) :
    (l.append list item).prev x =
      if x = list then some item else if x = item then some a else l.prev x := by
  simp only [append, hlast, setNext, setPrev, Function.update_apply]

/-- What `remove` writes. -/
theorem next_remove (hnext : l.next item = some b) (hprev : l.prev item = some a) (x : α) :
    (l.remove item).next x = if x = item then none else if x = a then some b else l.next x := by
  simp only [remove, hnext, hprev, setNext, setPrev, Function.update_apply]

theorem prev_remove (hnext : l.next item = some b) (hprev : l.prev item = some a) (x : α) :
    (l.remove item).prev x = if x = item then none else if x = b then some a else l.prev x := by
  simp only [remove, hnext, hprev, setNext, setPrev, Function.update_apply]

omit [DecidableEq α] in
/-- The links of the nodes of a list are all that matters to it. -/
theorem IsRing.congr (h : l.IsRing list items) (hnext : ∀ a ∈ list :: items, l'.next a = l.next a)
    (hprev : ∀ a ∈ list :: items, l'.prev a = l.prev a) : l'.IsRing list items := by
  refine ⟨h.joined.congr (fun a ha => hnext a ?_) fun b hb => hprev b ?_, h.nodup⟩
  · rwa [List.dropLast_concat] at ha
  · rcases List.mem_append.mp (show b ∈ items ++ [list] from hb) with hb | hb
    · exact List.mem_cons_of_mem list hb
    · exact List.mem_singleton.mp hb ▸ List.mem_cons_self

/-- To make another list changes nothing in one. -/
theorem IsRing.init_other (h : l.IsRing list items) (ha : a ∉ list :: items) :
    (l.init a).IsRing list items := by
  have hne : ∀ x ∈ list :: items, x ≠ a := fun x hx heq => ha (heq ▸ hx)
  exact h.congr (fun x hx => Function.update_of_ne (hne x hx) ..)
    fun x hx => Function.update_of_ne (hne x hx) ..

omit [DecidableEq α] in
/-- Each node of a list points to a node of it that points back. -/
theorem IsRing.next_prev (h : l.IsRing list items) (ha : a ∈ list :: items) :
    ∃ b ∈ list :: items, l.next a = some b ∧ l.prev b = some a := by
  obtain ⟨front, back, hnodes⟩ := List.append_of_mem ha
  obtain ⟨b, rest, hback⟩ : ∃ b rest, back ++ [list] = b :: rest := List.exists_cons_of_ne_nil (by simp)
  have hjoined := h.joined
  rw [hnodes, List.append_assoc, List.cons_append, hback] at hjoined
  refine ⟨b, ?_, (List.isChain_append_cons_cons.mp hjoined).2.1⟩
  rcases List.mem_append.mp (hback ▸ List.mem_cons_self : b ∈ back ++ [list]) with hb | hb
  · exact hnodes ▸ List.mem_append_right front (List.mem_cons_of_mem a hb)
  · exact List.mem_singleton.mp hb ▸ List.mem_cons_self

omit [DecidableEq α] in
/-- Each node of a list is pointed to by a node of it. -/
theorem IsRing.prev_next (h : l.IsRing list items) (hb : b ∈ list :: items) :
    ∃ a ∈ list :: items, l.prev b = some a ∧ l.next a = some b := by
  have hlast : b ∈ items ++ [list] :=
    (List.mem_cons.mp hb).elim (fun heq => List.mem_append_right items (List.mem_singleton.mpr heq))
      (List.mem_append_left [list])
  obtain ⟨before, after, hnodes⟩ := List.append_of_mem hlast
  obtain ⟨front, a, hfront⟩ := List.eq_nil_or_concat' (list :: before) |>.resolve_left nofun
  have ha : a ∈ list :: before := hfront ▸ List.mem_append_right _ (List.mem_singleton_self a)
  have hjoined := h.joined
  rw [List.cons_append, hnodes, ← List.cons_append, hfront, List.append_assoc, List.singleton_append]
    at hjoined
  obtain ⟨hnext, hprev⟩ := (List.isChain_append_cons_cons.mp hjoined).2.1
  refine ⟨a, ?_, hprev, hnext⟩
  rcases List.mem_cons.mp ha with rfl | ha
  · exact List.mem_cons_self
  · rcases List.mem_append.mp (hnodes ▸ List.mem_append_left (b :: after) ha : a ∈ items ++ [list])
      with ha | ha
    · exact List.mem_cons_of_mem list ha
    · exact List.mem_singleton.mp ha ▸ List.mem_cons_self

/-- An item that is put into another list changes nothing in one. -/
theorem IsRing.append_other {list' : α} {items' : List α} (h : l.IsRing list items)
    (h' : l.IsRing list' items') (hdisjoint : ∀ x ∈ list :: items, x ∉ list' :: items')
    (hitem : item ∉ list :: items) : (l.append list' item).IsRing list items := by
  obtain ⟨last, hmem, hlast, _⟩ := h'.prev_next List.mem_cons_self
  refine h.congr (fun x hx => ?_) fun x hx => ?_
  · have hne : x ≠ last := fun heq => hdisjoint x hx (heq ▸ hmem)
    have hnot : x ≠ item := fun heq => hitem (heq ▸ hx)
    rw [next_append hlast, if_neg hne, if_neg hnot]
  · have hne : x ≠ list' := fun heq => hdisjoint x hx (heq ▸ List.mem_cons_self)
    have hnot : x ≠ item := fun heq => hitem (heq ▸ hx)
    rw [prev_append hlast, if_neg hne, if_neg hnot]

omit [DecidableEq α] in
/-- Where a loop over a list goes on: at the next item, or at the list again. -/
theorem Joined.next_eq {nodes : List α} (h : l.Joined (a :: nodes ++ [list])) :
    l.next a = (nodes ++ [list]).head? := by
  cases nodes with
  | nil => exact (List.isChain_pair.mp h).1
  | cons b nodes => exact (List.isChain_cons_cons.mp h).1.1

theorem IsRing.append (h : l.IsRing list items) (hitem : item ∉ list :: items) :
    (l.append list item).IsRing list (items ++ [item]) := by
  obtain ⟨front, last, hnodes⟩ := List.eq_nil_or_concat' (list :: items) |>.resolve_left nofun
  have hnodup := h.nodup
  have hjoined := h.joined
  rw [hnodes] at hnodup hitem hjoined
  rw [List.append_assoc, List.singleton_append] at hjoined
  obtain ⟨hfront, hback⟩ := List.isChain_split.mp hjoined
  have hlast : l.prev list = some last := (List.isChain_pair.mp hback).2
  have hlastnot : last ∉ front := fun hmem =>
    (List.nodup_append.mp hnodup).2.2 last hmem last (List.mem_singleton_self last) rfl
  have hlist : list ∈ front ++ [last] := hnodes ▸ List.mem_cons_self
  refine ⟨?_, ?_⟩
  · show (l.append list item).Joined (list :: (items ++ [item]) ++ [list])
    rw [show list :: (items ++ [item]) ++ [list] = front ++ last :: [item, list] by
      rw [← List.cons_append, hnodes]
      simp]
    refine List.isChain_split.mpr ⟨Joined.congr hfront (fun x hx => ?_) fun x hx => ?_, ?_⟩
    · rw [List.dropLast_concat] at hx
      have hne : x ≠ last := fun heq => hlastnot (heq ▸ hx)
      have hnot : x ≠ item := fun heq => hitem (heq ▸ List.mem_append_left _ hx)
      rw [next_append hlast, if_neg hne, if_neg hnot]
    · have hmem : x ∈ items := by
        rw [← hnodes] at hx
        exact hx
      have hne : x ≠ list := fun heq => (List.nodup_cons.mp h.nodup).1 (heq ▸ hmem)
      have hnot : x ≠ item := fun heq =>
        hitem (hnodes ▸ List.mem_cons_of_mem list (heq ▸ hmem))
      rw [prev_append hlast, if_neg hne, if_neg hnot]
    · have hnot : item ≠ list := fun heq => hitem (heq ▸ hlist)
      have hne : item ≠ last := fun heq => hitem (heq ▸ List.mem_append_right _ (List.mem_singleton_self _))
      refine List.isChain_cons_cons.mpr ⟨⟨?_, ?_⟩, List.isChain_pair.mpr ⟨?_, ?_⟩⟩
      · rw [next_append hlast, if_pos rfl]
      · rw [prev_append hlast, if_neg hnot, if_pos rfl]
      · rw [next_append hlast, if_neg hne, if_pos rfl]
      · rw [prev_append hlast, if_pos rfl]
  · rw [← List.cons_append, hnodes]
    refine List.nodup_append.mpr ⟨hnodup, List.nodup_singleton item, ?_⟩
    rintro x hx y hy rfl
    exact hitem (List.mem_singleton.mp hy ▸ hx)

/-- The neighbours of an item that is removed point to each other. -/
theorem Joined.remove {front back : List α} (h : l.Joined (front ++ a :: item :: b :: back))
    (hitem : item ∉ front ++ [a]) (hitem' : item ∉ b :: back) (ha : a ∉ front)
    (ha' : a ∉ (b :: back).dropLast) (hb : b ∉ (front ++ [a]).tail) (hb' : b ∉ back) :
    (l.remove item).Joined (front ++ a :: b :: back) := by
  obtain ⟨hfront, ⟨_, hprev⟩, hrest⟩ := List.isChain_append_cons_cons.mp h
  obtain ⟨⟨hnext, _⟩, hback⟩ := List.isChain_cons_cons.mp hrest
  have hne : ∀ x ∈ front ++ [a], x ≠ item := fun x hx heq => hitem (heq ▸ hx)
  have hne' : ∀ x ∈ b :: back, x ≠ item := fun x hx heq => hitem' (heq ▸ hx)
  refine List.isChain_append_cons_cons.mpr ⟨Joined.congr hfront (fun x hx => ?_) fun x hx => ?_,
    ⟨?_, ?_⟩, Joined.congr hback (fun x hx => ?_) fun x hx => ?_⟩
  · rw [List.dropLast_concat] at hx
    have hxa : x ≠ a := fun heq => ha (heq ▸ hx)
    rw [next_remove hnext hprev, if_neg (hne x (List.mem_append_left _ hx)), if_neg hxa]
  · have hxb : x ≠ b := fun heq => hb (heq ▸ hx)
    rw [prev_remove hnext hprev, if_neg (hne x (List.mem_of_mem_tail hx)), if_neg hxb]
  · rw [next_remove hnext hprev, if_neg (hne a (List.mem_append_right _ (List.mem_singleton_self a))),
      if_pos rfl]
  · rw [prev_remove hnext hprev, if_neg (hne' b List.mem_cons_self), if_pos rfl]
  · have hxa : x ≠ a := fun heq => ha' (heq ▸ hx)
    rw [next_remove hnext hprev, if_neg (hne' x ((List.dropLast_subset _) hx)), if_neg hxa]
  · have hmem : x ∈ back := hx
    have hxb : x ≠ b := fun heq => hb' (heq ▸ hmem)
    rw [prev_remove hnext hprev, if_neg (hne' x (List.mem_cons_of_mem b hmem)), if_neg hxb]

theorem IsRing.remove (h : l.IsRing list items) (hitem : item ∈ items) :
    (l.remove item).IsRing list (items.erase item) := by
  obtain ⟨before, after, rfl⟩ := List.append_of_mem hitem
  -- The neighbours: either may be the node of the list.
  obtain ⟨front, a, hfront⟩ := List.eq_nil_or_concat' (list :: before) |>.resolve_left nofun
  obtain ⟨b, back, hback⟩ : ∃ b back, after ++ [list] = b :: back :=
    List.exists_cons_of_ne_nil (by simp)
  have hnodes : list :: (before ++ item :: after) ++ [list] = front ++ a :: item :: b :: back := by
    rw [List.cons_append, List.append_assoc, List.cons_append, hback, ← List.cons_append, hfront]
    simp
  have hjoined := h.joined
  rw [hnodes] at hjoined
  obtain ⟨hlist, hnodup⟩ := List.nodup_cons.mp h.nodup
  obtain ⟨hnodupb, hnodupa, hdisjoint⟩ := List.nodup_append.mp hnodup
  obtain ⟨hitema, hnodupafter⟩ := List.nodup_cons.mp hnodupa
  have hitemb : item ∉ before := fun hmem => hdisjoint item hmem item List.mem_cons_self rfl
  have hitemlist : item ≠ list := fun heq => hlist (heq ▸ hitem)
  have hlistb : list ∉ before := fun hmem => hlist (List.mem_append_left _ hmem)
  have hlista : list ∉ after := fun hmem => hlist (List.mem_append_right _ (List.mem_cons_of_mem _ hmem))
  have hapart : ∀ x ∈ before, x ∉ after := fun x hx hx' =>
    hdisjoint x hx x (List.mem_cons_of_mem _ hx') rfl
  have hnodupfront : (front ++ [a]).Nodup := hfront ▸ List.nodup_cons.mpr ⟨hlistb, hnodupb⟩
  have hnodupback : (b :: back).Nodup := by
    rw [← hback]
    refine List.nodup_append.mpr ⟨hnodupafter, List.nodup_singleton list, ?_⟩
    rintro x hx y hy rfl
    exact hlista (List.mem_singleton.mp hy ▸ hx)
  have ha : a ∈ list :: before := hfront ▸ List.mem_append_right _ (List.mem_singleton_self a)
  have hb : b ∈ after ++ [list] := hback ▸ List.mem_cons_self
  have hremove := hjoined.remove ?_ ?_ ?_ ?_ ?_ (List.nodup_cons.mp hnodupback).1
  · refine ⟨?_, ?_⟩ <;> rw [List.erase_append_right _ hitemb, List.erase_cons_head]
    · rw [← List.cons_append, List.append_assoc, hback, hfront, List.append_assoc, List.singleton_append]
      exact hremove
    · have hsub : (before ++ after).Sublist (before ++ item :: after) :=
        (List.sublist_cons_self item after).append_left before
      exact h.nodup.sublist (hsub.cons_cons list)
  · rw [← hfront, List.mem_cons]
    exact fun hmem => hmem.elim hitemlist hitemb
  · rw [← hback, List.mem_append, List.mem_singleton]
    exact fun hmem => hmem.elim hitema hitemlist
  · exact fun hmem => (List.nodup_append.mp hnodupfront).2.2 a hmem a (List.mem_singleton_self a) rfl
  · rw [← hback, List.dropLast_concat]
    rcases List.mem_cons.mp ha with rfl | ha
    · exact hlista
    · exact hapart a ha
  · rw [← hfront]
    show b ∉ before
    rcases List.mem_append.mp hb with hb | hb
    · exact fun hmem => hapart b hmem hb
    · exact List.mem_singleton.mp hb ▸ hlistb

/-- An item that is taken out of another list changes nothing in one. -/
theorem IsRing.remove_other {list' : α} {items' : List α} (h : l.IsRing list items)
    (h' : l.IsRing list' items') (hdisjoint : ∀ x ∈ list :: items, x ∉ list' :: items')
    (hitem : item ∈ items') : (l.remove item).IsRing list items := by
  have hmem : item ∈ list' :: items' := List.mem_cons_of_mem list' hitem
  obtain ⟨b, hb, hnext, _⟩ := h'.next_prev hmem
  obtain ⟨a, ha, hprev, _⟩ := h'.prev_next hmem
  have hne : ∀ x ∈ list :: items, ∀ y ∈ list' :: items', x ≠ y := fun x hx y hy heq =>
    hdisjoint x hx (heq ▸ hy)
  refine h.congr (fun x hx => ?_) fun x hx => ?_
  · rw [next_remove hnext hprev, if_neg (hne x hx item hmem), if_neg (hne x hx a ha)]
  · rw [prev_remove hnext hprev, if_neg (hne x hx item hmem), if_neg (hne x hx b hb)]

omit [DecidableEq α] in
/-- Two sequences of nodes that begin at the same node and end where the list does are the same. -/
theorem Joined.unique {items' : List α} (h : l.Joined (a :: items ++ [list]))
    (h' : l.Joined (a :: items' ++ [list])) (hlist : list ∉ items) (hlist' : list ∉ items') :
    items = items' := by
  induction items generalizing a items' with
  | nil =>
    cases items' with
    | nil => rfl
    | cons x items' =>
      have hnext := (List.isChain_pair.mp h).1
      have hnext' := (List.isChain_cons_cons.mp h').1.1
      obtain rfl := Option.some.inj (hnext.symm.trans hnext')
      exact absurd List.mem_cons_self hlist'
  | cons y items ih =>
    have hnext := (List.isChain_cons_cons.mp h).1.1
    cases items' with
    | nil =>
      have hnext' := (List.isChain_pair.mp h').1
      obtain rfl := Option.some.inj (hnext.symm.trans hnext')
      exact absurd List.mem_cons_self hlist
    | cons x items' =>
      have hnext' := (List.isChain_cons_cons.mp h').1.1
      obtain rfl := Option.some.inj (hnext.symm.trans hnext')
      rw [ih (List.isChain_cons_cons.mp h).2 (List.isChain_cons_cons.mp h').2
        (fun hmem => hlist (List.mem_cons_of_mem y hmem))
        fun hmem => hlist' (List.mem_cons_of_mem y hmem)]

omit [DecidableEq α] in
theorem IsRing.unique {items' : List α} (h : l.IsRing list items) (h' : l.IsRing list items') :
    items = items' :=
  h.joined.unique h'.joined (List.nodup_cons.mp h.nodup).1 (List.nodup_cons.mp h'.nodup).1

theorem IsRing.isEmpty_iff (h : l.IsRing list items) : l.isEmpty list = true ↔ items = [] := by
  rw [isEmpty, decide_eq_true_iff]
  cases items with
  | nil => exact iff_of_true (.inl (List.isChain_pair.mp h.joined).1) rfl
  | cons x items =>
    have hnext : l.next list = some x := (List.isChain_cons_cons.mp h.joined).1.1
    refine iff_of_false ?_ nofun
    rw [hnext]
    rintro (heq | heq)
    · exact (List.nodup_cons.mp h.nodup).1 (Option.some.inj heq ▸ List.mem_cons_self)
    · cases heq

omit [DecidableEq α] in
theorem IsRing.next_list {x : α} (h : l.IsRing list (x :: items)) : l.next list = some x :=
  (List.isChain_cons_cons.mp h.joined).1.1

end Links
