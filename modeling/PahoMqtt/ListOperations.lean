import PahoMqtt.LinkedList

/-!
# Operations on linked lists

The functions of LinkedList.c that the queues of the library are made of, with
the `current` element that a search leaves behind, against a sequence of
elements.  What `free` leaves in the memory of an element may be anything.
-/

namespace PahoMqtt

/-- `List`: the elements, and the one that a search has found last. -/
structure SearchedList (α : Type) extends LinkedList α where
  current : Option Addr

/-- What a function returns. -/
inductive Returned (α : Type) where
  | element (found : Option Addr)
  | code (rc : Int)
  | content (content : Option α)
  | nothing

/-- What a function returns, and the contents that it frees. -/
structure ListOutcome (α : Type) where
  returned : Returned α
  freed : List α

namespace SearchedList

variable {α : Type}

/-- `ListZero` -/
def zero (element : Addr → ListElement α) : SearchedList α :=
  { LinkedList.zero element with current := none }

/-- `free` of an element, which leaves anything in its memory. -/
def freeElement (left : Addr → ListElement α) (aList : LinkedList α) (addr : Addr) :
    LinkedList α :=
  aList.write addr (left addr)

/-! ### Inserting -/

/-- `ListAppend`; `newel` is what `malloc` returns. -/
def ListAppend (aList : SearchedList α) (content : α) (newel : Option Addr) :
    Option Addr × SearchedList α :=
  match newel with
  | none => (none, aList)
  | some addr =>
      (newel, { aList with toLinkedList := aList.ListAppendNoMalloc content addr })

/-- `ListInsert` -/
def ListInsert (aList : SearchedList α) (content : α) (newel index : Option Addr) :
    Option Addr × SearchedList α :=
  match newel with
  | none => (none, aList)
  | some addr =>
      (newel, { aList with toLinkedList := aList.toLinkedList.ListInsert content addr index })

/-! ### Finding -/

/-- The loop of `ListFindItem`, which is not known to end. -/
def findLoop (aList : LinkedList α) (found : α → Bool) :
    (fuel : Nat) → (pos : Option Addr) → Option (Option Addr)
  | 0, _ => none
  | fuel + 1, pos =>
      match aList.ListNextElement pos with
      | none => some none
      | some addr =>
          if found (aList.element addr).content then some (some addr)
          else findLoop aList found fuel (some addr)

/-- The part of `ListFindItem` that goes through the list. -/
def search (aList : SearchedList α) (found : α → Bool) : Option (Option Addr × SearchedList α) :=
  match findLoop aList.toLinkedList found (aList.count + 1) none with
  | none => none
  | some none => some (none, aList)
  | some (some addr) => some (some addr, { aList with current := some addr })

/-! ### Removing -/

/-- The part of `ListUnlink` behind the search, with the element that was current before it. -/
def unlinkCurrent (left : Addr → ListElement α) (aList : SearchedList α) (saved : Option Addr)
    (addr : Addr) (freeContent : Bool) : ListOutcome α × SearchedList α :=
  let linked := aList.setNext (aList.element addr).prev (aList.element addr).next
  let linked := linked.setPrev (linked.element addr).next (linked.element addr).prev
  let next := (linked.element addr).next
  (⟨.code 1, if freeContent then [(linked.element addr).content] else []⟩,
    { freeElement left linked addr with
      count := aList.count - 1
      current := if saved = some addr then next else saved })

/-- The assignments by which `ListDetachHead` takes out the first element. -/
def unlinkFirst (aList : LinkedList α) (first : Addr) : LinkedList α :=
  let aList := if aList.last = some first then { aList with last := none } else aList
  let aList := { aList with first := (aList.element first).next }
  if aList.first = none then aList else aList.setPrev aList.first none

/-- `ListDetachHead` -/
def ListDetachHead (left : Addr → ListElement α) (aList : SearchedList α) :
    Option (Option α × SearchedList α) :=
  if aList.count > 0 then
    match aList.first with
    | none => none
    | some first =>
        some (some (aList.element first).content,
          { freeElement left (unlinkFirst aList.toLinkedList first) first with
            count := aList.count - 1
            current :=
              if aList.current = some first then (aList.element first).next else aList.current })
  else some (none, aList)

/-- `ListRemoveHead`; what it returns is 0 whether or not there was a head. -/
def ListRemoveHead (left : Addr → ListElement α) (aList : SearchedList α) :
    Option (ListOutcome α × SearchedList α) :=
  (aList.ListDetachHead left).map fun (content, aList) => (⟨.code 0, content.toList⟩, aList)

/-- The assignments by which `ListPopTail` takes out the last element. -/
def unlinkLast (aList : LinkedList α) (last : Addr) : LinkedList α :=
  let aList := if aList.first = some last then { aList with first := none } else aList
  let aList := { aList with last := (aList.element last).prev }
  if aList.last = none then aList else aList.setNext aList.last none

/-- `ListPopTail` -/
def ListPopTail (left : Addr → ListElement α) (aList : SearchedList α) :
    Option (Option α × SearchedList α) :=
  if aList.count > 0 then
    match aList.last with
    | none => none
    | some last =>
        some (some (aList.element last).content,
          { freeElement left (unlinkLast aList.toLinkedList last) last with
            count := aList.count - 1
            current :=
              if aList.current = some last then (aList.element last).prev else aList.current })
  else some (none, aList)

/-- The loop of `ListEmpty`, which is not known to end. -/
def emptyLoop (left : Addr → ListElement α) :
    (fuel : Nat) → LinkedList α → Option (List α × LinkedList α)
  | 0, _ => none
  | fuel + 1, aList =>
      match aList.first with
      | none => some ([], aList)
      | some first =>
          match emptyLoop left fuel
            (freeElement left { aList with first := (aList.element first).next } first) with
          | none => none
          | some (freed, emptied) => some ((aList.element first).content :: freed, emptied)

/-- `ListEmpty` -/
def ListEmpty (left : Addr → ListElement α) (aList : SearchedList α) :
    Option (ListOutcome α × SearchedList α) :=
  match emptyLoop left (aList.count + 1) aList.toLinkedList with
  | none => none
  | some (freed, emptied) =>
      some (⟨.nothing, freed⟩,
        { emptied with count := 0, first := none, last := none, current := none })

/-! ### Comparing contents -/

section Comparing

variable [DecidableEq α]

/-- The comparison of `ListFindItem`; without a callback the pointers are compared. -/
def compares (callback : Option (α → α → Bool)) (content : α) (found : α) : Bool :=
  match callback with
  | none => found = content
  | some callback => callback found content

/-- `ListFindItem`; it looks at the current element first. -/
def ListFindItem (aList : SearchedList α) (content : α) (callback : Option (α → α → Bool)) :
    Option (Option Addr × SearchedList α) :=
  match aList.current with
  | none => aList.search (compares callback content)
  | some addr =>
      if compares callback content (aList.element addr).content then some (some addr, aList)
      else aList.search (compares callback content)

/-- `ListFind` -/
def ListFind (aList : SearchedList α) (content : α) : Option (Option Addr × SearchedList α) :=
  aList.ListFindItem content none

/-- `ListUnlink` -/
def ListUnlink (left : Addr → ListElement α) (aList : SearchedList α) (content : α)
    (callback : Option (α → α → Bool)) (freeContent : Bool) :
    Option (ListOutcome α × SearchedList α) :=
  match aList.ListFindItem content callback with
  | none => none
  | some (none, searched) => some (⟨.code 0, []⟩, searched)
  | some (some _, searched) =>
      match searched.current with
      | none => none
      | some addr => some (unlinkCurrent left searched aList.current addr freeContent)

/-- `ListDetach` -/
def ListDetach (left : Addr → ListElement α) (aList : SearchedList α) (content : α) :
    Option (ListOutcome α × SearchedList α) :=
  aList.ListUnlink left content none false

/-- `ListRemove` -/
def ListRemove (left : Addr → ListElement α) (aList : SearchedList α) (content : α) :
    Option (ListOutcome α × SearchedList α) :=
  aList.ListUnlink left content none true

/-- `ListDetachItem` -/
def ListDetachItem (left : Addr → ListElement α) (aList : SearchedList α) (content : α)
    (callback : Option (α → α → Bool)) : Option (ListOutcome α × SearchedList α) :=
  aList.ListUnlink left content callback false

/-- `ListRemoveItem` -/
def ListRemoveItem (left : Addr → ListElement α) (aList : SearchedList α) (content : α)
    (callback : Option (α → α → Bool)) : Option (ListOutcome α × SearchedList α) :=
  aList.ListUnlink left content callback true

end Comparing

end SearchedList

/-! ### The memory -/

namespace LinkedList.Represents

variable {α : Type} {aList : LinkedList α} {xs ys : List (Addr × α)} {x : Addr × α}

/-- The pointers of an element lead to the ends of what is before and behind it. -/
theorem neighbours
    (h : aList.Represents (xs ++ x :: ys)) :
    (aList.element x.1).prev = endOf xs ∧ (aList.element x.1).next = startOf ys := by
  have hsplit : aList.Represents ((xs ++ [x]) ++ ys) := by
    rwa [List.append_assoc]
  refine ⟨h.seam.2, ?_⟩
  have hnext := hsplit.seam.1
  rw [endOf, List.getLast?_concat] at hnext
  exact hnext

theorem not_mem_removed
    (h : aList.Represents (xs ++ x :: ys)) :
    x.1 ∉ (xs ++ ys).map Prod.fst := by
  have hnodup := h.nodup
  rw [List.map_append, List.map_cons, List.nodup_middle] at hnodup
  rw [List.map_append]
  exact (List.nodup_cons.mp hnodup).1

theorem ne_ends
    (h : aList.Represents (xs ++ x :: ys)) :
    some x.1 ≠ endOf xs ∧ some x.1 ≠ startOf ys := by
  have hnot := h.not_mem_removed
  rw [List.map_append, List.mem_append, not_or] at hnot
  refine ⟨?_, ?_⟩
  · intro heq
    exact hnot.1 (mem_of_endOf heq.symm)
  · intro heq
    exact hnot.2 (mem_of_startOf heq.symm)

/-- Memory that the list does not own may be written. -/
theorem write_of_notMem
    {elements : List (Addr × α)}
    (h : aList.Represents elements)
    {addr : Addr}
    (haddr : addr ∉ elements.map Prod.fst)
    (e : ListElement α) :
    (aList.write addr e).Represents elements := by
  have hne : ∀ pos ∈ (none : Option Addr) :: elements.map (fun e => some e.1), pos ≠ some addr := by
    rintro pos hpos rfl
    rcases List.mem_cons.mp hpos with hnone | hmem
    · cases hnone
    · obtain ⟨e, he, hsame⟩ := List.mem_map.mp hmem
      cases hsame
      exact haddr (List.mem_map_of_mem he)
  refine ⟨h.ring.congr ?_ ?_, h.nodup, ?_, h.count⟩
  · intro pos hpos
    rw [next_write]
    exact Function.update_of_ne (hne pos hpos) _ _
  · intro pos hpos
    rw [prev_write]
    exact Function.update_of_ne (hne pos hpos) _ _
  · intro e' he'
    have hother : e'.1 ≠ addr := by
      rintro rfl
      exact haddr (List.mem_map_of_mem he')
    have hsame : (aList.write addr e).element e'.1 = aList.element e'.1 :=
      Function.update_of_ne hother _ _
    rw [hsame]
    exact h.content e' he'

/-- An element is out of the list when its neighbours are linked, and may then be freed. -/
theorem removed
    (h : aList.Represents (xs ++ x :: ys))
    {linked : LinkedList α}
    (hnext : linked.ListNextElement =
      Function.update aList.ListNextElement (endOf xs) (startOf ys))
    (hprev : linked.ListPrevElement =
      Function.update aList.ListPrevElement (startOf ys) (endOf xs))
    (hcontent : ∀ addr, (linked.element addr).content = (aList.element addr).content)
    (left : Addr → ListElement α) :
    LinkedList.Represents { SearchedList.freeElement left linked x.1 with count := aList.count - 1 }
      (xs ++ ys) := by
  have hring := h.ring
  rw [List.map_append, List.map_cons] at hring
  have hnodup := ring_nodup h.nodup
  rw [List.map_append, List.map_cons] at hnodup
  have hremoved := hring.remove hnodup
  rw [getLastD_eq, headD_eq, ← hnext, ← hprev, ← List.map_append] at hremoved
  have hout : LinkedList.Represents { linked with count := aList.count - 1 } (xs ++ ys) := by
    refine ⟨?_, ?_, ?_, ?_⟩
    · rw [next_count, prev_count]
      exact hremoved
    · refine h.nodup.sublist (List.Sublist.map _ ?_)
      exact (List.Sublist.refl xs).append (List.sublist_cons_self x ys)
    · intro e he
      have hmem : e ∈ xs ++ x :: ys := by
        rcases List.mem_append.mp he with hxs | hys
        · exact List.mem_append_left _ hxs
        · exact List.mem_append_right _ (List.mem_cons_of_mem x hys)
      exact (hcontent e.1).trans (h.content e hmem)
    · have hcount := h.count
      rw [List.length_append, List.length_cons] at hcount
      rw [List.length_append]
      change aList.count - 1 = _
      omega
  exact hout.write_of_notMem h.not_mem_removed (left x.1)

/-! ### The chains -/

/-- The elements as they are in the memory. -/
def cells (aList : LinkedList α) (elements : List (Addr × α)) : List (Addr × ListElement α) :=
  elements.map fun e => (e.1, aList.element e.1)

theorem cells_eq
    (elements : List (Addr × α)) :
    cells aList elements = (elements.map Prod.fst).map fun addr => (addr, aList.element addr) := by
  rw [cells, List.map_map]
  rfl

theorem cells_content
    {elements : List (Addr × α)}
    (h : aList.Represents elements) :
    (cells aList elements).map (fun cell => (cell.1, cell.2.content)) = elements := by
  rw [cells, List.map_map]
  refine (List.map_congr_left fun e he => ?_).trans (List.map_id elements)
  change (e.1, (aList.element e.1).content) = e
  rw [h.content e he]

/-- From `first` on the elements are found along `next`. -/
theorem forward
    {elements : List (Addr × α)}
    (h : aList.Represents elements) :
    Lib.Chain (fun addr => some (aList.element addr)) ListElement.next aList.first
      (cells aList elements) := by
  have hring := h.ring
  have hmap : elements.map (fun e => some e.1) = (elements.map Prod.fst).map some := by
    rw [List.map_map]
    rfl
  rw [hmap] at hring
  rw [cells_eq]
  exact hring.chain aList.element (fun _ => rfl) (fun _ => rfl)

/-- From `last` on they are found along `prev`, in the reverse order. -/
theorem backward
    {elements : List (Addr × α)}
    (h : aList.Represents elements) :
    Lib.Chain (fun addr => some (aList.element addr)) ListElement.prev aList.last
      (cells aList elements).reverse := by
  have hring := h.ring.reverse
  have hmap : (elements.map fun e => some e.1).reverse = (elements.map Prod.fst).reverse.map some := by
    rw [← List.map_reverse, ← List.map_reverse, List.map_map]
    rfl
  rw [hmap] at hring
  rw [cells_eq, ← List.map_reverse]
  exact hring.chain aList.element (fun _ => rfl) (fun _ => rfl)

end LinkedList.Represents

/-! ### What the functions do to a sequence -/

namespace SearchedList

open LinkedList.Represents

variable {α : Type}

/-- The list consists of these elements, and `current` is NULL or one of them. -/
structure Refines (aList : SearchedList α) (elements : List (Addr × α)) : Prop where
  represents : aList.toLinkedList.Represents elements
  current : ∀ addr, aList.current = some addr → addr ∈ elements.map Prod.fst

/-- A search has found a matching element, or there is none. -/
def Found (found : α → Bool) (elements : List (Addr × α)) : Option Addr → Prop
  | none => ∀ e ∈ elements, found e.2 = false
  | some addr => ∃ e ∈ elements, e.1 = addr ∧ found e.2 = true

/-- One matching element was taken out, or there is none and nothing has changed. -/
def Unlinked (found : α → Bool) (freeContent : Bool) (elements : List (Addr × α))
    (outcome : ListOutcome α) (elements' : List (Addr × α)) : Prop :=
  (∃ xs x ys, elements = xs ++ x :: ys ∧ elements' = xs ++ ys ∧ found x.2 = true ∧
    outcome = ⟨.code 1, if freeContent then [x.2] else []⟩) ∨
  ((∀ e ∈ elements, found e.2 = false) ∧ elements' = elements ∧ outcome = ⟨.code 0, []⟩)

theorem refines_zero
    (element : Addr → ListElement α) :
    (zero element).Refines [] where
  represents := LinkedList.represents_zero element
  current := by
    intro addr h
    cases h

/-- The loop of a search ends at the first element that matches. -/
theorem findLoop_eq
    {aList : LinkedList α} {xs ys : List (Addr × α)}
    (h : aList.Represents (xs ++ ys))
    (found : α → Bool) {fuel : Nat}
    (hfuel : ys.length < fuel) :
    findLoop aList found fuel (endOf xs) =
      some ((ys.find? fun e => found e.2).map Prod.fst) := by
  induction ys generalizing xs fuel with
  | nil =>
      obtain ⟨fuel, rfl⟩ : ∃ k, fuel = k + 1 := Nat.exists_eq_add_of_lt hfuel |>.imp (by simp)
      rw [findLoop, h.seam.1]
      rfl
  | cons y ys ih =>
      obtain ⟨fuel, rfl⟩ : ∃ k, fuel = k + 1 := ⟨fuel - 1, by omega⟩
      have hsplit : aList.Represents ((xs ++ [y]) ++ ys) := by
        rwa [List.append_assoc]
      have hcontent := h.content y (List.mem_append_right xs List.mem_cons_self)
      have hnext := ih hsplit (Nat.lt_of_succ_lt_succ hfuel)
      rw [endOf, List.getLast?_concat] at hnext
      rw [findLoop, h.seam.1]
      change (if found (aList.element y.1).content then some (some y.1)
        else findLoop aList found fuel (some y.1)) = _
      rw [hcontent, List.find?_cons]
      cases hfound : found y.2 with
      | true => rfl
      | false => exact hnext

/-- A search leaves the elements alone, and what it has found is then current. -/
theorem search_spec
    {aList : SearchedList α} {elements : List (Addr × α)}
    (h : aList.Refines elements)
    (found : α → Bool) :
    ∃ result searched, aList.search found = some (result, searched) ∧
      Found found elements result ∧ searched.Refines elements ∧
      searched.toLinkedList = aList.toLinkedList ∧
      match result with
      | none => searched = aList
      | some addr => searched.current = some addr := by
  have hloop := @findLoop_eq _ aList.toLinkedList [] elements h.represents found (aList.count + 1)
    (by rw [h.represents.count]; exact Nat.lt_succ_self _)
  unfold search
  change findLoop aList.toLinkedList found (aList.count + 1) none = _ at hloop
  rw [hloop]
  cases hfind : elements.find? fun e => found e.2 with
  | none =>
      refine ⟨none, aList, rfl, ?_, h, rfl, rfl⟩
      intro e he
      simpa using List.find?_eq_none.mp hfind e he
  | some e =>
      have hmem := List.mem_of_find?_eq_some hfind
      have hfound := List.find?_some hfind
      refine ⟨some e.1, _, rfl, ⟨e, hmem, rfl, hfound⟩, ⟨h.represents, ?_⟩, rfl, rfl⟩
      rintro addr ⟨⟩
      exact List.mem_map_of_mem hmem

theorem ListFindItem_spec
    [DecidableEq α] {aList : SearchedList α} {elements : List (Addr × α)}
    (h : aList.Refines elements)
    (content : α) (callback : Option (α → α → Bool)) :
    ∃ result searched, aList.ListFindItem content callback = some (result, searched) ∧
      Found (compares callback content) elements result ∧ searched.Refines elements ∧
      searched.toLinkedList = aList.toLinkedList ∧
      match result with
      | none => searched = aList
      | some addr => searched.current = some addr := by
  unfold ListFindItem
  cases hcurrent : aList.current with
  | none =>
      exact search_spec h _
  | some addr =>
      dsimp only
      split
      next hfound =>
        obtain ⟨e, he, rfl⟩ := List.mem_map.mp (h.current addr hcurrent)
        rw [h.represents.content e he] at hfound
        exact ⟨_, _, rfl, ⟨e, he, rfl, hfound⟩, h, rfl, hcurrent⟩
      · exact search_spec h _

/-- What `unlinkCurrent` does to the element that a search has found. -/
theorem unlinkCurrent_spec
    {aList : SearchedList α} {xs ys : List (Addr × α)} {x : Addr × α} {saved : Option Addr}
    (h : aList.toLinkedList.Represents (xs ++ x :: ys))
    (hsaved : ∀ addr, saved = some addr → addr ∈ (xs ++ x :: ys).map Prod.fst)
    (left : Addr → ListElement α) (freeContent : Bool) :
    (unlinkCurrent left aList saved x.1 freeContent).1 =
        ⟨.code 1, if freeContent then [x.2] else []⟩ ∧
      (unlinkCurrent left aList saved x.1 freeContent).2.Refines (xs ++ ys) := by
  obtain ⟨hprev, hnext⟩ := h.neighbours
  obtain ⟨hleft, hright⟩ := h.ne_ends
  have hcontent := h.content x (List.mem_append_right xs List.mem_cons_self)
  -- the fields of the element itself are not written
  have hsame : ((aList.setNext (endOf xs) (startOf ys)).element x.1).next = startOf ys ∧
      ((aList.setNext (endOf xs) (startOf ys)).element x.1).prev = endOf xs := by
    refine ⟨?_, ?_⟩
    · change (aList.setNext (endOf xs) (startOf ys)).ListNextElement (some x.1) = _
      rw [LinkedList.next_setNext, Function.update_of_ne hleft]
      exact hnext
    · change (aList.setNext (endOf xs) (startOf ys)).ListPrevElement (some x.1) = _
      rw [LinkedList.prev_setNext]
      exact hprev
  have hafter : (((aList.setNext (endOf xs) (startOf ys)).setPrev (startOf ys)
      (endOf xs)).element x.1).next = startOf ys := by
    change LinkedList.ListNextElement _ (some x.1) = _
    rw [LinkedList.next_setPrev]
    exact hsame.1
  unfold unlinkCurrent
  dsimp only
  rw [hprev, hnext, hsame.1, hsame.2, hafter]
  refine ⟨?_, ?_, ?_⟩
  · rw [LinkedList.content_setPrev, LinkedList.content_setNext, hcontent]
  · refine h.removed ?_ ?_ ?_ left
    · rw [LinkedList.next_setPrev, LinkedList.next_setNext]
    · rw [LinkedList.prev_setPrev, LinkedList.prev_setNext]
    · intro addr
      rw [LinkedList.content_setPrev, LinkedList.content_setNext]
  · intro addr haddr
    change (if saved = some x.1 then startOf ys else saved) = some addr at haddr
    rw [List.map_append, List.mem_append]
    split at haddr
    · exact Or.inr (mem_of_startOf haddr)
    next hother =>
      have hmem := hsaved addr haddr
      rw [List.map_append, List.map_cons, List.mem_append, List.mem_cons] at hmem
      rcases hmem with hxs | rfl | hys
      · exact Or.inl hxs
      · exact absurd haddr hother
      · exact Or.inr hys

theorem ListUnlink_spec
    [DecidableEq α] {aList : SearchedList α} {elements : List (Addr × α)}
    (h : aList.Refines elements)
    (left : Addr → ListElement α) (content : α) (callback : Option (α → α → Bool))
    (freeContent : Bool) :
    ∃ outcome aList' elements',
      aList.ListUnlink left content callback freeContent = some (outcome, aList') ∧
      Unlinked (compares callback content) freeContent elements outcome elements' ∧
      aList'.Refines elements' ∧ (outcome.returned = .code 0 → aList' = aList) := by
  obtain ⟨result, searched, hfind, hfound, hrefines, hsame, hcurrent⟩ :=
    ListFindItem_spec h content callback
  unfold ListUnlink
  rw [hfind]
  cases result with
  | none =>
      exact ⟨_, searched, elements, rfl, .inr ⟨hfound, rfl, rfl⟩, hrefines, fun _ => hcurrent⟩
  | some addr =>
      obtain ⟨e, he, rfl, hmatches⟩ := hfound
      obtain ⟨xs, ys, rfl⟩ := List.append_of_mem he
      obtain ⟨houtcome, hremoved⟩ :=
        unlinkCurrent_spec hrefines.represents h.current left freeContent
      dsimp only at hcurrent ⊢
      rw [hcurrent]
      refine ⟨_, _, xs ++ ys, rfl, .inl ⟨xs, e, ys, rfl, rfl, hmatches, houtcome⟩, hremoved, ?_⟩
      intro hzero
      have hone := congrArg ListOutcome.returned houtcome
      cases hone.symm.trans hzero

theorem ListInsert_spec
    {aList : SearchedList α} {xs ys : List (Addr × α)}
    (h : aList.Refines (xs ++ ys))
    (content : α) {newel : Addr}
    (hnew : newel ∉ (xs ++ ys).map Prod.fst) :
    (aList.ListInsert content (some newel) (startOf ys)).2.Refines
      (xs ++ (newel, content) :: ys) := by
  refine ⟨h.represents.listInsert content hnew, ?_⟩
  intro addr haddr
  have hmem := h.current addr haddr
  rw [List.map_append, List.mem_append] at hmem
  rw [List.map_append, List.map_cons, List.mem_append, List.mem_cons]
  rcases hmem with hxs | hys
  · exact Or.inl hxs
  · exact Or.inr (Or.inr hys)

theorem unlinkFirst_links
    {aList : LinkedList α} {ys : List (Addr × α)} {x : Addr × α}
    (h : aList.Represents (x :: ys)) :
    (unlinkFirst aList x.1).ListNextElement =
        Function.update aList.ListNextElement none (startOf ys) ∧
      (unlinkFirst aList x.1).ListPrevElement =
        Function.update aList.ListPrevElement (startOf ys) none ∧
      ∀ addr, ((unlinkFirst aList x.1).element addr).content = (aList.element addr).content := by
  have hlast := h.last_eq
  have hnext := (@neighbours _ aList [] ys x h).2
  cases ys with
  | nil =>
      have hunlink : unlinkFirst aList x.1 = (aList.setPrev none none).setNext none none := by
        have hlone : aList.last = some x.1 := hlast
        unfold unlinkFirst
        rw [if_pos hlone]
        dsimp only
        rw [hnext]
        rfl
      rw [hunlink, LinkedList.next_setNext, LinkedList.next_setPrev, LinkedList.prev_setNext,
        LinkedList.prev_setPrev]
      refine ⟨rfl, rfl, ?_⟩
      intro addr
      rw [LinkedList.content_setNext, LinkedList.content_setPrev]
  | cons y ys =>
      have hother : aList.last ≠ some x.1 := by
        intro heq
        rw [hlast, endOf, List.getLast?_cons_cons] at heq
        exact (List.nodup_cons.mp h.nodup).1 (mem_of_endOf heq)
      have hunlink : unlinkFirst aList x.1 =
          (aList.setNext none (some y.1)).setPrev (some y.1) none := by
        unfold unlinkFirst
        rw [if_neg hother]
        dsimp only
        rw [hnext]
        rfl
      rw [hunlink, LinkedList.next_setPrev, LinkedList.next_setNext, LinkedList.prev_setPrev,
        LinkedList.prev_setNext]
      refine ⟨rfl, rfl, ?_⟩
      intro addr
      rw [LinkedList.content_setPrev, LinkedList.content_setNext]

/-- Without its first element a list is what is behind it. -/
theorem ListDetachHead_spec
    {aList : SearchedList α} {elements : List (Addr × α)}
    (h : aList.Refines elements)
    (left : Addr → ListElement α) :
    ∃ aList', aList.ListDetachHead left = some (elements.head?.map Prod.snd, aList') ∧
      aList'.Refines elements.tail := by
  have hcount := h.represents.count
  have hfirst := h.represents.first_eq
  unfold ListDetachHead
  cases elements with
  | nil =>
      rw [if_neg (by rw [hcount]; exact Nat.lt_irrefl 0)]
      exact ⟨aList, rfl, h⟩
  | cons x ys =>
      have hrep : aList.toLinkedList.Represents ([] ++ x :: ys) := h.represents
      have hcontent := h.represents.content x List.mem_cons_self
      obtain ⟨hnext, hprev, hsame⟩ := unlinkFirst_links h.represents
      rw [if_pos (by rw [hcount]; exact Nat.succ_pos _), hfirst]
      change ∃ aList', some (some (aList.element x.1).content, _) = some (some x.2, aList') ∧ _
      rw [hcontent]
      refine ⟨_, rfl, hrep.removed hnext hprev hsame left, ?_⟩
      intro addr haddr
      change (if aList.current = some x.1 then (aList.element x.1).next else aList.current) =
        some addr at haddr
      rw [hrep.neighbours.2] at haddr
      split at haddr
      · exact mem_of_startOf haddr
      next hother =>
        rcases List.mem_cons.mp (h.current addr haddr) with rfl | hmem
        · exact absurd haddr hother
        · exact hmem

theorem unlinkLast_links
    {aList : LinkedList α} {xs : List (Addr × α)} {x : Addr × α}
    (h : aList.Represents (xs ++ [x])) :
    (unlinkLast aList x.1).ListNextElement =
        Function.update aList.ListNextElement (endOf xs) none ∧
      (unlinkLast aList x.1).ListPrevElement =
        Function.update aList.ListPrevElement none (endOf xs) ∧
      ∀ addr, ((unlinkLast aList x.1).element addr).content = (aList.element addr).content := by
  have hfirst := h.first_eq
  have hprev := h.neighbours.1
  cases xs with
  | nil =>
      have hunlink : unlinkLast aList x.1 = (aList.setNext none none).setPrev none none := by
        have hlone : aList.first = some x.1 := hfirst
        unfold unlinkLast
        rw [if_pos hlone]
        dsimp only
        rw [hprev]
        rfl
      rw [hunlink, LinkedList.prev_setPrev, LinkedList.prev_setNext, LinkedList.next_setPrev,
        LinkedList.next_setNext]
      refine ⟨rfl, rfl, ?_⟩
      intro addr
      rw [LinkedList.content_setPrev, LinkedList.content_setNext]
  | cons y xs =>
      obtain ⟨l, hl⟩ := endOf_of_ne_nil (List.cons_ne_nil y xs)
      have hother : aList.first ≠ some x.1 := by
        intro heq
        rw [hfirst] at heq
        have hmem := h.not_mem_removed
        rw [List.append_nil] at hmem
        exact hmem (mem_of_startOf heq)
      have hunlink : unlinkLast aList x.1 = (aList.setPrev none (some l)).setNext (some l) none := by
        unfold unlinkLast
        rw [if_neg hother]
        dsimp only
        rw [hprev, hl]
        rfl
      rw [hunlink, LinkedList.next_setNext, LinkedList.next_setPrev, LinkedList.prev_setNext,
        LinkedList.prev_setPrev, hl]
      refine ⟨rfl, rfl, ?_⟩
      intro addr
      rw [LinkedList.content_setNext, LinkedList.content_setPrev]

/-- Without its last element a list is what is before it. -/
theorem ListPopTail_spec
    {aList : SearchedList α} {elements : List (Addr × α)}
    (h : aList.Refines elements)
    (left : Addr → ListElement α) :
    ∃ aList', aList.ListPopTail left = some (elements.getLast?.map Prod.snd, aList') ∧
      aList'.Refines elements.dropLast := by
  have hcount := h.represents.count
  have hlast := h.represents.last_eq
  unfold ListPopTail
  rcases List.eq_nil_or_concat elements with rfl | ⟨xs, x, rfl⟩
  · rw [if_neg (by rw [hcount]; exact Nat.lt_irrefl 0)]
    exact ⟨aList, rfl, h⟩
  · rw [List.concat_eq_append] at h hlast hcount ⊢
    have hcontent := h.represents.content x (List.mem_append_right xs List.mem_cons_self)
    obtain ⟨hnext, hprev, hsame⟩ := unlinkLast_links h.represents
    rw [endOf, List.getLast?_concat] at hlast
    rw [if_pos (by rw [hcount, List.length_append]; exact Nat.succ_pos _), hlast,
      List.getLast?_concat, List.dropLast_concat]
    change ∃ aList', some (some (aList.element x.1).content, _) = some (some x.2, aList') ∧ _
    rw [hcontent]
    have hremoved := h.represents.removed hnext hprev hsame left
    rw [List.append_nil] at hremoved
    refine ⟨_, rfl, hremoved, ?_⟩
    intro addr haddr
    change (if aList.current = some x.1 then (aList.element x.1).prev else aList.current) =
      some addr at haddr
    rw [h.represents.neighbours.1] at haddr
    split at haddr
    · exact mem_of_endOf haddr
    next hother =>
      have hmem := h.current addr haddr
      rw [List.map_append, List.mem_append, List.map_singleton, List.mem_singleton] at hmem
      rcases hmem with hmem | rfl
      · exact hmem
      · exact absurd haddr hother

/-- Along `next` every element is freed, and none of them is read after that. -/
theorem emptyLoop_eq
    {cells : List (Addr × ListElement α)} (left : Addr → ListElement α) {fuel : Nat}
    (hfuel : cells.length < fuel) :
    ∀ {aList : LinkedList α},
      Lib.Chain (fun addr => some (aList.element addr)) ListElement.next aList.first cells →
      ∃ emptied, emptyLoop left fuel aList =
        some (cells.map fun cell => cell.2.content, emptied) := by
  induction cells generalizing fuel with
  | nil =>
      intro aList h
      obtain ⟨fuel, rfl⟩ : ∃ k, fuel = k + 1 := ⟨fuel - 1, by omega⟩
      cases hfirst : aList.first with
      | none =>
          rw [emptyLoop, hfirst]
          exact ⟨aList, rfl⟩
      | some first =>
          rw [hfirst] at h
          cases h
  | cons cell cells ih =>
      intro aList h
      obtain ⟨fuel, rfl⟩ : ∃ k, fuel = k + 1 := ⟨fuel - 1, by omega⟩
      have hnodup := (List.nodup_cons.mp h.nodup).1
      cases hfirst : aList.first with
      | none =>
          rw [hfirst] at h
          cases h
      | some first =>
          rw [hfirst] at h
          cases h with
          | cons hcell hrest =>
              cases hcell
              obtain ⟨emptied, hempty⟩ := @ih fuel (Nat.lt_of_succ_lt_succ hfuel)
                (freeElement left { aList with first := (aList.element first).next } first) (by
                  refine hrest.congr fun addr haddr => ?_
                  have hne : addr ≠ first := by
                    rintro rfl
                    exact hnodup haddr
                  exact congrArg some (Function.update_of_ne hne _ _))
              rw [emptyLoop, hfirst]
              dsimp only
              rw [hempty]
              exact ⟨emptied, rfl⟩

theorem ListEmpty_spec
    {aList : SearchedList α} {elements : List (Addr × α)}
    (h : aList.Refines elements)
    (left : Addr → ListElement α) :
    ∃ aList', aList.ListEmpty left = some (⟨.nothing, elements.map Prod.snd⟩, aList') ∧
      aList'.Refines [] := by
  have hlength : (cells aList.toLinkedList elements).length < aList.count + 1 := by
    rw [cells, List.length_map, h.represents.count]
    exact Nat.lt_succ_self _
  obtain ⟨emptied, hempty⟩ := emptyLoop_eq left hlength h.represents.forward
  have hfreed : (cells aList.toLinkedList elements).map (fun cell => cell.2.content) =
      elements.map Prod.snd := by
    have hcontent := congrArg (List.map Prod.snd) h.represents.cells_content
    rwa [List.map_map] at hcontent
  rw [hfreed] at hempty
  unfold ListEmpty
  rw [hempty]
  exact ⟨_, rfl, refines_zero emptied.element⟩

end SearchedList
end PahoMqtt
