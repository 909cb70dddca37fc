import PahoMqtt.Lib.Runs
import PahoMqtt.ListOperations

/-!
# Runs of list operations

Any sequence of calls on a list that was empty at first is the same sequence of
calls on a functional sequence: the elements are linked in its order in both
directions, and the results agree.
-/

namespace PahoMqtt
namespace SearchedList

open LinkedList.Represents

variable {α : Type}

/-! ### Calls -/

/-- The calls of the functions; `newel` is what `malloc` returns. -/
inductive ListCall (α : Type) where
  | append (content : α) (newel : Option Addr)
  | insert (content : α) (newel index : Option Addr)
  | detach (content : α)
  | remove (content : α)
  | detachItem (content : α) (callback : Option (α → α → Bool))
  | removeItem (content : α) (callback : Option (α → α → Bool))
  | detachHead
  | removeHead
  | popTail
  | find (content : α)
  | findItem (content : α) (callback : Option (α → α → Bool))
  | empty

/-- The calls of `ListUnlink`. -/
def ListCall.Unlinks : ListCall α → Prop
  | .detach _ | .remove _ | .detachItem _ _ | .removeItem _ _ => True
  | _ => False

/-- The element is found along `next`. -/
def Owns (aList : SearchedList α) (addr : Addr) : Prop :=
  ∃ cells, Lib.Chain (fun addr => some (aList.element addr)) ListElement.next aList.first cells ∧
    addr ∈ cells.map Prod.fst

/-- `malloc` returns memory that is not in use, and the index is an element of the list. -/
def ListCall.Valid (aList : SearchedList α) : ListCall α → Prop
  | .append _ newel => ∀ addr, newel = some addr → ¬aList.Owns addr
  | .insert _ newel index =>
      (∀ addr, newel = some addr → ¬aList.Owns addr) ∧ ∀ addr, index = some addr → aList.Owns addr
  | _ => True

theorem owns_iff
    {aList : SearchedList α} {elements : List (Addr × α)}
    (h : aList.Refines elements)
    (addr : Addr) :
    aList.Owns addr ↔ addr ∈ elements.map Prod.fst := by
  have hchain := h.represents.forward
  have hfst : (cells aList.toLinkedList elements).map Prod.fst = elements.map Prod.fst := by
    rw [cells, List.map_map]
    rfl
  constructor
  · rintro ⟨cells', hcells', hmem⟩
    rwa [hchain.unique hcells', hfst] at hmem
  · intro hmem
    exact ⟨_, hchain, hfst ▸ hmem⟩

/-- The place of an index in the sequence; NULL is the end. -/
theorem exists_index
    {elements : List (Addr × α)} {index : Option Addr}
    (h : ∀ addr, index = some addr → addr ∈ elements.map Prod.fst) :
    ∃ xs ys, elements = xs ++ ys ∧ startOf ys = index := by
  cases index with
  | none =>
      exact ⟨elements, [], (List.append_nil elements).symm, rfl⟩
  | some addr =>
      obtain ⟨e, he, rfl⟩ := List.mem_map.mp (h addr rfl)
      obtain ⟨xs, ys, rfl⟩ := List.append_of_mem he
      exact ⟨xs, e :: ys, rfl, rfl⟩

/--
The elements are linked from `first` along `next` and from `last` along `prev`,
and counted; `current` is NULL or one of them.
-/
def Contains (aList : SearchedList α) (elements : List (Addr × α)) : Prop :=
  ∃ cells,
    Lib.Chain (fun addr => some (aList.element addr)) ListElement.next aList.first cells ∧
    Lib.Chain (fun addr => some (aList.element addr)) ListElement.prev aList.last cells.reverse ∧
    cells.map (fun cell => (cell.1, cell.2.content)) = elements ∧ aList.count = cells.length ∧
    ∀ addr, aList.current = some addr → addr ∈ cells.map Prod.fst

theorem Refines.contains
    {aList : SearchedList α} {elements : List (Addr × α)}
    (h : aList.Refines elements) :
    aList.Contains elements := by
  refine ⟨_, h.represents.forward, h.represents.backward, h.represents.cells_content, ?_, ?_⟩
  · rw [cells, List.length_map]
    exact h.represents.count
  · intro addr haddr
    rw [cells, List.map_map]
    exact h.current addr haddr

section Calls

variable [DecidableEq α]

/-- What a function returns; none if it does not end, or takes an element of NULL. -/
def ListCall.run (left : Addr → ListElement α) (aList : SearchedList α) :
    ListCall α → Option (ListOutcome α × SearchedList α)
  | .append content newel =>
      let (found, aList) := aList.ListAppend content newel
      some (⟨.element found, []⟩, aList)
  | .insert content newel index =>
      let (found, aList) := aList.ListInsert content newel index
      some (⟨.element found, []⟩, aList)
  | .detach content => aList.ListDetach left content
  | .remove content => aList.ListRemove left content
  | .detachItem content callback => aList.ListDetachItem left content callback
  | .removeItem content callback => aList.ListRemoveItem left content callback
  | .detachHead =>
      (aList.ListDetachHead left).map fun (content, aList) => (⟨.content content, []⟩, aList)
  | .removeHead => aList.ListRemoveHead left
  | .popTail =>
      (aList.ListPopTail left).map fun (content, aList) => (⟨.content content, []⟩, aList)
  | .find content =>
      (aList.ListFind content).map fun (found, aList) => (⟨.element found, []⟩, aList)
  | .findItem content callback =>
      (aList.ListFindItem content callback).map fun (found, aList) =>
        (⟨.element found, []⟩, aList)
  | .empty => aList.ListEmpty left

/-- The same on a sequence; a new element comes before the one at the index, or at the end. -/
def ListCall.Does (elements : List (Addr × α)) (outcome : ListOutcome α)
    (elements' : List (Addr × α)) : ListCall α → Prop
  | .append content newel =>
      outcome = ⟨.element newel, []⟩ ∧
        elements' = elements ++ (newel.map fun addr => (addr, content)).toList
  | .insert content newel index =>
      outcome = ⟨.element newel, []⟩ ∧ ∃ xs ys, elements = xs ++ ys ∧ startOf ys = index ∧
        elements' = xs ++ ((newel.map fun addr => (addr, content)).toList ++ ys)
  | .detach content => Unlinked (compares none content) false elements outcome elements'
  | .remove content => Unlinked (compares none content) true elements outcome elements'
  | .detachItem content callback =>
      Unlinked (compares callback content) false elements outcome elements'
  | .removeItem content callback =>
      Unlinked (compares callback content) true elements outcome elements'
  | .detachHead =>
      outcome = ⟨.content (elements.head?.map Prod.snd), []⟩ ∧ elements' = elements.tail
  | .removeHead =>
      outcome = ⟨.code 0, (elements.head?.map Prod.snd).toList⟩ ∧ elements' = elements.tail
  | .popTail =>
      outcome = ⟨.content (elements.getLast?.map Prod.snd), []⟩ ∧ elements' = elements.dropLast
  | .find content =>
      elements' = elements ∧ ∃ found, outcome = ⟨.element found, []⟩ ∧
        Found (compares none content) elements found
  | .findItem content callback =>
      elements' = elements ∧ ∃ found, outcome = ⟨.element found, []⟩ ∧
        Found (compares callback content) elements found
  | .empty => outcome = ⟨.nothing, elements.map Prod.snd⟩ ∧ elements' = []

/-- Every call ends, and does to the list what it does to the sequence. -/
theorem run_spec
    {aList : SearchedList α} {elements : List (Addr × α)}
    (h : aList.Refines elements)
    {call : ListCall α}
    (hvalid : call.Valid aList)
    (left : Addr → ListElement α) :
    ∃ outcome aList' elements', call.run left aList = some (outcome, aList') ∧
      call.Does elements outcome elements' ∧ aList'.Refines elements' ∧
      (call.Unlinks → outcome.returned = .code 0 → aList' = aList) := by
  have hunlink : ∀ content callback freeContent, ∃ outcome aList' elements',
      aList.ListUnlink left content callback freeContent = some (outcome, aList') ∧
      Unlinked (compares callback content) freeContent elements outcome elements' ∧
      aList'.Refines elements' ∧ (True → outcome.returned = .code 0 → aList' = aList) := by
    intro content callback freeContent
    obtain ⟨outcome, aList', elements', hrun, hdoes, hrefines, hsame⟩ :=
      ListUnlink_spec h left content callback freeContent
    exact ⟨outcome, aList', elements', hrun, hdoes, hrefines, fun _ => hsame⟩
  have hfind : ∀ content callback, ∃ found aList',
      aList.ListFindItem content callback = some (found, aList') ∧
      Found (compares callback content) elements found ∧ aList'.Refines elements := by
    intro content callback
    obtain ⟨found, aList', hfind, hfound, hrefines, _⟩ := ListFindItem_spec h content callback
    exact ⟨found, aList', hfind, hfound, hrefines⟩
  have hinsert : ∀ content newel xs ys, elements = xs ++ ys →
      (∀ addr, newel = some addr → ¬aList.Owns addr) →
      (aList.ListInsert content newel (startOf ys)).1 = newel ∧
      (aList.ListInsert content newel (startOf ys)).2.Refines
        (xs ++ ((newel.map fun addr => (addr, content)).toList ++ ys)) := by
    rintro content newel xs ys rfl hnew
    cases newel with
    | none => exact ⟨rfl, h⟩
    | some addr =>
        refine ⟨rfl, ListInsert_spec h content ?_⟩
        rw [← owns_iff h]
        exact hnew addr rfl
  cases call with
  | append content newel =>
      obtain ⟨hfound, hrefines⟩ :=
        hinsert content newel elements [] (List.append_nil elements).symm hvalid
      rw [List.append_nil] at hrefines
      have happend : aList.ListAppend content newel = aList.ListInsert content newel none := by
        cases newel <;> rfl
      refine ⟨⟨.element newel, []⟩, _, _, ?_, ⟨rfl, rfl⟩, hrefines, nofun⟩
      rw [ListCall.run, happend]
      exact congrArg (fun found => some (ListOutcome.mk (.element found) [], _)) hfound
  | insert content newel index =>
      obtain ⟨xs, ys, hsplit, rfl⟩ :=
        exists_index fun addr hindex => (owns_iff h addr).mp (hvalid.2 addr hindex)
      obtain ⟨hfound, hrefines⟩ := hinsert content newel xs ys hsplit hvalid.1
      refine ⟨⟨.element newel, []⟩, _, _, ?_, ⟨rfl, xs, ys, hsplit, rfl, rfl⟩, hrefines, nofun⟩
      rw [ListCall.run]
      exact congrArg (fun found => some (ListOutcome.mk (.element found) [], _)) hfound
  | detach content => exact hunlink content none false
  | remove content => exact hunlink content none true
  | detachItem content callback => exact hunlink content callback false
  | removeItem content callback => exact hunlink content callback true
  | detachHead =>
      obtain ⟨aList', hhead, hrefines⟩ := ListDetachHead_spec h left
      refine ⟨_, aList', _, ?_, ⟨rfl, rfl⟩, hrefines, nofun⟩
      rw [ListCall.run, hhead]
      rfl
  | removeHead =>
      obtain ⟨aList', hhead, hrefines⟩ := ListDetachHead_spec h left
      refine ⟨_, aList', _, ?_, ⟨rfl, rfl⟩, hrefines, nofun⟩
      rw [ListCall.run, ListRemoveHead, hhead]
      rfl
  | popTail =>
      obtain ⟨aList', htail, hrefines⟩ := ListPopTail_spec h left
      refine ⟨_, aList', _, ?_, ⟨rfl, rfl⟩, hrefines, nofun⟩
      rw [ListCall.run, htail]
      rfl
  | find content =>
      obtain ⟨found, aList', hfinds, hfound, hrefines⟩ := hfind content none
      refine ⟨_, aList', _, ?_, ⟨rfl, found, rfl, hfound⟩, hrefines, nofun⟩
      rw [ListCall.run, ListFind, hfinds]
      rfl
  | findItem content callback =>
      obtain ⟨found, aList', hfinds, hfound, hrefines⟩ := hfind content callback
      refine ⟨_, aList', _, ?_, ⟨rfl, found, rfl, hfound⟩, hrefines, nofun⟩
      rw [ListCall.run, hfinds]
      rfl
  | empty =>
      obtain ⟨aList', hempty, hrefines⟩ := ListEmpty_spec h left
      exact ⟨_, aList', _, hempty, ⟨rfl, rfl⟩, hrefines, nofun⟩

/-! ### From the empty list -/

/-- A call with what it has returned, and what `free` has left in the memory. -/
structure CallEvent (α : Type) where
  call : ListCall α
  left : Addr → ListElement α
  outcome : ListOutcome α

/-- A step of the list. -/
def Step (aList : SearchedList α) (event : CallEvent α) (aList' : SearchedList α) : Prop :=
  event.call.Valid aList ∧ event.call.run event.left aList = some (event.outcome, aList')

/-- A step of the sequence. -/
def SequenceStep (elements : List (Addr × α)) (event : CallEvent α)
    (elements' : List (Addr × α)) : Prop :=
  event.call.Does elements event.outcome elements'

theorem step_refines
    {aList aList' : SearchedList α} {elements : List (Addr × α)} {event : CallEvent α}
    (h : aList.Refines elements)
    (hstep : Step aList event aList') :
    (∃ elements', SequenceStep elements event elements' ∧ aList'.Refines elements') ∧
      (event.call.Unlinks → event.outcome.returned = .code 0 → aList' = aList) := by
  obtain ⟨outcome, aList'', elements', hrun, hdoes, hrefines, hsame⟩ :=
    run_spec h hstep.1 event.left
  rw [hstep.2] at hrun
  cases hrun
  exact ⟨⟨elements', hdoes, hrefines⟩, hsame⟩

/--
Every run from the empty list is a run of the sequence with the same calls and
results, and the list contains what the sequence does.  A removal that returns 0
leaves the list as it was, and any further call ends.
-/
theorem list_refines_sequence
    (element : Addr → ListElement α)
    {tr : List (Lib.Transition (SearchedList α) (CallEvent α))} {aList : SearchedList α}
    (hrun : Lib.Runs Step (zero element) tr aList) :
    (∃ tr' elements, Lib.Runs SequenceStep [] tr' elements ∧
      tr'.map Lib.Transition.event = tr.map Lib.Transition.event ∧ aList.Contains elements) ∧
    (∀ x ∈ tr, x.event.call.Unlinks → x.event.outcome.returned = .code 0 → x.post = x.pre) ∧
    ∀ call left, ListCall.Valid aList call →
      ∃ outcome aList', call.run left aList = some (outcome, aList') := by
  have hstep : ∀ (s : SearchedList α) (elements : List (Addr × α)) e t, s.Refines elements →
      Step s e t → ∃ elements', SequenceStep elements e elements' ∧ t.Refines elements' :=
    fun s elements e t h hs => (step_refines h hs).1
  have hpres : ∀ (s : SearchedList α) e t, (∃ elements, s.Refines elements) → Step s e t →
      ∃ elements, t.Refines elements := by
    rintro s e t ⟨elements, h⟩ hs
    obtain ⟨elements', _, h'⟩ := hstep s elements e t h hs
    exact ⟨elements', h'⟩
  obtain ⟨tr', elements, hsequence, hevents, hrefines⟩ :=
    hrun.refines hstep (refines_zero element)
  have hall := (hrun.invariant hpres ⟨[], refines_zero element⟩).1
  refine ⟨⟨tr', elements, hsequence, hevents, hrefines.contains⟩, ?_, ?_⟩
  · intro x hx
    obtain ⟨elements, hpre⟩ := (hall x hx).1
    exact (step_refines hpre (hrun.step_of_mem x hx)).2
  · intro call left hvalid
    obtain ⟨outcome, aList', _, hends, _⟩ := run_spec hrefines hvalid left
    exact ⟨outcome, aList', hends⟩

end Calls

/-! ### One element -/

def blank : Addr → ListElement Nat := fun _ => ⟨none, none, 0⟩

/-- `malloc` gives the memory at 7. -/
def appendFive : CallEvent Nat := ⟨.append 5 (some 7), blank, ⟨.element (some 7), []⟩⟩

theorem valid_appendFive :
    ListCall.Valid (zero blank) (.append 5 (some 7)) := by
  rintro _ ⟨⟩ howns
  have hmem := (owns_iff (refines_zero blank) 7).mp howns
  cases hmem

theorem list_refines_sequence_sample :
    ∃ tr' elements, Lib.Runs SequenceStep [] tr' elements ∧
      tr'.map Lib.Transition.event = [appendFive] ∧
      ((zero blank).ListAppend 5 (some 7)).2.Contains elements :=
  (list_refines_sequence blank
    (Lib.Runs.cons (e := appendFive) ⟨valid_appendFive, rfl⟩ (Lib.Runs.nil _))).1

end SearchedList
end PahoMqtt
