import Mathlib.Tactic
import PahoMqtt.Lib.Rings

/-!
# Linked lists

The doubly linked lists of LinkedList.c on the memory they are built in.  A
list owns elements at distinct addresses; `Represents` says which, in which
order, and that every pointer of the list and its elements agrees with that
order.

The state of the header counts as the element before the first and behind the
last one: `ListNextElement` of NULL is the first element, and `ListPrevElement`
of NULL the last.
-/

namespace PahoMqtt

abbrev Addr := Nat

/-- `ListElement`; NULL is `none`. -/
structure ListElement (α : Type) where
  prev : Option Addr
  next : Option Addr
  content : α

/-- The memory of the elements, and the header of the list. -/
structure LinkedList (α : Type) where
  element : Addr → ListElement α
  first : Option Addr
  last : Option Addr
  count : Nat

namespace LinkedList

variable {α : Type}

/-- `ListZero`, in a memory that holds anything. -/
def zero (element : Addr → ListElement α) : LinkedList α :=
  { element, first := none, last := none, count := 0 }

def ListNextElement (aList : LinkedList α) : Option Addr → Option Addr
  | none => aList.first
  | some pos => (aList.element pos).next

def ListPrevElement (aList : LinkedList α) : Option Addr → Option Addr
  | none => aList.last
  | some pos => (aList.element pos).prev

/-! ### Assignments -/

/-- Write a whole element. -/
def write (aList : LinkedList α) (addr : Addr) (e : ListElement α) : LinkedList α :=
  { aList with element := Function.update aList.element addr e }

/-- `pos->next = value`, or `aList->first = value` where the header stands for the element. -/
def setNext (aList : LinkedList α) (pos value : Option Addr) : LinkedList α :=
  match pos with
  | none => { aList with first := value }
  | some addr => aList.write addr { aList.element addr with next := value }

/-- `pos->prev = value`, or `aList->last = value` where the header stands for the element. -/
def setPrev (aList : LinkedList α) (pos value : Option Addr) : LinkedList α :=
  match pos with
  | none => { aList with last := value }
  | some addr => aList.write addr { aList.element addr with prev := value }

/-! ### Inserting -/

def ListAppendNoMalloc (aList : LinkedList α) (content : α) (newel : Addr) : LinkedList α :=
  let written := aList.write newel { content, next := none, prev := aList.last }
  let linked :=
    if aList.first = none then
      { written with first := some newel }
    else
      written.setNext aList.last (some newel)
  { linked with last := some newel, count := aList.count + 1 }

/-- `ListInsert`, with the memory for the new element; `index` NULL appends. -/
def ListInsert (aList : LinkedList α) (content : α) (newel : Addr) (index : Option Addr) :
    LinkedList α :=
  match index with
  | none => aList.ListAppendNoMalloc content newel
  | some pos =>
      let before := (aList.element pos).prev
      let written := aList.write newel { content, next := some pos, prev := before }
      let linked := (written.setPrev (some pos) (some newel)).setNext before (some newel)
      { linked with count := aList.count + 1 }

theorem next_write
    (aList : LinkedList α) (addr : Addr) (e : ListElement α) :
    (aList.write addr e).ListNextElement =
      Function.update aList.ListNextElement (some addr) e.next := by
  funext pos
  cases pos with
  | none =>
      rw [Function.update_of_ne (by simp)]
      rfl
  | some pos =>
      by_cases hpos : pos = addr
      · subst hpos
        simp [ListNextElement, write]
      · rw [Function.update_of_ne (by simpa using hpos)]
        simp [ListNextElement, write, hpos]

theorem prev_write
    (aList : LinkedList α) (addr : Addr) (e : ListElement α) :
    (aList.write addr e).ListPrevElement =
      Function.update aList.ListPrevElement (some addr) e.prev := by
  funext pos
  cases pos with
  | none =>
      rw [Function.update_of_ne (by simp)]
      rfl
  | some pos =>
      by_cases hpos : pos = addr
      · subst hpos
        simp [ListPrevElement, write]
      · rw [Function.update_of_ne (by simpa using hpos)]
        simp [ListPrevElement, write, hpos]

theorem next_setNext
    (aList : LinkedList α) (pos value : Option Addr) :
    (aList.setNext pos value).ListNextElement =
      Function.update aList.ListNextElement pos value := by
  cases pos with
  | none =>
      funext pos
      cases pos with
      | none => rw [Function.update_self]; rfl
      | some pos => rw [Function.update_of_ne (by simp)]; rfl
  | some addr =>
      exact next_write aList addr _

theorem prev_setPrev
    (aList : LinkedList α) (pos value : Option Addr) :
    (aList.setPrev pos value).ListPrevElement =
      Function.update aList.ListPrevElement pos value := by
  cases pos with
  | none =>
      funext pos
      cases pos with
      | none => rw [Function.update_self]; rfl
      | some pos => rw [Function.update_of_ne (by simp)]; rfl
  | some addr =>
      exact prev_write aList addr _

@[simp] theorem prev_setNext
    (aList : LinkedList α) (pos value : Option Addr) :
    (aList.setNext pos value).ListPrevElement = aList.ListPrevElement := by
  cases pos with
  | none =>
      funext pos
      cases pos <;> rfl
  | some addr =>
      exact (prev_write aList addr _).trans (Function.update_eq_self _ _)

@[simp] theorem next_setPrev
    (aList : LinkedList α) (pos value : Option Addr) :
    (aList.setPrev pos value).ListNextElement = aList.ListNextElement := by
  cases pos with
  | none =>
      funext pos
      cases pos <;> rfl
  | some addr =>
      exact (next_write aList addr _).trans (Function.update_eq_self _ _)

@[simp] theorem content_setNext
    (aList : LinkedList α) (pos value : Option Addr) (addr : Addr) :
    ((aList.setNext pos value).element addr).content = (aList.element addr).content := by
  cases pos with
  | none =>
      rfl
  | some pos =>
      by_cases hpos : addr = pos
      · subst hpos
        simp [setNext, write]
      · simp [setNext, write, hpos]

@[simp] theorem content_setPrev
    (aList : LinkedList α) (pos value : Option Addr) (addr : Addr) :
    ((aList.setPrev pos value).element addr).content = (aList.element addr).content := by
  cases pos with
  | none =>
      rfl
  | some pos =>
      by_cases hpos : addr = pos
      · subst hpos
        simp [setPrev, write]
      · simp [setPrev, write, hpos]

@[simp] theorem next_count
    (aList : LinkedList α) (count : Nat) :
    ({ aList with count } : LinkedList α).ListNextElement = aList.ListNextElement := by
  funext pos
  cases pos <;> rfl

@[simp] theorem prev_count
    (aList : LinkedList α) (count : Nat) :
    ({ aList with count } : LinkedList α).ListPrevElement = aList.ListPrevElement := by
  funext pos
  cases pos <;> rfl

/-! ### Rotating -/

/-- The assignments that put `wrapel` at the beginning of the list. -/
def putFirst (aList : LinkedList α) (wrapel : Addr) : LinkedList α :=
  let aList := aList.setPrev aList.first aList.last
  let aList := aList.setNext aList.last aList.first
  let aList := { aList with first := some wrapel }
  let aList := { aList with last := (aList.element wrapel).prev }
  let aList := aList.setPrev aList.first none
  aList.setNext aList.last none

/-! ### What a list holds -/

/-- The list consists of these elements, each with its content, linked in this order. -/
structure Represents (aList : LinkedList α) (elements : List (Addr × α)) : Prop where
  ring : Lib.Ring aList.ListNextElement aList.ListPrevElement none
    (elements.map (fun e => some e.1))
  nodup : (elements.map Prod.fst).Nodup
  content : ∀ e ∈ elements, (aList.element e.1).content = e.2
  count : aList.count = elements.length

theorem represents_zero
    (element : Addr → ListElement α) :
    (zero element).Represents [] where
  ring := Lib.Ring.nil_iff.mpr ⟨rfl, rfl⟩
  nodup := List.nodup_nil
  content := by simp
  count := rfl

namespace Represents

variable {aList : LinkedList α}

/-- The element before a place of the list; the header before the first. -/
def endOf (xs : List (Addr × α)) : Option Addr :=
  xs.getLast?.map Prod.fst

/-- The element behind a place of the list; the header behind the last. -/
def startOf (ys : List (Addr × α)) : Option Addr :=
  ys.head?.map Prod.fst

theorem getLastD_eq
    (xs : List (Addr × α)) :
    (xs.map (fun e => some e.1)).getLastD none = endOf xs := by
  rcases List.eq_nil_or_concat xs with rfl | ⟨xs', x, rfl⟩ <;> simp [endOf]

theorem headD_eq
    (ys : List (Addr × α)) :
    (ys.map (fun e => some e.1)).headD none = startOf ys := by
  cases ys <;> simp [startOf]

/-- The two pointers that meet at a place of the list. -/
theorem seam
    {xs ys : List (Addr × α)}
    (h : aList.Represents (xs ++ ys)) :
    aList.ListNextElement (endOf xs) = startOf ys ∧
      aList.ListPrevElement (startOf ys) = endOf xs := by
  have hring := h.ring
  rw [List.map_append] at hring
  have hseam := hring.seam
  rw [getLastD_eq, headD_eq] at hseam
  exact hseam

theorem ring_nodup
    {elements : List (Addr × α)}
    (hnodup : (elements.map Prod.fst).Nodup) :
    ((none : Option Addr) :: elements.map (fun e => some e.1)).Nodup := by
  refine List.nodup_cons.mpr ⟨by simp, ?_⟩
  have heq : elements.map (fun e => some e.1) = (elements.map Prod.fst).map some := by
    simp
  rw [heq]
  exact hnodup.map (Option.some_injective _)

theorem first_eq
    {elements : List (Addr × α)}
    (h : aList.Represents elements) :
    aList.first = startOf elements :=
  (@seam _ _ [] elements h).1

theorem last_eq
    {elements : List (Addr × α)}
    (h : aList.Represents elements) :
    aList.last = endOf elements :=
  (@seam _ _ elements [] (by simpa using h)).2

theorem startOf_of_ne_nil
    {xs : List (Addr × α)}
    (hxs : xs ≠ []) :
    ∃ f, startOf xs = some f := by
  obtain ⟨x, xs', rfl⟩ := List.exists_cons_of_ne_nil hxs
  exact ⟨x.1, rfl⟩

theorem endOf_of_ne_nil
    {xs : List (Addr × α)}
    (hxs : xs ≠ []) :
    ∃ l, endOf xs = some l := by
  rcases List.eq_nil_or_concat xs with rfl | ⟨xs', x, rfl⟩
  · exact absurd rfl hxs
  · exact ⟨x.1, by simp [endOf]⟩

theorem mem_of_startOf
    {xs : List (Addr × α)} {addr : Addr}
    (h : startOf xs = some addr) :
    addr ∈ xs.map Prod.fst := by
  rw [startOf, Option.map_eq_some_iff] at h
  obtain ⟨e, he, rfl⟩ := h
  exact List.mem_map_of_mem (List.mem_of_head? he)

theorem mem_of_endOf
    {xs : List (Addr × α)} {addr : Addr}
    (h : endOf xs = some addr) :
    addr ∈ xs.map Prod.fst := by
  rw [endOf, Option.map_eq_some_iff] at h
  obtain ⟨e, he, rfl⟩ := h
  exact List.mem_map_of_mem (List.mem_of_getLast? he)

/-- A list without a first element has no last one. -/
theorem last_eq_none
    {xs : List (Addr × α)}
    (h : aList.Represents xs)
    (hfirst : aList.first = none) :
    aList.last = none := by
  have hfront := h.first_eq
  cases xs with
  | nil =>
      exact h.last_eq
  | cons x xs =>
      rw [hfirst] at hfront
      cases hfront

/-- Appending is inserting before the header. -/
theorem listInsert_eq
    {elements : List (Addr × α)}
    (h : aList.Represents elements)
    (content : α) (newel : Addr) (index : Option Addr) :
    aList.ListInsert content newel index =
      { ((aList.write newel
            { content, next := index, prev := aList.ListPrevElement index }).setPrev
            index (some newel)).setNext (aList.ListPrevElement index) (some newel) with
        count := aList.count + 1 } := by
  cases index with
  | some pos =>
      rfl
  | none =>
      simp only [ListInsert, ListAppendNoMalloc, ListPrevElement]
      split
      next hfirst =>
        rw [h.last_eq_none hfirst]
        rfl
      · cases aList.last <;> rfl

/--
`ListInsert` puts the new element before the one that `index` points to, or at
the end if `index` is NULL.
-/
theorem listInsert
    {xs ys : List (Addr × α)}
    (h : aList.Represents (xs ++ ys))
    (content : α) {newel : Addr}
    (hnew : newel ∉ (xs ++ ys).map Prod.fst) :
    (aList.ListInsert content newel (startOf ys)).Represents (xs ++ (newel, content) :: ys) := by
  obtain ⟨hnext, hprev⟩ := h.seam
  have hends : endOf xs ≠ some newel := by
    intro heq
    rw [List.map_append] at hnew
    exact hnew (List.mem_append_left _ (mem_of_endOf heq))
  have hstart : startOf ys ≠ some newel := by
    intro heq
    rw [List.map_append] at hnew
    exact hnew (List.mem_append_right _ (mem_of_startOf heq))
  have hring := h.ring
  rw [List.map_append] at hring
  have hringnodup := ring_nodup h.nodup
  rw [List.map_append] at hringnodup
  have hringnew : some newel ∉ (none : Option Addr) ::
      (xs.map (fun e => some e.1) ++ ys.map (fun e => some e.1)) := by
    simpa using hnew
  have hinserted := hring.insert hringnodup hringnew
  rw [getLastD_eq, headD_eq] at hinserted
  have hlinks : (aList.ListInsert content newel (startOf ys)).ListNextElement =
        Function.update (Function.update aList.ListNextElement (endOf xs) (some newel))
          (some newel) (startOf ys) ∧
      (aList.ListInsert content newel (startOf ys)).ListPrevElement =
        Function.update (Function.update aList.ListPrevElement (startOf ys) (some newel))
          (some newel) (endOf xs) := by
    rw [h.listInsert_eq, hprev]
    refine ⟨?_, ?_⟩
    · rw [next_count, next_setNext, next_setPrev, next_write, Function.update_comm hends.symm]
    · rw [prev_count, prev_setNext, prev_setPrev, prev_write, Function.update_comm hstart.symm]
  have hcontent : ∀ addr, ((aList.ListInsert content newel (startOf ys)).element addr).content =
      if addr = newel then content else (aList.element addr).content := by
    intro addr
    rw [h.listInsert_eq]
    simp only [content_setNext, content_setPrev, write]
    by_cases heq : addr = newel
    · subst heq
      simp
    · simp [heq]
  refine ⟨?_, ?_, ?_, ?_⟩
  · rw [hlinks.1, hlinks.2, List.map_append, List.map_cons]
    exact hinserted
  · rw [List.map_append, List.map_cons]
    rw [List.map_append] at hnew
    have hnodup := h.nodup
    rw [List.map_append] at hnodup
    exact List.nodup_middle.mpr (List.nodup_cons.mpr ⟨hnew, hnodup⟩)
  · intro e he
    rw [hcontent]
    have hmem : e = (newel, content) ∨ e ∈ xs ++ ys := by
      simpa [or_left_comm] using he
    rcases hmem with rfl | hmem
    · exact if_pos rfl
    · rw [if_neg ?_]
      · exact h.content e hmem
      · rintro rfl
        exact hnew (List.mem_map_of_mem hmem)
  · rw [h.listInsert_eq]
    simp only [h.count, List.length_append, List.length_cons]
    omega

/-- Moving the header before an element of the list rotates the list. -/
theorem putFirst
    {xs ys : List (Addr × α)}
    (h : aList.Represents (xs ++ ys))
    (hxs : xs ≠ [])
    {wrapel : Addr}
    (hwrapel : startOf ys = some wrapel) :
    (aList.putFirst wrapel).Represents (ys ++ xs) := by
  have hys : ys ≠ [] := by
    rintro rfl
    cases hwrapel
  have hprev := h.seam.2
  obtain ⟨f, hf⟩ := startOf_of_ne_nil hxs
  obtain ⟨l, hl⟩ := endOf_of_ne_nil hys
  have hfirst : aList.first = some f := by
    rw [h.first_eq, startOf, List.head?_append_of_ne_nil xs hxs]
    exact hf
  have hlast : aList.last = some l := by
    rw [h.last_eq, endOf, List.getLast?_append_of_ne_nil xs hys]
    exact hl
  have hring := h.ring
  rw [List.map_append] at hring
  have hringnodup := ring_nodup h.nodup
  rw [List.map_append] at hringnodup
  have hrotated := hring.rotate hringnodup (by simpa using hxs) (by simpa using hys)
  simp only [getLastD_eq, headD_eq, hf, hl, hwrapel] at hrotated
  have hne : some wrapel ≠ some f := by
    intro heq
    have hw : wrapel ∈ ys.map Prod.fst := mem_of_startOf hwrapel
    have hfx : f ∈ xs.map Prod.fst := mem_of_startOf hf
    have hnodup := h.nodup
    rw [List.map_append] at hnodup
    exact (List.nodup_append.mp hnodup).2.2 f hfx wrapel hw (Option.some.inj heq).symm
  have hput : aList.putFirst wrapel =
      ((((((aList.setPrev (some f) (some l)).setNext (some l) (some f)).setNext
        none (some wrapel)).setPrev none (endOf xs)).setPrev (some wrapel) none).setNext
        (endOf xs) none) := by
    have hbefore : ((((aList.setPrev (some f) (some l)).setNext (some l) (some f)).setNext
        none (some wrapel)).element wrapel).prev = endOf xs := by
      show LinkedList.ListPrevElement _ (some wrapel) = _
      rw [prev_setNext, prev_setNext, prev_setPrev, Function.update_of_ne hne, ← hwrapel, hprev]
    rw [← hbefore, LinkedList.putFirst, hfirst, hlast]
    simp only [setPrev, setNext, write, hlast, hfirst]
  have hcontent : ∀ addr, ((aList.putFirst wrapel).element addr).content =
      (aList.element addr).content := by
    intro addr
    rw [hput]
    simp only [content_setNext, content_setPrev]
  refine ⟨?_, ?_, ?_, ?_⟩
  · rw [hput, List.map_append]
    simpa only [next_setNext, next_setPrev, prev_setNext, prev_setPrev] using hrotated
  · rw [List.map_append]
    have hnodup := h.nodup
    rw [List.map_append] at hnodup
    exact List.nodup_append_comm.mp hnodup
  · intro e he
    rw [hcontent]
    exact h.content e (List.perm_append_comm.mem_iff.mp he)
  · have hcount : (aList.putFirst wrapel).count = aList.count := by
      rw [hput]
      cases endOf xs <;> rfl
    rw [hcount, h.count, List.length_append, List.length_append, Nat.add_comm]

end Represents

end LinkedList

end PahoMqtt
