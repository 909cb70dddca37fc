import PahoMqtt.Lib.OrderedInsert
import PahoMqtt.LinkedList
import PahoMqtt.Messages

/-!
# The order of restored messages

`MQTTPersistence_insertInOrder` and `MQTTPersistence_wrapMsgID`: once on what a
list of messages holds, and once on its pointers as the source has them.  The
pointer functions do to the represented list what the first ones do.

Message ids are positions on a circle of `MAX_MSG_ID` points.  The list that
`insertInOrder` sorts is cut at its largest gap; where all messages lie in less
than half of the circle this is the gap that leads back from the last message
sent to the first.
-/

namespace PahoMqtt

namespace MQTTPersistence

/-- What `MQTTPersistence_insertInOrder` does: the message goes before the first greater id. -/
def insertInOrder (msgs : List Messages) (content : Messages) : List Messages :=
  Lib.insertBy (·.msgid.toNat) msgs content

/-- `curMsgID - curPrevMsgID` -/
def msgIdGap (prev cur : Messages) : Int :=
  cur.msgid.toNat - prev.msgid.toNat

/--
The loop of `MQTTPersistence_wrapMsgID` over the messages behind `prev`, the
first of them at place `i`; the place 0 stands for `wrapel` NULL.
-/
def wrapLoop (gap : Int) (wrapel i : Nat) (prev : Messages) : List Messages → Nat
  | [] => wrapel
  | cur :: rest =>
      if msgIdGap prev cur > gap then
        wrapLoop (msgIdGap prev cur) i (i + 1) cur rest
      else
        wrapLoop gap wrapel (i + 1) cur rest

/-- The place of the message that `MQTTPersistence_wrapMsgID` puts first. -/
def wrapPlace : List Messages → Nat
  | [] => 0
  | first :: rest =>
      let firstMsgID : Int := first.msgid.toNat
      let lastMsgID : Int := (rest.getLastD first).msgid.toNat
      wrapLoop (MAX_MSG_ID.toNat - lastMsgID + firstMsgID) 0 1 first rest

/-- What `MQTTPersistence_wrapMsgID` does. -/
def wrapMsgID (msgs : List Messages) : List Messages :=
  msgs.rotate (wrapPlace msgs)

/-- The messages by increasing ids. -/
abbrev Ascending (msgs : List Messages) : Prop :=
  Lib.Ascending (·.msgid.toNat) msgs

/-! ### The largest gap -/

/-- Where no gap is larger than the one at hand, the loop changes nothing. -/
theorem wrapLoop_of_le
    {gap : Int} {wrapel i : Nat} {prev : Messages} {msgs : List Messages}
    (hle : ∀ a ∈ prev :: msgs, ∀ b ∈ prev :: msgs, msgIdGap a b ≤ gap) :
    wrapLoop gap wrapel i prev msgs = wrapel := by
  induction msgs generalizing i prev with
  | nil =>
      rfl
  | cons cur rest ih =>
      have hgap := hle prev List.mem_cons_self cur (by simp)
      rw [wrapLoop, if_neg (not_lt.mpr hgap)]
      exact ih (fun a ha b hb => hle a (List.mem_cons_of_mem prev ha) b
        (List.mem_cons_of_mem prev hb))

/-- The loop stops at the one gap that is larger than all others. -/
theorem wrapLoop_of_split
    {bound gap : Int} {wrapel i : Nat} {prev h : Messages} {low high : List Messages}
    (hgap : gap ≤ bound)
    (hlow : ∀ a ∈ prev :: low, ∀ b ∈ prev :: low, msgIdGap a b ≤ bound)
    (hjump : msgIdGap (low.getLastD prev) h > bound)
    (hhigh : ∀ a ∈ h :: high, ∀ b ∈ h :: high, msgIdGap a b ≤ bound) :
    wrapLoop gap wrapel i prev (low ++ h :: high) = i + low.length := by
  induction low generalizing gap wrapel i prev with
  | nil =>
      have hlarge : msgIdGap prev h > gap := lt_of_le_of_lt hgap hjump
      rw [List.nil_append, wrapLoop, if_pos hlarge]
      refine wrapLoop_of_le (fun a ha b hb => ?_)
      exact le_of_lt (lt_of_le_of_lt (hhigh a ha b hb) hjump)
  | cons cur low ih =>
      have hrest : ∀ a ∈ cur :: low, ∀ b ∈ cur :: low, msgIdGap a b ≤ bound := fun a ha b hb =>
        hlow a (List.mem_cons_of_mem prev ha) b (List.mem_cons_of_mem prev hb)
      have hlast : msgIdGap (low.getLastD cur) h > bound := by
        rwa [List.getLastD_cons] at hjump
      rw [List.cons_append, wrapLoop, List.length_cons]
      split
      · rw [ih (hlow prev List.mem_cons_self cur (by simp)) hrest hlast]
        omega
      · rw [ih hgap hrest hlast]
        omega

theorem wrapLoop_lt
    {gap : Int} {wrapel i : Nat} {prev : Messages} {msgs : List Messages}
    (hlt : wrapel < i) :
    wrapLoop gap wrapel i prev msgs < i + msgs.length := by
  induction msgs generalizing gap wrapel i prev with
  | nil =>
      exact hlt
  | cons cur rest ih =>
      rw [wrapLoop, List.length_cons, Nat.add_comm rest.length, ← Nat.add_assoc]
      split
      · exact ih (Nat.lt_succ_self i)
      · exact ih (Nat.lt_succ_of_lt hlt)

theorem wrapPlace_lt
    {msgs : List Messages}
    (hmsgs : msgs ≠ []) :
    wrapPlace msgs < msgs.length := by
  obtain ⟨first, rest, rfl⟩ := List.exists_cons_of_ne_nil hmsgs
  rw [wrapPlace, List.length_cons, Nat.add_comm]
  exact wrapLoop_lt Nat.zero_lt_one

/-! ### Sending order -/

/-- How far an id lies behind `s` on the circle. -/
def offset (s : Nat) (msgid : MsgId) : Nat :=
  (msgid.toNat + MAX_MSG_ID.toNat - s) % MAX_MSG_ID.toNat

/-- The messages were sent in this order, with ids from `s` on and less than half the circle. -/
structure SentFrom (s : Nat) (sent : List Messages) : Prop where
  start : 1 ≤ s ∧ s ≤ MAX_MSG_ID.toNat
  nonzero : ∀ m ∈ sent, m.msgid ≠ 0
  order : sent.Pairwise (fun a b => offset s a.msgid < offset s b.msgid)
  window : ∀ m ∈ sent, offset s m.msgid ≤ 32767

theorem offset_eq
    {s : Nat} {msgid : MsgId}
    (hs : 1 ≤ s ∧ s ≤ MAX_MSG_ID.toNat)
    (hid : msgid ≠ 0) :
    offset s msgid =
      if s ≤ msgid.toNat then msgid.toNat - s else msgid.toNat + 65535 - s := by
  have hmax : MAX_MSG_ID.toNat = 65535 := rfl
  have hlt := msgid.toNat_lt
  have hpos : msgid.toNat ≠ 0 := by
    intro h
    exact hid (UInt16.toNat_inj.mp h)
  rw [offset, hmax]
  rw [hmax] at hs
  split
  next hge =>
    have heq : msgid.toNat + 65535 - s = msgid.toNat - s + 65535 := by omega
    rw [heq, Nat.add_mod_right, Nat.mod_eq_of_lt (by omega)]
  next hlow =>
    rw [Nat.mod_eq_of_lt (by omega)]

/-- On one side of `s` the ids of a window lie close together. -/
theorem SentFrom.gap_le
    {s : Nat} {sent : List Messages} {a b : Messages}
    (hsent : SentFrom s sent)
    (ha : a ∈ sent)
    (hb : b ∈ sent)
    (hside : s ≤ a.msgid.toNat ↔ s ≤ b.msgid.toNat) :
    msgIdGap a b ≤ 32767 := by
  have hwa := hsent.window a ha
  have hwb := hsent.window b hb
  have hsmall := hsent.start.2
  have hmax : MAX_MSG_ID.toNat = 65535 := rfl
  rw [offset_eq hsent.start (hsent.nonzero a ha)] at hwa
  rw [offset_eq hsent.start (hsent.nonzero b hb)] at hwb
  rw [msgIdGap]
  split at hwa <;> split at hwb <;> omega

/-- The ids wrap round at most once: first those from `s` on, then those below `s`. -/
theorem SentFrom.split
    {s : Nat} {sent : List Messages}
    (hsent : SentFrom s sent) :
    ∃ high low, sent = high ++ low ∧ (∀ m ∈ high, s ≤ m.msgid.toNat) ∧
      (∀ m ∈ low, m.msgid.toNat < s) := by
  induction sent with
  | nil =>
      exact ⟨[], [], rfl, by simp, by simp⟩
  | cons m sent ih =>
      obtain ⟨hstart, hnonzero, horder, hwindow⟩ := hsent
      rw [List.pairwise_cons] at horder
      obtain ⟨high, low, rfl, hhigh, hlow⟩ := ih
        ⟨hstart, fun x hx => hnonzero x (List.mem_cons_of_mem m hx), horder.2,
          fun x hx => hwindow x (List.mem_cons_of_mem m hx)⟩
      by_cases hside : s ≤ m.msgid.toNat
      · refine ⟨m :: high, low, rfl, ?_, hlow⟩
        intro x hx
        rcases List.mem_cons.mp hx with rfl | hx
        · exact hside
        · exact hhigh x hx
      · have hnil : high = [] := by
          refine List.eq_nil_iff_forall_not_mem.mpr (fun x hx => ?_)
          have hmem : x ∈ high ++ low := List.mem_append_left low hx
          have hlt := horder.1 x hmem
          have hx' := hhigh x hx
          have hbound := x.msgid.toNat_lt
          rw [offset_eq hstart (hnonzero m List.mem_cons_self), if_neg hside,
            offset_eq hstart (hnonzero x (List.mem_cons_of_mem m hmem)), if_pos hx'] at hlt
          omega
        subst hnil
        refine ⟨[], m :: low, rfl, by simp, ?_⟩
        intro x hx
        rcases List.mem_cons.mp hx with rfl | hx
        · exact Nat.not_le.mp hside
        · exact hlow x hx

/-- On one side of `s` the sending order is the order of the ids. -/
theorem SentFrom.ascending
    {s : Nat} {sent part : List Messages}
    (hsent : SentFrom s sent)
    (hpart : part.Sublist sent)
    (hside : ∀ a ∈ part, ∀ b ∈ part, s ≤ a.msgid.toNat ↔ s ≤ b.msgid.toNat) :
    Ascending part := by
  refine (hsent.order.sublist hpart).imp_of_mem ?_
  intro a b ha hb hlt
  have hiff := hside a ha b hb
  rw [offset_eq hsent.start (hsent.nonzero a (hpart.subset ha)),
    offset_eq hsent.start (hsent.nonzero b (hpart.subset hb))] at hlt
  show a.msgid.toNat < b.msgid.toNat
  split at hlt <;> split at hlt <;> omega

/-- Where the ids did not wrap round, the sorted list stays as it is. -/
theorem wrapMsgID_of_gap_le
    {msgs : List Messages}
    (hle : ∀ a ∈ msgs, ∀ b ∈ msgs, msgIdGap a b ≤ 32767) :
    wrapMsgID msgs = msgs := by
  cases msgs with
  | nil =>
      rfl
  | cons first rest =>
      have hlast : rest.getLastD first ∈ first :: rest := Lib.Ring.getLastD_mem rest first
      have hends := hle first List.mem_cons_self _ hlast
      have hmax : MAX_MSG_ID.toNat = 65535 := rfl
      rw [msgIdGap] at hends
      have hplace : wrapPlace (first :: rest) = 0 := by
        rw [wrapPlace]
        refine wrapLoop_of_le (fun a ha b hb => (hle a ha b hb).trans ?_)
        omega
      rw [wrapMsgID, hplace, List.rotate_zero]

/-- The sorted list, cut at its largest gap, is the sending order. -/
theorem SentFrom.wrapMsgID_eq
    {s : Nat} {sent sorted : List Messages}
    (hsent : SentFrom s sent)
    (hsorted : Ascending sorted)
    (hperm : sorted.Perm sent) :
    wrapMsgID sorted = sent := by
  obtain ⟨high, low, rfl, hhigh, hlow⟩ := hsent.split
  have hhighside : ∀ a ∈ high, ∀ b ∈ high, s ≤ a.msgid.toNat ↔ s ≤ b.msgid.toNat :=
    fun a ha b hb => iff_of_true (hhigh a ha) (hhigh b hb)
  have hlowside : ∀ a ∈ low, ∀ b ∈ low, s ≤ a.msgid.toNat ↔ s ≤ b.msgid.toNat :=
    fun a ha b hb => iff_of_false (Nat.not_le.mpr (hlow a ha)) (Nat.not_le.mpr (hlow b hb))
  have hhighgap : ∀ a ∈ high, ∀ b ∈ high, msgIdGap a b ≤ 32767 := fun a ha b hb =>
    hsent.gap_le (List.mem_append_left low ha) (List.mem_append_left low hb) (hhighside a ha b hb)
  have hlowgap : ∀ a ∈ low, ∀ b ∈ low, msgIdGap a b ≤ 32767 := fun a ha b hb =>
    hsent.gap_le (List.mem_append_right high ha) (List.mem_append_right high hb)
      (hlowside a ha b hb)
  have hboth : Ascending (low ++ high) := by
    refine List.pairwise_append.mpr ⟨hsent.ascending (List.sublist_append_right high low) hlowside,
      hsent.ascending (List.sublist_append_left high low) hhighside, ?_⟩
    intro a ha b hb
    exact Nat.lt_of_lt_of_le (hlow a ha) (hhigh b hb)
  obtain rfl : sorted = low ++ high :=
    Lib.ascending_unique hsorted hboth (hperm.trans List.perm_append_comm)
  cases low with
  | nil =>
      simpa using wrapMsgID_of_gap_le hhighgap
  | cons l low =>
      cases high with
      | nil =>
          simpa using wrapMsgID_of_gap_le hlowgap
      | cons h high =>
          have hlowid : ∀ m ∈ l :: low, m.msgid.toNat + 65535 - s ≤ 32767 := by
            intro m hm
            have hmem : m ∈ h :: high ++ l :: low := List.mem_append_right _ hm
            have hwindow := hsent.window m hmem
            rwa [offset_eq hsent.start (hsent.nonzero m hmem),
              if_neg (Nat.not_le.mpr (hlow m hm))] at hwindow
          have hmax : MAX_MSG_ID.toNat = 65535 := rfl
          have hstart := hsent.start
          have hfirst := hlowid l List.mem_cons_self
          have hfirst' := hlow l List.mem_cons_self
          have hlast := hhigh _ (Lib.Ring.getLastD_mem high h)
          have hjump : msgIdGap (low.getLastD l) h > 32767 := by
            have hl := hlowid _ (Lib.Ring.getLastD_mem low l)
            have hh := hhigh h List.mem_cons_self
            rw [msgIdGap]
            omega
          have hplace : wrapPlace (l :: low ++ h :: high) = (l :: low).length := by
            have hend : (low ++ h :: high).getLastD l = high.getLastD h := by
              rw [List.getLastD_eq_getLast?, List.getLast?_append, List.getLast?_cons]
              simp
            rw [List.cons_append, wrapPlace, List.length_cons, Nat.add_comm low.length]
            refine wrapLoop_of_split ?_ hlowgap hjump hhighgap
            rw [hend, hmax]
            omega
          rw [wrapMsgID, hplace, List.rotate_append_length_eq]

end MQTTPersistence

/-! ### The functions on the pointers -/

namespace LinkedList

open MQTTPersistence (msgIdGap)

/--
The loop of `MQTTPersistence_insertInOrder`, which goes on for one element
after it has set `index`.  It takes one round more than there are elements.
-/
def insertIndex (list : LinkedList Messages) (content : Messages) :
    (fuel : Nat) → (current index : Option Addr) → Option Addr
  | 0, _, index => index
  | fuel + 1, current, index =>
      match list.ListNextElement current with
      | none => index
      | some pos =>
          if index = none then
            insertIndex list content fuel (some pos)
              (if content.msgid.toNat < (list.element pos).content.msgid.toNat then some pos else none)
          else
            index

/-- `MQTTPersistence_insertInOrder`, with the memory for the new element. -/
def insertInOrder (list : LinkedList Messages) (content : Messages) (newel : Addr) :
    LinkedList Messages :=
  list.ListInsert content newel (list.insertIndex content (list.count + 1) none none)

/-- The loop of `MQTTPersistence_wrapMsgID`, which ends with `wrapel`. -/
def wrapElement (list : LinkedList Messages) :
    (fuel : Nat) → (current : Addr) → (gap : Int) → (wrapel : Option Addr) → Option Addr
  | 0, _, _, wrapel => wrapel
  | fuel + 1, current, gap, wrapel =>
      match list.ListNextElement (some current) with
      | none => wrapel
      | some pos =>
          match (list.element pos).prev with
          | none => wrapel
          | some before =>
              let curgap := msgIdGap (list.element before).content (list.element pos).content
              if curgap > gap then
                wrapElement list fuel pos curgap (some pos)
              else
                wrapElement list fuel pos gap wrapel

/-- `MQTTPersistence_wrapMsgID`; a list with elements has a first and a last one. -/
def wrapMsgID (list : LinkedList Messages) : LinkedList Messages :=
  if list.count > 0 then
    match list.first, list.last with
    | some first, some last =>
        let firstMsgID : Int := (list.element first).content.msgid.toNat
        let lastMsgID : Int := (list.element last).content.msgid.toNat
        match list.wrapElement list.count first (MAX_MSG_ID.toNat - lastMsgID + firstMsgID) none with
        | none => list
        | some wrapel => list.putFirst wrapel
    | _, _ => list
  else
    list

namespace Represents

variable {list : LinkedList Messages}

/-- The loop finds the first greater id behind the place it has reached. -/
theorem insertIndex_eq
    (content : Messages) {xs ys : List (Addr × Messages)} {fuel : Nat}
    (h : list.Represents (xs ++ ys))
    (hfuel : ys.length < fuel) :
    list.insertIndex content fuel (endOf xs) none =
      startOf (ys.dropWhile (fun e => !decide (content.msgid.toNat < e.2.msgid.toNat))) := by
  induction ys generalizing xs fuel with
  | nil =>
      obtain ⟨fuel, rfl⟩ : ∃ k, fuel = k + 1 := ⟨fuel - 1, by simp at hfuel; omega⟩
      rw [insertIndex, h.seam.1]
      rfl
  | cons e ys ih =>
      obtain ⟨fuel, rfl⟩ : ∃ k, fuel = k + 1 := ⟨fuel - 1, by simp at hfuel; omega⟩
      have hroom : ys.length < fuel := by simpa using hfuel
      have hcontent := h.content e (by simp)
      have hnext : list.ListNextElement (endOf xs) = some e.1 := h.seam.1
      rw [insertIndex, hnext]
      simp only [if_true, hcontent]
      by_cases hlt : content.msgid.toNat < e.2.msgid.toNat
      · rw [if_pos hlt, List.dropWhile_cons, if_neg (by simpa using hlt)]
        obtain ⟨fuel, rfl⟩ : ∃ k, fuel = k + 1 := ⟨fuel - 1, by omega⟩
        rw [insertIndex]
        cases list.ListNextElement (some e.1) with
        | none => rfl
        | some pos => rfl
      · rw [if_neg hlt, List.dropWhile_cons, if_pos (by simpa using hlt)]
        have hagain : list.Represents ((xs ++ [e]) ++ ys) := by
          simpa using h
        have hend : endOf (xs ++ [e]) = some e.1 := by
          simp [endOf]
        rw [← hend]
        exact ih hagain hroom

/-- The pointers do what the list function does. -/
theorem insertInOrder
    {elements : List (Addr × Messages)}
    (h : list.Represents elements)
    (content : Messages) {newel : Addr}
    (hnew : newel ∉ elements.map Prod.fst) :
    ∃ elements', (list.insertInOrder content newel).Represents elements' ∧
      elements'.Perm ((newel, content) :: elements) ∧
      elements'.map Prod.snd =
        MQTTPersistence.insertInOrder (elements.map Prod.snd) content := by
  have hfuel : elements.length < list.count + 1 := by
    rw [h.count]
    exact Nat.lt_succ_self _
  have hindex : list.insertIndex content (list.count + 1) none none =
      startOf (elements.dropWhile (fun e => !decide (content.msgid.toNat < e.2.msgid.toNat))) :=
    @insertIndex_eq _ content [] elements _ h hfuel
  rw [LinkedList.insertInOrder, hindex]
  have hsplit := List.takeWhile_append_dropWhile
    (p := fun e : Addr × Messages => !decide (content.msgid.toNat < e.2.msgid.toNat)) (l := elements)
  rw [← hsplit] at h hnew
  refine ⟨_, h.listInsert content hnew, ?_, ?_⟩
  · refine List.perm_middle.trans (List.Perm.of_eq ?_)
    rw [hsplit]
  · rw [MQTTPersistence.insertInOrder, Lib.insertBy, List.orderedInsert_eq_take_drop, List.map_append,
      List.map_cons, List.takeWhile_map, List.dropWhile_map]
    simp only [Function.comp_def, decide_not]

/-- The addresses of the elements by their places, where the place 0 stands for NULL. -/
def addrAt (elements : List (Addr × Messages)) : Nat → Option Addr
  | 0 => none
  | k + 1 => elements[k + 1]?.map Prod.fst

/-- The loop finds the element at the place that the list function finds. -/
theorem wrapElement_eq
    {before rest : List (Addr × Messages)} {e : Addr × Messages} {fuel k : Nat} {gap : Int}
    (h : list.Represents (before ++ e :: rest))
    (hfuel : rest.length ≤ fuel) :
    list.wrapElement fuel e.1 gap (addrAt (before ++ e :: rest) k) =
      addrAt (before ++ e :: rest)
        (MQTTPersistence.wrapLoop gap k (before.length + 1) e.2 (rest.map Prod.snd)) := by
  induction rest generalizing before e fuel k gap with
  | nil =>
      cases fuel with
      | zero =>
          rfl
      | succ fuel =>
          have hnext : list.ListNextElement (some e.1) = none := by
            have hseam := (@seam _ _ (before ++ [e]) [] (by simpa using h)).1
            simpa [endOf, startOf] using hseam
          rw [wrapElement, hnext]
          rfl
  | cons next rest ih =>
      obtain ⟨fuel, rfl⟩ : ∃ n, fuel = n + 1 := ⟨fuel - 1, by simp at hfuel; omega⟩
      have hagain : list.Represents ((before ++ [e]) ++ next :: rest) := by
        simpa using h
      have hlist : (before ++ [e]) ++ next :: rest = before ++ e :: next :: rest := by
        simp
      have hseam := hagain.seam
      have hnext : list.ListNextElement (some e.1) = some next.1 := by
        simpa [endOf, startOf] using hseam.1
      have hprev : (list.element next.1).prev = some e.1 := by
        have hback : list.ListPrevElement (some next.1) = some e.1 := by
          simpa [endOf, startOf] using hseam.2
        exact hback
      have he := h.content e (by simp)
      have hnextcontent := h.content next (by simp)
      have hplace : addrAt (before ++ e :: next :: rest) (before.length + 1) = some next.1 := by
        rw [addrAt, ← hlist]
        simp
      have hstep := fun k gap => @ih (before ++ [e]) next fuel k gap hagain (by simpa using hfuel)
      simp only [hlist, List.length_append, List.length_singleton] at hstep
      rw [wrapElement, hnext]
      simp only [hprev, he, hnextcontent, List.map_cons, MQTTPersistence.wrapLoop]
      split
      · rw [← hplace]
        exact hstep _ _
      · exact hstep _ _

/-- A place other than NULL's is where the list is cut. -/
theorem addrAt_eq_some
    {elements : List (Addr × Messages)} {k : Nat} {addr : Addr}
    (h : addrAt elements k = some addr) :
    elements.take k ≠ [] ∧ startOf (elements.drop k) = some addr := by
  cases k with
  | zero =>
      cases h
  | succ k =>
      rw [addrAt, Option.map_eq_some_iff] at h
      obtain ⟨e, he, rfl⟩ := h
      have hlt := (List.getElem?_eq_some_iff.mp he).1
      refine ⟨?_, ?_⟩
      · rw [Ne, List.take_eq_nil_iff]
        rintro (hzero | hnil)
        · omega
        · rw [hnil] at hlt
          exact absurd hlt (by simp)
      · rw [startOf, List.head?_drop, he]
        rfl

/-- The pointers do what the list function does. -/
theorem wrapMsgID
    {elements : List (Addr × Messages)}
    (h : list.Represents elements) :
    ∃ elements', list.wrapMsgID.Represents elements' ∧
      elements'.map Prod.snd = MQTTPersistence.wrapMsgID (elements.map Prod.snd) := by
  cases elements with
  | nil =>
      have hcount : ¬list.count > 0 := by
        rw [h.count]
        decide
      rw [LinkedList.wrapMsgID, if_neg hcount]
      exact ⟨[], h, rfl⟩
  | cons e rest =>
      have hcount : list.count > 0 := by
        rw [h.count]
        exact Nat.succ_pos _
      have hfirst : list.first = some e.1 := h.first_eq
      obtain ⟨l, hl⟩ : ∃ l, (e :: rest).getLast? = some l :=
        ⟨_, List.getLast?_eq_some_getLast (List.cons_ne_nil e rest)⟩
      have hlast : list.last = some l.1 := by
        rw [h.last_eq, endOf, hl]
        rfl
      have hlastcontent := h.content l (List.mem_of_getLast? hl)
      have hfirstcontent := h.content e List.mem_cons_self
      have hend : (rest.map Prod.snd).getLastD e.2 = l.2 := by
        rw [List.getLastD_eq_getLast?, List.getLast?_map]
        rw [List.getLast?_cons] at hl
        cases hrest : rest.getLast? with
        | none =>
            rw [hrest] at hl
            exact congrArg Prod.snd (Option.some.inj hl)
        | some z =>
            rw [hrest] at hl
            exact congrArg Prod.snd (Option.some.inj hl)
      have hplace := fun gap => @wrapElement_eq list [] rest e list.count 0 gap h
        (by rw [h.count]; exact Nat.le_succ _)
      have hwrapPlace : MQTTPersistence.wrapPlace ((e :: rest).map Prod.snd) =
          MQTTPersistence.wrapLoop (MAX_MSG_ID.toNat - l.2.msgid.toNat + e.2.msgid.toNat) 0 1 e.2
            (rest.map Prod.snd) := by
        rw [List.map_cons, MQTTPersistence.wrapPlace, hend]
      rw [LinkedList.wrapMsgID, if_pos hcount, hfirst, hlast]
      simp only [hfirstcontent, hlastcontent]
      have hfound := hplace (MAX_MSG_ID.toNat - l.2.msgid.toNat + e.2.msgid.toNat)
      rw [List.nil_append, List.length_nil, Nat.zero_add, ← hwrapPlace] at hfound
      rw [show (none : Option Addr) = addrAt (e :: rest) 0 from rfl, hfound]
      have hlt := MQTTPersistence.wrapPlace_lt (by simp : (e :: rest).map Prod.snd ≠ [])
      rw [List.length_map] at hlt
      rw [MQTTPersistence.wrapMsgID]
      generalize MQTTPersistence.wrapPlace ((e :: rest).map Prod.snd) = k at hlt ⊢
      cases hwrapel : addrAt (e :: rest) k with
      | none =>
          have hzero : k = 0 := by
            cases k with
            | zero => rfl
            | succ k => simp [addrAt, List.getElem?_eq_getElem hlt] at hwrapel
          subst hzero
          exact ⟨_, h, (List.rotate_zero _).symm⟩
      | some wrapel =>
          obtain ⟨hfront, hstart⟩ := addrAt_eq_some hwrapel
          rw [← List.take_append_drop k (e :: rest)] at h
          refine ⟨_, h.putFirst hfront hstart, ?_⟩
          rw [← List.map_rotate, List.rotate_eq_drop_append_take hlt.le]

/-- The messages are inserted one by one, each with memory of its own. -/
theorem foldl_insertInOrder
    {done enumeration : List (Addr × Messages)}
    (h : list.Represents done)
    (hfresh : ((done ++ enumeration).map Prod.fst).Nodup) :
    ∃ elements, (enumeration.foldl (fun list e => list.insertInOrder e.2 e.1) list).Represents
        elements ∧
      elements.map Prod.snd =
        (enumeration.map Prod.snd).foldl MQTTPersistence.insertInOrder (done.map Prod.snd) := by
  induction enumeration generalizing list done with
  | nil =>
      exact ⟨done, h, rfl⟩
  | cons e enumeration ih =>
      have hmiddle : ((e :: (done ++ enumeration)).map Prod.fst).Nodup :=
        (List.perm_middle.map Prod.fst).nodup_iff.mp hfresh
      have hnew : e.1 ∉ done.map Prod.fst := by
        rw [List.map_cons, List.nodup_cons, List.map_append] at hmiddle
        exact fun hmem => hmiddle.1 (List.mem_append_left _ hmem)
      obtain ⟨elements, helements, hperm, hcontents⟩ := h.insertInOrder e.2 hnew
      have hfresh' : ((elements ++ enumeration).map Prod.fst).Nodup :=
        ((hperm.append_right enumeration).map Prod.fst).nodup_iff.mpr hmiddle
      rw [List.foldl_cons, List.map_cons, List.foldl_cons, ← hcontents]
      exact ih helements hfresh'

end Represents

/--
A list that starts empty in some memory, the messages inserted in the order in
which the store enumerates them, and `MQTTPersistence_wrapMsgID`.
-/
def restored (element : Addr → ListElement Messages) (enumeration : List (Addr × Messages)) :
    LinkedList Messages :=
  (enumeration.foldl (fun list e => list.insertInOrder e.2 e.1) (zero element)).wrapMsgID

end LinkedList

open LinkedList in
/--
Every enumeration of the same messages restores the same list, a rotation of
the messages by their ids; where they were sent within half of the circle of
ids, it is the order they were sent in.
-/
theorem restored_order
    (element : Addr → ListElement Messages)
    {msgs : List Messages}
    (hids : (msgIds msgs).Nodup) :
    ∃ order : List Messages,
      (∃ sorted k, sorted.Perm msgs ∧ MQTTPersistence.Ascending sorted ∧
        order = sorted.rotate k) ∧
      (∀ enumeration : List (Addr × Messages), (enumeration.map Prod.snd).Perm msgs →
        (enumeration.map Prod.fst).Nodup →
        ∃ elements, (restored element enumeration).Represents elements ∧
          elements.map Prod.snd = order) ∧
      ∀ s sent, MQTTPersistence.SentFrom s sent → sent.Perm msgs → order = sent := by
  have hids' : (([] ++ msgs).map (fun m : Messages => m.msgid.toNat)).Nodup := by
    have hmap : msgs.map (fun m : Messages => m.msgid.toNat) = (msgIds msgs).map UInt16.toNat := by
      simp [msgIds]
    rw [List.nil_append, hmap]
    exact hids.map (fun _ _ h => UInt16.toNat_inj.mp h)
  have hsorted : MQTTPersistence.Ascending (msgs.foldl MQTTPersistence.insertInOrder []) :=
    Lib.foldl_insertBy_ascending List.Pairwise.nil hids'
  have hperm : (msgs.foldl MQTTPersistence.insertInOrder []).Perm msgs :=
    Lib.foldl_insertBy_perm [] msgs
  refine ⟨MQTTPersistence.wrapMsgID (msgs.foldl MQTTPersistence.insertInOrder []),
    ⟨_, _, hperm, hsorted, rfl⟩, ?_, ?_⟩
  · intro enumeration hcontents hfresh
    obtain ⟨inserted, hinserted, heq⟩ :=
      (represents_zero element).foldl_insertInOrder hfresh
    obtain ⟨elements, helements, horder⟩ := hinserted.wrapMsgID
    refine ⟨elements, helements, ?_⟩
    rw [horder, heq]
    exact congrArg MQTTPersistence.wrapMsgID
      (Lib.foldl_insertBy_eq hsorted (hcontents.trans hperm.symm))
  · intro s sent hsent hsame
    exact hsent.wrapMsgID_eq hsorted (hperm.trans hsame.symm)

/-- A message of QoS 1 in flight. -/
def inFlight (msgid : MsgId) : Messages :=
  { qos := 1, retain := false, msgid, MQTTVersion := 4, properties := MQTTProperties.initializer
    publish := none, lastTouch := 0, nextMessageType := none }

open LinkedList in
/-- Ids that wrapped round are put back in the order they were sent in. -/
theorem restored_order_wrapped :
    ∃ elements, (restored (fun _ => ⟨none, none, inFlight 0⟩)
        [(10, inFlight 3), (11, inFlight 65535), (12, inFlight 1), (13, inFlight 65534)]).Represents
        elements ∧
      elements.map Prod.snd = [inFlight 65534, inFlight 65535, inFlight 1, inFlight 3] := by
  obtain ⟨order, _, hrestored, hsent⟩ := restored_order (fun _ => ⟨none, none, inFlight 0⟩)
    (by decide : (msgIds [inFlight 65534, inFlight 65535, inFlight 1, inFlight 3]).Nodup)
  obtain ⟨elements, helements, horder⟩ := hrestored
    [(10, inFlight 3), (11, inFlight 65535), (12, inFlight 1), (13, inFlight 65534)]
    (by decide) (by decide)
  refine ⟨elements, helements, horder.trans (hsent 65534 _ ⟨?_, ?_, ?_, ?_⟩ (List.Perm.refl _))⟩
  · decide
  · decide
  · decide
  · decide

end PahoMqtt
