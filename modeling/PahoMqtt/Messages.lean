import PahoMqtt.Packets

/-!
# In-flight messages

The message structures of Clients.h, and what the handlers do with a list of
them.  A list holds a message id at most once, so the element that
`ListFindItem` leaves in `current` is addressed by its id.
-/

namespace PahoMqtt

/-- `Publications` -/
structure Publications where
  topic : Bytes
  topiclen : Nat
  payload : Bytes
  mask : Mask
deriving DecidableEq

/-- What a send has left in the memory that a stored publication shares with the packet. -/
def Publications.left (p : Publications) (publish : Publish) : Publications :=
  { p with topic := publish.topic, payload := publish.payload, mask := publish.mask }

/--
`Messages`.  The next message type of a QoS 1 message is not set and not read;
an inbound MQTT 5 message loses its publication when it is delivered.
-/
structure Messages where
  qos : Nat
  retain : Bool
  msgid : MsgId
  MQTTVersion : Nat
  properties : Properties
  publish : Option Publications
  lastTouch : Int
  nextMessageType : Option PacketType
deriving DecidableEq

/-! ### The lists -/

/-- `ListFindItem` with `messageIDCompare` -/
def findMsg (msgs : List Messages) (msgid : MsgId) : Option Messages :=
  msgs.find? (·.msgid = msgid)

/-- Change the message with this id where it stands. -/
def modifyMsg (msgs : List Messages) (msgid : MsgId) (f : Messages → Messages) : List Messages :=
  msgs.map (fun m => if m.msgid = msgid then f m else m)

/-- `ListRemove` of the message with this id. -/
def removeMsg (msgs : List Messages) (msgid : MsgId) : List Messages :=
  msgs.filter (·.msgid ≠ msgid)

/-- The ids of a list, in its order. -/
def msgIds (msgs : List Messages) : List MsgId :=
  msgs.map (·.msgid)

/-! ### Finding a message in a changed list -/

theorem findMsg_eq_some
    {msgs : List Messages} {msgid : MsgId} {m : Messages}
    (h : findMsg msgs msgid = some m) :
    m ∈ msgs ∧ m.msgid = msgid := by
  refine ⟨List.mem_of_find?_eq_some h, ?_⟩
  simpa using List.find?_some h

theorem findMsg_eq_none
    {msgs : List Messages} {msgid : MsgId} :
    findMsg msgs msgid = none ↔ msgid ∉ msgIds msgs := by
  simp [findMsg, msgIds]

theorem findMsg_isSome
    {msgs : List Messages} {msgid : MsgId} :
    (findMsg msgs msgid).isSome ↔ msgid ∈ msgIds msgs := by
  rw [← not_iff_not, Bool.not_eq_true, Option.isSome_eq_false_iff, Option.isNone_iff_eq_none,
    findMsg_eq_none]

/-- In a list without repeated ids every element is found. -/
theorem findMsg_of_mem
    {msgs : List Messages} {m : Messages}
    (hnodup : (msgIds msgs).Nodup)
    (hm : m ∈ msgs) :
    findMsg msgs m.msgid = some m := by
  induction msgs with
  | nil =>
      cases hm
  | cons x msgs ih =>
      obtain ⟨hx, hnodup⟩ := List.nodup_cons.mp hnodup
      rcases List.mem_cons.mp hm with rfl | hm
      · simp [findMsg]
      · have hne : x.msgid ≠ m.msgid := by
          intro heq
          exact hx (List.mem_map.mpr ⟨m, hm, heq.symm⟩)
        have := ih hnodup hm
        simpa [findMsg, hne] using this

theorem findMsg_append
    (msgs : List Messages) (m : Messages) (msgid : MsgId) :
    findMsg (msgs ++ [m]) msgid =
      (findMsg msgs msgid).or (if m.msgid = msgid then some m else none) := by
  by_cases h : m.msgid = msgid <;> simp [findMsg, List.find?_append, h]

theorem findMsg_modifyMsg
    (msgs : List Messages) (msgid j : MsgId) (f : Messages → Messages)
    (hf : ∀ m, m.msgid = msgid → (f m).msgid = msgid) :
    findMsg (modifyMsg msgs msgid f) j =
      if j = msgid then (findMsg msgs j).map f else findMsg msgs j := by
  induction msgs with
  | nil =>
      simp [findMsg, modifyMsg]
  | cons m msgs ih =>
      simp only [findMsg, modifyMsg, List.map_cons, List.find?_cons] at ih ⊢
      by_cases hm : m.msgid = msgid
      · by_cases hj : j = msgid
        · subst hj
          simp [hm, hf m hm]
        · have h₁ : msgid ≠ j := Ne.symm hj
          simp [hm, hf m hm, h₁, ih, hj]
      · by_cases hj : j = msgid
        · subst hj
          simpa [hm] using ih
        · by_cases hmj : m.msgid = j <;> simp [hm, hmj, hj, ih]

theorem findMsg_removeMsg
    (msgs : List Messages) (msgid j : MsgId) :
    findMsg (removeMsg msgs msgid) j = if j = msgid then none else findMsg msgs j := by
  simp only [findMsg, removeMsg, List.find?_filter]
  by_cases hj : j = msgid
  · rw [if_pos hj, List.find?_eq_none]
    intro x _
    simp [hj]
  · rw [if_neg hj]
    congr 1
    funext x
    by_cases hx : x.msgid = j
    · simp [hx, hj]
    · simp [hx]

/-! ### The ids of a changed list -/

theorem msgIds_append
    (msgs : List Messages) (m : Messages) :
    msgIds (msgs ++ [m]) = msgIds msgs ++ [m.msgid] := by
  simp [msgIds]

theorem msgIds_modifyMsg
    (msgs : List Messages) (msgid : MsgId) (f : Messages → Messages)
    (hf : ∀ m, m.msgid = msgid → (f m).msgid = msgid) :
    msgIds (modifyMsg msgs msgid f) = msgIds msgs := by
  simp only [msgIds, modifyMsg, List.map_map]
  apply List.map_congr_left
  intro m _
  by_cases h : m.msgid = msgid <;> simp [h, hf]

theorem msgIds_removeMsg
    (msgs : List Messages) (msgid : MsgId) :
    (msgIds (removeMsg msgs msgid)).Sublist (msgIds msgs) :=
  List.Sublist.map _ List.filter_sublist

/-- A message with a new id keeps the ids distinct. -/
theorem nodup_append
    {msgs : List Messages} {m : Messages}
    (hnodup : (msgIds msgs).Nodup)
    (hnew : findMsg msgs m.msgid = none) :
    (msgIds (msgs ++ [m])).Nodup := by
  rw [msgIds_append, List.nodup_append]
  refine ⟨hnodup, List.nodup_singleton _, ?_⟩
  intro a ha b hb
  obtain rfl := List.mem_singleton.mp hb
  rintro rfl
  exact findMsg_eq_none.mp hnew ha

theorem mem_modifyMsg
    {msgs : List Messages} {msgid : MsgId} {f : Messages → Messages} {x : Messages}
    (h : x ∈ modifyMsg msgs msgid f) :
    (x ∈ msgs ∧ x.msgid ≠ msgid) ∨ ∃ m ∈ msgs, m.msgid = msgid ∧ x = f m := by
  obtain ⟨m, hm, rfl⟩ := List.mem_map.mp h
  by_cases hid : m.msgid = msgid
  · exact Or.inr ⟨m, hm, hid, if_pos hid⟩
  · rw [if_neg hid]
    exact Or.inl ⟨hm, hid⟩

theorem mem_removeMsg
    {msgs : List Messages} {msgid : MsgId} {x : Messages} :
    x ∈ removeMsg msgs msgid ↔ x ∈ msgs ∧ x.msgid ≠ msgid := by
  simp [removeMsg]

end PahoMqtt
