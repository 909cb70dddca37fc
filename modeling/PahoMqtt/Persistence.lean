import PahoMqtt.Net

/-!
# Storing and removing in-flight packets

`MQTTPersistence_putPacket` and `MQTTPersistence_remove` over a store that is an
exact map: a call that fails leaves it as it is.  The keys are printed into
`MESSAGE_FILENAME_LENGTH + 1` bytes, which is enough for every stem and message
id but one: `sc5-` followed by five digits (`snprintf_messageKey`).
-/

namespace PahoMqtt
namespace MQTTPersistence

/-- `MQTTCLIENT_PERSISTENCE_ERROR` and `MQTTASYNC_PERSISTENCE_ERROR` -/
def PERSISTENCE_ERROR : Int := -2

def MESSAGE_FILENAME_LENGTH : Nat := 8

/-- A record's key in the buffer that the in-flight functions allocate. -/
def messageKey (stem : Stem) (msgId : MsgId) : Option Key :=
  stem.snprintf (MESSAGE_FILENAME_LENGTH + 1) msgId.toNat

/-- The stem that `MQTTPersistence_putPacket` chooses; `scr` is the receiving direction. -/
def putStem (htype : PacketType) (scr : Bool) (MQTTVersion : Nat) : Stem :=
  if scr then
    if MQTTVersion ≥ 5 then .v5PublishReceived else .publishReceived
  else if htype = .publish then
    if MQTTVersion ≥ 5 then .v5PublishSent else .publishSent
  else if htype = .pubrel then
    if MQTTVersion ≥ 5 then .v5Pubrel else .pubrel
  else
    .publishSent

/-- The call of the hook: its return code and the buffers that are to be stored. -/
def callBeforeWrite (env : Env) (call : Nat) (bufs : List Bytes) : Int × List Bytes :=
  match env.beforeWrite with
  | none => (0, bufs)
  | some hook => hook call bufs

/-- `MQTTPersistence_putPacket` of the fixed header `buf0` and the other buffers. -/
def putPacket (env : Env) (net : Net) (buf0 : Bytes) (buffers : List Bytes)
    (htype : PacketType) (msgId : MsgId) (scr : Bool) (MQTTVersion : Nat) : Int × Net :=
  match net.persistence with
  | none => (0, net)
  | some store =>
      match messageKey (putStem htype scr MQTTVersion) msgId with
      | none =>
          (PERSISTENCE_ERROR, net.emit (.putPacket htype msgId scr PERSISTENCE_ERROR))
      | some key =>
          let (rc, bufs) := callBeforeWrite env net.calls (buf0 :: buffers)
          if rc ≠ 0 then
            (rc, net.tick.emit (.putPacket htype msgId scr rc))
          else
            let rc := env.pput net.calls
            let store := if rc = 0 then store.put key bufs.flatten else store
            (rc, { net.tick with persistence := some store }.emit (.putPacket htype msgId scr rc))

/-- The removals one after the other, up to the first key that is not printed. -/
def removeStems (env : Env) (msgId : MsgId) : (rc : Int) → Net → List Stem → Int × Net
  | rc, net, [] => (rc, net)
  | rc, net, stem :: stems =>
      match messageKey stem msgId with
      | none => (PERSISTENCE_ERROR, net)
      | some key =>
          let removed := env.premove net.calls
          let persistence :=
            if removed = 0 then net.persistence.map (·.remove key) else net.persistence
          removeStems env msgId (rc + removed) { net.tick with persistence } stems

/-- `MQTTPersistence_remove`; its `qos` is not used. -/
def remove (env : Env) (net : Net) (type : Stem) (msgId : MsgId) : Int × Net :=
  match net.persistence with
  | none => (0, net)
  | some _ =>
      if type = .publishSent ∨ type = .v5PublishSent then
        removeStems env msgId 0 net [.v5PublishSent, .v5Pubrel, .publishSent, .pubrel]
      else
        removeStems env msgId 0 net [.v5PublishReceived, .publishReceived]

/-! ### The keys that fit -/

/-- All keys of in-flight records fit except that of an MQTT 5 PUBREL with a five-digit id. -/
theorem snprintf_messageKey
    (stem : Stem) (msgId : MsgId) :
    messageKey stem msgId =
      if stem = .v5Pubrel ∧ 10000 ≤ msgId.toNat then none else some (stem.key msgId.toNat) := by
  have hid : msgId.toNat < 10 ^ 5 := by
    have := msgId.toNat_lt
    omega
  have hfive : (stem.key msgId.toNat).length ≤ stem.text.length + 5 :=
    (stem.key_length_le_iff (by decide)).mpr hid
  have hfour : (stem.key msgId.toNat).length ≤ stem.text.length + 4 ↔ msgId.toNat < 10 ^ 4 :=
    stem.key_length_le_iff (by decide)
  have htext : stem.text.length ≤ 3 ∨ stem = .v5Pubrel := by
    cases stem <;> simp [Stem.text]
  unfold messageKey Stem.snprintf MESSAGE_FILENAME_LENGTH
  rcases htext with htext | rfl
  · have hne : stem ≠ .v5Pubrel := by
      rintro rfl
      simp [Stem.text] at htext
    rw [if_neg (by omega), if_neg (by simp [hne])]
  · have hlen : Stem.v5Pubrel.text.length = 4 := rfl
    rw [hlen] at hfour hfive
    by_cases hbig : 10000 ≤ msgId.toNat
    · rw [if_pos (by omega), if_pos ⟨rfl, hbig⟩]
    · rw [if_neg (by omega), if_neg (by simp [hbig])]

/-- The condition under which a record's key is printed. -/
def KeyFits (stem : Stem) (msgId : MsgId) : Prop :=
  ¬(stem = .v5Pubrel ∧ 10000 ≤ msgId.toNat)

instance (stem : Stem) (msgId : MsgId) : Decidable (KeyFits stem msgId) :=
  inferInstanceAs (Decidable (¬_))

theorem messageKey_of_fits
    {stem : Stem} {msgId : MsgId}
    (h : KeyFits stem msgId) :
    messageKey stem msgId = some (stem.key msgId.toNat) := by
  rw [snprintf_messageKey, if_neg h]

theorem messageKey_of_not_fits
    {stem : Stem} {msgId : MsgId}
    (h : ¬KeyFits stem msgId) :
    messageKey stem msgId = none := by
  rw [snprintf_messageKey, if_pos (not_not.mp h)]

/-! ### What a call does to the socket and the log -/

theorem putPacket_socket
    (env : Env) (net : Net) (buf0 : Bytes) (buffers : List Bytes)
    (htype : PacketType) (msgId : MsgId) (scr : Bool) (MQTTVersion : Nat) :
    let net' := (putPacket env net buf0 buffers htype msgId scr MQTTVersion).2
    net'.websocket = net.websocket ∧ net'.writePending = net.writePending := by
  unfold putPacket
  split
  · exact ⟨rfl, rfl⟩
  · split
    · exact ⟨rfl, rfl⟩
    · dsimp only
      split <;> exact ⟨rfl, rfl⟩

/-- Exactly the attempt to store is logged, with its return code. -/
theorem putPacket_log
    (env : Env) (net : Net) (buf0 : Bytes) (buffers : List Bytes)
    (htype : PacketType) (msgId : MsgId) (scr : Bool) (MQTTVersion : Nat) :
    let put := putPacket env net buf0 buffers htype msgId scr MQTTVersion
    put.2.log = net.log ++
      (if net.persistence.isSome then [.putPacket htype msgId scr put.1] else []) := by
  unfold putPacket
  cases hstore : net.persistence with
  | none =>
      simp
  | some store =>
      dsimp only
      split
      · simp [Net.emit]
      · split <;> simp [Net.emit, Net.tick]

/-- Whether there is a store at all does not change. -/
theorem putPacket_isSome
    (env : Env) (net : Net) (buf0 : Bytes) (buffers : List Bytes)
    (htype : PacketType) (msgId : MsgId) (scr : Bool) (MQTTVersion : Nat) :
    (putPacket env net buf0 buffers htype msgId scr MQTTVersion).2.persistence.isSome =
      net.persistence.isSome := by
  unfold putPacket
  cases hstore : net.persistence with
  | none =>
      simp [hstore]
  | some store =>
      dsimp only
      split
      · simp [Net.emit, hstore]
      · split <;> simp [Net.emit, Net.tick, hstore]

theorem removeStems_same
    (env : Env) (msgId : MsgId) (rc : Int) (net : Net) (stems : List Stem) :
    let net' := (removeStems env msgId rc net stems).2
    net'.websocket = net.websocket ∧ net'.writePending = net.writePending ∧
      net'.log = net.log ∧ net'.persistence.isSome = net.persistence.isSome := by
  induction stems generalizing rc net with
  | nil =>
      exact ⟨rfl, rfl, rfl, rfl⟩
  | cons stem stems ih =>
      unfold removeStems
      split
      · exact ⟨rfl, rfl, rfl, rfl⟩
      next key _ =>
        obtain ⟨h₁, h₂, h₃, h₄⟩ := ih (rc + env.premove net.calls)
          { net.tick with persistence :=
              if env.premove net.calls = 0 then net.persistence.map (·.remove key)
              else net.persistence }
        refine ⟨h₁, h₂, h₃, h₄.trans ?_⟩
        dsimp only
        split
        · simp
        · rfl

theorem remove_same
    (env : Env) (net : Net) (type : Stem) (msgId : MsgId) :
    let net' := (remove env net type msgId).2
    net'.websocket = net.websocket ∧ net'.writePending = net.writePending ∧
      net'.log = net.log ∧ net'.persistence.isSome = net.persistence.isSome := by
  unfold remove
  split
  · exact ⟨rfl, rfl, rfl, rfl⟩
  · split <;> exact removeStems_same env msgId 0 net _

/-! ### A store that works -/

/-- The persistence functions and the hook never fail. -/
structure StoreWorks (env : Env) : Prop where
  pput : ∀ call, env.pput call = 0
  premove : ∀ call, env.premove call = 0
  beforeWrite : ∀ call bufs, (callBeforeWrite env call bufs).1 = 0

theorem storeWorks_reliable :
    StoreWorks Env.reliable :=
  ⟨fun _ => rfl, fun _ => rfl, fun _ _ => rfl⟩

/-- The store after a record is put; a key that does not fit leaves it as it is. -/
def putRecord (store : Store) (stem : Stem) (msgId : MsgId) (record : Bytes) : Store :=
  if KeyFits stem msgId then store.put (stem.key msgId.toNat) record else store

/-- The store after the removals, up to the first key that does not fit. -/
def removeRecords (msgId : MsgId) : Store → List Stem → Store
  | store, [] => store
  | store, stem :: stems =>
      if KeyFits stem msgId then
        removeRecords msgId (store.remove (stem.key msgId.toNat)) stems
      else
        store

theorem putPacket_works
    {env : Env} {net : Net} {store : Store}
    (hworks : StoreWorks env)
    (hstore : net.persistence = some store)
    (buf0 : Bytes) (buffers : List Bytes) (htype : PacketType) (msgId : MsgId) (scr : Bool)
    (MQTTVersion : Nat) :
    (putPacket env net buf0 buffers htype msgId scr MQTTVersion).2.persistence =
      some (putRecord store (putStem htype scr MQTTVersion) msgId
        (callBeforeWrite env net.calls (buf0 :: buffers)).2.flatten) := by
  unfold putPacket putRecord
  rw [hstore]
  by_cases hfits : KeyFits (putStem htype scr MQTTVersion) msgId
  · simp [messageKey_of_fits hfits, hfits, hworks.beforeWrite, hworks.pput, Net.emit]
  · simp [messageKey_of_not_fits hfits, hfits, Net.emit, hstore]

theorem removeStems_works
    {env : Env} {net : Net} {store : Store}
    (hworks : StoreWorks env)
    (hstore : net.persistence = some store)
    (msgId : MsgId) (rc : Int) (stems : List Stem) :
    (removeStems env msgId rc net stems).2.persistence =
      some (removeRecords msgId store stems) := by
  induction stems generalizing rc net store with
  | nil =>
      exact hstore
  | cons stem stems ih =>
      unfold removeStems removeRecords
      by_cases hfits : KeyFits stem msgId
      · rw [messageKey_of_fits hfits, if_pos hfits]
        dsimp only
        refine ih ?_ _
        simp [hworks.premove, hstore]
      · rw [messageKey_of_not_fits hfits, if_neg hfits]
        exact hstore

/-- The stems of the records of the sending side, in the order of their removal. -/
def sentStems : List Stem := [.v5PublishSent, .v5Pubrel, .publishSent, .pubrel]

theorem remove_works
    {env : Env} {net : Net} {store : Store}
    (hworks : StoreWorks env)
    (hstore : net.persistence = some store)
    {type : Stem}
    (htype : type = .publishSent ∨ type = .v5PublishSent)
    (msgId : MsgId) :
    (remove env net type msgId).2.persistence = some (removeRecords msgId store sentStems) := by
  unfold remove
  rw [hstore]
  dsimp only
  rw [if_pos htype]
  exact removeStems_works hworks hstore msgId 0 _

theorem remove_received_works
    {env : Env} {net : Net} {store : Store}
    (hworks : StoreWorks env)
    (hstore : net.persistence = some store)
    {type : Stem}
    (htype : ¬(type = .publishSent ∨ type = .v5PublishSent))
    (msgId : MsgId) :
    (remove env net type msgId).2.persistence =
      some (removeRecords msgId store [.v5PublishReceived, .publishReceived]) := by
  unfold remove
  rw [hstore]
  dsimp only
  rw [if_neg htype]
  exact removeStems_works hworks hstore msgId 0 _

/-- Only the record of that stem and id can be another one. -/
theorem putRecord_apply
    (store : Store) (stem stem' : Stem) (msgId msgId' : MsgId) (record : Bytes) :
    putRecord store stem msgId record (stem'.key msgId'.toNat) =
      if stem' = stem ∧ msgId' = msgId ∧ KeyFits stem msgId then some record
      else store (stem'.key msgId'.toNat) := by
  unfold putRecord
  by_cases hfits : KeyFits stem msgId
  · rw [if_pos hfits, Lib.ExactMap.put_apply]
    simp only [Stem.key_eq_key, UInt16.toNat_inj, hfits, and_true]
  · simp [hfits]

/-- The records of the removed stems are gone, up to the first key that does not fit. -/
theorem removeRecords_apply
    (store : Store) (stems : List Stem) (stem : Stem) (msgId msgId' : MsgId) :
    removeRecords msgId store stems (stem.key msgId'.toNat) =
      if msgId' = msgId ∧ stem ∈ stems.takeWhile (fun s => KeyFits s msgId) then none
      else store (stem.key msgId'.toNat) := by
  induction stems generalizing store with
  | nil =>
      simp [removeRecords]
  | cons head stems ih =>
      unfold removeRecords
      by_cases hfits : KeyFits head msgId
      · rw [if_pos hfits, ih, Lib.ExactMap.remove_apply]
        simp only [Stem.key_eq_key, UInt16.toNat_inj, List.takeWhile_cons, hfits, decide_true,
          if_true, List.mem_cons]
        by_cases hid : msgId' = msgId
        · by_cases hhead : stem = head
          · simp [hid, hhead]
          · simp [hid, hhead]
        · simp [hid]
      · simp [hfits]

/-- With an id of up to four digits, or for MQTT 5, the sent records are all removed. -/
theorem removeRecords_sentStems
    (store : Store) (stem : Stem) (msgId msgId' : MsgId)
    (hstem : stem ∈ sentStems) :
    removeRecords msgId store sentStems (stem.key msgId'.toNat) =
      if msgId' = msgId ∧ (msgId.toNat < 10000 ∨ stem = .v5PublishSent) then none
      else store (stem.key msgId'.toNat) := by
  rw [removeRecords_apply]
  have htake : stem ∈ sentStems.takeWhile (fun s => KeyFits s msgId) ↔
      (msgId.toNat < 10000 ∨ stem = .v5PublishSent) := by
    by_cases hsmall : msgId.toNat < 10000
    · have hfits : ∀ s, KeyFits s msgId := fun s h => by omega
      have hall : sentStems.takeWhile (fun s => KeyFits s msgId) = sentStems := by
        simp [sentStems, hfits]
      simp [hall, hstem, hsmall]
    · have hfive : ¬KeyFits .v5Pubrel msgId := fun h => h ⟨rfl, by omega⟩
      have hsent : KeyFits .v5PublishSent msgId := fun h => by cases h.1
      simp [sentStems, hfive, hsent, hsmall]
  simp only [htake]

end MQTTPersistence
end PahoMqtt
