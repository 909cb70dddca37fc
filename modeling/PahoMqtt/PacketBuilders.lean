import PahoMqtt.PacketOut
import PahoMqtt.PropertyLengths
import PahoMqtt.Lib.Buffers
import PahoMqtt.Lib.CStrings

/-!
# The buffers of the packets that are sent

Every function that builds a packet computes a length, asks for a buffer of this
length and writes the parts of the packet into it one after the other.  The
lengths are computed as an `int`, which for a long list of topics can wrap round
to a number that is smaller than what is written.
-/

namespace PahoMqtt

open Lib

/-- `malloc`: a block of the size that is asked for, or NULL. -/
abbrev Malloc := (size : Nat) → Option {buffer : Bytes // buffer.length = size}

/-- There is no block of this size. -/
def Malloc.Refuses (malloc : Malloc) (size : Nat) : Prop :=
  malloc size = none

/-- `willMessages` -/
structure WillMessage where
  topic : Bytes
  payload : Bytes
  retained : Bool
  qos : Nat
deriving DecidableEq

/-- The members of `Clients` that a CONNECT packet is built from. -/
structure ConnectClient where
  clientID : Bytes
  username : Option Bytes
  password : Option Bytes
  cleansession : Bool
  cleanstart : Bool
  keepAliveInterval : Nat
  will : Option WillMessage
deriving DecidableEq

/-- `MQTTSubscribe_options` -/
structure SubscribeOptions where
  noLocal : UInt8
  retainAsPublished : UInt8
  retainHandling : UInt8
deriving DecidableEq

namespace MQTTProperties

open MQTTPacket

/-- `MQTTProperties_len` of a pointer. -/
def lenAt : Option Properties → Int
  | none => 1
  | some props => len props

/-- `MQTTProperties_write` of a pointer. -/
def writeAt : Option Properties → Bytes
  | none => encode 0
  | some props => write props

/-- The computed length is that of the bytes written. -/
def Counted (props : Option Properties) : Prop :=
  lenAt props = (writeAt props).length

theorem counted_none :
    Counted none := by
  unfold Counted
  decide

end MQTTProperties

namespace MQTTPacket

open MQTTProperties

/-! ### Parts -/

/-- `writeUTF` -/
def writeUTF (string : Bytes) : Bytes :=
  writeInt (strlen string) ++ string.take (strlen string)

/-- `writeData` -/
def writeData (data : Bytes) : Bytes :=
  writeInt data.length ++ data

/-- A buffer: the `int` that is computed for its length, and what is written into it. -/
structure Allocation where
  len : Int
  parts : List Bytes

/-- What becomes of the buffers of a packet. -/
inductive Filling where
  | notAllocated
  | abandoned
  | overrun
  | written (buffers : List Bytes)
deriving DecidableEq

/-- Blocks for all buffers, or none. -/
def allocate (malloc : Malloc) : List Allocation → Option (List (Bytes × List Bytes))
  | [] => some []
  | allocation :: rest =>
      (malloc (toSize allocation.len)).bind fun buffer =>
        (allocate malloc rest).map ((buffer.1, allocation.parts) :: ·)

/-- Allocate the buffers, and write the parts of each into it. -/
def fill (malloc : Malloc) (allocations : List Allocation) : Filling :=
  match allocate malloc allocations with
  | none => .notAllocated
  | some buffers =>
      match buffers.mapM fun buffer => storeParts buffer.1 0 buffer.2 with
      | none => .overrun
      | some buffers => .written buffers

/-- The packet is sent from its buffer; without one the return code is an error. -/
def sendFilled (env : Env) (net : Net) (header : Header) (filling : Filling) (MQTTVersion : Nat) :
    Except ReadError (Int × Net) :=
  match filling with
  | .notAllocated | .abandoned => .ok (SOCKET_ERROR, net)
  | .overrun => .error .outOfBounds
  | .written buffers => .ok (send env net header buffers.flatten MQTTVersion)

/-! ### CONNECT -/

/-- The flags of a CONNECT packet, the lowest bit first. -/
def connectFlags (client : ConnectClient) (MQTTVersion : Nat) : UInt8 :=
  let cleanstart := if MQTTVersion ≥ 5 then client.cleanstart else client.cleansession
  UInt8.ofNat (2 * cleanstart.toNat +
    (match client.will with
      | some will => 4 + 8 * (will.qos % 4) + 32 * will.retained.toNat
      | none => 0) +
    64 * client.password.isSome.toNat + 128 * client.username.isSome.toNat)

/-- `len` of `MQTTPacket_send_connect` -/
def connectLen (client : ConnectClient) (MQTTVersion : Nat)
    (connectProperties willProperties : Option Properties) : Int :=
  let len := toInt ((if MQTTVersion = 3 then 12 else 10) + strlen client.clientID + 2)
  let len := match client.will with
    | some will => toInt (len + (strlen will.topic + 2 + will.payload.length + 2))
    | none => len
  let len := match client.username with
    | some username => toInt (len + (strlen username + 2))
    | none => len
  let len := match client.password with
    | some password => toInt (len + (password.length + 2))
    | none => len
  if MQTTVersion ≥ 5 then
    let len := toInt (len + lenAt connectProperties)
    match client.will with
    | some _ => toInt (len + lenAt willProperties)
    | none => len
  else
    len

def connectParts (client : ConnectClient) (MQTTVersion : Nat)
    (connectProperties willProperties : Option Properties) : List Bytes :=
  (if MQTTVersion = 3 then [writeUTF (ascii "MQIsdp"), writeChar 3]
    else [writeUTF (ascii "MQTT"), writeChar (UInt8.ofNat MQTTVersion)]) ++
  [writeChar (connectFlags client MQTTVersion), writeInt client.keepAliveInterval] ++
  (if MQTTVersion ≥ 5 then [writeAt connectProperties] else []) ++
  [writeUTF client.clientID] ++
  (match client.will with
    | some will =>
        (if MQTTVersion ≥ 5 then [writeAt willProperties] else []) ++
          [writeUTF will.topic, writeData will.payload]
    | none => []) ++
  (client.username.map writeUTF).toList ++
  (client.password.map writeData).toList

/-- The versions that `MQTTPacket_send_connect` knows; for others it gives the buffer back. -/
def ConnectVersion (MQTTVersion : Nat) : Prop :=
  MQTTVersion = 3 ∨ MQTTVersion = 4 ∨ MQTTVersion = 5

instance (MQTTVersion : Nat) : Decidable (ConnectVersion MQTTVersion) :=
  inferInstanceAs (Decidable (_ ∨ _))

def connectFilling (malloc : Malloc) (client : ConnectClient) (MQTTVersion : Nat)
    (connectProperties willProperties : Option Properties) : Filling :=
  let len := connectLen client MQTTVersion connectProperties willProperties
  if ConnectVersion MQTTVersion then
    fill malloc [⟨len, connectParts client MQTTVersion connectProperties willProperties⟩]
  else if (malloc (toSize len)).isSome then
    .abandoned
  else
    .notAllocated

/-- `MQTTPacket_send_connect` -/
def send_connect (malloc : Malloc) (env : Env) (net : Net) (client : ConnectClient)
    (MQTTVersion : Nat) (connectProperties willProperties : Option Properties) :
    Except ReadError (Int × Net) :=
  sendFilled env net ⟨.connect, false, 0, false⟩
    (connectFilling malloc client MQTTVersion connectProperties willProperties) MQTTVersion

/-! ### SUBSCRIBE and UNSUBSCRIBE -/

/-- Add the lengths of the topics to `datalen`. -/
def addTopics (datalen : Int) (topics : List Bytes) : Int :=
  topics.foldl (fun datalen topic => toInt (datalen + toInt (strlen topic))) datalen

/-- `datalen` of `MQTTPacket_send_subscribe` and `MQTTPacket_send_unsubscribe` -/
def requestLen (topics : List Bytes) (perTopic : Nat) (props : Option Properties)
    (MQTTVersion : Nat) : Int :=
  let datalen := addTopics (toInt (2 + toInt (topics.length * perTopic))) topics
  if MQTTVersion ≥ 5 then toInt (datalen + lenAt props) else datalen

def subopts (MQTTVersion : Nat) (opts : Option (Nat → SubscribeOptions)) (i qos : Nat) : UInt8 :=
  match opts with
  | some opts =>
      if MQTTVersion ≥ 5 then
        UInt8.ofNat qos ||| (opts i).noLocal <<< 2 ||| (opts i).retainAsPublished <<< 3 |||
          (opts i).retainHandling <<< 4
      else
        UInt8.ofNat qos
  | none => UInt8.ofNat qos

/-- The loop over the topics with their QoSs; `i` is the index of the options. -/
def subscribeTopics (MQTTVersion : Nat) (opts : Option (Nat → SubscribeOptions)) :
    (i : Nat) → List (Bytes × Nat) → List Bytes
  | _, [] => []
  | i, (topic, qos) :: rest =>
      writeUTF topic :: writeChar (subopts MQTTVersion opts i qos) ::
        subscribeTopics MQTTVersion opts (i + 1) rest

def subscribeAllocation (topics : List (Bytes × Nat)) (opts : Option (Nat → SubscribeOptions))
    (props : Option Properties) (msgid : MsgId) (MQTTVersion : Nat) : Allocation where
  len := requestLen (topics.map Prod.fst) 3 props MQTTVersion
  parts :=
    [writeInt msgid.toNat] ++ (if MQTTVersion ≥ 5 then [writeAt props] else []) ++
      subscribeTopics MQTTVersion opts 0 topics

def unsubscribeAllocation (topics : List Bytes) (props : Option Properties) (msgid : MsgId)
    (MQTTVersion : Nat) : Allocation where
  len := requestLen topics 2 props MQTTVersion
  parts :=
    [writeInt msgid.toNat] ++ (if MQTTVersion ≥ 5 then [writeAt props] else []) ++
      topics.map writeUTF

/-- `MQTTPacket_send_subscribe` -/
def send_subscribe (malloc : Malloc) (env : Env) (net : Net) (topics : List (Bytes × Nat))
    (opts : Option (Nat → SubscribeOptions)) (props : Option Properties) (msgid : MsgId)
    (dup : Bool) (MQTTVersion : Nat) : Except ReadError (Int × Net) :=
  sendFilled env net ⟨.subscribe, dup, 1, false⟩
    (fill malloc [subscribeAllocation topics opts props msgid MQTTVersion]) MQTTVersion

/-- `MQTTPacket_send_unsubscribe` -/
def send_unsubscribe (malloc : Malloc) (env : Env) (net : Net) (topics : List Bytes)
    (props : Option Properties) (msgid : MsgId) (dup : Bool) (MQTTVersion : Nat) :
    Except ReadError (Int × Net) :=
  sendFilled env net ⟨.unsubscribe, dup, 1, false⟩
    (fill malloc [unsubscribeAllocation topics props msgid MQTTVersion]) MQTTVersion

/-! ### PUBLISH and DISCONNECT -/

/-- The buffers of `MQTTPacket_send_publish` that are not the caller's. -/
def publishAllocations (pack : Publish) (qos : Nat) : List Allocation :=
  ⟨2, [writeInt (strlen pack.topic)]⟩ ::
    if qos > 0 ∨ pack.MQTTVersion ≥ 5 then
      [{ len := toInt ((if qos > 0 then 2 else 0) +
            if pack.MQTTVersion ≥ 5 then len pack.properties else 0)
         parts :=
          (if qos > 0 then [writeInt pack.msgId.toNat] else []) ++
            if pack.MQTTVersion ≥ 5 then [write pack.properties] else [] }]
    else
      []

/-- The buffer of `MQTTPacket_send_disconnect`, if there is anything to say. -/
def disconnectAllocations (MQTTVersion : Nat) (reason : UInt8) (props : Option Properties) :
    List Allocation :=
  if MQTTVersion ≥ 5 ∧ (props.isSome ∨ reason ≠ 0) then
    [{ len := toInt (1 + match props with | none => 0 | some props => len props)
       parts := writeChar reason :: (props.map write).toList }]
  else
    []

/-- `MQTTPacket_send_disconnect` -/
def send_disconnect (malloc : Malloc) (env : Env) (net : Net) (reason : UInt8)
    (props : Option Properties) (MQTTVersion : Nat) : Except ReadError (Int × Net) :=
  sendFilled env net ⟨.disconnect, false, 0, false⟩
    (fill malloc (disconnectAllocations MQTTVersion reason props)) MQTTVersion

/-! ### All builders -/

/-- The calls that build packets with buffers of their own. -/
inductive BuilderCall where
  | connect (client : ConnectClient) (MQTTVersion : Nat)
      (connectProperties willProperties : Option Properties)
  | subscribe (topics : List (Bytes × Nat)) (opts : Option (Nat → SubscribeOptions))
      (props : Option Properties) (msgid : MsgId) (MQTTVersion : Nat)
  | unsubscribe (topics : List Bytes) (props : Option Properties) (msgid : MsgId)
      (MQTTVersion : Nat)
  | publish (pack : Publish) (qos : Nat)
  | disconnect (MQTTVersion : Nat) (reason : UInt8) (props : Option Properties)

namespace BuilderCall

/-- A CONNECT is of one of the versions of the protocol. -/
def Supported : BuilderCall → Prop
  | .connect _ MQTTVersion _ _ => ConnectVersion MQTTVersion
  | _ => True

def allocations : BuilderCall → List Allocation
  | .connect client MQTTVersion connectProperties willProperties =>
      [⟨connectLen client MQTTVersion connectProperties willProperties,
        connectParts client MQTTVersion connectProperties willProperties⟩]
  | .subscribe topics opts props msgid MQTTVersion =>
      [subscribeAllocation topics opts props msgid MQTTVersion]
  | .unsubscribe topics props msgid MQTTVersion =>
      [unsubscribeAllocation topics props msgid MQTTVersion]
  | .publish pack qos => publishAllocations pack qos
  | .disconnect MQTTVersion reason props => disconnectAllocations MQTTVersion reason props

def filling (malloc : Malloc) : BuilderCall → Filling
  | .connect client MQTTVersion connectProperties willProperties =>
      connectFilling malloc client MQTTVersion connectProperties willProperties
  | call => fill malloc call.allocations

/-- The property lists that a packet is given. -/
def propertyLists : BuilderCall → List (Option Properties)
  | .connect _ _ connectProperties willProperties => [connectProperties, willProperties]
  | .subscribe _ _ props _ _ => [props]
  | .unsubscribe _ props _ _ => [props]
  | .publish pack _ => [some pack.properties]
  | .disconnect _ _ props => [props]

/-- The bytes of the properties, which only an MQTT 5 packet has. -/
def propertySize (MQTTVersion : Nat) (props : Option Properties) : Nat :=
  if MQTTVersion ≥ 5 then (writeAt props).length else 0

/-- The numbers of bytes that belong into the buffers. -/
def sizes : BuilderCall → List Nat
  | .connect client MQTTVersion connectProperties willProperties =>
      [(if MQTTVersion = 3 then 12 else 10) + propertySize MQTTVersion connectProperties +
        (2 + strlen client.clientID) +
        (match client.will with
          | some will => propertySize MQTTVersion willProperties + (2 + strlen will.topic) +
              (2 + will.payload.length)
          | none => 0) +
        (match client.username with | some username => 2 + strlen username | none => 0) +
        (match client.password with | some password => 2 + password.length | none => 0)]
  | .subscribe topics _ props _ MQTTVersion =>
      [2 + propertySize MQTTVersion props +
        (topics.map fun topic => 3 + strlen topic.1).sum]
  | .unsubscribe topics props _ MQTTVersion =>
      [2 + propertySize MQTTVersion props + (topics.map fun topic => 2 + strlen topic).sum]
  | .publish pack qos =>
      if qos > 0 ∨ pack.MQTTVersion ≥ 5 then
        [2, (if qos > 0 then 2 else 0) + propertySize pack.MQTTVersion pack.properties]
      else
        [2]
  | .disconnect MQTTVersion reason props =>
      if MQTTVersion ≥ 5 ∧ (props.isSome ∨ reason ≠ 0) then
        [1 + match props with | none => 0 | some props => (write props).length]
      else
        []

/-- Either there is no memory, or all that is written fills the buffers to their ends. -/
def FillsExactly (malloc : Malloc) (call : BuilderCall) : Prop :=
  call.filling malloc = .notAllocated ∨
    call.filling malloc = .written (call.allocations.map fun allocation => allocation.parts.flatten)

end BuilderCall

/-! ### Lengths -/

theorem strlen_le_length
    (s : Bytes) :
    strlen s ≤ s.length := by
  induction s with
  | nil => exact le_rfl
  | cons b s ih =>
      rw [strlen, List.length_cons]
      split <;> omega

@[simp] theorem writeChar_length
    (c : UInt8) :
    (writeChar c).length = 1 := by
  rfl

@[simp] theorem writeUTF_length
    (string : Bytes) :
    (writeUTF string).length = 2 + strlen string := by
  have hle := strlen_le_length string
  simp only [writeUTF, List.length_append, writeInt_length, List.length_take]
  omega

@[simp] theorem writeData_length
    (data : Bytes) :
    (writeData data).length = 2 + data.length := by
  simp [writeData]

@[simp] theorem toInt_toInt_add
    (m n : Int) :
    toInt (toInt m + n) = toInt (m + n) := by
  simp [toInt]

@[simp] theorem toInt_add_toInt
    (m n : Int) :
    toInt (m + toInt n) = toInt (m + n) := by
  simp [toInt]

theorem addTopics_eq
    (datalen : Int) (topics : List Bytes) :
    addTopics (toInt datalen) topics = toInt (datalen + (topics.map strlen).sum) := by
  unfold addTopics
  induction topics generalizing datalen with
  | nil => simp
  | cons topic topics ih =>
      rw [List.foldl_cons, toInt_add_toInt, toInt_toInt_add, ih, List.map_cons, List.sum_cons]
      push_cast
      rw [Int.add_assoc]

theorem sum_map_add_strlen
    (n : Nat) (topics : List Bytes) :
    (topics.map fun topic => n + strlen topic).sum =
      topics.length * n + (topics.map strlen).sum := by
  induction topics with
  | nil => simp
  | cons topic topics ih =>
      simp only [List.map_cons, List.sum_cons, List.length_cons, ih, Nat.add_mul]
      omega

theorem propertySize_eq
    {MQTTVersion : Nat} {props : Option Properties}
    (hcounted : Counted props) :
    (BuilderCall.propertySize MQTTVersion props : Int) =
      if MQTTVersion ≥ 5 then lenAt props else 0 := by
  unfold BuilderCall.propertySize
  split
  · exact hcounted.symm
  · rfl

theorem requestLen_eq
    (topics : List Bytes) (perTopic : Nat) {props : Option Properties} (MQTTVersion : Nat)
    (hcounted : Counted props) :
    requestLen topics perTopic props MQTTVersion =
      toInt ((2 + BuilderCall.propertySize MQTTVersion props +
        (topics.map fun topic => perTopic + strlen topic).sum : Nat) : Int) := by
  have hprops := @propertySize_eq MQTTVersion props hcounted
  unfold requestLen
  rw [sum_map_add_strlen]
  push_cast
  rw [hprops, toInt_add_toInt, addTopics_eq]
  split
  · rw [toInt_toInt_add]
    congr 1
    push_cast
    ring
  · congr 1
    push_cast
    ring

theorem subscribeTopics_length
    (MQTTVersion : Nat) (opts : Option (Nat → SubscribeOptions)) (i : Nat)
    (topics : List (Bytes × Nat)) :
    (subscribeTopics MQTTVersion opts i topics).flatten.length =
      (topics.map fun topic => 3 + strlen topic.1).sum := by
  induction topics generalizing i with
  | nil => rfl
  | cons entry topics ih =>
      obtain ⟨topic, qos⟩ := entry
      simp only [subscribeTopics, List.flatten_cons, List.length_append, writeUTF_length,
        writeChar_length, ih, List.map_cons, List.sum_cons]
      omega

/-! ### Filling -/

theorem allocate_eq_none_iff
    (malloc : Malloc) (allocations : List Allocation) :
    allocate malloc allocations = none ↔
      ∃ allocation ∈ allocations, malloc.Refuses (toSize allocation.len) := by
  induction allocations with
  | nil => simp [allocate]
  | cons allocation rest ih =>
      rw [List.exists_mem_cons_iff, ← ih, allocate, Malloc.Refuses]
      cases malloc (toSize allocation.len) <;> simp

/-- The blocks have the sizes that were asked for. -/
theorem allocate_eq_some
    {malloc : Malloc} {allocations : List Allocation} {buffers : List (Bytes × List Bytes)}
    (h : allocate malloc allocations = some buffers) :
    List.Forall₂ (fun allocation buffer =>
      buffer.1.length = toSize allocation.len ∧ buffer.2 = allocation.parts)
      allocations buffers := by
  induction allocations generalizing buffers with
  | nil =>
      cases h
      exact .nil
  | cons allocation rest ih =>
      simp only [allocate, Option.bind_eq_some_iff, Option.map_eq_some_iff] at h
      obtain ⟨buffer, _, buffers, hrest, rfl⟩ := h
      exact .cons ⟨buffer.2, rfl⟩ (ih hrest)

/-- Buffers are filled to their ends when their sizes are the lengths of what is written. -/
theorem mapM_storeParts_iff
    {allocations : List Allocation} {buffers : List (Bytes × List Bytes)}
    (h : List.Forall₂ (fun allocation buffer =>
      buffer.1.length = toSize allocation.len ∧ buffer.2 = allocation.parts)
      allocations buffers) :
    (buffers.mapM fun buffer => storeParts buffer.1 0 buffer.2) =
        some (allocations.map fun allocation => allocation.parts.flatten) ↔
      ∀ allocation ∈ allocations, allocation.parts.flatten.length = toSize allocation.len := by
  induction h with
  | nil => simp
  | @cons allocation buffer allocations buffers hbuffer hrest ih =>
      obtain ⟨hlength, hparts⟩ := hbuffer
      have hstore := storeParts_eq_flatten_iff buffer.1 buffer.2
      rw [hlength, hparts] at hstore
      rw [List.forall_mem_cons, ← hstore, ← ih, List.mapM_cons, hparts]
      cases storeParts buffer.1 0 allocation.parts with
      | none => simp
      | some stored =>
          cases List.mapM (fun buffer => storeParts buffer.1 0 buffer.2) buffers <;> simp

theorem fill_exact_iff
    (malloc : Malloc) (allocations : List Allocation) :
    (fill malloc allocations = .notAllocated ∨
      fill malloc allocations =
        .written (allocations.map fun allocation => allocation.parts.flatten)) ↔
      (∃ allocation ∈ allocations, malloc.Refuses (toSize allocation.len)) ∨
        ∀ allocation ∈ allocations, allocation.parts.flatten.length = toSize allocation.len := by
  rw [← allocate_eq_none_iff]
  unfold fill
  cases hallocate : allocate malloc allocations with
  | none => simp
  | some buffers =>
      rw [← mapM_storeParts_iff (allocate_eq_some hallocate)]
      dsimp only
      generalize List.mapM (fun buffer => storeParts buffer.1 0 buffer.2) buffers = stored
      cases stored <;> simp

/-! ### Computed lengths -/

/-- The `int` is that of the number of bytes, and as many are written. -/
def Allocation.HasSize (allocation : Allocation) (size : Nat) : Prop :=
  allocation.len = toInt size ∧ allocation.parts.flatten.length = size

theorem connect_hasSize
    (client : ConnectClient) (MQTTVersion : Nat)
    {connectProperties willProperties : Option Properties}
    (hconnect : Counted connectProperties)
    (hwill : Counted willProperties) :
    List.Forall₂ Allocation.HasSize
      (BuilderCall.connect client MQTTVersion connectProperties willProperties).allocations
      (BuilderCall.connect client MQTTVersion connectProperties willProperties).sizes := by
  refine .cons ⟨?_, ?_⟩ .nil
  · have h₁ := @propertySize_eq MQTTVersion connectProperties hconnect
    have h₂ := @propertySize_eq MQTTVersion willProperties hwill
    obtain ⟨clientID, username, password, cleansession, cleanstart, keepAlive, will⟩ := client
    simp only [connectLen]
    push_cast
    cases will <;> cases username <;> cases password <;> by_cases hv : MQTTVersion ≥ 5 <;>
      simp only [hv, if_true, if_false, h₁, h₂, toInt_toInt_add, Nat.cast_zero, Nat.cast_add] <;>
      congr 1 <;> push_cast <;> ring
  · have hprotocol : (writeUTF (ascii "MQIsdp")).length = 8 := by
      decide
    have hprotocol' : (writeUTF (ascii "MQTT")).length = 6 := by
      decide
    obtain ⟨clientID, username, password, cleansession, cleanstart, keepAlive, will⟩ := client
    simp only [connectParts, BuilderCall.propertySize, List.flatten_append, List.length_append]
    have hfront : (if MQTTVersion = 3 then [writeUTF (ascii "MQIsdp"), writeChar 3]
        else [writeUTF (ascii "MQTT"), writeChar (UInt8.ofNat MQTTVersion)]).flatten.length + 3 =
          if MQTTVersion = 3 then 12 else 10 := by
      split <;> simp [hprotocol, hprotocol']
    cases will <;> cases username <;> cases password <;> by_cases hv : MQTTVersion ≥ 5 <;>
      simp [hv] at hfront ⊢ <;> omega

theorem subscribe_hasSize
    (topics : List (Bytes × Nat)) (opts : Option (Nat → SubscribeOptions))
    {props : Option Properties} (msgid : MsgId) (MQTTVersion : Nat)
    (hprops : Counted props) :
    (subscribeAllocation topics opts props msgid MQTTVersion).HasSize
      (2 + BuilderCall.propertySize MQTTVersion props +
        (topics.map fun topic => 3 + strlen topic.1).sum) := by
  constructor
  · have hlen := requestLen_eq (topics.map Prod.fst) 3 MQTTVersion hprops
    rw [List.map_map] at hlen
    exact hlen
  · simp only [subscribeAllocation, List.flatten_append, List.length_append,
      subscribeTopics_length, BuilderCall.propertySize]
    split <;> simp

theorem unsubscribe_hasSize
    (topics : List Bytes) {props : Option Properties} (msgid : MsgId) (MQTTVersion : Nat)
    (hprops : Counted props) :
    (unsubscribeAllocation topics props msgid MQTTVersion).HasSize
      (2 + BuilderCall.propertySize MQTTVersion props +
        (topics.map fun topic => 2 + strlen topic).sum) := by
  constructor
  · exact requestLen_eq topics 2 MQTTVersion hprops
  · have hsum : (topics.map writeUTF).flatten.length =
        (topics.map fun topic => 2 + strlen topic).sum := by
      simp [List.length_flatten, List.map_map, Function.comp_def]
    simp only [unsubscribeAllocation, List.flatten_append, List.length_append, hsum,
      BuilderCall.propertySize]
    split <;> simp

theorem publish_hasSize
    (pack : Publish) (qos : Nat)
    (hprops : Counted (some pack.properties)) :
    List.Forall₂ Allocation.HasSize (publishAllocations pack qos)
      (BuilderCall.publish pack qos).sizes := by
  have htopic : Allocation.HasSize ⟨2, [writeInt (strlen pack.topic)]⟩ 2 := by
    constructor
    · change (2 : Int) = toInt 2
      decide
    · simp
  have hsize := @propertySize_eq pack.MQTTVersion (some pack.properties) hprops
  unfold publishAllocations
  simp only [BuilderCall.sizes]
  by_cases hmore : qos > 0 ∨ pack.MQTTVersion ≥ 5
  · rw [if_pos hmore, if_pos hmore]
    refine .cons htopic (.cons ⟨?_, ?_⟩ .nil)
    · push_cast
      rw [hsize]
      rfl
    · simp only [List.flatten_append, List.length_append, BuilderCall.propertySize]
      by_cases hqos : qos > 0 <;> by_cases hversion : pack.MQTTVersion ≥ 5 <;>
        simp [hqos, hversion, writeAt]
  · rw [if_neg hmore, if_neg hmore]
    exact .cons htopic .nil

theorem disconnect_hasSize
    (MQTTVersion : Nat) (reason : UInt8) {props : Option Properties}
    (hprops : Counted props) :
    List.Forall₂ Allocation.HasSize (disconnectAllocations MQTTVersion reason props)
      (BuilderCall.disconnect MQTTVersion reason props).sizes := by
  unfold disconnectAllocations
  simp only [BuilderCall.sizes]
  split
  · refine .cons ⟨?_, ?_⟩ .nil
    · cases props with
      | none => rfl
      | some props =>
          have hlen : len props = (write props).length := hprops
          push_cast
          rw [hlen]
    · cases props <;> simp
  · exact .nil

/-- The buffers that are sent are those that were filled, with the caller's topic and payload. -/
theorem publishBuffers_filled
    (pack : Publish) (qos : Nat) :
    ∃ topiclen more,
      ((publishAllocations pack qos).map fun allocation => allocation.parts.flatten) =
        topiclen :: more ∧
      publishBuffers pack qos =
        topiclen :: pack.topic.take (strlen pack.topic) :: (more ++ [pack.payload]) := by
  unfold publishAllocations publishBuffers publishVariable
  by_cases hmore : qos > 0 ∨ pack.MQTTVersion ≥ 5
  · by_cases hqos : qos > 0 <;> by_cases hversion : pack.MQTTVersion ≥ 5 <;>
      simp [hqos, hversion]
  · rw [if_neg hmore, if_neg hmore]
    exact ⟨_, [], rfl, rfl⟩

/-- Each computed length is that of what is written, taken as an `int`. -/
theorem allocations_hasSize
    (call : BuilderCall)
    (hcounted : ∀ props ∈ call.propertyLists, Counted props) :
    List.Forall₂ Allocation.HasSize call.allocations call.sizes := by
  cases call with
  | connect client MQTTVersion connectProperties willProperties =>
      exact connect_hasSize client MQTTVersion (hcounted _ (by simp [BuilderCall.propertyLists]))
        (hcounted _ (by simp [BuilderCall.propertyLists]))
  | subscribe topics opts props msgid MQTTVersion =>
      exact .cons (subscribe_hasSize topics opts msgid MQTTVersion
        (hcounted _ (by simp [BuilderCall.propertyLists]))) .nil
  | unsubscribe topics props msgid MQTTVersion =>
      exact .cons (unsubscribe_hasSize topics msgid MQTTVersion
        (hcounted _ (by simp [BuilderCall.propertyLists]))) .nil
  | publish pack qos =>
      exact publish_hasSize pack qos (hcounted _ (by simp [BuilderCall.propertyLists]))
  | disconnect MQTTVersion reason props =>
      exact disconnect_hasSize MQTTVersion reason (hcounted _ (by simp [BuilderCall.propertyLists]))

theorem filling_eq
    (malloc : Malloc) {call : BuilderCall}
    (hsupported : call.Supported) :
    call.filling malloc = fill malloc call.allocations := by
  cases call with
  | connect client MQTTVersion connectProperties willProperties =>
      exact if_pos hsupported
  | subscribe | unsubscribe | publish | disconnect => rfl

/-- The blocks are refused, or their sizes come through the `int` unchanged. -/
def BuilderCall.Fits (malloc : Malloc) (call : BuilderCall) : Prop :=
  (∃ size ∈ call.sizes, malloc.Refuses (toSize (toInt size))) ∨
    ∀ size ∈ call.sizes, toSize (toInt size) = size

theorem refuses_iff_sizes
    (malloc : Malloc) {allocations : List Allocation} {sizes : List Nat}
    (h : List.Forall₂ Allocation.HasSize allocations sizes) :
    (∃ allocation ∈ allocations, malloc.Refuses (toSize allocation.len)) ↔
      ∃ size ∈ sizes, malloc.Refuses (toSize (toInt size)) := by
  induction h with
  | nil => simp
  | cons hsize _ ih =>
      obtain ⟨hlen, _⟩ := hsize
      simp only [List.mem_cons, exists_eq_or_imp, ih, hlen]

/-- What is written comes to the length of the buffer where its size comes through the `int`. -/
theorem filled_iff_sizes
    {allocations : List Allocation} {sizes : List Nat}
    (h : List.Forall₂ Allocation.HasSize allocations sizes) :
    (∀ allocation ∈ allocations, allocation.parts.flatten.length = toSize allocation.len) ↔
      ∀ size ∈ sizes, toSize (toInt size) = size := by
  induction h with
  | nil => simp
  | cons hsize _ ih =>
      obtain ⟨hlen, hparts⟩ := hsize
      rw [List.forall_mem_cons, List.forall_mem_cons, ih, hlen, hparts, eq_comm]

/--
Every builder fills just the buffers it allocates, unless a number of bytes
that is not itself as an `int` is small enough to be allocated.
-/
theorem builders_fillExactly_iff
    (malloc : Malloc) (call : BuilderCall)
    (hsupported : call.Supported)
    (hcounted : ∀ props ∈ call.propertyLists, Counted props) :
    call.FillsExactly malloc ↔ call.Fits malloc := by
  unfold BuilderCall.FillsExactly
  have hsizes := allocations_hasSize call hcounted
  rw [filling_eq malloc hsupported, fill_exact_iff, refuses_iff_sizes malloc hsizes,
    filled_iff_sizes hsizes]
  rfl

/-- An allocator that never refuses. -/
def unlimited : Malloc := fun size => some ⟨List.replicate size 0, List.length_replicate⟩

theorem builders_fillExactly_iff_subscribe :
    BuilderCall.FillsExactly unlimited (.subscribe [([97], 1)] none none 1 5) := by
  refine (builders_fillExactly_iff unlimited (.subscribe [([97], 1)] none none 1 5) trivial
    ?_).mpr (.inr ?_)
  · simp [BuilderCall.propertyLists, counted_none]
  · intro size hsize
    have hsizes : (BuilderCall.subscribe [([97], 1)] none none 1 5).sizes = [7] := by
      decide
    rw [hsizes, List.mem_singleton] at hsize
    subst hsize
    decide

/-- 65537 times one topic of 65535 bytes. -/
def manyTopics : List (Bytes × Nat) :=
  List.replicate 65537 (List.replicate 65535 97, 0)

/-- Topics whose lengths come to more than 2 to the 32nd are written behind the buffer's end. -/
theorem subscribe_not_filled
    {topics : List (Bytes × Nat)}
    (htopics : (topics.map fun topic => 3 + strlen topic.1).sum = 4295163906) :
    (subscribeAllocation topics none none 1 4).len = 196612 ∧
      ¬BuilderCall.FillsExactly unlimited (.subscribe topics none none 1 4) := by
  obtain ⟨hlen, hparts⟩ := subscribe_hasSize topics none 1 4 counted_none
  have htotal : 2 + BuilderCall.propertySize 4 none +
      (topics.map fun topic => 3 + strlen topic.1).sum = 4295163908 := by
    rw [htopics]
    rfl
  have hwrapped : toInt (4295163908 : Nat) = 196612 := by
    decide
  rw [htotal, hwrapped] at hlen
  rw [htotal] at hparts
  refine ⟨hlen, ?_⟩
  intro h
  rcases (fill_exact_iff unlimited [subscribeAllocation topics none none 1 4]).mp h with
    ⟨allocation, _, hrefuses⟩ | hfilled
  · cases hrefuses
  · have hsame := hfilled _ List.mem_cons_self
    rw [hparts, hlen] at hsame
    exact absurd hsame (by decide)

/-- More than 4 GiB are written into a buffer of 196612 bytes. -/
theorem many_topics_not_filled :
    (subscribeAllocation manyTopics none none 1 4).len = 196612 ∧
      ¬BuilderCall.FillsExactly unlimited (.subscribe manyTopics none none 1 4) := by
  have hstrlen : ∀ n, strlen (List.replicate n 97) = n := by
    intro n
    rw [strlen_eq_length, List.length_replicate]
    intro hnul
    exact absurd (List.eq_of_mem_replicate hnul) (by decide)
  have hsum : ∀ m n : Nat, ((List.replicate m ((List.replicate n 97, 0) : Bytes × Nat)).map
      fun topic => 3 + strlen topic.1).sum = m * (3 + n) := by
    intro m n
    rw [List.map_replicate, List.sum_replicate, hstrlen, smul_eq_mul]
  exact subscribe_not_filled (hsum 65537 65535)

end MQTTPacket
end PahoMqtt
