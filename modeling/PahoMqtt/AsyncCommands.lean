import PahoMqtt.PersistenceKeys

/-!
# Queued commands and their records

The commands of the asynchronous client (MQTTAsyncUtils.h), the record that
`MQTTAsync_persistCommand` writes for one, and `MQTTAsync_restoreCommand`,
which reads a record in two phases: at start-up, when it builds a command that
is still `not_restored`, and again when the command's turn comes.

Integers are written as they stand in memory, so the record depends on the
host's representation of an `int`.
-/

namespace PahoMqtt

open MQTTPacket

/-- How the host represents an `int` of four bytes. -/
structure HostInt where
  bytes : Int32 → Bytes
  value : Bytes → Int32
  length_bytes : ∀ n, (bytes n).length = 4
  value_bytes : ∀ n, value (bytes n) = n

namespace HostInt

/-- The low byte first. -/
def littleEndian : HostInt where
  bytes n := [UInt8.ofNat n.toUInt32.toNat, UInt8.ofNat (n.toUInt32.toNat / 256),
    UInt8.ofNat (n.toUInt32.toNat / 65536), UInt8.ofNat (n.toUInt32.toNat / 16777216)]
  value
    | [b₀, b₁, b₂, b₃] =>
        (UInt32.ofNat (b₀.toNat + 256 * b₁.toNat + 65536 * b₂.toNat + 16777216 * b₃.toNat)).toInt32
    | _ => 0
  length_bytes _ := rfl
  value_bytes n := by
    have hlt := n.toUInt32.toNat_lt
    have hsum : n.toUInt32.toNat % 256 + 256 * (n.toUInt32.toNat / 256 % 256) +
        65536 * (n.toUInt32.toNat / 65536 % 256) +
        16777216 * (n.toUInt32.toNat / 16777216 % 256) = n.toUInt32.toNat := by
      omega
    simp only [UInt8.toNat_ofNat', Nat.reducePow, hsum, UInt32.ofNat_toNat]
    rfl

/-- `*(int*)ptr`, checked against the end of the buffer. -/
def read (host : HostInt) (buf : Bytes) (pos : Nat) : Except ReadError (Int32 × Nat) :=
  if pos + 4 > buf.length then
    .error .malformed
  else
    .ok (host.value ((buf.drop pos).take 4), pos + 4)

theorem reads_bytes
    (host : HostInt) (n : Int32) :
    Lib.Reader.Reads host.read (host.bytes n) n (fun _ => True) := by
  intro buf pos rest h _
  have hroom : pos + 4 ≤ buf.length := by
    have hlen := congrArg List.length h
    rw [List.length_drop, List.length_append, host.length_bytes] at hlen
    omega
  have htake : (host.bytes n ++ rest).take 4 = host.bytes n :=
    List.take_left' (host.length_bytes n)
  rw [read, if_neg (by omega), h, htake, host.value_bytes, host.length_bytes]

end HostInt

/-- `MQTTSubscribe_options`, with the byte that fills it up to its alignment. -/
structure MQTTSubscribeOptions where
  struct_id : UInt8 × UInt8 × UInt8 × UInt8
  struct_version : Int32
  noLocal : UInt8
  retainAsPublished : UInt8
  retainHandling : UInt8
  padding : UInt8
deriving DecidableEq, Repr

namespace MQTTSubscribeOptions

/-- What `memset` leaves. -/
def zero : MQTTSubscribeOptions := ⟨(0, 0, 0, 0), 0, 0, 0, 0, 0⟩

/-- `MQTTSubscribe_options_initializer` -/
def initializer : MQTTSubscribeOptions := ⟨(77, 81, 83, 79), 0, 0, 0, 0, 0⟩

def bytes (host : HostInt) (opts : MQTTSubscribeOptions) : Bytes :=
  [opts.struct_id.1, opts.struct_id.2.1, opts.struct_id.2.2.1, opts.struct_id.2.2.2] ++
    (host.bytes opts.struct_version ++
      [opts.noLocal, opts.retainAsPublished, opts.retainHandling, opts.padding])

/-- `*(MQTTSubscribe_options*)ptr`, checked against the end of the buffer. -/
def read (host : HostInt) (buf : Bytes) (pos : Nat) :
    Except ReadError (MQTTSubscribeOptions × Nat) :=
  match buf.drop pos with
  | c₀ :: c₁ :: c₂ :: c₃ :: v₀ :: v₁ :: v₂ :: v₃ :: l :: p :: r :: padding :: _ =>
      .ok (⟨(c₀, c₁, c₂, c₃), host.value [v₀, v₁, v₂, v₃], l, p, r, padding⟩, pos + 12)
  | _ => .error .malformed

theorem reads_bytes
    (host : HostInt) (opts : MQTTSubscribeOptions) :
    Lib.Reader.Reads (read host) (opts.bytes host) opts (fun _ => True) := by
  intro buf pos rest h _
  obtain ⟨v₀, v₁, v₂, v₃, hversion⟩ :
      ∃ v₀ v₁ v₂ v₃, host.bytes opts.struct_version = [v₀, v₁, v₂, v₃] := by
    have hlen := host.length_bytes opts.struct_version
    match hb : host.bytes opts.struct_version with
    | [v₀, v₁, v₂, v₃] => exact ⟨v₀, v₁, v₂, v₃, rfl⟩
    | [] | [_] | [_, _] | [_, _, _] | _ :: _ :: _ :: _ :: _ :: _ => simp [hb] at hlen
  have hvalue := host.value_bytes opts.struct_version
  rw [hversion] at hvalue
  rw [read, h]
  simp [bytes, hversion, hvalue]

end MQTTSubscribeOptions

namespace MQTTAsync

/-- `details.sub`; an array that was not allocated is `none`. -/
structure Sub where
  count : Int32
  topics : List Bytes
  qoss : Option (List Int32)
  opts : MQTTSubscribeOptions
  optlist : Option (List MQTTSubscribeOptions)
deriving DecidableEq

/-- `details.unsub` -/
structure Unsub where
  count : Int32
  topics : List Bytes
deriving DecidableEq

/-- `details.pub` -/
structure Pub where
  destinationName : Option Bytes
  payloadlen : Int32
  payload : Option Bytes
  qos : Int32
  retained : Int32
deriving DecidableEq

/-- The union `details`; `other` is a command that has no record. -/
inductive Details where
  | sub (sub : Sub)
  | unsub (unsub : Unsub)
  | pub (pub : Pub)
  | other (type : PacketType)
deriving DecidableEq

/-- `MQTTAsync_command` -/
structure Command where
  token : Int32
  properties : Properties
  details : Details
deriving DecidableEq

/-- `MQTTAsync_queuedCommand` -/
structure QueuedCommand where
  command : Command
  seqno : Nat
  not_restored : Bool
  key : Option Key
deriving DecidableEq

def Details.type : Details → PacketType
  | .sub _ => .subscribe
  | .unsub _ => .unsubscribe
  | .pub _ => .publish
  | .other type => type

/-- The `int` that stands for a type. -/
def typeCode (type : PacketType) : Int32 :=
  Int32.ofNat type.code

/-! ### Writing the record -/

/-- The characters of a string up to its NUL, and the NUL. -/
def cstring (s : Bytes) : Bytes :=
  s.take (strlen s) ++ [0]

theorem cstring_eq
    {s : Bytes}
    (hnul : (0 : UInt8) ∉ s) :
    cstring s = s ++ [0] := by
  rw [cstring, strlen_eq_length hnul, List.take_length]

theorem strlen_append
    {s : Bytes}
    (hnul : (0 : UInt8) ∉ s)
    (rest : Bytes) :
    strlen (s ++ 0 :: rest) = s.length := by
  induction s with
  | nil =>
      rfl
  | cons b s ih =>
      simp only [List.mem_cons, not_or] at hnul
      simp [strlen, Ne.symm hnul.1, ih hnul.2]

/-- The buffers of one topic of a SUBSCRIBE. -/
def subscribeEntry (host : HostInt) (MQTTVersion : Nat) (sub : Sub) (i : Nat) : Bytes :=
  cstring (sub.topics.getD i []) ++
    if MQTTVersion < 5 then
      host.bytes ((sub.qoss.getD []).getD i 0)
    else if sub.count = 1 then
      sub.opts.bytes host
    else
      ((sub.optlist.getD []).getD i .zero).bytes host

/-- The buffers of `MQTTAsync_persistCommand` by the type of the command. -/
def detailsRecord (host : HostInt) (MQTTVersion : Nat) : Details → Option Bytes
  | .sub sub =>
      some (host.bytes sub.count ++
        (List.range sub.count.toNatClampNeg).flatMap (subscribeEntry host MQTTVersion sub))
  | .unsub unsub =>
      some (host.bytes unsub.count ++
        (List.range unsub.count.toNatClampNeg).flatMap
          (fun i => cstring (unsub.topics.getD i [])))
  | .pub pub =>
      some (cstring (pub.destinationName.getD []) ++
        (host.bytes pub.payloadlen ++
          ((pub.payload.getD []).take pub.payloadlen.toNatClampNeg ++
            (host.bytes pub.qos ++ host.bytes pub.retained))))
  | .other _ => none

/-- The record of a command; `none` where `MQTTAsync_persistCommand` writes nothing. -/
def persistedRecord (host : HostInt) (MQTTVersion : Nat) (command : Command) : Option Bytes :=
  (detailsRecord host MQTTVersion command.details).map fun details =>
    host.bytes (typeCode command.details.type) ++
      (host.bytes command.token ++
        (details ++
          if MQTTVersion ≥ 5 then MQTTProperties.write command.properties else []))

/-- The key of a command's record. -/
def commandKey (MQTTVersion seqno : Nat) : Key :=
  (if MQTTVersion ≥ 5 then Stem.v5Command else Stem.command).key seqno

/-- The version a record is read with, by its key. -/
def restoreVersion (key : Key) : Nat :=
  if Stem.v5Command.isStemOf key then 5 else 4

/-! ### Reading the record -/

/--
A string of the record.  The comparison that looks for a missing NUL refuses a
string that ends with the buffer; a string without a NUL is copied with what
follows the buffer.
-/
def restoreTopic (buf : Bytes) (pos : Nat) : Except ReadError (Bytes × Nat) :=
  let data_size := strlen (buf.drop pos) + 1
  if data_size = buf.length - pos then
    .error .malformed
  else if data_size < buf.length - pos then
    .ok ((buf.drop pos).take (strlen (buf.drop pos)), pos + data_size)
  else
    .error .outOfBounds

/-- One topic of a SUBSCRIBE with its QoS, or with its options. -/
def restoreSubscribeEntry (host : HostInt) (MQTTVersion : Nat) (buf : Bytes) (pos : Nat) :
    Except ReadError ((Bytes × Int32 × MQTTSubscribeOptions) × Nat) :=
  match restoreTopic buf pos with
  | .error e => .error e
  | .ok (topic, pos) =>
      if MQTTVersion < 5 then
        match host.read buf pos with
        | .error e => .error e
        | .ok (qos, pos) => .ok ((topic, qos, .zero), pos)
      else
        match MQTTSubscribeOptions.read host buf pos with
        | .error e => .error e
        | .ok (opts, pos) => .ok ((topic, 0, opts), pos)

def restoreSubscribe (host : HostInt) (MQTTVersion : Nat) (buf : Bytes) (pos : Nat) :
    Except ReadError (Details × Nat) :=
  match host.read buf pos with
  | .error e => .error e
  | .ok (count, pos) =>
      match Lib.Reader.repeated (restoreSubscribeEntry host MQTTVersion) count.toNatClampNeg
          buf pos with
      | .error e => .error e
      | .ok (entries, pos) =>
          .ok (.sub
            { count
              topics := entries.map (·.1)
              qoss :=
                if count > 0 ∧ MQTTVersion < 5 then some (entries.map (·.2.1)) else none
              opts :=
                if MQTTVersion ≥ 5 ∧ count = 1 then
                  (entries.map (·.2.2)).getD 0 .zero
                else
                  .zero
              optlist :=
                if count > 1 ∧ MQTTVersion ≥ 5 then some (entries.map (·.2.2)) else none }, pos)

def restoreUnsubscribe (host : HostInt) (buf : Bytes) (pos : Nat) :
    Except ReadError (Details × Nat) :=
  match host.read buf pos with
  | .error e => .error e
  | .ok (count, pos) =>
      match Lib.Reader.repeated restoreTopic count.toNatClampNeg buf pos with
      | .error e => .error e
      | .ok (topics, pos) => .ok (.unsub { count, topics }, pos)

/--
The publication.  On the first call only its lengths and flags are kept, and a
string without a NUL is found out by the next check instead of being copied.
A negative length leaves the buffer at the front.
-/
def restorePublish (host : HostInt) (first : Bool) (buf : Bytes) (pos : Nat) :
    Except ReadError (Details × Nat) :=
  match restoreTopic buf pos with
  | .error e => .error (if first then .malformed else e)
  | .ok (destinationName, pos) =>
      match host.read buf pos with
      | .error e => .error e
      | .ok (payloadlen, pos) =>
          if payloadlen < 0 then
            .error .outOfBounds
          else if pos + payloadlen.toNatClampNeg > buf.length then
            .error .malformed
          else
            let payload := (buf.drop pos).take payloadlen.toNatClampNeg
            match host.read buf (pos + payloadlen.toNatClampNeg) with
            | .error e => .error e
            | .ok (qos, pos) =>
                match host.read buf pos with
                | .error e => .error e
                | .ok (retained, pos) =>
                    .ok (.pub
                      { destinationName := if first then none else some destinationName
                        payloadlen
                        payload := if first then none else some payload
                        qos, retained }, pos)

/-- The switch over the type; the second call takes the topics from the first. -/
def restoreDetails (host : HostInt) (MQTTVersion : Nat) (type : Int32)
    (restored : Option Details) (buf : Bytes) (pos : Nat) : Except ReadError (Details × Nat) :=
  if type = typeCode .subscribe then
    match restored with
    | some details => .ok (details, pos)
    | none => restoreSubscribe host MQTTVersion buf pos
  else if type = typeCode .unsubscribe then
    match restored with
    | some details => .ok (details, pos)
    | none => restoreUnsubscribe host buf pos
  else if type = typeCode .publish then
    restorePublish host restored.isNone buf pos
  else
    .error .malformed

/-- The end of `MQTTAsync_restoreCommand`; only the second call reads the properties. -/
def restoreProperties (MQTTVersion : Nat) (token : Int32) (details : Details)
    (buffer : Bytes) (pos : Nat) : Option QueuedCommand → Except ReadError QueuedCommand
  | none =>
      .ok { command := { token, properties := MQTTProperties.initializer, details }
            seqno := 0, not_restored := true, key := none }
  | some qcommand =>
      if MQTTVersion ≥ 5 then
        match MQTTProperties.read buffer pos with
        | .error e => .error e
        | .ok (properties, _) =>
            .ok { qcommand with command := { token, properties, details }, not_restored := false }
      else
        .ok { qcommand with
          command := { qcommand.command with token, details }, not_restored := false }

/--
`MQTTAsync_restoreCommand`, which returns NULL where this is `malformed`.  The
first call has no command yet and leaves it `not_restored`.
-/
def restoreCommand (host : HostInt) (buffer : Bytes) (MQTTVersion : Nat)
    (qcommand : Option QueuedCommand) : Except ReadError QueuedCommand :=
  match host.read buffer 0 with
  | .error e => .error e
  | .ok (type, pos) =>
      match host.read buffer pos with
      | .error e => .error e
      | .ok (token, pos) =>
          match restoreDetails host MQTTVersion type (qcommand.map (·.command.details))
              buffer pos with
          | .error e => .error e
          | .ok (details, pos) => restoreProperties MQTTVersion token details buffer pos qcommand

/-! ### Commands of the application -/

/-- What `MQTTAsync_responseOptions` adds to a request. -/
structure ResponseOptions where
  properties : Properties
  subscribeOptions : MQTTSubscribeOptions
  subscribeOptionsCount : Nat
  subscribeOptionsList : List MQTTSubscribeOptions

/-- The strings of a request: at least one, no NUL inside, and as many as an `int` counts. -/
structure Topics where
  strings : List Bytes
  pos : 0 < strings.length
  lt : strings.length < 2 ^ 31
  noNul : ∀ topic ∈ strings, (0 : UInt8) ∉ topic

/-- The value of the argument `count`. -/
def Topics.count (topics : Topics) : Int32 :=
  Int32.ofNat topics.strings.length

/-- The properties a request passes on, which must survive being written and read. -/
def requestProperties (MQTTVersion : Nat) (response : Option ResponseOptions) : Properties :=
  match response with
  | some response =>
      if MQTTVersion ≥ 5 then MQTTProperties.copy response.properties
      else MQTTProperties.initializer
  | none => MQTTProperties.initializer

/--
A request that `MQTTAsync_subscribeMany` accepts.  An MQTT 5 request for
several topics has response options, with an option for every topic or with
none at all.
-/
structure SubscribeRequest (MQTTVersion : Nat) where
  topics : Topics
  qos : List Int32
  qos_length : qos.length = topics.strings.length
  response : Option ResponseOptions
  options : MQTTVersion ≥ 5 → 1 < topics.strings.length → ∃ options, response = some options ∧
    (options.subscribeOptionsCount = topics.strings.length ∧
        options.subscribeOptionsList.length = topics.strings.length ∨
      options.subscribeOptionsCount = 0)
  survives : MQTTProperties.Survives (requestProperties MQTTVersion response)

/-- The command that `MQTTAsync_subscribeMany` queues. -/
def SubscribeRequest.command {MQTTVersion : Nat} (request : SubscribeRequest MQTTVersion)
    (msgid : Int32) : Command where
  token := msgid
  properties := requestProperties MQTTVersion request.response
  details := .sub
    { count := request.topics.count
      topics := request.topics.strings
      qoss := some request.qos
      opts :=
        match request.response with
        | some response => if MQTTVersion ≥ 5 then response.subscribeOptions else .zero
        | none => .zero
      optlist :=
        match request.response with
        | some response =>
            if MQTTVersion ≥ 5 ∧ 1 < request.topics.strings.length then
              if response.subscribeOptionsCount = 0 then
                some (List.replicate request.topics.strings.length .initializer)
              else
                some response.subscribeOptionsList
            else
              none
        | none => none }

/-- A request that `MQTTAsync_unsubscribeMany` accepts. -/
structure UnsubscribeRequest (MQTTVersion : Nat) where
  topics : Topics
  response : Option ResponseOptions
  survives : MQTTProperties.Survives (requestProperties MQTTVersion response)

/-- The command that `MQTTAsync_unsubscribeMany` queues. -/
def UnsubscribeRequest.command {MQTTVersion : Nat} (request : UnsubscribeRequest MQTTVersion)
    (msgid : Int32) : Command where
  token := msgid
  properties := requestProperties MQTTVersion request.response
  details := .unsub { count := request.topics.count, topics := request.topics.strings }

end MQTTAsync

end PahoMqtt
