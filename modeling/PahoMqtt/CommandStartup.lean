import PahoMqtt.CommandSurvival

/-!
# Command records at start-up

The commands that the application can queue, and whose records the first phase
of `MQTTAsync_restoreCommand` reads: all of them but an UNSUBSCRIBE before
MQTT 5.
-/

namespace PahoMqtt
namespace MQTTAsync

open MQTTPacket
open Lib (Reader)

/-- A publication that `MQTTAsync_send` accepts. -/
structure PublishRequest where
  destinationName : Bytes
  noNul : (0 : UInt8) ∉ destinationName
  payload : Bytes
  lt : payload.length < 2 ^ 31
  qos : Int32
  retained : Int32
  properties : Properties

/-- The value of the argument `payloadlen`. -/
def PublishRequest.payloadlen (request : PublishRequest) : Int32 :=
  Int32.ofNat request.payload.length

/-- The command that `MQTTAsync_send` queues. -/
def PublishRequest.command (request : PublishRequest) (msgid : Int32) : Command where
  token := msgid
  properties := request.properties
  details := .pub
    { destinationName := some request.destinationName
      payloadlen := request.payloadlen
      payload := some request.payload
      qos := request.qos
      retained := request.retained }

/-- The commands whose records are read at start-up. -/
inductive Command.Readable (MQTTVersion : Nat) : Command → Prop where
  | subscribe (request : SubscribeRequest MQTTVersion) (msgid : Int32) :
      Readable MQTTVersion (request.command msgid)
  | unsubscribe (hversion : MQTTVersion ≥ 5) (request : UnsubscribeRequest MQTTVersion)
      (msgid : Int32) :
      Readable MQTTVersion (request.command msgid)
  | publish (request : PublishRequest) (msgid : Int32) :
      Readable MQTTVersion (request.command msgid)

theorem bytes_append_ne_nil
    (host : HostInt) (n : Int32) (rest : Bytes) :
    host.bytes n ++ rest ≠ [] := by
  intro hnil
  have hlen := congrArg List.length hnil
  rw [List.length_append, host.length_bytes] at hlen
  exact absurd hlen (by simp)

/-- From MQTT 5 on a topic is read back with its options. -/
theorem reads_subscribeEntry_options
    (host : HostInt) {writing reading : Nat}
    (hwriting : ¬writing < 5)
    (hreading : ¬reading < 5)
    {sub : Sub} {i : Nat}
    (hnul : (0 : UInt8) ∉ sub.topics.getD i []) :
    Reader.Reads (restoreSubscribeEntry host reading) (subscribeEntry host writing sub i)
      (sub.topics.getD i [], 0,
        if sub.count = 1 then sub.opts else (sub.optlist.getD []).getD i .zero)
      (fun _ => True) := by
  intro buf pos rest h _
  have hentry : subscribeEntry host writing sub i = cstring (sub.topics.getD i []) ++
      (if sub.count = 1 then sub.opts else (sub.optlist.getD []).getD i .zero).bytes host := by
    rw [subscribeEntry, if_neg hwriting]
    split <;> rfl
  generalize (if sub.count = 1 then sub.opts else (sub.optlist.getD []).getD i .zero) = opts
    at hentry ⊢
  rw [hentry, List.append_assoc] at h
  have hopts : opts.bytes host ++ rest ≠ [] := by
    simp [MQTTSubscribeOptions.bytes]
  rw [restoreSubscribeEntry, reads_cstring hnul h hopts, hentry]
  simp only [if_neg hreading, MQTTSubscribeOptions.reads_bytes host opts (Reader.drop_add h) trivial,
    List.length_append, Nat.add_assoc]

/-- A SUBSCRIBE record is read under either version. -/
theorem restoreSubscribe_ok
    (host : HostInt) {MQTTVersion : Nat} (topics : Topics) {sub : Sub}
    (htopics : sub.topics = topics.strings)
    {buf rest record : Bytes} {pos : Nat}
    (hrecord : detailsRecord host MQTTVersion (.sub sub) = some record)
    (h : buf.drop pos = record ++ rest) :
    ∃ res, restoreSubscribe host (if MQTTVersion ≥ 5 then 5 else 4) buf pos = .ok res := by
  rw [detailsRecord, Option.some.injEq] at hrecord
  subst hrecord
  rw [List.append_assoc] at h
  have hnul : ∀ i, (0 : UInt8) ∉ sub.topics.getD i [] := by
    rw [htopics]
    exact topics.noNul_getD
  obtain ⟨value, hvalue⟩ : ∃ value : Nat → Bytes × Int32 × MQTTSubscribeOptions, ∀ i,
      Reader.Reads (restoreSubscribeEntry host (if MQTTVersion ≥ 5 then 5 else 4))
        (subscribeEntry host MQTTVersion sub i) (value i) (fun _ => True) := by
    by_cases hversion : MQTTVersion ≥ 5
    · rw [if_pos hversion]
      exact ⟨_, fun i => reads_subscribeEntry_options host (by omega) (by decide) (hnul i)⟩
    · rw [if_neg hversion]
      exact ⟨_, fun i => reads_subscribeEntry host (by omega) (by decide) (hnul i)⟩
  have hentries := Reader.reads_repeated (fun _ _ _ _ => trivial) (fun i _ => hvalue i)
    (Reader.drop_add h) trivial
  rw [List.length_range] at hentries
  rw [restoreSubscribe, host.reads_bytes sub.count h trivial]
  dsimp only
  rw [hentries]
  exact ⟨_, rfl⟩

/-- A publication's record is read at start-up without its strings, and in its turn with them. -/
theorem restorePublish_record
    (host : HostInt) (MQTTVersion : Nat) (first : Bool) (request : PublishRequest) (msgid : Int32)
    {buf rest record : Bytes} {pos : Nat}
    (hrecord : detailsRecord host MQTTVersion (request.command msgid).details = some record)
    (h : buf.drop pos = record ++ rest) :
    restorePublish host first buf pos =
      .ok (.pub
        { destinationName := if first then none else some request.destinationName
          payloadlen := request.payloadlen
          payload := if first then none else some request.payload
          qos := request.qos
          retained := request.retained }, pos + record.length) := by
  have hlen : request.payloadlen.toNatClampNeg = request.payload.length :=
    Int32.toNatClampNeg_ofNat_of_lt request.lt
  have hnonneg : ¬request.payloadlen < 0 := by
    rw [Int32.lt_iff_toInt_lt, PublishRequest.payloadlen, Int32.toInt_ofNat_of_lt request.lt]
    simp
  rw [PublishRequest.command, detailsRecord, Option.some.injEq] at hrecord
  subst hrecord
  simp only [Option.getD_some, hlen, List.take_length, List.append_assoc] at h ⊢
  have hpayloadlen := Reader.drop_add h
  have hpayload := Reader.drop_add hpayloadlen
  have hqos := Reader.drop_add hpayload
  have hretained := Reader.drop_add hqos
  have hroom := congrArg List.length hpayload
  simp only [List.length_drop, List.length_append, host.length_bytes] at hroom
  rw [restorePublish, reads_cstring request.noNul h (bytes_append_ne_nil host _ _)]
  simp only [host.reads_bytes _ hpayloadlen trivial, if_neg hnonneg, hlen]
  rw [if_neg (by rw [host.length_bytes]; omega)]
  have hend : pos + (cstring request.destinationName).length +
      (host.bytes request.payloadlen).length + request.payload.length +
      (host.bytes request.qos).length + (host.bytes request.retained).length =
      pos + (cstring request.destinationName ++ (host.bytes request.payloadlen ++
        (request.payload ++ (host.bytes request.qos ++ host.bytes request.retained)))).length := by
    simp only [List.length_append]
    omega
  simp only [host.reads_bytes _ hqos trivial, host.reads_bytes _ hretained trivial, hpayload,
    List.take_left, hend]

/-- The first phase reads the record of every such command. -/
theorem Command.Readable.restoreCommand_ok
    (host : HostInt) {MQTTVersion : Nat} {command : Command} {bytes : Bytes}
    (h : command.Readable MQTTVersion)
    (hrecord : persistedRecord host MQTTVersion command = some bytes) :
    ∃ cmd, restoreCommand host bytes (if MQTTVersion ≥ 5 then 5 else 4) none = .ok cmd := by
  have hfront : ∀ {body},
      detailsRecord host MQTTVersion command.details = some body →
      (∀ rest, bytes.drop 8 = body ++ rest → (MQTTVersion ≥ 5 → rest ≠ []) →
        ∃ res, restoreDetails host (if MQTTVersion ≥ 5 then 5 else 4)
          (typeCode command.details.type) none bytes 8 = .ok res) →
      ∃ cmd, restoreCommand host bytes (if MQTTVersion ≥ 5 then 5 else 4) none = .ok cmd := by
    intro body hbody hread
    rw [persistedRecord, hbody, Option.map_some, Option.some.injEq] at hrecord
    have hdrop := drop_front host (typeCode command.details.type) command.token
      (body ++ if MQTTVersion ≥ 5 then MQTTProperties.write command.properties else [])
    rw [hrecord] at hdrop
    obtain ⟨⟨details, pos⟩, hres⟩ := hread _ hdrop (fun hversion => by
      rw [if_pos hversion]
      exact MQTTProperties.write_ne_nil _)
    rw [restoreCommand_front host _ _ hrecord.symm, Option.map_none, hres]
    exact ⟨_, rfl⟩
  cases h with
  | subscribe request msgid =>
      refine hfront rfl (fun rest hdrop _ => ?_)
      exact restoreSubscribe_ok host request.topics rfl rfl hdrop
  | unsubscribe hversion request msgid =>
      refine hfront (request.record host msgid) (fun rest hdrop hrest => ?_)
      rw [List.append_assoc] at hdrop
      exact ⟨_, restoreUnsubscribe_record host request.topics hdrop (hrest hversion)⟩
  | publish request msgid =>
      refine hfront rfl (fun rest hdrop _ => ?_)
      exact ⟨_, restorePublish_record host MQTTVersion true request msgid rfl hdrop⟩

end MQTTAsync
end PahoMqtt
