import PahoMqtt.AsyncCommands

/-!
# Which SUBSCRIBE and UNSUBSCRIBE commands survive a restart

A command survives if the record written for it is read back in both phases:
at start-up to the command without its properties, and in its turn to the
command itself.

Before MQTT 5 a SUBSCRIBE always survives, since the QoS behind its last topic
keeps the comparison in `restoreTopic` from refusing it, and an UNSUBSCRIBE
never does, since it ends with a topic.  From MQTT 5 on the QoS list of a
SUBSCRIBE is not written, and an UNSUBSCRIBE survives only if the property list
that the second phase reads from the number of topics on is its own.
-/

namespace PahoMqtt
namespace MQTTAsync

open Lib (Reader)
open MQTTPacket

/-- The command comes back from the record that is written for it. -/
def Command.Survives (host : HostInt) (MQTTVersion seqno : Nat) (command : Command) : Prop :=
  ∃ record, persistedRecord host MQTTVersion command = some record ∧
    ∃ first, restoreCommand host record (restoreVersion (commandKey MQTTVersion seqno)) none =
        .ok first ∧
      first.not_restored = true ∧
      { first.command with properties := command.properties } = command ∧
      ∃ second, restoreCommand host record (restoreVersion (commandKey MQTTVersion seqno))
          (some { first with seqno }) = .ok second ∧
        second.not_restored = false ∧ second.command = command

/-- The bytes of the record from its type to its last topic. -/
def unsubscribeBytes (host : HostInt) (token : Int32) (topics : Topics) : Bytes :=
  host.bytes (typeCode .unsubscribe) ++
    (host.bytes token ++ (host.bytes topics.count ++ topics.strings.flatMap (· ++ [0])))

/--
The property list that starts at the number of topics, eight bytes into the
record, is the one that stands behind the topics.
-/
def ReadsOwnProperties (host : HostInt) (token : Int32) (topics : Topics)
    (properties : Properties) : Prop :=
  ∃ pos, MQTTProperties.read
    (unsubscribeBytes host token topics ++ MQTTProperties.write properties) 8 =
      .ok (properties, pos)

/-- The commands that `MQTTAsync_subscribeMany` and `MQTTAsync_unsubscribeMany` queue. -/
inductive Request (MQTTVersion : Nat) where
  | subscribe (request : SubscribeRequest MQTTVersion)
  | unsubscribe (request : UnsubscribeRequest MQTTVersion)

def Request.command {MQTTVersion : Nat} (msgid : Int32) : Request MQTTVersion → Command
  | .subscribe request => request.command msgid
  | .unsubscribe request => request.command msgid

/-- When the record of a request is good enough. -/
def Request.Restorable {MQTTVersion : Nat} (host : HostInt) (msgid : Int32) :
    Request MQTTVersion → Prop
  | .subscribe _ => MQTTVersion < 5
  | .unsubscribe request =>
      MQTTVersion ≥ 5 ∧ ReadsOwnProperties host msgid request.topics
        (requestProperties MQTTVersion request.response)

/-! ### Strings -/

/-- A string is read back if something stands behind its NUL. -/
theorem reads_cstring
    {s : Bytes}
    (hnul : (0 : UInt8) ∉ s) :
    Reader.Reads restoreTopic (cstring s) s (· ≠ []) := by
  intro buf pos rest h hrest
  rw [cstring_eq hnul, List.append_assoc] at h
  have hlen := congrArg List.length h
  have hrest' := List.length_pos_iff.mpr hrest
  simp only [List.length_drop, List.length_append, List.length_cons, List.length_nil] at hlen
  have hstrlen : strlen (s ++ ([0] ++ rest)) = s.length := strlen_append hnul rest
  simp only [restoreTopic, h, hstrlen]
  rw [if_neg (by omega), if_pos (by omega), List.take_left, cstring_eq hnul,
    List.length_append]
  rfl

/-- A string that ends the record is refused. -/
theorem restoreTopic_last
    {s buf : Bytes} {pos : Nat}
    (hnul : (0 : UInt8) ∉ s)
    (h : buf.drop pos = cstring s) :
    restoreTopic buf pos = .error .malformed := by
  rw [cstring_eq hnul] at h
  have hlen := congrArg List.length h
  simp only [List.length_drop, List.length_append, List.length_cons, List.length_nil] at hlen
  have hstrlen : strlen (s ++ [0]) = s.length := strlen_append hnul []
  simp only [restoreTopic, h, hstrlen]
  rw [if_pos (by omega)]

/-! ### Arrays -/

theorem map_getD_range
    {α : Type} (l : List α) (d : α) :
    (List.range l.length).map (fun i => l.getD i d) = l := by
  apply List.ext_getElem
  · simp
  · intro i h₁ h₂
    simp [h₂]

theorem Topics.toNatClampNeg_count
    (topics : Topics) :
    topics.count.toNatClampNeg = topics.strings.length :=
  Int32.toNatClampNeg_ofNat_of_lt topics.lt

theorem Topics.count_pos
    (topics : Topics) :
    topics.count > 0 := by
  have hlt := topics.lt
  have hpos := topics.pos
  rw [gt_iff_lt, Int32.lt_iff_toInt_lt, Topics.count, Int32.toInt_ofNat_of_lt hlt]
  simpa using hpos

theorem Topics.noNul_getD
    (topics : Topics) (i : Nat) :
    (0 : UInt8) ∉ topics.strings.getD i [] := by
  rw [List.getD_eq_getElem?_getD]
  cases h : topics.strings[i]? with
  | none =>
      simp
  | some topic =>
      exact topics.noNul topic (List.mem_of_getElem? h)

theorem Topics.flatMap_cstring
    (topics : Topics) :
    (List.range topics.strings.length).flatMap (fun i => cstring (topics.strings.getD i [])) =
      topics.strings.flatMap (· ++ [0]) := by
  have hmap := map_getD_range topics.strings []
  conv_rhs => rw [← hmap, List.flatMap_map]
  simp only [cstring_eq (topics.noNul_getD _)]

/-! ### The record from its front -/

/-- What both phases read first, and where the rest of the record starts. -/
theorem restoreCommand_front
    (host : HostInt) (type : PacketType) (token : Int32) {body buf : Bytes}
    (h : buf = host.bytes (typeCode type) ++ (host.bytes token ++ body))
    (MQTTVersion : Nat) (qcommand : Option QueuedCommand) :
    restoreCommand host buf MQTTVersion qcommand =
      match restoreDetails host MQTTVersion (typeCode type) (qcommand.map (·.command.details))
          buf 8 with
      | .error e => .error e
      | .ok (details, pos) => restoreProperties MQTTVersion token details buf pos qcommand := by
  have hdrop : buf.drop 0 = host.bytes (typeCode type) ++ (host.bytes token ++ body) := h
  have htype := host.reads_bytes (typeCode type) hdrop trivial
  have htoken := host.reads_bytes token (Reader.drop_add hdrop) trivial
  simp only [host.length_bytes, Nat.zero_add, Nat.reduceAdd] at htype htoken
  rw [restoreCommand, htype]
  cases hdetails : restoreDetails host MQTTVersion (typeCode type)
      (qcommand.map (·.command.details)) buf 8 with
  | error e => simp only [htoken, hdetails]
  | ok d => simp only [htoken, hdetails]

theorem drop_front
    (host : HostInt) (type token : Int32) (body : Bytes) :
    (host.bytes type ++ (host.bytes token ++ body)).drop 8 = body := by
  have h := Reader.drop_add (Reader.drop_add
    (show (host.bytes type ++ (host.bytes token ++ body)).drop 0 = _ from rfl))
  simpa only [host.length_bytes, Nat.zero_add, Nat.reduceAdd] using h

/-! ### SUBSCRIBE -/

theorem reads_subscribeEntry
    (host : HostInt) {writing reading : Nat}
    (hwriting : writing < 5)
    (hreading : reading < 5)
    {sub : Sub} {i : Nat}
    (hnul : (0 : UInt8) ∉ sub.topics.getD i []) :
    Reader.Reads (restoreSubscribeEntry host reading) (subscribeEntry host writing sub i)
      (sub.topics.getD i [], (sub.qoss.getD []).getD i 0, .zero) (fun _ => True) := by
  intro buf pos rest h _
  rw [subscribeEntry, if_pos hwriting, List.append_assoc] at h
  have hqos : host.bytes ((sub.qoss.getD []).getD i 0) ++ rest ≠ [] := by
    intro hnil
    have hlen := congrArg List.length hnil
    rw [List.length_append, host.length_bytes] at hlen
    exact absurd hlen (by simp)
  rw [restoreSubscribeEntry, reads_cstring hnul h hqos]
  simp only [if_pos hreading, if_pos hwriting, host.reads_bytes _ (Reader.drop_add h) trivial,
    subscribeEntry, List.length_append, Nat.add_assoc]

/-- Before MQTT 5 the first phase restores all of a SUBSCRIBE. -/
theorem restoreSubscribe_record
    (host : HostInt) {writing reading : Nat}
    (hwriting : writing < 5)
    (hreading : reading < 5)
    (topics : Topics) {qos : List Int32}
    (hqos : qos.length = topics.strings.length)
    {buf rest record : Bytes} {pos : Nat}
    (hrecord : detailsRecord host writing
      (.sub ⟨topics.count, topics.strings, some qos, .zero, none⟩) = some record)
    (h : buf.drop pos = record ++ rest) :
    restoreSubscribe host reading buf pos =
      .ok (.sub ⟨topics.count, topics.strings, some qos, .zero, none⟩, pos + record.length) := by
  rw [detailsRecord, Option.some.injEq] at hrecord
  subst hrecord
  rw [List.append_assoc] at h
  have hcount := host.reads_bytes topics.count h trivial
  have hentries := Reader.reads_repeated (fun _ _ _ _ => trivial)
    (fun i _ => reads_subscribeEntry host hwriting hreading
      (show (0 : UInt8) ∉ (Sub.topics ⟨topics.count, topics.strings, some qos, .zero, none⟩).getD
        i [] from topics.noNul_getD i))
    (Reader.drop_add h) trivial
  rw [List.length_range] at hentries
  dsimp only at hentries
  rw [topics.toNatClampNeg_count] at hentries
  rw [restoreSubscribe, hcount]
  dsimp only
  rw [topics.toNatClampNeg_count, hentries]
  have hqoss := map_getD_range qos 0
  rw [hqos] at hqoss
  have hold : ¬reading ≥ 5 := Nat.not_le.mpr hreading
  simp only [List.map_map, Function.comp_def, Option.getD_some, map_getD_range, hqoss,
    if_pos (And.intro topics.count_pos hreading), hold, false_and, and_false, if_false,
    List.length_append, Nat.add_assoc]

/-- From MQTT 5 on a SUBSCRIBE is restored without its QoS list. -/
theorem restoreSubscribe_qoss
    (host : HostInt) {MQTTVersion : Nat} (hversion : MQTTVersion ≥ 5)
    {buf : Bytes} {pos pos' : Nat} {details : Details}
    (hrestore : restoreSubscribe host MQTTVersion buf pos = .ok (details, pos')) :
    ∃ sub, details = .sub sub ∧ sub.qoss = none := by
  unfold restoreSubscribe at hrestore
  split at hrestore
  · cases hrestore
  · split at hrestore
    · cases hrestore
    · cases hrestore
      exact ⟨_, rfl, if_neg (by omega)⟩

/-! ### UNSUBSCRIBE -/

theorem append_ne_nil_of_right
    (s : Bytes) {rest : Bytes}
    (hrest : rest ≠ []) :
    s ++ rest ≠ [] := by
  simp [hrest]

/-- The topics are read back if the record does not end with them. -/
theorem restoreUnsubscribe_record
    (host : HostInt) (topics : Topics) {buf rest : Bytes} {pos : Nat}
    (h : buf.drop pos = host.bytes topics.count ++ (topics.strings.flatMap (· ++ [0]) ++ rest))
    (hrest : rest ≠ []) :
    restoreUnsubscribe host buf pos =
      .ok (.unsub ⟨topics.count, topics.strings⟩,
        pos + (host.bytes topics.count ++ topics.strings.flatMap (· ++ [0])).length) := by
  have hcount := host.reads_bytes topics.count h trivial
  have htopic : ∀ s ∈ topics.strings, Reader.Reads restoreTopic (s ++ [0]) s (· ≠ []) := by
    intro s hs
    rw [← cstring_eq (topics.noNul s hs)]
    exact reads_cstring (topics.noNul s hs)
  have hstrings := Reader.reads_repeated (P := (· ≠ []))
    (fun s _ _ hrest => append_ne_nil_of_right (s ++ [0]) hrest) htopic (Reader.drop_add h) hrest
  rw [restoreUnsubscribe, hcount]
  simp only [topics.toNatClampNeg_count, hstrings, List.map_id', List.length_append, Nat.add_assoc]

/-- Before MQTT 5 the record ends with the topics, and the last of them is refused. -/
theorem restoreUnsubscribe_last
    (host : HostInt) (topics : Topics) {buf : Bytes} {pos : Nat}
    (h : buf.drop pos = host.bytes topics.count ++ topics.strings.flatMap (· ++ [0])) :
    restoreUnsubscribe host buf pos = .error .malformed := by
  have hcount := host.reads_bytes topics.count h trivial
  obtain ⟨strings, last, hsplit⟩ : ∃ strings last, topics.strings = strings ++ [last] := by
    refine ⟨_, _, (List.dropLast_append_getLast ?_).symm⟩
    exact List.ne_nil_of_length_pos topics.pos
  have hmem : ∀ s ∈ strings ++ [last], (0 : UInt8) ∉ s := by
    rw [← hsplit]
    exact topics.noNul
  have htopic : ∀ s ∈ strings, Reader.Reads restoreTopic (s ++ [0]) s (· ≠ []) := by
    intro s hs
    have hnul := hmem s (List.mem_append_left _ hs)
    rw [← cstring_eq hnul]
    exact reads_cstring hnul
  have hlast : (0 : UInt8) ∉ last := hmem last (by simp)
  have hfront : buf.drop (pos + (host.bytes topics.count).length) =
      strings.flatMap (· ++ [0]) ++ cstring last := by
    rw [Reader.drop_add h, hsplit, List.flatMap_append, cstring_eq hlast]
    simp
  have herror := restoreTopic_last hlast (Reader.drop_add hfront)
  have hne : cstring last ≠ [] := by
    rw [cstring_eq hlast]
    simp
  have hstrings := Reader.repeated_error (P := (· ≠ []))
    (fun s _ _ hrest => append_ne_nil_of_right (s ++ [0]) hrest) htopic hfront hne herror 0
  have hlength : topics.strings.length = strings.length + (0 + 1) := by
    rw [hsplit, List.length_append]
    rfl
  rw [restoreUnsubscribe, hcount]
  simp only [topics.toNatClampNeg_count, hlength, hstrings]

/-! ### Both phases -/

theorem restoreVersion_commandKey
    (MQTTVersion seqno : Nat) :
    restoreVersion (commandKey MQTTVersion seqno) = if MQTTVersion ≥ 5 then 5 else 4 := by
  rw [restoreVersion, commandKey]
  split <;> simp

/-- The second phase keeps the topics and takes the properties from behind the token. -/
theorem restoreDetails_again
    (host : HostInt) (MQTTVersion : Nat) {type : PacketType}
    (htype : type = .subscribe ∨ type = .unsubscribe)
    (details : Details) (buf : Bytes) (pos : Nat) :
    restoreDetails host MQTTVersion (typeCode type) (some details) buf pos =
      .ok (details, pos) := by
  rcases htype with rfl | rfl <;> rfl

/--
A command comes back if the first phase restores its details, and the second
finds its properties right behind the token.
-/
theorem survives_iff
    (host : HostInt) (MQTTVersion seqno : Nat) {command : Command} {type : PacketType}
    {body buf : Bytes}
    (hdetails : command.details.type = type)
    (htype : type = .subscribe ∨ type = .unsubscribe)
    (hbody : detailsRecord host MQTTVersion command.details = some body)
    (hbuf : buf = host.bytes (typeCode type) ++ (host.bytes command.token ++ (body ++
      if MQTTVersion ≥ 5 then MQTTProperties.write command.properties else []))) :
    command.Survives host MQTTVersion seqno ↔
      (∃ pos, restoreDetails host (if MQTTVersion ≥ 5 then 5 else 4) (typeCode type) none buf 8 =
        .ok (command.details, pos)) ∧
      if MQTTVersion ≥ 5 then
        ∃ pos, MQTTProperties.read buf 8 = .ok (command.properties, pos)
      else
        command.properties = MQTTProperties.initializer := by
  have hrecord : persistedRecord host MQTTVersion command = some buf := by
    rw [persistedRecord, hbody, hbuf, hdetails]
    rfl
  have hfront := restoreCommand_front host type command.token hbuf
    (if MQTTVersion ≥ 5 then 5 else 4)
  have hagain := restoreDetails_again host (if MQTTVersion ≥ 5 then 5 else 4) htype
  rw [Command.Survives, restoreVersion_commandKey]
  constructor
  · rintro ⟨_, hrecord', first, hfirst, _, hsame, second, hsecond, _, hcommand⟩
    obtain rfl : buf = _ := Option.some.inj (hrecord.symm.trans hrecord')
    rw [hfront] at hfirst hsecond
    simp only [Option.map_none, Option.map_some, hagain] at hfirst hsecond
    split at hfirst
    · cases hfirst
    next details pos hrestore =>
      cases hfirst
      obtain rfl : details = command.details := congrArg Command.details hsame
      refine ⟨⟨pos, hrestore⟩, ?_⟩
      split
      next hnew =>
        simp only [restoreProperties, if_pos hnew, ge_iff_le, le_refl, if_true] at hsecond
        split at hsecond
        · cases hsecond
        next properties pos' hread =>
          cases hsecond
          exact ⟨pos', by rw [hread, ← congrArg Command.properties hcommand]⟩
      next hold =>
        simp only [restoreProperties, if_neg hold, ge_iff_le, Nat.reduceLeDiff, if_false]
          at hsecond
        cases hsecond
        exact (congrArg Command.properties hcommand).symm
  · rintro ⟨⟨pos, hrestore⟩, hproperties⟩
    obtain ⟨first, hfirst, hcommand, hnot⟩ : ∃ first : QueuedCommand,
        restoreCommand host buf (if MQTTVersion ≥ 5 then 5 else 4) none = .ok first ∧
          first.command = ⟨command.token, MQTTProperties.initializer, command.details⟩ ∧
          first.not_restored = true := by
      rw [hfront, Option.map_none, hrestore]
      exact ⟨_, rfl, rfl, rfl⟩
    refine ⟨buf, hrecord, first, hfirst, hnot, ?_, ?_⟩
    · rw [hcommand]
    · rw [hfront, Option.map_some, hagain]
      dsimp only
      rw [hcommand]
      split at hproperties
      next hnew =>
        obtain ⟨pos', hread⟩ := hproperties
        simp only [restoreProperties, if_pos hnew, ge_iff_le, le_refl, if_true, hread]
        exact ⟨_, rfl, rfl, rfl⟩
      next hold =>
        simp only [restoreProperties, if_neg hold, ge_iff_le, Nat.reduceLeDiff, if_false,
          ← hproperties]
        exact ⟨_, rfl, rfl, rfl⟩

theorem requestProperties_old
    {MQTTVersion : Nat} (hversion : MQTTVersion < 5)
    (response : Option ResponseOptions) :
    requestProperties MQTTVersion response = MQTTProperties.initializer := by
  cases response with
  | none =>
      rfl
  | some response =>
      exact if_neg (Nat.not_le.mpr hversion)

theorem SubscribeRequest.command_old
    {MQTTVersion : Nat} (hversion : MQTTVersion < 5)
    (request : SubscribeRequest MQTTVersion) (msgid : Int32) :
    request.command msgid =
      { token := msgid, properties := MQTTProperties.initializer
        details := .sub
          ⟨request.topics.count, request.topics.strings, some request.qos, .zero, none⟩ } := by
  have hold : ¬MQTTVersion ≥ 5 := Nat.not_le.mpr hversion
  rw [SubscribeRequest.command, requestProperties_old hversion]
  cases request.response with
  | none =>
      rfl
  | some response =>
      simp only [hold, false_and, if_false]

/-- Before MQTT 5 a SUBSCRIBE comes back. -/
theorem subscribe_survives
    (host : HostInt) {MQTTVersion : Nat} (hversion : MQTTVersion < 5) (seqno : Nat)
    (request : SubscribeRequest MQTTVersion) (msgid : Int32) :
    (request.command msgid).Survives host MQTTVersion seqno := by
  have hold : ¬MQTTVersion ≥ 5 := Nat.not_le.mpr hversion
  rw [request.command_old hversion msgid]
  refine (survives_iff host MQTTVersion seqno rfl (Or.inl rfl) rfl rfl).mpr ?_
  rw [if_neg hold, if_neg hold, if_neg hold]
  exact ⟨⟨_, restoreSubscribe_record host hversion (by decide : 4 < 5) request.topics
    request.qos_length rfl (drop_front host (typeCode .subscribe) msgid _)⟩, rfl⟩

/-- From MQTT 5 on the QoS list of a SUBSCRIBE does not come back. -/
theorem subscribe_lost
    (host : HostInt) {MQTTVersion : Nat} (hversion : MQTTVersion ≥ 5) (seqno : Nat)
    (request : SubscribeRequest MQTTVersion) (msgid : Int32) :
    ¬(request.command msgid).Survives host MQTTVersion seqno := by
  intro hsurvives
  have hphases := (survives_iff host MQTTVersion seqno rfl (Or.inl rfl) rfl rfl).mp hsurvives
  obtain ⟨pos, hrestore⟩ := hphases.1
  rw [if_pos hversion] at hrestore
  obtain ⟨sub, hsub, hqoss⟩ := restoreSubscribe_qoss host le_rfl hrestore
  cases hsub
  cases hqoss

theorem UnsubscribeRequest.record
    (host : HostInt) {MQTTVersion : Nat}
    (request : UnsubscribeRequest MQTTVersion) (msgid : Int32) :
    detailsRecord host MQTTVersion (request.command msgid).details =
      some (host.bytes request.topics.count ++ request.topics.strings.flatMap (· ++ [0])) := by
  simp only [UnsubscribeRequest.command, detailsRecord, request.topics.toNatClampNeg_count,
    request.topics.flatMap_cstring]

/-- Before MQTT 5 an UNSUBSCRIBE is not restored. -/
theorem unsubscribe_lost
    (host : HostInt) {MQTTVersion : Nat} (hversion : MQTTVersion < 5) (seqno : Nat)
    (request : UnsubscribeRequest MQTTVersion) (msgid : Int32) :
    ¬(request.command msgid).Survives host MQTTVersion seqno := by
  have hold : ¬MQTTVersion ≥ 5 := Nat.not_le.mpr hversion
  intro hsurvives
  have hphases := (survives_iff host MQTTVersion seqno rfl (Or.inr rfl)
    (request.record host msgid) rfl).mp hsurvives
  obtain ⟨pos, hrestore⟩ := hphases.1
  rw [if_neg hold, if_neg hold, List.append_nil] at hrestore
  have hdrop := drop_front host (typeCode .unsubscribe) msgid
    (host.bytes request.topics.count ++ request.topics.strings.flatMap (· ++ [0]))
  have hlast := restoreUnsubscribe_last host request.topics hdrop
  exact absurd (hlast.symm.trans hrestore) (by simp)

/-- From MQTT 5 on an UNSUBSCRIBE comes back if its properties do. -/
theorem unsubscribe_survives_iff
    (host : HostInt) {MQTTVersion : Nat} (hversion : MQTTVersion ≥ 5) (seqno : Nat)
    (request : UnsubscribeRequest MQTTVersion) (msgid : Int32) :
    (request.command msgid).Survives host MQTTVersion seqno ↔
      ReadsOwnProperties host msgid request.topics
        (requestProperties MQTTVersion request.response) := by
  have hbuf : unsubscribeBytes host msgid request.topics ++
      MQTTProperties.write (requestProperties MQTTVersion request.response) =
        host.bytes (typeCode .unsubscribe) ++ (host.bytes msgid ++
          (host.bytes request.topics.count ++ request.topics.strings.flatMap (· ++ [0]) ++
            if MQTTVersion ≥ 5 then
              MQTTProperties.write (requestProperties MQTTVersion request.response)
            else [])) := by
    rw [if_pos hversion]
    simp only [unsubscribeBytes, List.append_assoc]
  have hphases := survives_iff host MQTTVersion seqno rfl (Or.inr rfl)
    (request.record host msgid) hbuf
  rw [if_pos hversion, if_pos hversion] at hphases
  rw [hphases]
  refine and_iff_right ⟨_, restoreUnsubscribe_record host request.topics ?_
    (MQTTProperties.write_ne_nil (requestProperties MQTTVersion request.response))⟩
  rw [hbuf, drop_front, if_pos hversion, List.append_assoc]

/-- A SUBSCRIBE or UNSUBSCRIBE command comes back exactly if its record is good enough. -/
theorem command_survives_iff
    (host : HostInt) (MQTTVersion seqno : Nat)
    (request : Request MQTTVersion) (msgid : Int32) :
    (request.command msgid).Survives host MQTTVersion seqno ↔ request.Restorable host msgid := by
  cases request with
  | subscribe request =>
      constructor
      · intro hsurvives
        by_contra hversion
        exact subscribe_lost host (Nat.not_lt.mp hversion) seqno request msgid hsurvives
      · intro hversion
        exact subscribe_survives host hversion seqno request msgid
  | unsubscribe request =>
      by_cases hversion : MQTTVersion ≥ 5
      · rw [Request.command, unsubscribe_survives_iff host hversion, Request.Restorable,
          and_iff_right hversion]
      · have hold : MQTTVersion < 5 := Nat.not_le.mp hversion
        refine iff_of_false (unsubscribe_lost host hold seqno request msgid) ?_
        rintro ⟨hnew, _⟩
        exact hversion hnew

/-! ### Fewer than 128 topics -/

theorem littleEndian_bytes_count
    (topics : Topics)
    (hfew : topics.strings.length < 128) :
    HostInt.littleEndian.bytes topics.count =
      [UInt8.ofNat topics.strings.length, 0, 0, 0] := by
  have hlt : topics.strings.length < 2 ^ 32 := by omega
  have hcount : topics.count.toUInt32.toNat = topics.strings.length := by
    show (UInt32.ofNat topics.strings.length).toNat = topics.strings.length
    rw [UInt32.toNat_ofNat', Nat.mod_eq_of_lt hlt]
  have h₁ : topics.strings.length / 256 = 0 := by omega
  have h₂ : topics.strings.length / 65536 = 0 := by omega
  have h₃ : topics.strings.length / 16777216 = 0 := by omega
  simp only [HostInt.littleEndian, hcount, h₁, h₂, h₃]
  rfl

/-- A number below 128 followed by a zero byte is no property list. -/
theorem read_count_malformed
    {buf rest : Bytes} {pos n : Nat}
    (hpos : 0 < n)
    (hlt : n < 128)
    (h : buf.drop pos = UInt8.ofNat n :: 0 :: rest) :
    MQTTProperties.read buf pos = .error .malformed := by
  have hlen := congrArg List.length h
  simp only [List.length_drop, List.length_cons] at hlen
  have hcount : buf[pos]? = some (UInt8.ofNat n) := by
    rw [← Nat.add_zero pos, ← List.getElem?_drop, h]
    rfl
  have hzero : buf[pos + 1]? = some 0 := by
    rw [← List.getElem?_drop, h]
    rfl
  have hbyte : (UInt8.ofNat n).toNat = n := by
    rw [UInt8.toNat_ofNat']
    omega
  have hdecode : decodeBuf buf pos = .ok (1, n) := by
    have hlast : ¬n / 128 = 1 := by omega
    simp only [decodeBuf, VBIdecode, hcount, hbyte, if_neg hlast, Nat.mod_eq_of_lt hlt]
    simp
  have hproperty : MQTTProperties.propertyRead buf (pos + 1) = .error .malformed := by
    rw [MQTTProperties.propertyRead, readChar, hzero]
    rfl
  obtain ⟨fuel, hfuel⟩ : ∃ fuel, buf.length = fuel + 1 := ⟨buf.length - 1, by omega⟩
  rw [MQTTProperties.read, if_pos (by omega), hdecode]
  simp only [hfuel, MQTTProperties.readLoop, if_neg (Nat.pos_iff_ne_zero.mp hpos), hproperty]

/-- On a little-endian host an MQTT 5 UNSUBSCRIBE of fewer than 128 topics never comes back. -/
theorem unsubscribe_few_lost
    {MQTTVersion : Nat} (seqno : Nat) (request : UnsubscribeRequest MQTTVersion)
    (hfew : request.topics.strings.length < 128)
    (msgid : Int32) :
    ¬(request.command msgid).Survives .littleEndian MQTTVersion seqno := by
  by_cases hversion : MQTTVersion ≥ 5
  · rw [unsubscribe_survives_iff .littleEndian hversion]
    rintro ⟨pos, hread⟩
    rw [read_count_malformed request.topics.pos hfew] at hread
    · cases hread
    · rw [unsubscribeBytes, List.append_assoc, List.append_assoc, drop_front,
        littleEndian_bytes_count request.topics hfew]
      rfl
  · exact unsubscribe_lost .littleEndian (Nat.not_le.mp hversion) seqno request msgid

def oneTopic : Topics where
  strings := [[97, 47, 98]]
  pos := by decide
  lt := by decide
  noNul := by decide

def unsubscribeOne (MQTTVersion : Nat) : UnsubscribeRequest MQTTVersion where
  topics := oneTopic
  response := none
  survives := MQTTProperties.survives_initializer

def subscribeOne (MQTTVersion : Nat) : SubscribeRequest MQTTVersion where
  topics := oneTopic
  qos := [1]
  qos_length := rfl
  response := none
  options _ hmany := absurd hmany (by decide)
  survives := MQTTProperties.survives_initializer

/--
The UNSUBSCRIBE of one topic is lost by a 3.1.1 client and by an MQTT 5
client, and the SUBSCRIBE of one topic by an MQTT 5 client.
-/
theorem one_topic_lost :
    ¬((unsubscribeOne 4).command 7).Survives .littleEndian 4 1 ∧
    ¬((unsubscribeOne 5).command 7).Survives .littleEndian 5 1 ∧
    ¬((subscribeOne 5).command 7).Survives .littleEndian 5 1 :=
  ⟨unsubscribe_few_lost 1 (unsubscribeOne 4) (by decide) 7,
    unsubscribe_few_lost 1 (unsubscribeOne 5) (by decide) 7,
    subscribe_lost .littleEndian (by decide) 1 (subscribeOne 5) 7⟩

end MQTTAsync
end PahoMqtt
