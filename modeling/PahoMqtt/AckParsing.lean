import PahoMqtt.PublishParsing

/-!
# The parts of a received acknowledgement

`MQTTPacket_ack` over arbitrary bodies.  The lengths it asks for before it reads
a reason code and properties are those of a packet with a message id; a
DISCONNECT has none, and two bytes more of it are left unread.  The id itself is
read without asking whether it is there, and nothing asks whether the packet
ends where its last part does.
-/

namespace PahoMqtt
namespace MQTTPacket

open MQTTProperties

/-- Nothing, a reason code, or a reason code and a property section up to the end. -/
inductive SpellsReason (MQTTVersion : Nat) : Bytes → UInt8 → List Property → Prop where
  | omitted : SpellsReason MQTTVersion [] 0 []
  | reasonCode (hversion : MQTTVersion ≥ 5) (rc : UInt8) : SpellsReason MQTTVersion [rc] rc []
  | properties (hversion : MQTTVersion ≥ 5) (rc : UInt8) {bytes : Bytes} {props : List Property}
      (h : SpellsSection WellFormedInt bytes props bytes.length) :
      SpellsReason MQTTVersion (rc :: bytes) rc props

/-- The bytes of the message id, which a DISCONNECT does not have. -/
def ackIdBytes (type : PacketType) (msgId : MsgId) : Bytes :=
  if type = .disconnect then [] else writeInt msgId.toNat

/-- The bodies of an acknowledgement or a DISCONNECT, with what they say. -/
def SpellsAck (MQTTVersion : Nat) (type : PacketType)
    (data : Bytes) (msgId : MsgId) (rc : UInt8) (props : List Property) : Prop :=
  ∃ tail, data = ackIdBytes type msgId ++ tail ∧ SpellsReason MQTTVersion tail rc props

/--
Nothing outside the body is read; what the body says is returned, and NULL if
it says nothing.  Only an MQTT 5 packet has a reason code and properties.
-/
structure DecodesAck (MQTTVersion : Nat) (aHeader : UInt8) (data : Bytes) : Prop where
  inside : ack MQTTVersion aHeader data ≠ .error .outOfBounds
  decoded : ∀ msgId rc props,
    SpellsAck MQTTVersion (Header.ofByte aHeader).type data msgId rc props →
      ∃ pack, ack MQTTVersion aHeader data = .ok pack ∧
        ((Header.ofByte aHeader).type ≠ .disconnect → pack.msgId = msgId) ∧
        (MQTTVersion ≥ 5 → pack.rc = rc ∧ pack.properties.array = props)
  refused : (∀ msgId rc props,
    ¬SpellsAck MQTTVersion (Header.ofByte aHeader).type data msgId rc props) →
      ack MQTTVersion aHeader data = .error .malformed

/--
What may follow the id.  The reason code of a DISCONNECT is only taken when two
bytes follow it, and its properties are only read when three do.
-/
inductive TailHandled (MQTTVersion : Nat) (type : PacketType) : Bytes → Prop where
  | omitted : TailHandled MQTTVersion type []
  | reasonCode (hversion : MQTTVersion ≥ 5) {rc : UInt8} (hrc : type = .disconnect → rc = 0) :
      TailHandled MQTTVersion type [rc]
  | properties (hversion : MQTTVersion ≥ 5) {rc : UInt8} {bytes : Bytes}
      (h : WellFormedSection bytes bytes.length)
      (hrc : type = .disconnect → bytes.length = 1 → rc = 0) :
      TailHandled MQTTVersion type (rc :: bytes)
  | refused (hversion : MQTTVersion ≥ 5) {rc : UInt8} {bytes : Bytes} (hne : bytes ≠ [])
      (h : Refused bytes) (hlen : type = .disconnect → 3 ≤ bytes.length) :
      TailHandled MQTTVersion type (rc :: bytes)

/-- The id is there, if there is one, and what follows it is handled. -/
def AckHandled (MQTTVersion : Nat) (type : PacketType) (data : Bytes) : Prop :=
  ∃ id tail, data = id ++ tail ∧ id.length = (if type = .disconnect then 0 else 2) ∧
    TailHandled MQTTVersion type tail

/-! ### Bodies -/

@[simp] theorem ackIdBytes_length
    (type : PacketType) (msgId : MsgId) :
    (ackIdBytes type msgId).length = if type = .disconnect then 0 else 2 := by
  unfold ackIdBytes
  split <;> simp

theorem spellsReason_cons_cons
    {MQTTVersion : Nat} {rc b rc' : UInt8} {rest : Bytes} {props : List Property} :
    SpellsReason MQTTVersion (rc :: b :: rest) rc' props ↔
      MQTTVersion ≥ 5 ∧ rc' = rc ∧
        SpellsSection WellFormedInt (b :: rest) props (b :: rest).length := by
  constructor
  · intro h
    cases h with
    | properties hversion _ h => exact ⟨hversion, rfl, h⟩
  · rintro ⟨hversion, rfl, h⟩
    exact .properties hversion rc' h

/-- An empty section is not one, since its length is missing. -/
theorem not_spellsSection_nil
    {props : List Property} {size : Nat} :
    ¬SpellsSection WellFormedInt [] props size := by
  rintro ⟨lead, n, items, rest, hbytes, hlead, _⟩
  have hpos := TakenInt.length_pos (.wellFormed hlead.1 hlead.2)
  have hlen := congrArg List.length hbytes
  simp only [List.length_nil, List.length_append] at hlen
  omega

/-- A property has an identifier and at least one byte of value. -/
theorem spellsProperty_two_le
    {item : Bytes} {prop : Property}
    (h : SpellsProperty WellFormedInt item prop) :
    2 ≤ item.length := by
  obtain ⟨type, value, rfl, _, hvalue⟩ := h
  have hstring : ∀ {str : Bytes}, IsString str → 2 ≤ str.length := by
    rintro str ⟨hi, lo, data, rfl, _⟩
    simp
  have hpos : 1 ≤ value.length := by
    generalize prop.value = spelled at hvalue
    cases hvalue with
    | byte => simp
    | twoByteInteger => simp
    | fourByteInteger => simp
    | variableByteInteger h => exact TakenInt.length_pos (.wellFormed h.1 h.2)
    | binaryData h | utf8EncodedString h =>
        have := hstring h
        omega
    | utf8StringPair h h' =>
        have := hstring h
        rw [List.length_append]
        omega
  rw [List.length_cons]
  omega

/-- There is no room for a property in two bytes. -/
theorem spellsSection_short
    {bytes : Bytes} {props : List Property}
    (h : SpellsSection WellFormedInt bytes props bytes.length)
    (hshort : bytes.length ≤ 2) :
    props = [] := by
  obtain ⟨lead, n, items, rest, _, hlead, hprops, hlen, hsize⟩ := h
  have hpos := TakenInt.length_pos (.wellFormed hlead.1 hlead.2)
  cases hprops with
  | nil => rfl
  | cons hprop _ =>
      have htwo := spellsProperty_two_le hprop
      rw [List.flatten_cons, List.length_append] at hlen
      omega

theorem spellsReason_singleton
    {MQTTVersion : Nat} {rc rc' : UInt8} {props : List Property} :
    SpellsReason MQTTVersion [rc] rc' props ↔ MQTTVersion ≥ 5 ∧ rc' = rc ∧ props = [] := by
  constructor
  · intro h
    cases h with
    | reasonCode hversion => exact ⟨hversion, rfl, rfl⟩
    | properties _ _ h => exact absurd h not_spellsSection_nil
  · rintro ⟨hversion, rfl, rfl⟩
    exact .reasonCode hversion rc'

theorem tailHandled_singleton
    {MQTTVersion : Nat} {type : PacketType} {rc : UInt8} :
    TailHandled MQTTVersion type [rc] ↔ MQTTVersion ≥ 5 ∧ (type = .disconnect → rc = 0) := by
  constructor
  · intro h
    cases h with
    | reasonCode hversion hrc => exact ⟨hversion, hrc⟩
    | properties _ h _ =>
        obtain ⟨props, hspelled⟩ := (isSection_iff _ _ _).mp h
        exact absurd hspelled not_spellsSection_nil
    | refused _ hne _ _ => exact absurd rfl hne
  · rintro ⟨hversion, hrc⟩
    exact .reasonCode hversion hrc

theorem tailHandled_cons_cons
    {MQTTVersion : Nat} {type : PacketType} {rc b : UInt8} {rest : Bytes} :
    TailHandled MQTTVersion type (rc :: b :: rest) ↔
      MQTTVersion ≥ 5 ∧
        (WellFormedSection (b :: rest) (b :: rest).length ∧
            (type = .disconnect → (b :: rest).length = 1 → rc = 0) ∨
          Refused (b :: rest) ∧ (type = .disconnect → 3 ≤ (b :: rest).length)) := by
  constructor
  · intro h
    cases h with
    | properties hversion h hrc => exact ⟨hversion, .inl ⟨h, hrc⟩⟩
    | refused hversion _ h hlen => exact ⟨hversion, .inr ⟨h, hlen⟩⟩
  · rintro ⟨hversion, ⟨h, hrc⟩ | ⟨h, hlen⟩⟩
    · exact .properties hversion h hrc
    · exact .refused hversion (by simp) h hlen

theorem not_spellsReason_of_lt
    {MQTTVersion : Nat} {tail : Bytes} {rc : UInt8} {props : List Property}
    (hversion : ¬MQTTVersion ≥ 5)
    (hne : tail ≠ []) :
    ¬SpellsReason MQTTVersion tail rc props := by
  intro h
  cases h with
  | omitted => exact hne rfl
  | reasonCode h _ => exact hversion h
  | properties h _ _ => exact hversion h

/-- A body says the same as what follows its id. -/
theorem spellsAck_iff
    {MQTTVersion : Nat} {type : PacketType} {tail : Bytes} {msgId msgId' : MsgId} {rc : UInt8}
    {props : List Property} :
    SpellsAck MQTTVersion type (ackIdBytes type msgId ++ tail) msgId' rc props ↔
      (type ≠ .disconnect → msgId' = msgId) ∧ SpellsReason MQTTVersion tail rc props := by
  constructor
  · rintro ⟨tail', hsame, hreason⟩
    obtain ⟨hid, rfl⟩ := List.append_inj hsame (by simp)
    refine ⟨?_, hreason⟩
    intro htype
    simp only [ackIdBytes, if_neg htype] at hid
    have hread : ∀ id : MsgId, readMsgId (writeInt id.toNat) 0 = .ok (id, 2) := by
      intro id
      have hint := @readInt_writeInt (writeInt id.toNat) [] 0 id.toNat id.toNat_lt (by simp)
      simp [readMsgId, hint]
    have hsame := hread msgId
    rw [hid, hread msgId'] at hsame
    cases hsame
    rfl
  · rintro ⟨hid, hreason⟩
    refine ⟨tail, ?_, hreason⟩
    by_cases htype : type = .disconnect
    · simp [ackIdBytes, htype]
    · rw [hid htype]

/-- One id stands in front of a body, so that it is handled by its tail alone. -/
theorem ackHandled_iff
    {MQTTVersion : Nat} {type : PacketType} {tail : Bytes} {msgId : MsgId} :
    AckHandled MQTTVersion type (ackIdBytes type msgId ++ tail) ↔
      TailHandled MQTTVersion type tail := by
  constructor
  · rintro ⟨id, tail', hsame, hlen, htail⟩
    obtain ⟨_, rfl⟩ := List.append_inj hsame (by rw [ackIdBytes_length, hlen])
    exact htail
  · intro htail
    exact ⟨_, tail, rfl, ackIdBytes_length _ _, htail⟩

/-! ### What the function does -/

/-- The id is read, or it is cut off. -/
theorem ackIdStage
    (type : PacketType) (data : Bytes) :
    (∃ msgId tail, data = ackIdBytes type msgId ++ tail ∧
      (if type ≠ .disconnect then readMsgId data 0 else .ok (0, 0)) =
        (.ok (msgId, (ackIdBytes type msgId).length) : Except ReadError (MsgId × Nat))) ∨
    (type ≠ .disconnect ∧ data.length < 2 ∧ readMsgId data 0 = .error .outOfBounds) := by
  by_cases htype : type = .disconnect
  · exact .inl ⟨0, data, by simp [ackIdBytes, htype], by simp [htype]⟩
  · rcases readMsgId_cases data 0 with ⟨msgId, tail, hdata, hread⟩ | hshort
    · refine .inl ⟨msgId, tail, ?_, ?_⟩
      · rw [ackIdBytes, if_neg htype]
        exact hdata
      · rw [if_pos htype, hread, ackIdBytes_length, if_neg htype]
    · exact .inr ⟨htype, hshort⟩

section Body

variable {MQTTVersion : Nat} {aHeader : UInt8} {msgId : MsgId} {data id tail : Bytes}

variable (hdata : data = id ++ tail)
  (hid : (if (Header.ofByte aHeader).type ≠ .disconnect then readMsgId data 0 else .ok (0, 0)) =
    (.ok (msgId, id.length) : Except ReadError (MsgId × Nat)))

include hdata hid

/-- Nothing but the id is read from two bytes, or before MQTT 5. -/
theorem ack_short
    (hshort : MQTTVersion ≥ 5 → id.length + tail.length ≤ 2) :
    ack MQTTVersion aHeader data =
      .ok ⟨Header.ofByte aHeader, msgId, 0, MQTTVersion, MQTTProperties.initializer⟩ := by
  have hlen : data.length = id.length + tail.length := by
    rw [hdata, List.length_append]
  unfold ack
  dsimp only
  rw [hid]
  dsimp only
  rw [if_neg (by omega)]
  dsimp only
  rw [if_neg (by omega)]

/-- From three bytes the byte behind the id is the reason code. -/
theorem ack_three
    {rc : UInt8} {rest : Bytes}
    (htail : tail = rc :: rest)
    (hversion : MQTTVersion ≥ 5)
    (hthree : id.length + tail.length = 3) :
    ack MQTTVersion aHeader data =
      .ok ⟨Header.ofByte aHeader, msgId, rc, MQTTVersion, MQTTProperties.initializer⟩ := by
  have hlen : data.length = id.length + tail.length := by
    rw [hdata, List.length_append]
  have hchar : readChar data id.length = .ok (rc, id.length + 1) := by
    simp [readChar, hdata, htail]
  unfold ack
  dsimp only
  rw [hid]
  dsimp only
  rw [if_pos ⟨hversion, by omega⟩, hchar]
  dsimp only
  rw [if_neg (by omega)]

/-- Of more bytes everything depends on the properties. -/
theorem ack_long
    {rc : UInt8} {rest : Bytes}
    (htail : tail = rc :: rest)
    (hversion : MQTTVersion ≥ 5)
    (hlong : 3 < id.length + tail.length) :
    ack MQTTVersion aHeader data =
      (MQTTProperties.read data (id.length + 1)).map
        fun res => ⟨Header.ofByte aHeader, msgId, rc, MQTTVersion, res.1⟩ := by
  have hlen : data.length = id.length + tail.length := by
    rw [hdata, List.length_append]
  have hchar : readChar data id.length = .ok (rc, id.length + 1) := by
    simp [readChar, hdata, htail]
  unfold ack
  dsimp only
  rw [hid]
  dsimp only
  rw [if_pos ⟨hversion, by omega⟩, hchar]
  dsimp only
  rw [if_pos ⟨hversion, by omega⟩]
  cases MQTTProperties.read data (id.length + 1) <;> rfl

end Body

/-! ### The whole body -/

section Body

variable {MQTTVersion : Nat} {aHeader : UInt8} {msgId : MsgId} {data tail : Bytes}

variable (hdata : data = ackIdBytes (Header.ofByte aHeader).type msgId ++ tail)

include hdata

/-- A packet that is returned has to say what the body says. -/
theorem decodesAck_of_ok
    {pack : Ack}
    (hpack : pack.msgId = msgId)
    (hack : ack MQTTVersion aHeader data = .ok pack) :
    DecodesAck MQTTVersion aHeader data ↔
      (∃ rc props, SpellsReason MQTTVersion tail rc props) ∧
      ∀ rc props, SpellsReason MQTTVersion tail rc props →
        MQTTVersion ≥ 5 → pack.rc = rc ∧ pack.properties.array = props := by
  subst hdata
  constructor
  · intro h
    refine ⟨?_, ?_⟩
    · by_contra hnone
      rw [h.refused] at hack
      · cases hack
      · intro msgId rc props hspells
        exact hnone ⟨rc, props, (spellsAck_iff.mp hspells).2⟩
    · intro rc props hreason
      obtain ⟨pack', hack', _, hparts⟩ :=
        h.decoded msgId rc props (spellsAck_iff.mpr ⟨fun _ => rfl, hreason⟩)
      rw [hack] at hack'
      cases hack'
      exact hparts
  · rintro ⟨⟨rc, props, hreason⟩, hparts⟩
    refine ⟨by simp [hack], ?_, ?_⟩
    · intro msgId' rc props hspells
      obtain ⟨hid, hreason⟩ := spellsAck_iff.mp hspells
      exact ⟨pack, hack, fun htype => hpack.trans (hid htype).symm, hparts rc props hreason⟩
    · intro hnone
      exact absurd (spellsAck_iff.mpr ⟨fun _ => rfl, hreason⟩) (hnone msgId rc props)

/-- A body whose tail says nothing has to be refused, and another one must not be. -/
theorem decodesAck_of_error
    {e : ReadError}
    (hack : ack MQTTVersion aHeader data = .error e) :
    DecodesAck MQTTVersion aHeader data ↔
      e = .malformed ∧ ∀ rc props, ¬SpellsReason MQTTVersion tail rc props := by
  subst hdata
  constructor
  · intro h
    refine ⟨?_, ?_⟩
    · cases e with
      | malformed => rfl
      | outOfBounds => exact absurd hack h.inside
    · intro rc props hreason
      obtain ⟨pack, hok, _⟩ := h.decoded msgId rc props (spellsAck_iff.mpr ⟨fun _ => rfl, hreason⟩)
      rw [hack] at hok
      cases hok
  · rintro ⟨rfl, hnone⟩
    refine ⟨by simp [hack], ?_, fun _ => hack⟩
    intro msgId' rc props hspells
    exact absurd (spellsAck_iff.mp hspells).2 (hnone rc props)

/-- Two or three bytes of a DISCONNECT, whose properties are not read. -/
theorem decodesAck_unread
    {rc b rc₀ : UInt8} {rest : Bytes}
    (htail : tail = rc :: b :: rest)
    (hversion : MQTTVersion ≥ 5)
    (hshort : (b :: rest).length ≤ 2)
    (hack : ack MQTTVersion aHeader data =
      .ok ⟨Header.ofByte aHeader, msgId, rc₀, MQTTVersion, MQTTProperties.initializer⟩) :
    DecodesAck MQTTVersion aHeader data ↔
      WellFormedSection (b :: rest) (b :: rest).length ∧ rc₀ = rc := by
  rw [decodesAck_of_ok hdata rfl hack, htail]
  simp only [spellsReason_cons_cons]
  constructor
  · rintro ⟨⟨_, props, _, rfl, hspelled⟩, hparts⟩
    exact ⟨(isSection_iff _ _ _).mpr ⟨props, hspelled⟩,
      (hparts _ props ⟨hversion, rfl, hspelled⟩ hversion).1⟩
  · rintro ⟨hwf, rfl⟩
    obtain ⟨props, hspelled⟩ := (isSection_iff _ _ _).mp hwf
    refine ⟨⟨rc₀, props, hversion, rfl, hspelled⟩, ?_⟩
    rintro rc' props' ⟨_, rfl, hspelled'⟩ _
    exact ⟨rfl, (spellsSection_short hspelled' hshort).symm⟩

/-- Properties that are read are those of the section, if there is one up to the end. -/
theorem decodesAck_read
    {rc b : UInt8} {rest : Bytes} {pos : Nat}
    (htail : tail = rc :: b :: rest)
    (hversion : MQTTVersion ≥ 5)
    (hdrop : data.drop pos = b :: rest)
    (hack : ack MQTTVersion aHeader data = (MQTTProperties.read data pos).map
      fun res => ⟨Header.ofByte aHeader, msgId, rc, MQTTVersion, res.1⟩) :
    DecodesAck MQTTVersion aHeader data ↔
      WellFormedSection (b :: rest) (b :: rest).length ∨ Refused (b :: rest) := by
  have hspelled_ok : ∀ props, SpellsSection WellFormedInt (b :: rest) props (b :: rest).length →
      ∃ res, MQTTProperties.read data pos = .ok res ∧ res.1.array = props := by
    intro props hspelled
    obtain ⟨length, hread⟩ := read_spelled (hdrop ▸ hspelled.taken)
    exact ⟨_, hread, rfl⟩
  have hmalformed := read_malformed_iff data pos
  rw [hdrop] at hmalformed
  cases hread : MQTTProperties.read data pos with
  | ok res =>
      rw [hread] at hack hspelled_ok hmalformed
      have hnot : ¬Refused (b :: rest) := by
        intro hrefused
        cases hmalformed.mpr hrefused
      rw [decodesAck_of_ok hdata rfl hack, htail]
      simp only [spellsReason_cons_cons, hnot, or_false]
      constructor
      · rintro ⟨⟨_, props, _, _, hspelled⟩, _⟩
        exact (isSection_iff _ _ _).mpr ⟨props, hspelled⟩
      · intro hwf
        obtain ⟨props, hspelled⟩ := (isSection_iff _ _ _).mp hwf
        refine ⟨⟨rc, props, hversion, rfl, hspelled⟩, ?_⟩
        rintro rc' props' ⟨_, rfl, hspelled'⟩ _
        obtain ⟨_, hsame, harray⟩ := hspelled_ok props' hspelled'
        cases hsame
        exact ⟨rfl, harray⟩
  | error e =>
      rw [hread] at hack hspelled_ok hmalformed
      have hnone : ¬WellFormedSection (b :: rest) (b :: rest).length := by
        intro hwf
        obtain ⟨props, hspelled⟩ := (isSection_iff _ _ _).mp hwf
        obtain ⟨_, hok, _⟩ := hspelled_ok props hspelled
        cases hok
      rw [decodesAck_of_error hdata hack, htail]
      simp only [spellsReason_cons_cons, hnone, false_or]
      constructor
      · rintro ⟨rfl, _⟩
        exact hmalformed.mp rfl
      · intro hrefused
        cases hmalformed.mpr hrefused
        refine ⟨rfl, ?_⟩
        rintro rc' props ⟨_, _, hspelled⟩
        exact hnone ((isSection_iff _ _ _).mpr ⟨props, hspelled⟩)

/-- Behind the id everything depends on the tail. -/
theorem decodesAck_behind
    (hid : (if (Header.ofByte aHeader).type ≠ .disconnect then readMsgId data 0 else .ok (0, 0)) =
      (.ok (msgId, (ackIdBytes (Header.ofByte aHeader).type msgId).length) :
        Except ReadError (MsgId × Nat))) :
    DecodesAck MQTTVersion aHeader data ↔
      TailHandled MQTTVersion (Header.ofByte aHeader).type tail := by
  have hlen := ackIdBytes_length (Header.ofByte aHeader).type msgId
  by_cases hversion : MQTTVersion ≥ 5
  · rcases tail with _ | ⟨rc, _ | ⟨b, rest⟩⟩
    · have hack := ack_short hdata hid (fun _ : MQTTVersion ≥ 5 => by
        rw [hlen, List.length_nil]
        split <;> omega)
      refine iff_of_true ?_ .omitted
      rw [decodesAck_of_ok hdata rfl hack]
      refine ⟨⟨0, [], .omitted⟩, ?_⟩
      intro rc props hreason _
      cases hreason
      exact ⟨rfl, rfl⟩
    · rw [tailHandled_singleton]
      by_cases htype : (Header.ofByte aHeader).type = .disconnect
      · rw [if_pos htype] at hlen
        have hack := ack_short hdata hid (fun _ : MQTTVersion ≥ 5 => by simp [hlen])
        rw [decodesAck_of_ok hdata rfl hack]
        simp [spellsReason_singleton, hversion, htype, MQTTProperties.initializer, eq_comm]
      · rw [if_neg htype] at hlen
        have hack := ack_three hdata hid rfl hversion (by simp [hlen])
        rw [decodesAck_of_ok hdata rfl hack]
        simp [spellsReason_singleton, hversion, htype, MQTTProperties.initializer]
    · have hdrop : data.drop ((ackIdBytes (Header.ofByte aHeader).type msgId).length + 1) =
          b :: rest := by
        rw [hdata, ← List.drop_drop, List.drop_left, List.drop_succ_cons, List.drop_zero]
      rw [tailHandled_cons_cons]
      by_cases htype : (Header.ofByte aHeader).type = .disconnect
      · rw [if_pos htype] at hlen
        rcases rest with _ | ⟨c, _ | ⟨d, rest⟩⟩
        · have hack := ack_short hdata hid (fun _ : MQTTVersion ≥ 5 => by simp [hlen])
          rw [decodesAck_unread hdata rfl hversion (by simp) hack]
          simp [hversion, htype, eq_comm]
        · have hack := ack_three hdata hid rfl hversion (by simp [hlen])
          rw [decodesAck_unread hdata rfl hversion (by simp) hack]
          simp [hversion, htype]
        · have hack := ack_long hdata hid rfl hversion (by simp [hlen])
          rw [decodesAck_read hdata rfl hversion hdrop hack]
          simp [hversion]
      · rw [if_neg htype] at hlen
        have hack := ack_long hdata hid rfl hversion
          (by simp only [hlen, List.length_cons]; omega)
        rw [decodesAck_read hdata rfl hversion hdrop hack]
        simp [hversion, htype]
  · have hack := ack_short hdata hid (fun h : MQTTVersion ≥ 5 => absurd h hversion)
    rw [decodesAck_of_ok hdata rfl hack]
    cases tail with
    | nil => exact iff_of_true ⟨⟨0, [], .omitted⟩, fun _ _ _ h => absurd h hversion⟩ .omitted
    | cons rc rest =>
        refine iff_of_false ?_ ?_
        · rintro ⟨⟨_, _, hreason⟩, _⟩
          exact not_spellsReason_of_lt hversion (by simp) hreason
        · intro h
          cases h <;> exact hversion ‹_›

end Body

/--
A body is decoded as it was sent, or refused, when the id is there and the
lengths in front of the reason code and of the properties do not mislead.
-/
theorem ack_decodes_iff
    (MQTTVersion : Nat) (aHeader : UInt8) (data : Bytes) :
    DecodesAck MQTTVersion aHeader data ↔
      AckHandled MQTTVersion (Header.ofByte aHeader).type data := by
  rcases ackIdStage (Header.ofByte aHeader).type data with
    ⟨msgId, tail, hdata, hid⟩ | ⟨htype, hshort, hid⟩
  · rw [decodesAck_behind hdata hid, hdata, ackHandled_iff]
  · refine iff_of_false ?_ ?_
    · intro h
      refine h.inside ?_
      unfold ack
      simp [htype, hid]
    · rintro ⟨id, tail, rfl, hlen, _⟩
      rw [if_neg htype] at hlen
      rw [List.length_append] at hshort
      omega

/-- A DISCONNECT of one byte: its reason code is left unread. -/
theorem disconnect_reason_not_decoded :
    ack 5 224 [139] = .ok ⟨Header.ofByte 224, 0, 0, 5, MQTTProperties.initializer⟩ ∧
      ¬DecodesAck 5 224 [139] := by
  have hread : ack 5 224 [139] = .ok ⟨Header.ofByte 224, 0, 0, 5, MQTTProperties.initializer⟩ := by
    decide
  refine ⟨hread, ?_⟩
  intro h
  obtain ⟨pack, hack, _, hparts⟩ := h.decoded 0 139 [] ⟨[139], rfl, .reasonCode (by decide) 139⟩
  rw [hread] at hack
  cases hack
  exact absurd (hparts (by decide)).1 (by decide)

/-- The id of an acknowledgement without a body is read behind its end. -/
example : ack 4 64 [] = .error .outOfBounds := by
  rfl

end MQTTPacket
end PahoMqtt
