import PahoMqtt.PropertySections

/-!
# What a property section spells

A section that is well formed spells a list of properties, and
`MQTTProperties_read` gives just this list back.  From this and from the
sections that are refused it follows when the function reads exactly.
-/

namespace PahoMqtt
namespace MQTTProperties

open Lib MQTTPacket

/-- A property is spelled by its identifier and its value. -/
def SpellsProperty (VarInt : Bytes → Nat → Prop) (item : Bytes) (prop : Property) : Prop :=
  ∃ type value, item = prop.identifier :: value ∧
    propertyGetType prop.identifier = some type ∧ SpellsValue VarInt type value prop.value

/-- The bytes start with a section of `size` bytes that spells the properties. -/
def SpellsSection (VarInt : Bytes → Nat → Prop)
    (bytes : Bytes) (props : List Property) (size : Nat) : Prop :=
  ∃ (lead : Bytes) (n : Nat) (items : List Bytes) (rest : Bytes),
    bytes = lead ++ (items.flatten ++ rest) ∧ VarInt lead n ∧
    List.Forall₂ (SpellsProperty VarInt) items props ∧ items.flatten.length = n ∧
    size = lead.length + n

/-! ### What is spelled -/

theorem SpellsValue.isValue
    {VarInt : Bytes → Nat → Prop} {type : PropertyType} {bytes : Bytes} {value : PropertyValue}
    (h : SpellsValue VarInt type bytes value) :
    IsValue VarInt type bytes := by
  cases h with
  | byte b => exact .byte b
  | twoByteInteger b₀ b₁ => exact .twoByteInteger b₀ b₁
  | fourByteInteger b₀ b₁ b₂ b₃ => exact .fourByteInteger b₀ b₁ b₂ b₃
  | variableByteInteger h => exact .variableByteInteger h
  | binaryData h => exact .binaryData h
  | utf8EncodedString h => exact .utf8EncodedString h
  | utf8StringPair h h' => exact .utf8StringPair h h'

theorem SpellsValue.mono
    {VarInt VarInt' : Bytes → Nat → Prop} {type : PropertyType} {bytes : Bytes}
    {value : PropertyValue}
    (hmono : ∀ bytes n, VarInt bytes n → VarInt' bytes n)
    (h : SpellsValue VarInt type bytes value) :
    SpellsValue VarInt' type bytes value := by
  cases h with
  | byte b => exact .byte b
  | twoByteInteger b₀ b₁ => exact .twoByteInteger b₀ b₁
  | fourByteInteger b₀ b₁ b₂ b₃ => exact .fourByteInteger b₀ b₁ b₂ b₃
  | variableByteInteger h => exact .variableByteInteger (hmono _ _ h)
  | binaryData h => exact .binaryData h
  | utf8EncodedString h => exact .utf8EncodedString h
  | utf8StringPair h h' => exact .utf8StringPair h h'

/-- The value is the member of the union that its type asks for. -/
theorem SpellsValue.admits
    {VarInt : Bytes → Nat → Prop} {type : PropertyType} {bytes : Bytes} {value : PropertyValue}
    (h : SpellsValue VarInt type bytes value) :
    type.admits value = true := by
  cases h <;> rfl

theorem isProperty_iff
    (VarInt : Bytes → Nat → Prop) (item : Bytes) :
    IsProperty VarInt item ↔ ∃ prop, SpellsProperty VarInt item prop := by
  constructor
  · rintro ⟨identifier, type, bytes, rfl, htype, hvalue⟩
    obtain ⟨value, hspelled⟩ := hvalue.spells
    exact ⟨⟨identifier, value, by simp [htype, hspelled.admits]⟩, type, bytes, rfl, htype, hspelled⟩
  · rintro ⟨prop, type, bytes, rfl, htype, hspelled⟩
    exact ⟨_, type, bytes, rfl, htype, hspelled.isValue⟩

/-- A section is one that spells some properties. -/
theorem isSection_iff
    (VarInt : Bytes → Nat → Prop) (bytes : Bytes) (size : Nat) :
    IsSection VarInt bytes size ↔ ∃ props, SpellsSection VarInt bytes props size := by
  have hitems : ∀ items : List Bytes, (∀ item ∈ items, IsProperty VarInt item) ↔
      ∃ props, List.Forall₂ (SpellsProperty VarInt) items props := by
    intro items
    induction items with
    | nil => simp
    | cons item items ih =>
        rw [List.forall_mem_cons, ih, isProperty_iff]
        constructor
        · rintro ⟨⟨prop, hprop⟩, props, hprops⟩
          exact ⟨prop :: props, .cons hprop hprops⟩
        · rintro ⟨_, hcons⟩
          cases hcons with
          | cons hprop hprops => exact ⟨⟨_, hprop⟩, _, hprops⟩
  constructor
  · rintro ⟨lead, n, items, rest, hbytes, hlead, hall, hlen, hsize⟩
    obtain ⟨props, hprops⟩ := (hitems items).mp hall
    exact ⟨props, lead, n, items, rest, hbytes, hlead, hprops, hlen, hsize⟩
  · rintro ⟨props, lead, n, items, rest, hbytes, hlead, hprops, hlen, hsize⟩
    exact ⟨lead, n, items, rest, hbytes, hlead, (hitems items).mpr ⟨props, hprops⟩, hlen, hsize⟩

theorem SpellsProperty.mono
    {VarInt VarInt' : Bytes → Nat → Prop} {item : Bytes} {prop : Property}
    (hmono : ∀ bytes n, VarInt bytes n → VarInt' bytes n)
    (h : SpellsProperty VarInt item prop) :
    SpellsProperty VarInt' item prop := by
  obtain ⟨type, value, hitem, htype, hvalue⟩ := h
  exact ⟨type, value, hitem, htype, hvalue.mono hmono⟩

/-- What is well formed is taken. -/
theorem SpellsSection.taken
    {bytes : Bytes} {props : List Property} {size : Nat}
    (h : SpellsSection WellFormedInt bytes props size) :
    SpellsSection TakenInt bytes props size := by
  have hmono : ∀ bytes n, WellFormedInt bytes n → TakenInt bytes n :=
    fun _ _ h => .wellFormed h.1 h.2
  obtain ⟨lead, n, items, rest, hbytes, hlead, hprops, hlen, hsize⟩ := h
  exact ⟨lead, n, items, rest, hbytes, hmono _ _ hlead,
    hprops.imp fun _ _ hprop => hprop.mono hmono, hlen, hsize⟩

theorem WellFormedSection.taken
    {bytes : Bytes} {size : Nat}
    (h : WellFormedSection bytes size) :
    IsSection TakenInt bytes size := by
  obtain ⟨props, hspelled⟩ := (isSection_iff _ _ _).mp h
  exact (isSection_iff _ _ _).mpr ⟨props, hspelled.taken⟩

/-! ### Reading what is spelled -/

theorem propertyRead_spelled
    {item buf rest : Bytes} {pos : Nat} {prop : Property}
    (h : SpellsProperty TakenInt item prop)
    (hdrop : buf.drop pos = item ++ rest) :
    propertyRead buf pos = .ok (prop, pos + item.length) := by
  obtain ⟨type, value, rfl, htype, hvalue⟩ := h
  have hcons : buf.drop pos = prop.identifier :: (value ++ rest) := hdrop
  obtain ⟨v, hread, hv⟩ := valueRead_spelled hvalue (getElem?_of_drop hcons).2
  rw [propertyRead_of_value hcons htype hread, List.length_cons]
  congr 2
  · exact (Property.mk.injEq ..).mpr ⟨rfl, hv⟩
  · omega

/-- Properties that come to the announced length are read one by one. -/
theorem readLoop_spelled
    {items : List Bytes} {props : List Property} {buf rest : Bytes} {fuel pos : Nat}
    {array : List Property}
    (hprops : List.Forall₂ (SpellsProperty TakenInt) items props)
    (hlt : items.flatten.length < 4294967296)
    (hfuel : items.flatten.length ≤ fuel)
    (hdrop : buf.drop pos = items.flatten ++ rest) :
    readLoop buf fuel items.flatten.length pos array =
      .ok (array ++ props, pos + items.flatten.length) := by
  induction hprops generalizing fuel pos array with
  | nil =>
      cases fuel <;> simp [readLoop]
  | @cons item prop items props hprop hprops ih =>
      have hpos := ((isProperty_iff _ _).mpr ⟨prop, hprop⟩).length_pos
      simp only [List.flatten_cons, List.length_append, List.append_assoc] at hlt hfuel hdrop ⊢
      obtain ⟨fuel, rfl⟩ : ∃ k, fuel = k + 1 := ⟨fuel - 1, by omega⟩
      have hless : (item.length + items.flatten.length + 4294967296 -
          (pos + item.length - pos) % 4294967296) % 4294967296 = items.flatten.length := by
        omega
      have hread := @ih fuel (pos + item.length) (array ++ [prop]) (by omega) (by omega)
        (Lib.Reader.drop_add hdrop)
      rw [readLoop, if_neg (by omega), propertyRead_spelled hprop hdrop]
      dsimp only
      rw [hless, hread, List.append_assoc, List.singleton_append, Nat.add_assoc]

/-- The properties are those that were spelled, and all of the section is taken. -/
theorem read_spelled
    {buf : Bytes} {pos size : Nat} {props : List Property}
    (h : SpellsSection TakenInt (buf.drop pos) props size) :
    ∃ length, MQTTProperties.read buf pos = .ok (⟨props, length⟩, pos + size) := by
  obtain ⟨lead, n, items, rest, hdrop, htaken, hprops, rfl, rfl⟩ := h
  have hlt := htaken.lt
  have hpos := htaken.length_pos
  have hsize := congrArg List.length hdrop
  simp only [List.length_drop, List.length_append] at hsize
  have hloop := @readLoop_spelled items props buf rest buf.length (pos + lead.length) [] hprops
    (by omega) (by omega) (Lib.Reader.drop_add hdrop)
  refine ⟨items.flatten.length, ?_⟩
  unfold MQTTProperties.read
  rw [if_pos (by omega), decodeBuf_taken htaken hdrop]
  simp only [hloop, List.nil_append, Nat.add_assoc]

theorem read_section
    {buf : Bytes} {pos size : Nat}
    (h : IsSection TakenInt (buf.drop pos) size) :
    ∃ props, MQTTProperties.read buf pos = .ok (props, pos + size) := by
  obtain ⟨props, hspelled⟩ := (isSection_iff _ _ _).mp h
  obtain ⟨length, hread⟩ := read_spelled hspelled
  exact ⟨_, hread⟩

/-! ### Reading exactly -/

/-- What is read inside the buffer are properties. -/
theorem items_of_readLoop
    {buf : Bytes} {fuel remlength pos pos' : Nat} {array array' : List Property}
    (h : readLoop buf fuel remlength pos array = .ok (array', pos'))
    (hinside : pos' ≤ buf.length) :
    ∃ (items : List Bytes) (rest : Bytes), buf.drop pos = items.flatten ++ rest ∧
      (∀ item ∈ items, IsProperty TakenInt item) ∧ pos' = pos + items.flatten.length := by
  induction fuel generalizing remlength pos array with
  | zero =>
      rw [readLoop] at h
      split at h
      · cases h
        exact ⟨[], _, rfl, by simp, rfl⟩
      · cases h
  | succ fuel ih =>
      rw [readLoop] at h
      split at h
      · cases h
        exact ⟨[], _, rfl, by simp, rfl⟩
      · split at h
        · cases h
        next prop pos₁ hprop =>
          obtain ⟨items, rest, hdrop, hitems, rfl⟩ := ih h
          obtain ⟨item, rest', hdrop', hitem, rfl⟩ :=
            isProperty_of_propertyRead hprop (by omega)
          rw [Lib.Reader.drop_add hdrop'] at hdrop
          refine ⟨item :: items, rest, ?_, List.forall_mem_cons.mpr ⟨hitem, hitems⟩, ?_⟩
          · rw [hdrop', hdrop, List.flatten_cons, List.append_assoc]
          · rw [List.flatten_cons, List.length_append, Nat.add_assoc]

/-- What is accepted inside the buffer is a section. -/
theorem section_of_read
    {buf : Bytes} {pos pos' : Nat} {props : Properties}
    (hlen : buf.length < 4294967296)
    (h : MQTTProperties.read buf pos = .ok (props, pos'))
    (hinside : pos' ≤ buf.length) :
    ∃ size, IsSection TakenInt (buf.drop pos) size ∧ pos' = pos + size := by
  unfold MQTTProperties.read at h
  split at h
  · split at h
    · cases h
    next len n hdecode =>
      split at h
      · cases h
      next array pos₁ hloop =>
        cases h
        obtain ⟨items, rest, hdrop', hitems, rfl⟩ := items_of_readLoop hloop hinside
        obtain ⟨lead, body, hdrop, htaken, rfl⟩ := taken_of_decodeBuf hdecode (by omega)
        have hlt := htaken.lt
        obtain ⟨_, m, hm, hmod⟩ := readLoop_consumes (by omega) hloop
        have hsame : items.flatten.length = n := by omega
        rw [Lib.Reader.drop_add hdrop] at hdrop'
        refine ⟨lead.length + n, ⟨lead, n, items, rest, ?_, htaken, hitems, hsame, rfl⟩, ?_⟩
        · rw [hdrop, hdrop']
        · omega
  · cases h

/--
A section is read exactly, and within its bounds, when it is well formed or
something that is checked is wrong in front of everything that is not.
-/
theorem readsExactly_iff
    (buf : Bytes) (pos : Nat) :
    ReadsExactly buf pos ↔
      (∃ size, WellFormedSection (buf.drop pos) size) ∨ Refused (buf.drop pos) := by
  obtain ⟨hok, hmalformed, hbounds⟩ := readInto_initializer buf pos
  constructor
  · rintro ⟨s, result, hread, hexact, hother⟩
    by_cases hwf : ∃ size, WellFormedSection (buf.drop pos) size
    · exact .inl hwf
    · obtain ⟨rfl, rfl⟩ := hother (not_exists.mp hwf)
      refine .inr ((read_malformed_iff buf pos).mp ?_)
      cases hresult : MQTTProperties.read buf pos with
      | ok res =>
          obtain ⟨s, hinto, _⟩ := hok res.1 res.2 hresult
          rw [hread] at hinto
          cases hinto
      | error e =>
          cases e with
          | malformed => rfl
          | outOfBounds =>
              rw [hbounds hresult] at hread
              cases hread
  · rintro (⟨size, hwf⟩ | hrefused)
    · obtain ⟨props, hread⟩ := read_section hwf.taken
      obtain ⟨s, hinto, _⟩ := hok _ _ hread
      refine ⟨s, some (pos + size), hinto, ?_, ?_⟩
      · intro size'
        constructor
        · intro hsame
          obtain rfl : size = size' := by simpa using hsame
          exact hwf
        · intro hwf'
          obtain ⟨props', hread'⟩ := read_section hwf'.taken
          rw [hread] at hread'
          simp only [Except.ok.injEq, Prod.mk.injEq] at hread'
          rw [hread'.2]
      · intro hnot
        exact absurd hwf (hnot size)
    · have hread := (read_malformed_iff buf pos).mpr hrefused
      refine ⟨.initializer, none, hmalformed hread, ?_, fun _ => ⟨rfl, rfl⟩⟩
      intro size
      refine iff_of_false (by simp) ?_
      intro hwf
      obtain ⟨props, hok⟩ := read_section hwf.taken
      rw [hread] at hok
      cases hok

/-- The value of a property whose identifier is the last byte is read behind the end. -/
theorem missing_value_not_readsExactly :
    readInto .initializer [2, 1] 0 = .error .outOfBounds ∧ ¬ReadsExactly [2, 1] 0 := by
  have hread : readInto .initializer [2, 1] 0 = .error .outOfBounds := by
    decide
  refine ⟨hread, ?_⟩
  rintro ⟨s, result, hinto, _⟩
  rw [hread] at hinto
  cases hinto

/-- A length of four continuation bytes is accepted, with a fifth byte that is skipped. -/
example : readInto .initializer [128, 128, 128, 128, 0] 0 = .ok (.initializer, some 5) := by
  decide

end MQTTProperties
end PahoMqtt
