import PahoMqtt.Bytes

/-!
# MQTT 5 property lists

The property list of MQTTProperties.c: its table of identifiers and types, the
encoded length, the writer and the reader.  The union of a property's value is
read through the type of its identifier, so a property carries the proof that
its value is of the form its identifier asks for.

`MQTTProperties.Survives` is what the persistence code relies on for a list:
that reading the bytes written for it gives the list back.  Reading does not
look outside the bytes of the list, so a list that survives on its own survives
anywhere inside a larger buffer (`reads_of_survives`).
-/

namespace PahoMqtt

inductive PropertyType where
  | byte
  | twoByteInteger
  | fourByteInteger
  | variableByteInteger
  | binaryData
  | utf8EncodedString
  | utf8StringPair
deriving DecidableEq, Repr

/-- The members of the value union. -/
inductive PropertyValue where
  | byte (b : UInt8)
  | integer2 (n : UInt16)
  | integer4 (n : UInt32)
  | data (data : Bytes)
  | pair (data value : Bytes)
deriving DecidableEq, Repr

/-- The union member that a property type reads and writes. -/
def PropertyType.admits : PropertyType → PropertyValue → Bool
  | .byte, .byte _ => true
  | .twoByteInteger, .integer2 _ => true
  | .fourByteInteger, .integer4 _ => true
  | .variableByteInteger, .integer4 _ => true
  | .binaryData, .data _ => true
  | .utf8EncodedString, .data _ => true
  | .utf8StringPair, .pair _ _ => true
  | _, _ => false

/-- `MQTTProperty_getType` over the table `namesToTypes`. -/
def propertyGetType (identifier : UInt8) : Option PropertyType :=
  match identifier.toNat with
  | 1 => some .byte
  | 2 => some .fourByteInteger
  | 3 => some .utf8EncodedString
  | 8 => some .utf8EncodedString
  | 9 => some .binaryData
  | 11 => some .variableByteInteger
  | 17 => some .fourByteInteger
  | 18 => some .utf8EncodedString
  | 19 => some .twoByteInteger
  | 21 => some .utf8EncodedString
  | 22 => some .binaryData
  | 23 => some .byte
  | 24 => some .fourByteInteger
  | 25 => some .byte
  | 26 => some .utf8EncodedString
  | 28 => some .utf8EncodedString
  | 31 => some .utf8EncodedString
  | 33 => some .twoByteInteger
  | 34 => some .twoByteInteger
  | 35 => some .twoByteInteger
  | 36 => some .byte
  | 37 => some .byte
  | 38 => some .utf8StringPair
  | 39 => some .fourByteInteger
  | 40 => some .byte
  | 41 => some .byte
  | 42 => some .byte
  | _ => none

/-- A property whose value is of its identifier's type. -/
structure Property where
  identifier : UInt8
  value : PropertyValue
  typed : (propertyGetType identifier).any (·.admits value) = true
deriving DecidableEq

/-- `MQTTProperties`; `length` is the stored byte length of all properties, an `int`. -/
structure Properties where
  array : List Property
  length : Int
deriving DecidableEq

namespace MQTTProperties

open MQTTPacket

/-- `MQTTProperties_initializer` -/
def initializer : Properties := ⟨[], 0⟩

/-- `MQTTProperties_len` -/
def len (props : Properties) : Int :=
  toInt (props.length + VBIlen props.length)

/-- The encoded length `MQTTProperties_add` counts for a property. -/
def addedLength (prop : Property) : Int :=
  match prop.value with
  | .byte _ => 1 + 1
  | .integer2 _ => 2 + 1
  | .integer4 n =>
      if propertyGetType prop.identifier = some .variableByteInteger then
        VBIlen n.toInt32.toInt + 1
      else
        4 + 1
  | .data data => 2 + data.length + 1
  | .pair data value => 2 + data.length + (2 + value.length) + 1

/-- `MQTTProperties_add` of a property with a known identifier. -/
def add (props : Properties) (prop : Property) : Properties :=
  ⟨props.array ++ [prop], toInt (props.length + addedLength prop)⟩

/-- `MQTTProperties_copy` -/
def copy (props : Properties) : Properties :=
  props.array.foldl add initializer

/-- `MQTTProperty_write` -/
def propertyWrite (prop : Property) : Bytes :=
  writeChar prop.identifier ++
    match prop.value with
    | .byte b => writeChar b
    | .integer2 n => writeInt n.toNat
    | .integer4 n =>
        if propertyGetType prop.identifier = some .variableByteInteger then
          encode n.toNat
        else
          writeInt4 n.toInt32.toInt
    | .data data => writeMQTTLenString data
    | .pair data value => writeMQTTLenString data ++ writeMQTTLenString value

/-- `MQTTProperties_write` -/
def write (props : Properties) : Bytes :=
  encode (toSize props.length) ++ props.array.flatMap propertyWrite

/-- The switch of `MQTTProperty_read` over the type of the property. -/
def valueRead (type : PropertyType) (buf : Bytes) (pos : Nat) :
    Except ReadError ({value : PropertyValue // type.admits value = true} × Nat) :=
  match type with
  | .byte =>
      match readChar buf pos with
      | .error e => .error e
      | .ok (b, pos) => .ok (⟨.byte b, rfl⟩, pos)
  | .twoByteInteger =>
      match readInt buf pos with
      | .error e => .error e
      | .ok (n, pos) => .ok (⟨.integer2 (UInt16.ofNat n), rfl⟩, pos)
  | .fourByteInteger =>
      match readInt4 buf pos with
      | .error e => .error e
      | .ok (n, pos) => .ok (⟨.integer4 n, rfl⟩, pos)
  | .variableByteInteger =>
      match decodeBuf buf pos with
      | .error e => .error e
      | .ok (len, n) => .ok (⟨.integer4 (UInt32.ofNat n), rfl⟩, pos + len)
  | .binaryData | .utf8EncodedString =>
      match lenStringRead buf pos with
      | .error e => .error e
      | .ok (data, pos) => .ok (⟨.data data, rfl⟩, pos)
  | .utf8StringPair =>
      match lenStringRead buf pos with
      | .error e => .error e
      | .ok (data, pos) =>
          match lenStringRead buf pos with
          | .error e => .error e
          | .ok (value, pos) => .ok (⟨.pair data value, rfl⟩, pos)

/-- `MQTTProperty_read`; the return value -1 is `malformed`. -/
def propertyRead (buf : Bytes) (pos : Nat) : Except ReadError (Property × Nat) :=
  match readChar buf pos with
  | .error e => .error e
  | .ok (identifier, pos) =>
      match htype : propertyGetType identifier with
      | none => .error .malformed
      | some type =>
          match valueRead type buf pos with
          | .error e => .error e
          | .ok (value, pos) => .ok (⟨identifier, value, by simp [htype, value.2]⟩, pos)

/--
The loop of `MQTTProperties_read`.  `remlength` is an `unsigned int`: a
property that is longer than what remains makes it wrap round.  Every property
starts with a byte of the buffer, so the length of the buffer is fuel enough.
-/
def readLoop (buf : Bytes) :
    (fuel remlength pos : Nat) → List Property → Except ReadError (List Property × Nat)
  | 0, remlength, pos, array =>
      if remlength = 0 then .ok (array, pos) else .error .outOfBounds
  | fuel + 1, remlength, pos, array =>
      if remlength = 0 then
        .ok (array, pos)
      else
        match propertyRead buf pos with
        | .error e => .error e
        | .ok (prop, pos') =>
            readLoop buf fuel ((remlength + 4294967296 - (pos' - pos) % 4294967296) % 4294967296)
              pos' (array ++ [prop])

/--
`MQTTProperties_read` into an empty list: `ok` is the return value 1, with the
list and the new offset; the list is freed again on a malformed section.
-/
def read (buf : Bytes) (pos : Nat) : Except ReadError (Properties × Nat) :=
  if pos < buf.length then
    match decodeBuf buf pos with
    | .error e => .error e
    | .ok (len, remlength) =>
        match readLoop buf buf.length remlength (pos + len) [] with
        | .error e => .error e
        | .ok (array, pos) => .ok (⟨array, remlength⟩, pos)
  else
    .error .malformed

/-! ### Copying -/

theorem foldl_add
    (array : List Property) (before : List Property) (n : Int) :
    array.foldl add ⟨before, toInt n⟩ =
      ⟨before ++ array, toInt (n + (array.map addedLength).sum)⟩ := by
  induction array generalizing before n with
  | nil =>
      simp
  | cons prop array ih =>
      have hadd : add ⟨before, toInt n⟩ prop =
          ⟨before ++ [prop], toInt (n + addedLength prop)⟩ := by
        simp [add, toInt]
      rw [List.foldl_cons, hadd, ih]
      simp [Int.add_assoc]

theorem copy_eq
    (props : Properties) :
    copy props = ⟨props.array, toInt (props.array.map addedLength).sum⟩ := by
  simpa [copy, initializer, toInt] using foldl_add props.array [] 0

/-- A copy depends on the array only, so copying a copy changes nothing. -/
@[simp] theorem copy_copy
    (props : Properties) :
    copy (copy props) = copy props := by
  simp [copy_eq]

@[simp] theorem copy_initializer :
    copy initializer = initializer := by
  rfl

/-! ### Reading back what was written -/

theorem valueRead_local
    (type : PropertyType) :
    Lib.Reader.Local (valueRead type) := by
  intro buf pos pos' value h front back
  unfold valueRead at h ⊢
  cases type with
  | byte =>
      cases hb : readChar buf pos with
      | error e =>
          simp [hb] at h
      | ok res =>
          rw [readChar_local hb front back]
          simp only [hb] at h
          cases h
          rfl
  | twoByteInteger =>
      cases hn : readInt buf pos with
      | error e =>
          simp [hn] at h
      | ok res =>
          rw [readInt_local hn front back]
          simp only [hn] at h
          cases h
          rfl
  | fourByteInteger =>
      cases hn : readInt4 buf pos with
      | error e =>
          simp [hn] at h
      | ok res =>
          rw [readInt4_local hn front back]
          simp only [hn] at h
          cases h
          rfl
  | variableByteInteger =>
      cases hn : decodeBuf buf pos with
      | error e =>
          simp [hn] at h
      | ok res =>
          have hn' : decodeBuf (front ++ (buf ++ back)) (front.length + pos) = .ok res :=
            VBIdecode_inside hn front back
          rw [hn']
          simp only [hn] at h
          cases h
          simp only [Nat.add_assoc]
  | binaryData | utf8EncodedString =>
      cases hdata : lenStringRead buf pos with
      | error e =>
          simp [hdata] at h
      | ok res =>
          rw [lenStringRead_local hdata front back]
          simp only [hdata] at h
          cases h
          rfl
  | utf8StringPair =>
      cases hdata : lenStringRead buf pos with
      | error e =>
          simp [hdata] at h
      | ok res =>
          simp only [hdata] at h
          rw [lenStringRead_local hdata front back]
          cases hvalue : lenStringRead buf res.2 with
          | error e =>
              simp [hvalue] at h
          | ok res' =>
              simp only [hvalue] at h
              simp only [lenStringRead_local hvalue front back]
              cases h
              rfl

theorem propertyRead_local :
    Lib.Reader.Local propertyRead := by
  intro buf pos pos' prop h front back
  unfold propertyRead at h ⊢
  cases hid : readChar buf pos with
  | error e =>
      simp [hid] at h
  | ok res =>
      simp only [hid] at h
      rw [readChar_local hid front back]
      dsimp only at h ⊢
      split at h
      · cases h
      next type htype =>
        split at h
        · cases h
        next value pos₂ hvalue =>
          cases h
          simp only [valueRead_local type hvalue front back]

/-- What is read with some fuel is read with more, and wherever the bytes stand. -/
theorem readLoop_inside
    {buf : Bytes} {fuel remlength pos : Nat} {array : List Property}
    {res : List Property × Nat}
    (h : readLoop buf fuel remlength pos array = .ok res)
    (front back : Bytes) {fuel' : Nat}
    (hfuel : fuel ≤ fuel') :
    readLoop (front ++ (buf ++ back)) fuel' remlength (front.length + pos) array =
      .ok (res.1, front.length + res.2) := by
  induction fuel generalizing remlength pos array fuel' with
  | zero =>
      rw [readLoop] at h
      split at h
      next hzero =>
        cases h
        cases fuel' <;> simp [readLoop, hzero]
      · cases h
  | succ fuel ih =>
      obtain ⟨more, rfl⟩ : ∃ more, fuel' = more + 1 := ⟨fuel' - 1, by omega⟩
      rw [readLoop] at h ⊢
      split
      next hzero =>
        rw [if_pos hzero] at h
        cases h
        rfl
      next hrem =>
        rw [if_neg hrem] at h
        cases hprop : propertyRead buf pos with
        | error e =>
            simp [hprop] at h
        | ok next =>
            simp only [hprop] at h
            rw [propertyRead_local hprop front back]
            have hnext := ih h (by omega : fuel ≤ more)
            simpa only [Nat.add_sub_add_left] using hnext

theorem read_local :
    Lib.Reader.Local read := by
  intro buf pos pos' props h front back
  unfold read at h ⊢
  split at h
  next hroom =>
    rw [if_pos (by simp only [List.length_append]; omega)]
    cases hlen : decodeBuf buf pos with
    | error e =>
        simp [hlen] at h
    | ok res =>
        have hlen' : decodeBuf (front ++ (buf ++ back)) (front.length + pos) = .ok res :=
          VBIdecode_inside hlen front back
        rw [hlen']
        simp only [hlen] at h
        cases hloop : readLoop buf buf.length res.2 (pos + res.1) [] with
        | error e =>
            simp [hloop] at h
        | ok list =>
            simp only [hloop] at h
            have hfuel : buf.length ≤ (front ++ (buf ++ back)).length := by
              simp only [List.length_append]
              omega
            have hinside := readLoop_inside hloop front back hfuel
            simp only [Nat.add_assoc, hinside]
            cases h
            rfl
  · cases h

/-- Reading the bytes written for the list gives the list back, and takes all of them. -/
def Survives (props : Properties) : Prop :=
  read (write props) 0 = .ok (props, (write props).length)

instance (props : Properties) : Decidable (Survives props) :=
  inferInstanceAs (Decidable (read (write props) 0 = .ok (props, (write props).length)))

theorem write_ne_nil
    (props : Properties) :
    write props ≠ [] := by
  simp [write, encode_ne_nil]

/-- A list that survives is read back wherever it was written. -/
theorem reads_of_survives
    {props : Properties}
    (hsurvives : Survives props) :
    Lib.Reader.Reads read (write props) props (fun _ => True) :=
  read_local.reads (write_ne_nil props) hsurvives

theorem survives_initializer :
    Survives initializer := by
  decide

end MQTTProperties

end PahoMqtt
