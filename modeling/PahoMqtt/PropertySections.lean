import PahoMqtt.PropertyRoundTrip

/-!
# The property sections that are accepted

`MQTTProperties_read` over arbitrary bytes, with the memory it fills.  The form
of a section is given by a grammar; what the function does differs from it in
two ways.  A variable byte integer of more than four bytes is taken instead of
refused, and integers, bytes and identifiers are read without asking whether
they are there.  A malformed section is refused only where something that is
checked, an identifier or the length of a string, comes first.
-/

namespace PahoMqtt
namespace MQTTProperties

open Lib MQTTPacket

/-! ### The form of a section -/

/-- Two bytes of length, and as many bytes. -/
def IsString (bytes : Bytes) : Prop :=
  ∃ hi lo data, bytes = hi :: lo :: data ∧ data.length = 256 * hi.toNat + lo.toNat

/-- A complete value of a type; `VarInt` says which bytes are a variable byte integer. -/
inductive IsValue (VarInt : Bytes → Nat → Prop) : PropertyType → Bytes → Prop where
  | byte (b : UInt8) : IsValue VarInt .byte [b]
  | twoByteInteger (b₀ b₁ : UInt8) : IsValue VarInt .twoByteInteger [b₀, b₁]
  | fourByteInteger (b₀ b₁ b₂ b₃ : UInt8) : IsValue VarInt .fourByteInteger [b₀, b₁, b₂, b₃]
  | variableByteInteger {bytes : Bytes} {n : Nat} (h : VarInt bytes n) :
      IsValue VarInt .variableByteInteger bytes
  | binaryData {bytes : Bytes} (h : IsString bytes) : IsValue VarInt .binaryData bytes
  | utf8EncodedString {bytes : Bytes} (h : IsString bytes) :
      IsValue VarInt .utf8EncodedString bytes
  | utf8StringPair {data value : Bytes} (h : IsString data) (h' : IsString value) :
      IsValue VarInt .utf8StringPair (data ++ value)

/-- The value that such bytes spell. -/
inductive SpellsValue (VarInt : Bytes → Nat → Prop) :
    PropertyType → Bytes → PropertyValue → Prop where
  | byte (b : UInt8) : SpellsValue VarInt .byte [b] (.byte b)
  | twoByteInteger (b₀ b₁ : UInt8) : SpellsValue VarInt .twoByteInteger [b₀, b₁]
      (.integer2 (UInt16.ofNat (256 * b₀.toNat + b₁.toNat)))
  | fourByteInteger (b₀ b₁ b₂ b₃ : UInt8) : SpellsValue VarInt .fourByteInteger [b₀, b₁, b₂, b₃]
      (.integer4 (UInt32.ofNat
        (16777216 * b₀.toNat + 65536 * b₁.toNat + 256 * b₂.toNat + b₃.toNat)))
  | variableByteInteger {bytes : Bytes} {n : Nat} (h : VarInt bytes n) :
      SpellsValue VarInt .variableByteInteger bytes (.integer4 (UInt32.ofNat n))
  | binaryData {bytes : Bytes} (h : IsString bytes) :
      SpellsValue VarInt .binaryData bytes (.data (bytes.drop 2))
  | utf8EncodedString {bytes : Bytes} (h : IsString bytes) :
      SpellsValue VarInt .utf8EncodedString bytes (.data (bytes.drop 2))
  | utf8StringPair {data value : Bytes} (h : IsString data) (h' : IsString value) :
      SpellsValue VarInt .utf8StringPair (data ++ value) (.pair (data.drop 2) (value.drop 2))

/-- A known identifier and a complete value. -/
def IsProperty (VarInt : Bytes → Nat → Prop) (bytes : Bytes) : Prop :=
  ∃ identifier type value, bytes = identifier :: value ∧
    propertyGetType identifier = some type ∧ IsValue VarInt type value

/-- The bytes start with a section of `size` bytes: its length, and properties of that length. -/
def IsSection (VarInt : Bytes → Nat → Prop) (bytes : Bytes) (size : Nat) : Prop :=
  ∃ (lead : Bytes) (n : Nat) (items : List Bytes) (rest : Bytes),
    bytes = lead ++ (items.flatten ++ rest) ∧ VarInt lead n ∧
    (∀ item ∈ items, IsProperty VarInt item) ∧ items.flatten.length = n ∧
    size = lead.length + n

/-- A variable byte integer is well formed in at most four bytes. -/
def WellFormedInt (bytes : Bytes) (n : Nat) : Prop :=
  IsVarInt bytes n ∧ bytes.length ≤ 4

def WellFormedSection (bytes : Bytes) (size : Nat) : Prop :=
  IsSection WellFormedInt bytes size

/-! ### Sections that are refused -/

/-- No string starts here: its length is cut off, or runs past the end. -/
def NoString (bytes : Bytes) : Prop :=
  ∀ str rest, bytes = str ++ rest → ¬IsString str

/-- A value that is refused: a string that does not fit. -/
def Refuses : PropertyType → Bytes → Prop
  | .binaryData, bytes => NoString bytes
  | .utf8EncodedString, bytes => NoString bytes
  | .utf8StringPair, bytes =>
      NoString bytes ∨ ∃ str rest, bytes = str ++ rest ∧ IsString str ∧ NoString rest
  | _, _ => False

/-- An unknown identifier, or a string that does not fit. -/
def Unreadable (bytes : Bytes) : Prop :=
  ∃ identifier rest, bytes = identifier :: rest ∧
    ∀ type, propertyGetType identifier = some type → Refuses type rest

/-- Properties, and then something unreadable before their lengths come to `remlength`. -/
def RefusedFrom (remlength : Nat) (bytes : Bytes) : Prop :=
  ∃ (items : List Bytes) (rest : Bytes), bytes = items.flatten ++ rest ∧
    (∀ item ∈ items, IsProperty TakenInt item) ∧
    (∀ before, before <+: items → before.flatten.length % 4294967296 ≠ remlength) ∧
    Unreadable rest

/-- Nothing at all, or an announced length and properties that are refused before it is reached. -/
def Refused (bytes : Bytes) : Prop :=
  bytes = [] ∨ ∃ (lead : Bytes) (n : Nat) (body : Bytes), bytes = lead ++ body ∧
    TakenInt lead n ∧ RefusedFrom n body

/-! ### The reader with its memory -/

/-- The fields of `MQTTProperties`, with the array as it is allocated. -/
structure Storage where
  count : Nat
  max_count : Nat
  length : Int
  array : Option (List Property)
deriving DecidableEq

namespace Storage

def initializer : Storage := ⟨0, 0, 0, none⟩

/-- Ten more places, when there is none left. -/
def grow (s : Storage) : Storage :=
  if s.count = s.max_count then
    { s with max_count := s.max_count + 10, array := some (s.array.getD []) }
  else
    s

/-- `properties->count++` behind a property that was read into the array. -/
def push (s : Storage) (prop : Property) : Storage :=
  { s with count := s.count + 1, array := s.array.map (· ++ [prop]) }

/-- `MQTTProperties_free` of a list that has memory. -/
def free (s : Storage) : Storage :=
  if s.array.isSome then initializer else s

/-- The memory holds the list. -/
def Holds (s : Storage) (props : Properties) : Prop :=
  s.array.getD [] = props.array ∧ s.count = props.array.length ∧ s.length = props.length

end Storage

/-- The loop of `MQTTProperties_read`; it ends with an offset where nothing remains to be read. -/
def fillLoop (buf : Bytes) :
    (fuel remlength pos : Nat) → Storage → Except ReadError (Storage × Option Nat)
  | 0, remlength, pos, s => if remlength = 0 then .ok (s, some pos) else .error .outOfBounds
  | fuel + 1, remlength, pos, s =>
      if remlength = 0 then
        .ok (s, some pos)
      else
        match propertyRead buf pos with
        | .error .outOfBounds => .error .outOfBounds
        | .error .malformed => .ok (s.grow, none)
        | .ok (prop, pos') =>
            fillLoop buf fuel (lessLength remlength (pos' - pos)) pos' (s.grow.push prop)

/-- `MQTTProperties_read`: the memory, and the new offset if the return value is 1. -/
def readInto (s : Storage) (buf : Bytes) (pos : Nat) : Except ReadError (Storage × Option Nat) :=
  if pos < buf.length then
    match decodeBuf buf pos with
    | .error e => .error e
    | .ok (len, remlength) =>
        match fillLoop buf buf.length remlength (pos + len) { s with length := remlength } with
        | .error e => .error e
        | .ok (s, some pos) => .ok (s, some pos)
        | .ok (s, none) => .ok (s.free, none)
  else
    .ok (s.free, none)

/--
Nothing behind the end is read; the return value is 1, and the offset moves,
just by the size of a well-formed section; else the list stays without memory.
-/
def ReadsExactly (buf : Bytes) (pos : Nat) : Prop :=
  ∃ s result, readInto .initializer buf pos = .ok (s, result) ∧
    (∀ size, result = some (pos + size) ↔ WellFormedSection (buf.drop pos) size) ∧
    ((∀ size, ¬WellFormedSection (buf.drop pos) size) → result = none ∧ s = .initializer)

/-! ### The memory -/

theorem Storage.Holds.grow
    {s : Storage} {props : Properties}
    (h : s.Holds props)
    (hroom : s.count = s.max_count ∨ s.array.isSome) :
    s.grow.array.isSome ∧ s.grow.Holds props := by
  unfold Storage.grow
  split
  · exact ⟨rfl, h⟩
  next hfull =>
    exact ⟨hroom.resolve_left hfull, h⟩

theorem Storage.Holds.push
    {s : Storage} {array : List Property} {length : Int}
    (h : s.Holds ⟨array, length⟩)
    (hsome : s.array.isSome)
    (prop : Property) :
    (s.push prop).Holds ⟨array ++ [prop], length⟩ := by
  obtain ⟨kept, hkept⟩ := Option.isSome_iff_exists.mp hsome
  obtain ⟨harray, hcount, hlength⟩ := h
  rw [hkept, Option.getD_some] at harray
  simp [Storage.Holds, Storage.push, hkept, harray, hcount, hlength]

/-- The memory is filled as the list is read. -/
theorem fillLoop_readLoop
    (buf : Bytes) (fuel remlength pos : Nat) {array : List Property} {length : Int} {s : Storage}
    (hs : s.Holds ⟨array, length⟩)
    (hroom : s.count = s.max_count ∨ s.array.isSome) :
    (∀ array' pos', readLoop buf fuel remlength pos array = .ok (array', pos') →
      ∃ s', fillLoop buf fuel remlength pos s = .ok (s', some pos') ∧ s'.Holds ⟨array', length⟩) ∧
    (readLoop buf fuel remlength pos array = .error .malformed →
      ∃ s', fillLoop buf fuel remlength pos s = .ok (s', none) ∧ s'.array.isSome) ∧
    (readLoop buf fuel remlength pos array = .error .outOfBounds →
      fillLoop buf fuel remlength pos s = .error .outOfBounds) := by
  induction fuel generalizing remlength pos array s with
  | zero =>
      by_cases hzero : remlength = 0
      · simp [readLoop, fillLoop, hzero, hs]
      · simp [readLoop, fillLoop, hzero]
  | succ fuel ih =>
      by_cases hzero : remlength = 0
      · simp [readLoop, fillLoop, hzero, hs]
      · have hgrow := hs.grow hroom
        simp only [readLoop, fillLoop, hzero, if_false]
        cases hprop : propertyRead buf pos with
        | error e =>
            cases e <;> simp [hgrow.1]
        | ok next =>
            obtain ⟨prop, pos₁⟩ := next
            exact ih _ _ (hgrow.2.push hgrow.1 prop) (.inr (by simpa [Storage.push] using hgrow.1))

/-- What is left in memory, against the list that was read. -/
theorem readInto_initializer
    (buf : Bytes) (pos : Nat) :
    (∀ props pos', MQTTProperties.read buf pos = .ok (props, pos') →
      ∃ s, readInto .initializer buf pos = .ok (s, some pos') ∧ s.Holds props) ∧
    (MQTTProperties.read buf pos = .error .malformed →
      readInto .initializer buf pos = .ok (.initializer, none)) ∧
    (MQTTProperties.read buf pos = .error .outOfBounds →
      readInto .initializer buf pos = .error .outOfBounds) := by
  unfold MQTTProperties.read readInto
  by_cases hroom : pos < buf.length
  · simp only [hroom, if_true]
    cases hdecode : decodeBuf buf pos with
    | error e =>
        have hbounds : e = .outOfBounds := by
          cases e with
          | malformed => exact absurd hdecode (decodeBuf_ne_malformed buf pos)
          | outOfBounds => rfl
        simp [hbounds]
    | ok res =>
        obtain ⟨len, remlength⟩ := res
        have hstart : Storage.Holds ⟨0, 0, remlength, none⟩ ⟨[], remlength⟩ := ⟨rfl, rfl, rfl⟩
        obtain ⟨hok, hmalformed, hbounds⟩ :=
          fillLoop_readLoop buf buf.length remlength (pos + len) hstart (.inl rfl)
        cases hloop : readLoop buf buf.length remlength (pos + len) [] with
        | error e =>
            cases e with
            | malformed =>
                obtain ⟨s, hfill, hsome⟩ := hmalformed hloop
                simp [Storage.initializer, hloop, hfill, Storage.free, hsome]
            | outOfBounds =>
                simp [Storage.initializer, hloop, hbounds hloop]
        | ok next =>
            obtain ⟨s, hfill, hholds⟩ := hok _ _ hloop
            simp only [Storage.initializer, hloop, hfill]
            refine ⟨?_, by simp, by simp⟩
            rintro props pos' ⟨⟩
            exact ⟨s, rfl, hholds⟩
  · simp [hroom, Storage.free, Storage.initializer]

/-! ### Strings -/

theorem lenStringRead_isString
    {buf str rest : Bytes} {pos : Nat}
    (h : IsString str)
    (hdrop : buf.drop pos = str ++ rest) :
    lenStringRead buf pos = .ok (str.drop 2, pos + str.length) := by
  obtain ⟨hi, lo, data, rfl, hlen⟩ := h
  have hsize := congrArg List.length hdrop
  simp only [List.length_drop, List.length_append, List.length_cons] at hsize
  have hcons : buf.drop pos = hi :: lo :: (data ++ rest) := hdrop
  unfold lenStringRead
  rw [if_pos (by omega), readInt_of_drop hcons]
  dsimp only
  rw [if_pos (by omega), ← List.drop_drop, hdrop, ← hlen]
  simp only [List.cons_append, List.drop_succ_cons, List.drop_zero, List.take_left,
    List.length_cons]
  congr 2
  omega

/-- A string is read where one starts, and refused where none does. -/
theorem lenStringRead_cases
    (buf : Bytes) (pos : Nat) :
    (∃ str rest, buf.drop pos = str ++ rest ∧ IsString str ∧
      lenStringRead buf pos = .ok (str.drop 2, pos + str.length)) ∨
    (NoString (buf.drop pos) ∧ lenStringRead buf pos = .error .malformed) := by
  by_cases hlen : pos + 1 < buf.length
  · obtain ⟨hi, lo, rest, hdrop⟩ : ∃ hi lo rest, buf.drop pos = hi :: lo :: rest := by
      refine ⟨buf[pos], buf[pos + 1], buf.drop (pos + 2), ?_⟩
      rw [List.drop_eq_getElem_cons (by omega), List.drop_eq_getElem_cons hlen]
    have hsize := congrArg List.length hdrop
    simp only [List.length_drop, List.length_cons] at hsize
    by_cases hfits : 256 * hi.toNat + lo.toNat ≤ rest.length
    · have hstr : IsString (hi :: lo :: rest.take (256 * hi.toNat + lo.toNat)) :=
        ⟨hi, lo, _, rfl, by rw [List.length_take]; omega⟩
      have hsplit : buf.drop pos = (hi :: lo :: rest.take (256 * hi.toNat + lo.toNat)) ++
          rest.drop (256 * hi.toNat + lo.toNat) := by
        simp [hdrop]
      exact .inl ⟨_, _, hsplit, hstr, lenStringRead_isString hstr hsplit⟩
    · refine .inr ⟨?_, ?_⟩
      · rintro str rest' heq ⟨hi', lo', data, rfl, hdata⟩
        rw [hdrop] at heq
        simp only [List.cons_append, List.cons.injEq] at heq
        obtain ⟨rfl, rfl, rfl⟩ := heq
        rw [List.length_append] at hfits
        omega
      · unfold lenStringRead
        rw [if_pos hlen, readInt_of_drop hdrop]
        dsimp only
        rw [if_neg (by omega)]
  · refine .inr ⟨?_, by rw [lenStringRead, if_neg hlen]⟩
    rintro str rest heq ⟨hi, lo, data, rfl, _⟩
    have hsize := congrArg List.length heq
    simp only [List.length_drop, List.length_append, List.length_cons] at hsize
    omega

theorem isString_of_lenStringRead
    {buf data : Bytes} {pos pos' : Nat}
    (h : lenStringRead buf pos = .ok (data, pos')) :
    ∃ str rest, buf.drop pos = str ++ rest ∧ IsString str ∧ pos' = pos + str.length := by
  rcases lenStringRead_cases buf pos with ⟨str, rest, hdrop, hstr, hread⟩ | ⟨_, hread⟩
  · rw [hread] at h
    cases h
    exact ⟨str, rest, hdrop, hstr, rfl⟩
  · rw [hread] at h
    cases h

theorem lenStringRead_malformed_iff
    (buf : Bytes) (pos : Nat) :
    lenStringRead buf pos = .error .malformed ↔ NoString (buf.drop pos) := by
  rcases lenStringRead_cases buf pos with ⟨str, rest, hdrop, hstr, hread⟩ | ⟨hno, hread⟩
  · rw [hread]
    refine iff_of_false (by simp) ?_
    intro hno
    exact hno str rest hdrop hstr
  · exact iff_of_true hread hno

/-! ### Values -/

theorem IsValue.spells
    {VarInt : Bytes → Nat → Prop} {type : PropertyType} {bytes : Bytes}
    (h : IsValue VarInt type bytes) :
    ∃ value, SpellsValue VarInt type bytes value := by
  cases h with
  | byte b => exact ⟨_, .byte b⟩
  | twoByteInteger b₀ b₁ => exact ⟨_, .twoByteInteger b₀ b₁⟩
  | fourByteInteger b₀ b₁ b₂ b₃ => exact ⟨_, .fourByteInteger b₀ b₁ b₂ b₃⟩
  | variableByteInteger h => exact ⟨_, .variableByteInteger h⟩
  | binaryData h => exact ⟨_, .binaryData h⟩
  | utf8EncodedString h => exact ⟨_, .utf8EncodedString h⟩
  | utf8StringPair h h' => exact ⟨_, .utf8StringPair h h'⟩

/-- What is spelled is read. -/
theorem valueRead_spelled
    {type : PropertyType} {bytes : Bytes} {value : PropertyValue}
    (h : SpellsValue TakenInt type bytes value)
    {buf rest : Bytes} {pos : Nat}
    (hdrop : buf.drop pos = bytes ++ rest) :
    ∃ v, valueRead type buf pos = .ok (v, pos + bytes.length) ∧ v.1 = value := by
  unfold valueRead
  cases h with
  | byte b =>
      simp [readChar, (getElem?_of_drop hdrop).1]
  | twoByteInteger b₀ b₁ =>
      simp [readInt_of_drop hdrop]
  | fourByteInteger b₀ b₁ b₂ b₃ =>
      obtain ⟨h₀, hrest₀⟩ := getElem?_of_drop hdrop
      obtain ⟨h₁, hrest₁⟩ := getElem?_of_drop hrest₀
      obtain ⟨h₂, hrest₂⟩ := getElem?_of_drop hrest₁
      obtain ⟨h₃, _⟩ := getElem?_of_drop hrest₂
      simp only [Nat.add_assoc, Nat.reduceAdd] at h₂ h₃
      simp [readInt4, h₀, h₁, h₂, h₃]
  | variableByteInteger htaken =>
      simp [decodeBuf_taken htaken hdrop]
  | binaryData hstr | utf8EncodedString hstr =>
      simp [lenStringRead_isString hstr hdrop]
  | utf8StringPair hfirst hsecond =>
      rw [List.append_assoc] at hdrop
      have hread := lenStringRead_isString hfirst hdrop
      have hread' := lenStringRead_isString hsecond (Lib.Reader.drop_add hdrop)
      simp [hread, hread', Nat.add_assoc]

theorem valueRead_isValue
    {type : PropertyType} {value : Bytes}
    (h : IsValue TakenInt type value)
    {buf rest : Bytes} {pos : Nat}
    (hdrop : buf.drop pos = value ++ rest) :
    ∃ v, valueRead type buf pos = .ok (v, pos + value.length) := by
  obtain ⟨_, hspelled⟩ := h.spells
  obtain ⟨v, hread, _⟩ := valueRead_spelled hspelled hdrop
  exact ⟨v, hread⟩

/-- A value that is read inside the buffer is complete. -/
theorem isValue_of_valueRead
    {type : PropertyType} {buf : Bytes} {pos pos' : Nat}
    {v : {value : PropertyValue // type.admits value = true}}
    (h : valueRead type buf pos = .ok (v, pos'))
    (hinside : pos' ≤ buf.length) :
    ∃ value rest, buf.drop pos = value ++ rest ∧ IsValue TakenInt type value ∧
      pos' = pos + value.length := by
  unfold valueRead at h
  cases type with
  | byte =>
      dsimp only at h
      split at h
      · cases h
      next b pos₁ hread =>
        cases h
        obtain ⟨hb, rfl⟩ := readChar_ok hread
        exact ⟨[b], _, drop_of_getElem? hb, .byte b, rfl⟩
  | twoByteInteger =>
      dsimp only at h
      split at h
      · cases h
      next n pos₁ hread =>
        cases h
        obtain ⟨b₀, b₁, h₀, h₁, _, rfl⟩ := readInt_ok hread
        refine ⟨[b₀, b₁], buf.drop (pos + 1 + 1), ?_, .twoByteInteger b₀ b₁, rfl⟩
        rw [drop_of_getElem? h₀, drop_of_getElem? h₁]
        rfl
  | fourByteInteger =>
      dsimp only at h
      split at h
      · cases h
      next n pos₁ hread =>
        cases h
        obtain ⟨b₀, b₁, b₂, b₃, h₀, h₁, h₂, h₃, _, rfl⟩ := readInt4_ok hread
        refine ⟨[b₀, b₁, b₂, b₃], buf.drop (pos + 3 + 1), ?_, .fourByteInteger b₀ b₁ b₂ b₃, rfl⟩
        rw [drop_of_getElem? h₀, drop_of_getElem? h₁, drop_of_getElem? h₂, drop_of_getElem? h₃]
        rfl
  | variableByteInteger =>
      dsimp only at h
      split at h
      · cases h
      next len n hread =>
        cases h
        obtain ⟨lead, rest, hdrop, htaken, rfl⟩ := taken_of_decodeBuf hread hinside
        exact ⟨lead, rest, hdrop, .variableByteInteger htaken, rfl⟩
  | binaryData =>
      dsimp only at h
      split at h
      · cases h
      next hread =>
        cases h
        obtain ⟨str, rest, hdrop, hstr, rfl⟩ := isString_of_lenStringRead hread
        exact ⟨str, rest, hdrop, .binaryData hstr, rfl⟩
  | utf8EncodedString =>
      dsimp only at h
      split at h
      · cases h
      next hread =>
        cases h
        obtain ⟨str, rest, hdrop, hstr, rfl⟩ := isString_of_lenStringRead hread
        exact ⟨str, rest, hdrop, .utf8EncodedString hstr, rfl⟩
  | utf8StringPair =>
      dsimp only at h
      split at h
      · cases h
      next hread =>
        split at h
        · cases h
        next hread' =>
          cases h
          obtain ⟨str, rest, hdrop, hstr, rfl⟩ := isString_of_lenStringRead hread
          obtain ⟨str', rest', hdrop', hstr', rfl⟩ := isString_of_lenStringRead hread'
          rw [Lib.Reader.drop_add hdrop] at hdrop'
          refine ⟨str ++ str', rest', ?_, .utf8StringPair hstr hstr', ?_⟩
          · rw [hdrop, hdrop', List.append_assoc]
          · rw [List.length_append, Nat.add_assoc]

/-- Only strings are refused. -/
theorem valueRead_malformed_iff
    (type : PropertyType) (buf : Bytes) (pos : Nat) :
    valueRead type buf pos = .error .malformed ↔ Refuses type (buf.drop pos) := by
  unfold valueRead Refuses
  cases type with
  | byte =>
      unfold readChar
      cases buf[pos]? <;> simp
  | twoByteInteger =>
      unfold readInt
      cases buf[pos]? <;> cases buf[pos + 1]? <;> simp
  | fourByteInteger =>
      unfold readInt4
      cases buf[pos]? <;> cases buf[pos + 1]? <;> cases buf[pos + 2]? <;> cases buf[pos + 3]? <;>
        simp
  | variableByteInteger =>
      have hne := decodeBuf_ne_malformed buf pos
      cases hread : decodeBuf buf pos with
      | error e =>
          rw [hread] at hne
          simpa using hne
      | ok res => simp
  | binaryData | utf8EncodedString =>
      dsimp only
      rw [← lenStringRead_malformed_iff]
      cases lenStringRead buf pos <;> simp
  | utf8StringPair =>
      dsimp only
      constructor
      · intro h
        split at h
        next hfirst =>
          cases h
          exact .inl ((lenStringRead_malformed_iff buf pos).mp hfirst)
        next hfirst =>
          obtain ⟨str, rest, hdrop, hstr, rfl⟩ := isString_of_lenStringRead hfirst
          split at h
          next hsecond =>
            cases h
            refine .inr ⟨str, rest, hdrop, hstr, ?_⟩
            rw [← Lib.Reader.drop_add hdrop]
            exact (lenStringRead_malformed_iff buf _).mp hsecond
          · cases h
      · rintro (hno | ⟨str, rest, hdrop, hstr, hno⟩)
        · rw [(lenStringRead_malformed_iff buf pos).mpr hno]
        · have hfirst := lenStringRead_isString hstr hdrop
          rw [← Lib.Reader.drop_add hdrop] at hno
          rw [hfirst]
          dsimp only
          rw [(lenStringRead_malformed_iff buf _).mpr hno]

/-! ### Properties -/

/-- What a property is read from, by the type of its identifier. -/
theorem propertyRead_cons
    {buf rest : Bytes} {pos : Nat} {identifier : UInt8}
    (hdrop : buf.drop pos = identifier :: rest) :
    (propertyGetType identifier = none → propertyRead buf pos = .error .malformed) ∧
    (∀ type, propertyGetType identifier = some type →
      (∀ e, valueRead type buf (pos + 1) = .error e → propertyRead buf pos = .error e) ∧
      ∀ v pos', valueRead type buf (pos + 1) = .ok (v, pos') →
        ∃ prop, propertyRead buf pos = .ok (prop, pos')) := by
  have hid : readChar buf pos = .ok (identifier, pos + 1) := by
    simp [readChar, (getElem?_of_drop hdrop).1]
  refine ⟨?_, ?_⟩
  · intro htype
    unfold propertyRead
    rw [hid]
    dsimp only
    split
    · rfl
    next type htype' =>
      rw [htype] at htype'
      cases htype'
  · intro type htype
    refine ⟨?_, ?_⟩
    · intro e hvalue
      unfold propertyRead
      rw [hid]
      dsimp only
      split
      next hnone =>
        rw [htype] at hnone
        cases hnone
      next type' htype' =>
        obtain rfl : type = type' := by simpa [htype] using htype'
        rw [hvalue]
    · intro v pos' hvalue
      exact ⟨_, propertyRead_of_value hdrop htype hvalue⟩

theorem propertyRead_isProperty
    {item buf rest : Bytes} {pos : Nat}
    (h : IsProperty TakenInt item)
    (hdrop : buf.drop pos = item ++ rest) :
    ∃ prop, propertyRead buf pos = .ok (prop, pos + item.length) := by
  obtain ⟨identifier, type, value, rfl, htype, hvalue⟩ := h
  have hcons : buf.drop pos = identifier :: (value ++ rest) := hdrop
  have hrest := (getElem?_of_drop hcons).2
  obtain ⟨v, hread⟩ := valueRead_isValue hvalue hrest
  obtain ⟨prop, hprop⟩ := ((propertyRead_cons hdrop).2 type htype).2 _ _ hread
  refine ⟨prop, ?_⟩
  rw [hprop, List.length_cons]
  congr 2
  omega

theorem isProperty_of_propertyRead
    {buf : Bytes} {pos pos' : Nat} {prop : Property}
    (h : propertyRead buf pos = .ok (prop, pos'))
    (hinside : pos' ≤ buf.length) :
    ∃ item rest, buf.drop pos = item ++ rest ∧ IsProperty TakenInt item ∧
      pos' = pos + item.length := by
  cases hid : buf[pos]? with
  | none =>
      simp [propertyRead, readChar, hid] at h
  | some identifier =>
      have hdrop := drop_of_getElem? hid
      obtain ⟨hunknown, hknown⟩ := propertyRead_cons hdrop
      cases htype : propertyGetType identifier with
      | none =>
          rw [hunknown htype] at h
          cases h
      | some type =>
          obtain ⟨herror, hok⟩ := hknown type htype
          cases hvalue : valueRead type buf (pos + 1) with
          | error e =>
              rw [herror e hvalue] at h
              cases h
          | ok res =>
              obtain ⟨v, pos₁⟩ := res
              obtain ⟨prop', hprop⟩ := hok v pos₁ hvalue
              rw [hprop] at h
              cases h
              obtain ⟨value, rest, hrest, hisvalue, rfl⟩ := isValue_of_valueRead hvalue hinside
              refine ⟨identifier :: value, rest, ?_, ⟨identifier, type, value, rfl, htype, hisvalue⟩,
                ?_⟩
              · rw [hdrop, hrest]
                rfl
              · rw [List.length_cons]
                omega

theorem propertyRead_malformed_iff
    (buf : Bytes) (pos : Nat) :
    propertyRead buf pos = .error .malformed ↔ Unreadable (buf.drop pos) := by
  cases hid : buf[pos]? with
  | none =>
      have hnil : buf.drop pos = [] :=
        List.drop_eq_nil_iff.mpr (List.getElem?_eq_none_iff.mp hid)
      refine iff_of_false (by simp [propertyRead, readChar, hid]) ?_
      rintro ⟨identifier, rest, heq, _⟩
      rw [hnil] at heq
      cases heq
  | some identifier =>
      have hdrop := drop_of_getElem? hid
      obtain ⟨hunknown, hknown⟩ := propertyRead_cons hdrop
      have hunreadable : Unreadable (buf.drop pos) ↔
          ∀ type, propertyGetType identifier = some type →
            Refuses type (buf.drop (pos + 1)) := by
        rw [hdrop]
        constructor
        · rintro ⟨_, _, heq, hrefuses⟩
          cases heq
          exact hrefuses
        · intro hrefuses
          exact ⟨_, _, rfl, hrefuses⟩
      rw [hunreadable]
      cases htype : propertyGetType identifier with
      | none =>
          exact iff_of_true (hunknown htype) (by simp)
      | some type =>
          obtain ⟨herror, hok⟩ := hknown type htype
          simp only [Option.some.injEq, forall_eq', ← valueRead_malformed_iff]
          cases hvalue : valueRead type buf (pos + 1) with
          | error e =>
              rw [herror e hvalue]
              simp
          | ok res =>
              obtain ⟨prop, hprop⟩ := hok res.1 res.2 hvalue
              rw [hprop]
              simp

/-! ### The loop -/

theorem IsProperty.length_pos
    {VarInt : Bytes → Nat → Prop} {item : Bytes}
    (h : IsProperty VarInt item) :
    0 < item.length := by
  obtain ⟨identifier, type, value, rfl, _⟩ := h
  simp

/-- One property more or less in front. -/
theorem refusedFrom_iff
    {remlength : Nat} {bytes : Bytes}
    (hrem : remlength < 4294967296) :
    RefusedFrom remlength bytes ↔
      remlength ≠ 0 ∧ (Unreadable bytes ∨ ∃ item rest, bytes = item ++ rest ∧
        IsProperty TakenInt item ∧ RefusedFrom (lessLength remlength item.length) rest) := by
  constructor
  · rintro ⟨items, rest, rfl, hitems, hbefore, hrest⟩
    have hnonzero : remlength ≠ 0 := by
      have := hbefore [] List.nil_prefix
      simpa [eq_comm] using this
    refine ⟨hnonzero, ?_⟩
    cases items with
    | nil =>
        exact .inl hrest
    | cons item items =>
        obtain ⟨hitem, hitems⟩ := List.forall_mem_cons.mp hitems
        refine .inr ⟨item, items.flatten ++ rest, by simp, hitem, items, rest, rfl, hitems, ?_,
          hrest⟩
        intro before hfront hsame
        refine hbefore (item :: before) (List.prefix_cons_iff.mpr (.inr ⟨_, rfl, hfront⟩)) ?_
        rw [List.flatten_cons, List.length_append]
        unfold lessLength at hsame
        omega
  · rintro ⟨hnonzero, hrest | ⟨item, rest, rfl, hitem, items, rest', rfl, hitems, hbefore, hrest⟩⟩
    · refine ⟨[], bytes, rfl, by simp, ?_, hrest⟩
      intro before hfront hsame
      rw [List.prefix_nil.mp hfront] at hsame
      exact hnonzero hsame.symm
    · refine ⟨item :: items, rest', by simp, List.forall_mem_cons.mpr ⟨hitem, hitems⟩, ?_, hrest⟩
      intro before hfront hsame
      rcases List.prefix_cons_iff.mp hfront with rfl | ⟨before', rfl, htail⟩
      · exact hnonzero hsame.symm
      · refine hbefore before' htail ?_
        rw [List.flatten_cons, List.length_append] at hsame
        unfold lessLength
        omega

theorem not_refusedFrom_nil
    {remlength : Nat}
    (hrem : remlength < 4294967296) :
    ¬RefusedFrom remlength [] := by
  rw [refusedFrom_iff hrem]
  rintro ⟨_, ⟨identifier, rest, heq, _⟩ | ⟨item, rest, heq, hitem, _⟩⟩
  · cases heq
  · have := hitem.length_pos
    rw [(List.append_eq_nil_iff.mp heq.symm).1] at this
    exact absurd this (by simp)

theorem readLoop_malformed_iff
    {buf : Bytes} {fuel remlength pos : Nat} {array : List Property}
    (hrem : remlength < 4294967296)
    (hfuel : (buf.drop pos).length ≤ fuel) :
    readLoop buf fuel remlength pos array = .error .malformed ↔
      RefusedFrom remlength (buf.drop pos) := by
  induction fuel generalizing remlength pos array with
  | zero =>
      rw [List.length_eq_zero_iff.mp (Nat.le_zero.mp hfuel)]
      refine iff_of_false ?_ (not_refusedFrom_nil hrem)
      rw [readLoop]
      split <;> simp
  | succ fuel ih =>
      rw [refusedFrom_iff hrem, readLoop]
      by_cases hzero : remlength = 0
      · simp [hzero]
      · simp only [hzero, if_false, ne_eq, not_false_eq_true, true_and,
          ← propertyRead_malformed_iff]
        cases hprop : propertyRead buf pos with
        | error e =>
            dsimp only
            refine ⟨?_, ?_⟩
            · intro h
              cases h
              exact .inl rfl
            rintro (h | ⟨item, rest, hdrop, hitem, _⟩)
            · cases h
              rfl
            · obtain ⟨prop, hread⟩ := propertyRead_isProperty hitem hdrop
              rw [hread] at hprop
              cases hprop
        | ok next =>
            obtain ⟨prop, pos₁⟩ := next
            have hlt := propertyRead_lt hprop
            have hshort : (buf.drop pos₁).length ≤ fuel := by
              rw [List.length_drop] at hfuel ⊢
              omega
            have hnext := @ih (lessLength remlength (pos₁ - pos)) pos₁ (array ++ [prop])
              (Nat.mod_lt _ (by decide)) hshort
            simp only [reduceCtorEq, false_or]
            refine hnext.trans ⟨?_, ?_⟩
            · intro hrefused
              have hinside : pos₁ ≤ buf.length := by
                by_contra hout
                rw [List.drop_eq_nil_of_le (by omega)] at hrefused
                exact not_refusedFrom_nil (Nat.mod_lt _ (by decide)) hrefused
              obtain ⟨item, rest, hdrop, hitem, rfl⟩ := isProperty_of_propertyRead hprop hinside
              rw [Lib.Reader.drop_add hdrop, Nat.add_sub_cancel_left] at hrefused
              exact ⟨item, rest, hdrop, hitem, hrefused⟩
            · rintro ⟨item, rest, hdrop, hitem, hrefused⟩
              obtain ⟨prop', hread⟩ := propertyRead_isProperty hitem hdrop
              rw [hread] at hprop
              cases hprop
              rwa [Lib.Reader.drop_add hdrop, Nat.add_sub_cancel_left]

/-! ### The whole section -/

/-- Behind the end nothing is refused any more. -/
theorem readLoop_outside
    {buf : Bytes} {fuel remlength pos : Nat} {array : List Property}
    (hout : buf.length ≤ pos) :
    readLoop buf fuel remlength pos array ≠ .error .malformed := by
  have hread : propertyRead buf pos = .error .outOfBounds := by
    simp [propertyRead, readChar, List.getElem?_eq_none_iff.mpr hout]
  cases fuel <;> rw [readLoop]
  · split <;> simp
  · split
    · simp
    · simp [hread]

theorem read_malformed_iff
    (buf : Bytes) (pos : Nat) :
    MQTTProperties.read buf pos = .error .malformed ↔ Refused (buf.drop pos) := by
  unfold MQTTProperties.read Refused
  by_cases hroom : pos < buf.length
  · have hne : buf.drop pos ≠ [] := by
      rw [ne_eq, List.drop_eq_nil_iff]
      omega
    simp only [hroom, if_true, hne, false_or]
    have hunique : ∀ {lead n body}, buf.drop pos = lead ++ body → TakenInt lead n →
        decodeBuf buf pos = .ok (lead.length, n) := fun hdrop htaken => decodeBuf_taken htaken hdrop
    cases hdecode : decodeBuf buf pos with
    | error e =>
        refine iff_of_false ?_ ?_
        · intro h
          cases h
          exact decodeBuf_ne_malformed buf pos hdecode
        · rintro ⟨lead, n, body, hdrop, htaken, _⟩
          rw [hunique hdrop htaken] at hdecode
          cases hdecode
    | ok res =>
        obtain ⟨len, n⟩ := res
        refine Iff.trans (b := readLoop buf buf.length n (pos + len) [] = .error .malformed) ?_
          ⟨?_, ?_⟩
        · dsimp only
          cases readLoop buf buf.length n (pos + len) [] <;> simp
        · intro hmalformed
          have hinside : pos + len ≤ buf.length := by
            by_contra hout
            exact readLoop_outside (by omega) hmalformed
          obtain ⟨lead, body, hdrop, htaken, rfl⟩ := taken_of_decodeBuf hdecode hinside
          have hlt := htaken.lt
          rw [readLoop_malformed_iff (by omega) (by rw [List.length_drop]; omega),
            Lib.Reader.drop_add hdrop] at hmalformed
          exact ⟨lead, n, body, hdrop, htaken, hmalformed⟩
        · rintro ⟨lead, n', body, hdrop, htaken, hrefused⟩
          rw [hunique hdrop htaken] at hdecode
          cases hdecode
          have hlt := htaken.lt
          rwa [readLoop_malformed_iff (by omega) (by rw [List.length_drop]; omega),
            Lib.Reader.drop_add hdrop]
  · have hnil : buf.drop pos = [] := List.drop_eq_nil_of_le (by omega)
    simp [hroom, hnil]

end MQTTProperties
end PahoMqtt
