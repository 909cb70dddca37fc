import PahoMqtt.SectionReading

/-!
# Sections that end with the packet

What `MQTTProperties_read` takes when nothing is left of the packet behind it.
The pointer then stands at the end, or one byte further: a variable byte integer
of four continuation bytes counts a fifth byte that is not looked at, so that it
need not be there.
-/

namespace PahoMqtt
namespace MQTTProperties

open Lib MQTTPacket

/-- Four continuation bytes with nothing behind them. -/
def CutInt (bytes : Bytes) : Prop :=
  bytes.length = 4 ∧ ∀ b ∈ bytes, 128 ≤ b.toNat

/-- A cut integer that says 0, or a section whose last property is a cut integer. -/
def CutSection (bytes : Bytes) : Prop :=
  CutInt bytes ∧ varIntDigits bytes = 0 ∨
  ∃ (lead : Bytes) (n : Nat) (items : List Bytes) (identifier : UInt8) (value : Bytes),
    bytes = lead ++ (items.flatten ++ identifier :: value) ∧ TakenInt lead n ∧
    (∀ item ∈ items, IsProperty TakenInt item) ∧
    propertyGetType identifier = some .variableByteInteger ∧ CutInt value ∧
    n = items.flatten.length + 6

/-- All of the bytes are taken for a section. -/
def TakenWhole (bytes : Bytes) : Prop :=
  IsSection TakenInt bytes bytes.length ∨ CutSection bytes

/-! ### Behind the end -/

theorem decodeBuf_outside
    {buf : Bytes} {pos len n : Nat}
    (h : decodeBuf buf pos = .ok (len, n))
    (hout : buf.length < pos + len) :
    CutInt (buf.drop pos) ∧ len = 5 ∧ n = varIntDigits (buf.drop pos) := by
  rcases VBIdecode_ok h with ⟨lead, rest, m, hdrop, hvar, _, hlen⟩ |
    ⟨lead, rest, hdrop, hfour, hmore, hlen⟩
  · have hpos := hvar.length_pos
    have hsize := congrArg List.length hdrop
    simp only [List.length_drop, List.length_append] at hsize
    omega
  · have hsize := congrArg List.length hdrop
    simp only [List.length_drop, List.length_append] at hsize
    obtain rfl : rest = [] := List.length_eq_zero_iff.mp (by omega)
    have hread := VBIdecode_continues hmore 1 0 0 hdrop
    rw [List.append_nil] at hdrop
    rw [hfour] at hread
    rw [decodeBuf, hread] at h
    cases h
    rw [hdrop]
    exact ⟨⟨hfour, hmore⟩, rfl, by omega⟩

theorem decodeBuf_cut
    {buf : Bytes} {pos : Nat}
    (h : CutInt (buf.drop pos)) :
    decodeBuf buf pos = .ok (5, varIntDigits (buf.drop pos)) := by
  have hread := VBIdecode_continues h.2 1 0 0 (List.append_nil (buf.drop pos)).symm
  rw [h.1] at hread
  rw [decodeBuf, hread]
  simp

theorem lenStringRead_inside
    {buf data : Bytes} {pos pos' : Nat}
    (h : lenStringRead buf pos = .ok (data, pos')) :
    pos' ≤ buf.length := by
  obtain ⟨str, rest, hdrop, hstr, rfl⟩ := isString_of_lenStringRead h
  obtain ⟨hi, lo, data, rfl, _⟩ := hstr
  have hsize := congrArg List.length hdrop
  simp only [List.length_drop, List.length_append, List.length_cons] at hsize ⊢
  omega

/-- Only an integer leads behind the end. -/
theorem valueRead_outside
    {type : PropertyType} {buf : Bytes} {pos pos' : Nat}
    {v : {value : PropertyValue // type.admits value = true}}
    (h : valueRead type buf pos = .ok (v, pos'))
    (hout : buf.length < pos') :
    type = .variableByteInteger ∧ CutInt (buf.drop pos) ∧ pos' = pos + 5 := by
  have hinside : ∀ {i : Nat} {b : UInt8}, buf[i]? = some b → i < buf.length :=
    fun hb => (List.getElem?_eq_some_iff.mp hb).1
  unfold valueRead at h
  cases type with
  | byte =>
      dsimp only at h
      split at h
      · cases h
      next hread =>
        cases h
        obtain ⟨hb, rfl⟩ := readChar_ok hread
        exact absurd hout (Nat.not_lt.mpr (hinside hb))
  | twoByteInteger =>
      dsimp only at h
      split at h
      · cases h
      next hread =>
        cases h
        obtain ⟨_, _, _, hb, _, rfl⟩ := readInt_ok hread
        exact absurd hout (Nat.not_lt.mpr (hinside hb))
  | fourByteInteger =>
      dsimp only at h
      split at h
      · cases h
      next hread =>
        cases h
        obtain ⟨_, _, _, _, _, _, _, hb, _, rfl⟩ := readInt4_ok hread
        exact absurd hout (Nat.not_lt.mpr (hinside hb))
  | variableByteInteger =>
      dsimp only at h
      split at h
      · cases h
      next len n hread =>
        cases h
        obtain ⟨hcut, rfl, _⟩ := decodeBuf_outside hread hout
        exact ⟨rfl, hcut, rfl⟩
  | binaryData | utf8EncodedString =>
      dsimp only at h
      split at h
      · cases h
      next hread =>
        cases h
        exact absurd hout (Nat.not_lt.mpr (lenStringRead_inside hread))
  | utf8StringPair =>
      dsimp only at h
      split at h
      · cases h
      · split at h
        · cases h
        next hread =>
          cases h
          exact absurd hout (Nat.not_lt.mpr (lenStringRead_inside hread))

theorem propertyRead_outside
    {buf : Bytes} {pos pos' : Nat} {prop : Property}
    (h : propertyRead buf pos = .ok (prop, pos'))
    (hout : buf.length < pos') :
    ∃ identifier value, buf.drop pos = identifier :: value ∧
      propertyGetType identifier = some .variableByteInteger ∧ CutInt value ∧
      pos' = pos + 6 := by
  cases hid : buf[pos]? with
  | none =>
      simp [propertyRead, readChar, hid] at h
  | some identifier =>
      have hdrop := drop_of_getElem? hid
      obtain ⟨hunknown, hknown⟩ := propertyRead_cons hdrop
      cases htype : propertyGetType identifier with
      | none =>
          rw [hunknown htype] at h
          cases h
      | some type =>
          obtain ⟨herror, hok⟩ := hknown type htype
          cases hvalue : valueRead type buf (pos + 1) with
          | error e =>
              rw [herror e hvalue] at h
              cases h
          | ok res =>
              obtain ⟨prop', hprop⟩ := hok res.1 res.2 hvalue
              rw [hprop] at h
              cases h
              obtain ⟨rfl, hcut, hpos⟩ := valueRead_outside hvalue hout
              exact ⟨identifier, _, hdrop, htype, hcut, hpos⟩

theorem propertyRead_cut
    {buf value : Bytes} {pos : Nat} {identifier : UInt8}
    (hdrop : buf.drop pos = identifier :: value)
    (htype : propertyGetType identifier = some .variableByteInteger)
    (hcut : CutInt value) :
    ∃ prop, propertyRead buf pos = .ok (prop, pos + 6) := by
  rw [← (getElem?_of_drop hdrop).2] at hcut
  have hvalue : valueRead .variableByteInteger buf (pos + 1) =
      .ok (⟨.integer4 (UInt32.ofNat (varIntDigits (buf.drop (pos + 1)))), rfl⟩,
        pos + 1 + 5) := by
    simp only [valueRead, decodeBuf_cut hcut]
  exact ((propertyRead_cons hdrop).2 _ htype).2 _ _ hvalue

/-! ### The loop -/

/-- Behind the end the loop does not go on. -/
theorem readLoop_at_end
    {buf : Bytes} {fuel remlength pos pos' : Nat} {array array' : List Property}
    (hend : buf.length ≤ pos)
    (h : readLoop buf fuel remlength pos array = .ok (array', pos')) :
    remlength = 0 ∧ pos' = pos := by
  have hread : propertyRead buf pos = .error .outOfBounds := by
    simp [propertyRead, readChar, List.getElem?_eq_none_iff.mpr hend]
  cases fuel with
  | zero =>
      rw [readLoop] at h
      split at h
      next hzero =>
        cases h
        exact ⟨hzero, rfl⟩
      · cases h
  | succ fuel =>
      rw [readLoop, hread] at h
      split at h
      next hzero =>
        cases h
        exact ⟨hzero, rfl⟩
      · cases h

theorem cut_of_readLoop
    {buf : Bytes} {fuel remlength pos pos' : Nat} {array array' : List Property}
    (h : readLoop buf fuel remlength pos array = .ok (array', pos'))
    (hpos : pos ≤ buf.length)
    (hout : buf.length < pos') :
    ∃ (items : List Bytes) (identifier : UInt8) (value : Bytes),
      buf.drop pos = items.flatten ++ identifier :: value ∧
      (∀ item ∈ items, IsProperty TakenInt item) ∧
      propertyGetType identifier = some .variableByteInteger ∧ CutInt value ∧
      pos' = pos + (items.flatten.length + 6) := by
  induction fuel generalizing remlength pos array with
  | zero =>
      rw [readLoop] at h
      split at h
      · cases h
        omega
      · cases h
  | succ fuel ih =>
      rw [readLoop] at h
      split at h
      · cases h
        omega
      · split at h
        · cases h
        next prop pos₁ hprop =>
          by_cases hinside : pos₁ ≤ buf.length
          · obtain ⟨item, rest, hdrop, hitem, rfl⟩ := isProperty_of_propertyRead hprop hinside
            obtain ⟨items, identifier, value, hrest, hitems, htype, hcut, rfl⟩ := ih h hinside
            rw [Lib.Reader.drop_add hdrop] at hrest
            refine ⟨item :: items, identifier, value, ?_,
              List.forall_mem_cons.mpr ⟨hitem, hitems⟩, htype, hcut, ?_⟩
            · rw [hdrop, hrest, List.flatten_cons, List.append_assoc]
            · rw [List.flatten_cons, List.length_append]
              omega
          · obtain ⟨identifier, value, hdrop, htype, hcut, hsix⟩ :=
              propertyRead_outside hprop (by omega)
            obtain ⟨_, rfl⟩ := readLoop_at_end (by omega) h
            exact ⟨[], identifier, value, hdrop, by simp, htype, hcut, by simpa using hsix⟩

/-- The loop over complete properties, with `m` bytes of the section behind them. -/
theorem readLoop_items
    {items : List Bytes} {buf rest : Bytes} {fuel m pos : Nat} {array : List Property}
    (hitems : ∀ item ∈ items, IsProperty TakenInt item)
    (hlt : items.flatten.length + m < 4294967296)
    (hfuel : items.flatten.length ≤ fuel)
    (hdrop : buf.drop pos = items.flatten ++ rest) :
    ∃ fuel' array', fuel ≤ fuel' + items.flatten.length ∧
      readLoop buf fuel (items.flatten.length + m) pos array =
        readLoop buf fuel' m (pos + items.flatten.length) array' := by
  induction items generalizing fuel pos array with
  | nil =>
      exact ⟨fuel, array, by simp, by simp⟩
  | cons item items ih =>
      obtain ⟨hitem, hitems⟩ := List.forall_mem_cons.mp hitems
      have hpos := hitem.length_pos
      simp only [List.flatten_cons, List.length_append, List.append_assoc] at hlt hfuel hdrop ⊢
      obtain ⟨fuel, rfl⟩ : ∃ k, fuel = k + 1 := ⟨fuel - 1, by omega⟩
      obtain ⟨prop, hprop⟩ := propertyRead_isProperty hitem hdrop
      have hless : (item.length + items.flatten.length + m + 4294967296 -
          (pos + item.length - pos) % 4294967296) % 4294967296 = items.flatten.length + m := by
        omega
      obtain ⟨fuel', array', hfuel', hread⟩ := @ih fuel (pos + item.length) (array ++ [prop])
        hitems (by omega) (by omega) (Lib.Reader.drop_add hdrop)
      refine ⟨fuel', array', by omega, ?_⟩
      rw [readLoop, if_neg (by omega), hprop]
      dsimp only
      rw [hless, hread, Nat.add_assoc]

/-! ### The whole section -/

theorem read_of_cutSection
    {buf : Bytes} {pos : Nat}
    (h : CutSection (buf.drop pos)) :
    ∃ props, MQTTProperties.read buf pos = .ok (props, buf.length + 1) := by
  rcases h with ⟨hcut, hzero⟩ | ⟨lead, n, items, identifier, value, hdrop, htaken, hitems, htype,
    hcut, rfl⟩
  · have hsize := hcut.1
    rw [List.length_drop] at hsize
    refine ⟨⟨[], 0⟩, ?_⟩
    have hloop : readLoop buf buf.length 0 (pos + 5) [] = .ok ([], pos + 5) := by
      cases buf.length <;> simp [readLoop]
    have hend : pos + 5 = buf.length + 1 := by omega
    unfold MQTTProperties.read
    rw [if_pos (by omega), decodeBuf_cut hcut, hzero]
    dsimp only
    rw [hloop, hend]
    rfl
  · have hlt := htaken.lt
    have hpos := htaken.length_pos
    have hfour := hcut.1
    have hsize := congrArg List.length hdrop
    simp only [List.length_drop, List.length_append, List.length_cons] at hsize
    have hbehind := Lib.Reader.drop_add hdrop
    obtain ⟨fuel, array, hfuel, hitemsRead⟩ := @readLoop_items items buf (identifier :: value)
      buf.length 6 (pos + lead.length) [] hitems (by omega) (by omega) hbehind
    obtain ⟨prop, hprop⟩ := propertyRead_cut (Lib.Reader.drop_add hbehind) htype hcut
    obtain ⟨fuel, rfl⟩ : ∃ k, fuel = k + 1 := ⟨fuel - 1, by omega⟩
    have hend : pos + lead.length + items.flatten.length + 6 = buf.length + 1 := by omega
    have hless : (6 + 4294967296 - (buf.length + 1 -
        (pos + lead.length + items.flatten.length)) % 4294967296) % 4294967296 = 0 := by
      omega
    have hloop : readLoop buf buf.length (items.flatten.length + 6) (pos + lead.length) [] =
        .ok (array ++ [prop], buf.length + 1) := by
      rw [hitemsRead, readLoop, if_neg (by omega), hprop, hend]
      dsimp only
      rw [hless]
      cases fuel <;> simp [readLoop]
    refine ⟨⟨array ++ [prop], (items.flatten.length + 6 : Nat)⟩, ?_⟩
    unfold MQTTProperties.read
    rw [if_pos (by omega), decodeBuf_taken htaken hdrop]
    simp only [hloop]

theorem cutSection_of_read
    {buf : Bytes} {pos pos' : Nat} {props : Properties}
    (hlen : buf.length < 4294967295)
    (h : MQTTProperties.read buf pos = .ok (props, pos'))
    (hout : buf.length < pos') :
    CutSection (buf.drop pos) ∧ pos' = buf.length + 1 := by
  unfold MQTTProperties.read at h
  split at h
  · split at h
    · cases h
    next len n hdecode =>
      split at h
      · cases h
      next array pos₁ hloop =>
        cases h
        by_cases hlead : pos + len ≤ buf.length
        · obtain ⟨lead, rest, hdrop, htaken, rfl⟩ := taken_of_decodeBuf hdecode hlead
          have hlt := htaken.lt
          obtain ⟨items, identifier, value, hrest, hitems, htype, hcut, hpos⟩ :=
            cut_of_readLoop hloop hlead hout
          obtain ⟨_, m, hm, hmod⟩ := readLoop_consumes (by omega) hloop
          rw [Lib.Reader.drop_add hdrop] at hrest
          have hsize := congrArg List.length hdrop
          rw [hrest] at hsize
          have hfour := hcut.1
          simp only [List.length_drop, List.length_append, List.length_cons] at hsize
          refine ⟨.inr ⟨lead, n, items, identifier, value, ?_, htaken, hitems, htype, hcut, ?_⟩, ?_⟩
          · rw [hdrop, hrest]
          · omega
          · omega
        · obtain ⟨hcut, rfl, rfl⟩ := decodeBuf_outside hdecode (by omega)
          obtain ⟨hzero, rfl⟩ := readLoop_at_end (by omega) hloop
          have hfour := hcut.1
          rw [List.length_drop] at hfour
          exact ⟨.inl ⟨hcut, hzero⟩, by omega⟩
  · cases h

/-- When nothing is left behind the properties. -/
theorem read_toEnd_iff
    {buf : Bytes}
    (pos : Nat)
    (hlen : buf.length < 4294967295) :
    (∃ props pos', MQTTProperties.read buf pos = .ok (props, pos') ∧ buf.length ≤ pos') ↔
      TakenWhole (buf.drop pos) := by
  constructor
  · rintro ⟨props, pos', hread, hend⟩
    by_cases hinside : pos' ≤ buf.length
    · obtain ⟨size, hsection, rfl⟩ := section_of_read (by omega) hread hinside
      have hsize : (buf.drop pos).length = size := by
        rw [List.length_drop]
        omega
      exact .inl (by rwa [hsize])
    · exact .inr (cutSection_of_read hlen hread (by omega)).1
  · rintro (hsection | hcut)
    · obtain ⟨props, hread⟩ := read_section hsection
      refine ⟨props, _, hread, ?_⟩
      rw [List.length_drop]
      omega
    · obtain ⟨props, hread⟩ := read_of_cutSection hcut
      exact ⟨props, _, hread, by omega⟩

end MQTTProperties
end PahoMqtt
