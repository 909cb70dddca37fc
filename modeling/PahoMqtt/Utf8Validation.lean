import PahoMqtt.Bytes

/-!
# Validation of UTF-8

The functions of utf-8.c.  A character is looked for in a table of the byte
ranges that the encodings of one length have; a pointer into the data is an
offset.  The data is UTF-8 when it is the encodings of some characters in a row,
by the encoder of the core library, which takes the shortest form and whose
characters are the scalar values.
-/

namespace PahoMqtt
namespace UTF8

structure ByteRange where
  lower : UInt8
  upper : UInt8

/-- A row of `valid_ranges`; only the ranges that the row uses are listed. -/
structure ValidRange where
  len : Nat
  bytes : List ByteRange

def valid_ranges : List ValidRange :=
  [⟨1, [⟨0x00, 0x7F⟩]⟩,
    ⟨2, [⟨0xC2, 0xDF⟩, ⟨0x80, 0xBF⟩]⟩,
    ⟨3, [⟨0xE0, 0xE0⟩, ⟨0xA0, 0xBF⟩, ⟨0x80, 0xBF⟩]⟩,
    ⟨3, [⟨0xE1, 0xEC⟩, ⟨0x80, 0xBF⟩, ⟨0x80, 0xBF⟩]⟩,
    ⟨3, [⟨0xED, 0xED⟩, ⟨0x80, 0x9F⟩, ⟨0x80, 0xBF⟩]⟩,
    ⟨3, [⟨0xEE, 0xEF⟩, ⟨0x80, 0xBF⟩, ⟨0x80, 0xBF⟩]⟩,
    ⟨4, [⟨0xF0, 0xF0⟩, ⟨0x90, 0xBF⟩, ⟨0x80, 0xBF⟩, ⟨0x80, 0xBF⟩]⟩,
    ⟨4, [⟨0xF1, 0xF3⟩, ⟨0x80, 0xBF⟩, ⟨0x80, 0xBF⟩, ⟨0x80, 0xBF⟩]⟩,
    ⟨4, [⟨0xF4, 0xF4⟩, ⟨0x80, 0x8F⟩, ⟨0x80, 0xBF⟩, ⟨0x80, 0xBF⟩]⟩]

/-- How many bytes a character takes that begins with this one. -/
def charlen (c : UInt8) : Nat :=
  if c &&& 128 = 0 then 1
  else if c &&& 0xF0 = 0xF0 then 4
  else if c &&& 0xE0 = 0xE0 then 3
  else 2

/-- The loop over the bytes of a character, for the ranges that are left of a row. -/
def inRanges (char : CharType) (data : Bytes) : Nat → List ByteRange → Except ReadError Bool
  | _, [] => .ok true
  | i, range :: ranges =>
      match data[i]? with
      | none => .error .outOfBounds
      | some b =>
          if char.value b < char.value range.lower ∨ char.value range.upper < char.value b then
            .ok false
          else
            inRanges char data (i + 1) ranges

/-- The loop over the table; it just has to match one of the rows. -/
def matchesRow (char : CharType) (len : Nat) (data : Bytes) (i : Nat) :
    List ValidRange → Except ReadError Bool
  | [] => .ok false
  | row :: rows =>
      if row.len = len then
        match inRanges char data i (row.bytes.take len) with
        | .error e => .error e
        | .ok true => .ok true
        | .ok false => matchesRow char len data i rows
      else
        matchesRow char len data i rows

/-- `UTF8_char_validate`; none for its NULL. -/
def UTF8_char_validate (char : CharType) (len : Int) (data : Bytes) (i : Nat) :
    Except ReadError (Option Nat) :=
  match data[i]? with
  | none => .error .outOfBounds
  | some c =>
      if len < charlen c then .ok none
      else
        match matchesRow char (charlen c) data i valid_ranges with
        | .error e => .error e
        | .ok good => .ok (if good then some (i + charlen c) else none)

theorem charlen_pos
    (c : UInt8) :
    0 < charlen c := by
  rw [charlen]
  split_ifs <;> decide

theorem UTF8_char_validate_lt
    {char : CharType} {len : Int} {data : Bytes} {i next : Nat}
    (h : UTF8_char_validate char len data i = .ok (some next)) :
    i < next := by
  rw [UTF8_char_validate] at h
  split at h
  · cases h
  · rename_i c _
    split at h
    · cases h
    · split at h
      · cases h
      · rename_i good _
        have hpos := charlen_pos c
        cases good with
        | false => simp at h
        | true =>
            simp only [if_true, Except.ok.injEq, Option.some.injEq] at h
            omega

/-- The characters from an offset on, one after the other up to the end of the data. -/
def validateFrom (char : CharType) (len : Int) (data : Bytes) (curdata : Nat) :
    Except ReadError Bool :=
  match _h : UTF8_char_validate char (len - curdata) data curdata with
  | .error e => .error e
  | .ok none => .ok false
  | .ok (some next) =>
      if next < len then validateFrom char len data next else .ok true
termination_by (len - curdata).toNat
decreasing_by
  have := UTF8_char_validate_lt _h
  omega

/-- `UTF8_validate`; the data is none for NULL. -/
def UTF8_validate (char : CharType) (len : Int) (data : Option Bytes) : Except ReadError Bool :=
  match data with
  | none => .ok true
  | some data => if len = 0 then .ok true else validateFrom char len data 0

/-! ### Characters and rows -/

namespace ByteRange

def Contains (range : ByteRange) (b : UInt8) : Prop := range.lower ≤ b ∧ b ≤ range.upper

/-- A signed `char` puts the range in the same order as an unsigned one. -/
def Ordered (range : ByteRange) : Prop := range.lower < 128 ↔ range.upper < 128

instance (range : ByteRange) : Decidable range.Ordered := inferInstanceAs (Decidable (_ ↔ _))

theorem outside_iff
    {range : ByteRange}
    (hord : range.Ordered)
    (char : CharType) (b : UInt8) :
    (char.value b < char.value range.lower ∨ char.value range.upper < char.value b) ↔
      ¬ range.Contains b := by
  have hb := b.toNat_lt
  have hlower := range.lower.toNat_lt
  have hupper := range.upper.toNat_lt
  simp only [Ordered, UInt8.lt_iff_toNat_lt, UInt8.reduceToNat] at hord
  rw [Contains, UInt8.le_iff_toNat_le, UInt8.le_iff_toNat_le]
  cases char with
  | signed =>
      rw [CharType.value, CharType.value, CharType.value]
      split_ifs <;> omega
  | unsigned =>
      rw [CharType.value, CharType.value, CharType.value]
      omega

end ByteRange

/-- The bytes are in the ranges of a row, one by one. -/
def ValidRange.Contains (row : ValidRange) (bytes : Bytes) : Prop :=
  List.Forall₂ ByteRange.Contains row.bytes bytes

theorem valid_ranges_ordered :
    ∀ row ∈ valid_ranges, row.bytes.length = row.len ∧ ∀ range ∈ row.bytes, range.Ordered := by
  decide

theorem charlen_eq
    (c : UInt8) :
    charlen c = if c < 128 then 1 else if 240 ≤ c then 4 else if 224 ≤ c then 3 else 2 := by
  revert c
  rw [forall_byte_iff]
  decide +kernel

theorem ByteRange.contains_ofNat
    {range : ByteRange} {n : Nat}
    (hlower : range.lower.toNat ≤ n)
    (hupper : n ≤ range.upper.toNat) :
    range.Contains (UInt8.ofNat n) := by
  have hn : (UInt8.ofNat n).toNat = n :=
    UInt8.toNat_ofNat_of_lt' (Nat.lt_of_le_of_lt hupper range.upper.toNat_lt)
  rw [Contains, UInt8.le_iff_toNat_le, UInt8.le_iff_toNat_le, hn]
  exact ⟨hlower, hupper⟩

/-- The encoding of a character is in a row of the table. -/
theorem utf8EncodeChar_row
    (c : Char) :
    ∃ row ∈ valid_ranges, row.Contains (String.utf8EncodeChar c) := by
  have hvalid : c.val.toNat < 0xD800 ∨ 0xDFFF < c.val.toNat ∧ c.val.toNat < 0x110000 := c.valid
  rw [String.utf8EncodeChar]
  generalize c.val.toNat = v at hvalid
  have hlast : ByteRange.Contains ⟨0x80, 0xBF⟩ (UInt8.ofNat (v % 64 + 128)) :=
    ByteRange.contains_ofNat (by simp) (by simp; omega)
  have hmiddle : ByteRange.Contains ⟨0x80, 0xBF⟩ (UInt8.ofNat (v / 64 % 64 + 128)) :=
    ByteRange.contains_ofNat (by simp) (by simp; omega)
  split_ifs with h₁ h₂ h₃
  · exact ⟨_, List.mem_cons_self, .cons (ByteRange.contains_ofNat (by simp) h₁) .nil⟩
  · exact ⟨⟨2, [⟨0xC2, 0xDF⟩, ⟨0x80, 0xBF⟩]⟩, by simp [valid_ranges],
      .cons (ByteRange.contains_ofNat (by simp; omega) (by simp; omega)) (.cons hlast .nil)⟩
  · rcases (by omega : v < 0x1000 ∨ 0x1000 ≤ v ∧ v < 0xD000 ∨ 0xD000 ≤ v ∧ v < 0xD800 ∨
      0xE000 ≤ v) with h | ⟨h, h'⟩ | ⟨h, h'⟩ | h
    · exact ⟨⟨3, [⟨0xE0, 0xE0⟩, ⟨0xA0, 0xBF⟩, ⟨0x80, 0xBF⟩]⟩, by simp [valid_ranges],
        .cons (ByteRange.contains_ofNat (by simp) (by simp; omega))
          (.cons (ByteRange.contains_ofNat (by simp; omega) (by simp; omega)) (.cons hlast .nil))⟩
    · exact ⟨⟨3, [⟨0xE1, 0xEC⟩, ⟨0x80, 0xBF⟩, ⟨0x80, 0xBF⟩]⟩, by simp [valid_ranges],
        .cons (ByteRange.contains_ofNat (by simp; omega) (by simp; omega))
          (.cons hmiddle (.cons hlast .nil))⟩
    · exact ⟨⟨3, [⟨0xED, 0xED⟩, ⟨0x80, 0x9F⟩, ⟨0x80, 0xBF⟩]⟩, by simp [valid_ranges],
        .cons (ByteRange.contains_ofNat (by simp; omega) (by simp; omega))
          (.cons (ByteRange.contains_ofNat (by simp) (by simp; omega)) (.cons hlast .nil))⟩
    · exact ⟨⟨3, [⟨0xEE, 0xEF⟩, ⟨0x80, 0xBF⟩, ⟨0x80, 0xBF⟩]⟩, by simp [valid_ranges],
        .cons (ByteRange.contains_ofNat (by simp; omega) (by simp; omega))
          (.cons hmiddle (.cons hlast .nil))⟩
  · have hupper : ByteRange.Contains ⟨0x80, 0xBF⟩ (UInt8.ofNat (v / 4096 % 64 + 128)) :=
      ByteRange.contains_ofNat (by simp) (by simp; omega)
    rcases (by omega : v < 0x40000 ∨ 0x40000 ≤ v ∧ v < 0x100000 ∨ 0x100000 ≤ v ∧ v < 0x110000)
      with h | ⟨h, h'⟩ | ⟨h, h'⟩
    · exact ⟨⟨4, [⟨0xF0, 0xF0⟩, ⟨0x90, 0xBF⟩, ⟨0x80, 0xBF⟩, ⟨0x80, 0xBF⟩]⟩, by simp [valid_ranges],
        .cons (ByteRange.contains_ofNat (by simp) (by simp; omega))
          (.cons (ByteRange.contains_ofNat (by simp; omega) (by simp; omega))
            (.cons hmiddle (.cons hlast .nil)))⟩
    · exact ⟨⟨4, [⟨0xF1, 0xF3⟩, ⟨0x80, 0xBF⟩, ⟨0x80, 0xBF⟩, ⟨0x80, 0xBF⟩]⟩, by simp [valid_ranges],
        .cons (ByteRange.contains_ofNat (by simp; omega) (by simp; omega))
          (.cons hupper (.cons hmiddle (.cons hlast .nil)))⟩
    · exact ⟨⟨4, [⟨0xF4, 0xF4⟩, ⟨0x80, 0x8F⟩, ⟨0x80, 0xBF⟩, ⟨0x80, 0xBF⟩]⟩, by simp [valid_ranges],
        .cons (ByteRange.contains_ofNat (by simp; omega) (by simp; omega))
          (.cons (ByteRange.contains_ofNat (by simp) (by simp; omega))
            (.cons hmiddle (.cons hlast .nil)))⟩

/-- A scalar value is a character. -/
theorem exists_char
    {v : Nat}
    (h : v < 0xD800 ∨ 0xDFFF < v ∧ v < 0x110000) :
    ∃ c : Char, c.val.toNat = v := by
  have hv : v < 2 ^ 32 := by omega
  have hnat : (UInt32.ofNatLT v hv).toNat = v := UInt32.toNat_ofNatLT
  exact ⟨⟨UInt32.ofNatLT v hv, by rw [UInt32.isValidChar, hnat]; exact h⟩, hnat⟩

/-- A byte is what its number was put together from. -/
theorem eq_ofNat
    {b : UInt8} {n : Nat}
    (h : b.toNat = n) :
    b = UInt8.ofNat n := by
  rw [← h, UInt8.ofNat_toNat]

theorem exists_char_one
    {b₀ : UInt8}
    (h₀ : b₀.toNat ≤ 0x7F) :
    ∃ c, [b₀] = String.utf8EncodeChar c := by
  obtain ⟨c, hc⟩ := exists_char (v := b₀.toNat) (by omega)
  refine ⟨c, ?_⟩
  rw [String.utf8EncodeChar, hc, if_pos h₀, UInt8.ofNat_toNat]

theorem exists_char_two
    {b₀ b₁ : UInt8}
    (h₀ : 0xC2 ≤ b₀.toNat ∧ b₀.toNat ≤ 0xDF)
    (h₁ : 0x80 ≤ b₁.toNat ∧ b₁.toNat ≤ 0xBF) :
    ∃ c, [b₀, b₁] = String.utf8EncodeChar c := by
  obtain ⟨c, hc⟩ := exists_char
    (v := (b₀.toNat - 0xC0) * 64 + (b₁.toNat - 0x80)) (by omega)
  refine ⟨c, ?_⟩
  rw [String.utf8EncodeChar, hc, if_neg (by omega), if_pos (by omega)]
  simp only [List.cons.injEq, and_true]
  exact ⟨eq_ofNat (by omega), eq_ofNat (by omega)⟩

theorem exists_char_three
    {b₀ b₁ b₂ : UInt8} {v : Nat}
    (h₀ : 0xE0 ≤ b₀.toNat ∧ b₀.toNat ≤ 0xEF)
    (h₁ : 0x80 ≤ b₁.toNat ∧ b₁.toNat ≤ 0xBF)
    (h₂ : 0x80 ≤ b₂.toNat ∧ b₂.toNat ≤ 0xBF)
    (hv : v = (b₀.toNat - 0xE0) * 4096 + (b₁.toNat - 0x80) * 64 + (b₂.toNat - 0x80))
    (hshortest : 0x800 ≤ v)
    (hscalar : v < 0xD800 ∨ 0xDFFF < v) :
    ∃ c, [b₀, b₁, b₂] = String.utf8EncodeChar c := by
  obtain ⟨c, hc⟩ := exists_char (v := v) (by omega)
  refine ⟨c, ?_⟩
  rw [String.utf8EncodeChar, hc, if_neg (by omega), if_neg (by omega), if_pos (by omega)]
  simp only [List.cons.injEq, and_true]
  exact ⟨eq_ofNat (by omega), eq_ofNat (by omega), eq_ofNat (by omega)⟩

theorem exists_char_four
    {b₀ b₁ b₂ b₃ : UInt8} {v : Nat}
    (h₀ : 0xF0 ≤ b₀.toNat ∧ b₀.toNat ≤ 0xF4)
    (h₁ : 0x80 ≤ b₁.toNat ∧ b₁.toNat ≤ 0xBF)
    (h₂ : 0x80 ≤ b₂.toNat ∧ b₂.toNat ≤ 0xBF)
    (h₃ : 0x80 ≤ b₃.toNat ∧ b₃.toNat ≤ 0xBF)
    (hv : v = (b₀.toNat - 0xF0) * 262144 + (b₁.toNat - 0x80) * 4096 +
      (b₂.toNat - 0x80) * 64 + (b₃.toNat - 0x80))
    (hshortest : 0x10000 ≤ v)
    (hscalar : v < 0x110000) :
    ∃ c, [b₀, b₁, b₂, b₃] = String.utf8EncodeChar c := by
  obtain ⟨c, hc⟩ := exists_char (v := v) (by omega)
  refine ⟨c, ?_⟩
  rw [String.utf8EncodeChar, hc, if_neg (by omega), if_neg (by omega), if_neg (by omega)]
  simp only [List.cons.injEq, and_true]
  exact ⟨eq_ofNat (by omega), eq_ofNat (by omega), eq_ofNat (by omega), eq_ofNat (by omega)⟩

/-- The bytes of a row are the encoding of a character. -/
theorem row_utf8EncodeChar
    {row : ValidRange} {bytes : Bytes}
    (hrow : row ∈ valid_ranges)
    (hbytes : row.Contains bytes) :
    ∃ c, bytes = String.utf8EncodeChar c := by
  rw [ValidRange.Contains] at hbytes
  simp only [valid_ranges, List.mem_cons, List.not_mem_nil, or_false] at hrow
  rcases hrow with rfl | rfl | rfl | rfl | rfl | rfl | rfl | rfl | rfl
  all_goals
    simp only [List.forall₂_cons_left_iff, List.forall₂_nil_left_iff, ByteRange.Contains,
      UInt8.le_iff_toNat_le, UInt8.reduceToNat] at hbytes
  · obtain ⟨b₀, _, h₀, rfl, rfl⟩ := hbytes
    exact exists_char_one h₀.2
  · obtain ⟨b₀, _, h₀, ⟨b₁, _, h₁, rfl, rfl⟩, rfl⟩ := hbytes
    exact exists_char_two h₀ h₁
  iterate 4
    · obtain ⟨b₀, _, h₀, ⟨b₁, _, h₁, ⟨b₂, _, h₂, rfl, rfl⟩, rfl⟩, rfl⟩ := hbytes
      exact exists_char_three (by omega) (by omega) h₂ rfl (by omega) (by omega)
  iterate 3
    · obtain ⟨b₀, _, h₀, ⟨b₁, _, h₁, ⟨b₂, _, h₂, ⟨b₃, _, h₃, rfl, rfl⟩, rfl⟩, rfl⟩, rfl⟩ := hbytes
      exact exists_char_four (by omega) (by omega) h₂ h₃ rfl (by omega) (by omega)

theorem ValidRange.Contains.length_eq
    {row : ValidRange} {bytes : Bytes}
    (hrow : row ∈ valid_ranges)
    (hbytes : row.Contains bytes) :
    bytes.length = row.len := by
  rw [← (valid_ranges_ordered row hrow).1]
  exact (List.Forall₂.length_eq hbytes).symm

/-- The first byte says which rows there are to look at. -/
theorem ValidRange.Contains.charlen_eq
    {row : ValidRange} {b : UInt8} {bytes : Bytes}
    (hrow : row ∈ valid_ranges)
    (hbytes : row.Contains (b :: bytes)) :
    charlen b = row.len := by
  rw [UTF8.charlen_eq]
  rw [ValidRange.Contains] at hbytes
  simp only [valid_ranges, List.mem_cons, List.not_mem_nil, or_false] at hrow
  simp only [UInt8.lt_iff_toNat_lt, UInt8.le_iff_toNat_le, UInt8.reduceToNat]
  rcases hrow with rfl | rfl | rfl | rfl | rfl | rfl | rfl | rfl | rfl
  all_goals
    simp only [List.forall₂_cons, ByteRange.Contains, UInt8.le_iff_toNat_le,
      UInt8.reduceToNat] at hbytes
    have hb := hbytes.1
    dsimp only
    split_ifs <;> omega

/-! ### The loops -/

theorem inRanges_spec
    {ranges : List ByteRange} {data : Bytes} {i : Nat}
    (char : CharType)
    (hord : ∀ range ∈ ranges, range.Ordered)
    (hlen : i + ranges.length ≤ data.length) :
    ∃ good, inRanges char data i ranges = .ok good ∧
      (good = true ↔ List.Forall₂ ByteRange.Contains ranges ((data.drop i).take ranges.length)) := by
  induction ranges generalizing i with
  | nil =>
      exact ⟨true, rfl, by simp⟩
  | cons range ranges ih =>
      rw [List.length_cons] at hlen
      have hi : i < data.length := by omega
      rw [List.forall_mem_cons] at hord
      rw [inRanges, List.getElem?_eq_getElem hi, List.length_cons, List.drop_eq_getElem_cons hi,
        List.take_succ_cons, List.forall₂_cons]
      have houtside := ByteRange.outside_iff hord.1 char data[i]
      by_cases hb : range.Contains data[i]
      · obtain ⟨good, hgood, hiff⟩ := ih hord.2 (i := i + 1) (by omega)
        refine ⟨good, ?_, ?_⟩
        · dsimp only
          rw [if_neg (fun h => houtside.mp h hb), hgood]
        · simp [hb, hiff]
      · exact ⟨false, if_pos (houtside.mpr hb), by simp [hb]⟩

theorem matchesRow_spec
    {rows : List ValidRange} {data : Bytes} {i len : Nat}
    (char : CharType)
    (hrows : ∀ row ∈ rows, row ∈ valid_ranges)
    (hlen : i + len ≤ data.length) :
    ∃ good, matchesRow char len data i rows = .ok good ∧
      (good = true ↔ ∃ row ∈ rows, row.len = len ∧ row.Contains ((data.drop i).take len)) := by
  induction rows with
  | nil =>
      exact ⟨false, rfl, by simp⟩
  | cons row rows ih =>
      rw [List.forall_mem_cons] at hrows
      obtain ⟨good, hgood, hiff⟩ := ih hrows.2
      rw [matchesRow]
      by_cases hrow : row.len = len
      · obtain ⟨hcount, hord⟩ := valid_ranges_ordered row hrows.1
        rw [hrow] at hcount
        have hfits : i + row.bytes.length ≤ data.length := by omega
        obtain ⟨this, hthis, hcontains⟩ := inRanges_spec char hord hfits
        rw [hcount] at hcontains
        rw [if_pos hrow, List.take_of_length_le (le_of_eq hcount), hthis]
        cases this with
        | true =>
            exact ⟨true, rfl, by simp [hrow, ValidRange.Contains, hcontains.mp rfl]⟩
        | false =>
            refine ⟨good, hgood, ?_⟩
            have hnot : ¬ row.Contains ((data.drop i).take len) := fun h => by
              simpa using hcontains.mpr h
            simp [hrow, hnot, hiff]
      · refine ⟨good, ?_, ?_⟩
        · rw [if_neg hrow, hgood]
        · simp [hrow, hiff]

/-- A character begins here, and the next one behind its encoding; or none does. -/
theorem UTF8_char_validate_spec
    {data : Bytes} {i : Nat}
    (char : CharType)
    (hi : i < data.length) :
    (∃ c next, UTF8_char_validate char (data.length - i) data i = .ok (some next) ∧
      data.drop i = String.utf8EncodeChar c ++ data.drop next) ∨
    (UTF8_char_validate char (data.length - i) data i = .ok none ∧
      ∀ c rest, data.drop i ≠ String.utf8EncodeChar c ++ rest) := by
  have hdrop : data.drop i = data[i] :: data.drop (i + 1) := List.drop_eq_getElem_cons hi
  -- what the first byte says of any character that begins here
  have hfirst : ∀ c rest, data.drop i = String.utf8EncodeChar c ++ rest →
      ∃ row ∈ valid_ranges, row.len = charlen data[i] ∧
        row.Contains ((data.drop i).take (charlen data[i])) := by
    intro c rest heq
    obtain ⟨row, hrow, hcontains⟩ := utf8EncodeChar_row c
    have hlen := hcontains.length_eq hrow
    cases henc : String.utf8EncodeChar c with
    | nil => exact absurd henc String.utf8EncodeChar_ne_nil
    | cons b bytes =>
        rw [henc] at heq hcontains hlen
        obtain ⟨rfl, -⟩ := List.cons.inj (hdrop.symm.trans heq)
        have hcharlen := hcontains.charlen_eq hrow
        refine ⟨row, hrow, hcharlen.symm, ?_⟩
        rw [heq, hcharlen, ← hlen, List.take_left]
        exact hcontains
  rw [UTF8_char_validate, List.getElem?_eq_getElem hi]
  dsimp only
  by_cases hshort : data.length - i < charlen data[i]
  · right
    rw [if_pos (by omega)]
    refine ⟨rfl, ?_⟩
    intro c rest heq
    obtain ⟨row, hrow, hlen, hcontains⟩ := hfirst c rest heq
    have := hcontains.length_eq hrow
    rw [List.length_take, List.length_drop] at this
    omega
  · rw [if_neg (by omega)]
    have hfits : i + charlen data[i] ≤ data.length := by omega
    obtain ⟨good, hgood, hiff⟩ := matchesRow_spec char (fun _ h => h) hfits
    rw [hgood]
    cases good with
    | true =>
        left
        obtain ⟨row, hrow, -, hcontains⟩ := hiff.mp rfl
        obtain ⟨c, hc⟩ := row_utf8EncodeChar hrow hcontains
        refine ⟨c, _, rfl, ?_⟩
        rw [← hc, ← List.drop_drop, List.take_append_drop]
    | false =>
        right
        refine ⟨rfl, ?_⟩
        intro c rest heq
        have := hiff.mpr (hfirst c rest heq)
        cases this

/-- No encoding of a character begins another one. -/
theorem utf8EncodeChar_append_inj
    {c c' : Char} {rest rest' : Bytes}
    (h : String.utf8EncodeChar c ++ rest = String.utf8EncodeChar c' ++ rest') :
    c = c' ∧ rest = rest' := by
  have harray := congrArg List.toByteArray h
  rw [List.toByteArray_append, List.toByteArray_append] at harray
  have hdecode := congrArg (ByteArray.utf8DecodeChar? · 0) harray
  simp only [ByteArray.utf8DecodeChar?_utf8EncodeChar_append, Option.some.injEq] at hdecode
  rw [hdecode] at h
  exact ⟨hdecode, List.append_cancel_left h⟩

theorem validateFrom_spec
    {data : Bytes} {i : Nat}
    (char : CharType)
    (hi : i < data.length) :
    ∃ rc, validateFrom char data.length data i = .ok rc ∧
      (rc = true ↔ ∃ chars : List Char, data.drop i = chars.flatMap String.utf8EncodeChar) := by
  induction hn : data.length - i using Nat.strongRecOn generalizing i with
  | ind n ih =>
      rw [validateFrom]
      have hne : data.drop i ≠ [] := by simp [hi]
      rcases UTF8_char_validate_spec char hi with ⟨c, next, hvalidate, hdrop⟩ | ⟨hvalidate, hnone⟩
      · have hlt := UTF8_char_validate_lt hvalidate
        -- the rest of the characters begins where this one ends
        have hrest : (∃ chars : List Char, data.drop i = chars.flatMap String.utf8EncodeChar) ↔
            ∃ chars : List Char, data.drop next = chars.flatMap String.utf8EncodeChar := by
          constructor
          · rintro ⟨_ | ⟨c', chars⟩, hchars⟩
            · exact absurd hchars hne
            · rw [hdrop, List.flatMap_cons] at hchars
              exact ⟨chars, (utf8EncodeChar_append_inj hchars).2⟩
          · rintro ⟨chars, hchars⟩
            exact ⟨c :: chars, by rw [hdrop, hchars, List.flatMap_cons]⟩
        split
        · rename_i heq
          rw [hvalidate] at heq
          cases heq
        · rename_i heq
          rw [hvalidate] at heq
          cases heq
        · rename_i heq
          rw [hvalidate] at heq
          cases heq
          rw [hrest]
          by_cases hnext : next < data.length
          · rw [if_pos (by omega)]
            exact ih (data.length - next) (by omega) hnext rfl
          · rw [if_neg (by omega)]
            refine ⟨true, rfl, ?_⟩
            rw [iff_true_left rfl, List.drop_eq_nil_of_le (Nat.le_of_not_lt hnext)]
            exact ⟨[], rfl⟩
      · split
        · rename_i heq
          rw [hvalidate] at heq
          cases heq
        · refine ⟨false, rfl, ?_⟩
          simp only [Bool.false_eq_true, false_iff]
          rintro ⟨_ | ⟨c, chars⟩, hchars⟩
          · exact hne hchars
          · exact hnone c _ hchars
        · rename_i heq
          rw [hvalidate] at heq
          cases heq

/--
Exactly the encodings of sequences of scalar values are accepted, and no byte behind
the data is read.
-/
theorem UTF8_validate_iff
    (char : CharType) (data : Bytes) :
    ∃ rc, UTF8_validate char data.length (some data) = .ok rc ∧
      (rc = true ↔ ∃ chars : List Char, data = chars.flatMap String.utf8EncodeChar) := by
  rw [UTF8_validate]
  by_cases hempty : data = []
  · refine ⟨true, by simp [hempty], ?_⟩
    rw [iff_true_left rfl, hempty]
    exact ⟨[], rfl⟩
  · have hpos : 0 < data.length := List.length_pos_of_ne_nil hempty
    rw [if_neg (by omega)]
    exact validateFrom_spec char hpos

end UTF8
end PahoMqtt
