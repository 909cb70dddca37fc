import Mathlib.Data.Vector.Basic
import PahoMqtt.Lib.BigEndian

/-!
# Frames with a masking key

The layout of the frames of a byte-oriented framing protocol: a byte with the
final flag and the operation code, a byte with the mask flag and a short length
or an escape for a longer one, the longer length, and the masking key.  The
data behind a header with a key is combined with the key by exclusive or, the
position in the key running on over the whole frame.
-/

namespace PahoMqtt
namespace Lib

/-! ### The masking key -/

abbrev FrameKey := Vector UInt8 4

/-- The key byte for a position. -/
def FrameKey.at (key : FrameKey) (idx : Nat) : UInt8 :=
  key[idx % 4]

/-- Data that begins at position `start` of the frame, combined with the key. -/
def applyKey (key : FrameKey) (start : Nat) (data : List UInt8) : List UInt8 :=
  data.mapIdx fun i b => b ^^^ key.at (start + i)

@[simp] theorem applyKey_length
    (key : FrameKey) (start : Nat) (data : List UInt8) :
    (applyKey key start data).length = data.length :=
  List.length_mapIdx

@[simp] theorem applyKey_nil
    (key : FrameKey) (start : Nat) :
    applyKey key start [] = [] :=
  rfl

theorem applyKey_cons
    (key : FrameKey) (start : Nat) (b : UInt8) (data : List UInt8) :
    applyKey key start (b :: data) = (b ^^^ key.at start) :: applyKey key (start + 1) data := by
  simp only [applyKey, List.mapIdx_cons, Nat.add_zero, Nat.add_assoc, Nat.add_comm 1]

/-- The position runs on over the parts of the data. -/
theorem applyKey_append
    (key : FrameKey) (start : Nat) (data data' : List UInt8) :
    applyKey key start (data ++ data') =
      applyKey key start data ++ applyKey key (start + data.length) data' := by
  induction data generalizing start with
  | nil =>
      rfl
  | cons b data ih =>
      rw [List.cons_append, applyKey_cons, applyKey_cons, ih, List.cons_append, List.length_cons,
        Nat.add_right_comm, Nat.add_assoc]

@[simp] theorem applyKey_applyKey
    (key : FrameKey) (start : Nat) (data : List UInt8) :
    applyKey key start (applyKey key start data) = data := by
  induction data generalizing start with
  | nil =>
      rfl
  | cons b data ih =>
      rw [applyKey_cons, applyKey_cons, ih, UInt8.xor_assoc, UInt8.xor_self, UInt8.xor_zero]

/-- A key leaves data alone exactly where it is zero at all its positions. -/
theorem applyKey_eq_self_iff
    (key : FrameKey) (start : Nat) (data : List UInt8) :
    applyKey key start data = data ↔ ∀ i < data.length, key.at (start + i) = 0 := by
  induction data generalizing start with
  | nil =>
      simp
  | cons b data ih =>
      have hhead : b ^^^ key.at start = b ↔ key.at start = 0 := by
        constructor
        · intro h
          have hcancel : b ^^^ (b ^^^ key.at start) = b ^^^ b := congrArg (b ^^^ ·) h
          rwa [← UInt8.xor_assoc, UInt8.xor_self, UInt8.zero_xor] at hcancel
        · intro h
          rw [h, UInt8.xor_zero]
      rw [applyKey_cons, List.cons.injEq, hhead, ih, List.length_cons]
      constructor
      · rintro ⟨hfirst, hrest⟩ i hi
        cases i with
        | zero => exact hfirst
        | succ i =>
            have := hrest i (by omega)
            rwa [Nat.add_assoc, Nat.add_comm 1] at this
      · intro hall
        refine ⟨hall 0 (by omega), ?_⟩
        intro i hi
        have := hall (i + 1) (by omega)
        rwa [← Nat.add_assoc, Nat.add_right_comm] at this

/-! ### Headers -/

/-- How the length of a frame is written: in the second byte, or in bytes that follow it. -/
inductive LengthForm where
  | seven
  | sixteen
  | sixtyFour
deriving DecidableEq

namespace LengthForm

/-- The bytes that follow. -/
def width : LengthForm → Nat
  | seven => 0
  | sixteen => 2
  | sixtyFour => 8

/-- The lengths that can be written stay below. -/
def limit : LengthForm → Nat
  | seven => 126
  | sixteen => 2 ^ 16
  | sixtyFour => 2 ^ 63

/-- What stands in the second byte. -/
def code (n : Nat) : LengthForm → Nat
  | seven => n
  | sixteen => 126
  | sixtyFour => 127

/-- The form that takes the fewest bytes. -/
def shortest (n : Nat) : LengthForm :=
  if n < 126 then seven else if n < 65536 then sixteen else sixtyFour

theorem code_lt
    {form : LengthForm} {n : Nat}
    (h : n < form.limit) :
    form.code n < 128 := by
  cases form with
  | seven => exact lt_trans h (by decide)
  | sixteen => exact (by decide : 126 < 128)
  | sixtyFour => exact (by decide : 127 < 128)

theorem shortest_limit
    {n : Nat}
    (h : n < 2 ^ 63) :
    n < (shortest n).limit := by
  unfold shortest
  split
  · assumption
  · split
    · assumption
    · exact h

end LengthForm

/-- What the bytes before the data of a frame say. -/
structure FrameHeader where
  fin : Bool
  opcode : Nat
  key : Option FrameKey
  form : LengthForm
  len : Nat
  opcode_lt : opcode < 16
  len_lt : len < form.limit

namespace FrameHeader

/-- The final flag and the operation code; the three bits between them are 0. -/
def byte₀ (h : FrameHeader) : UInt8 :=
  UInt8.ofNat (128 * h.fin.toNat + h.opcode)

/-- The mask flag and the length. -/
def byte₁ (h : FrameHeader) : UInt8 :=
  UInt8.ofNat (128 * h.key.isSome.toNat + h.form.code h.len)

def keyBytes (h : FrameHeader) : List UInt8 :=
  h.key.elim [] Vector.toList

def bytes (h : FrameHeader) : List UInt8 :=
  h.byte₀ :: h.byte₁ :: (bigEndian h.form.width h.len ++ h.keyBytes)

theorem bytes_length
    (h : FrameHeader) :
    h.bytes.length = 2 + h.form.width + h.keyBytes.length := by
  rw [bytes, List.length_cons, List.length_cons, List.length_append, bigEndian_length]
  omega

theorem byte₀_toNat
    (h : FrameHeader) :
    h.byte₀.toNat = 128 * h.fin.toNat + h.opcode := by
  have hfin := h.fin.toNat_le
  have hopcode := h.opcode_lt
  rw [byte₀, UInt8.toNat_ofNat']
  omega

theorem byte₁_toNat
    (h : FrameHeader) :
    h.byte₁.toNat = 128 * h.key.isSome.toNat + h.form.code h.len := by
  have hmask := h.key.isSome.toNat_le
  have hcode := LengthForm.code_lt h.len_lt
  rw [byte₁, UInt8.toNat_ofNat']
  omega

theorem fin_eq
    (h : FrameHeader) :
    h.byte₀.toNat / 128 = h.fin.toNat := by
  have hopcode := h.opcode_lt
  rw [byte₀_toNat]
  omega

theorem opcode_eq
    (h : FrameHeader) :
    h.byte₀.toNat % 16 = h.opcode := by
  have hopcode := h.opcode_lt
  rw [byte₀_toNat]
  omega

theorem mask_eq
    (h : FrameHeader) :
    h.byte₁.toNat / 128 = h.key.isSome.toNat := by
  have hcode := LengthForm.code_lt h.len_lt
  rw [byte₁_toNat]
  omega

theorem code_eq
    (h : FrameHeader) :
    h.byte₁.toNat % 128 = h.form.code h.len := by
  have hcode := LengthForm.code_lt h.len_lt
  rw [byte₁_toNat]
  omega

end FrameHeader

end Lib
end PahoMqtt
