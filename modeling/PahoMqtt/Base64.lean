import PahoMqtt.Bytes
import PahoMqtt.Lib.Base64Text
import PahoMqtt.Lib.Buffers

/-!
# Base64

The functions of Base64.c that are built without OpenSSL and not for Windows.  The
input is a list of exactly its bytes; the output is a buffer of `out_len` bytes and
a pointer into it, and an access outside a buffer or a table is a fault.
-/

namespace PahoMqtt
namespace Base64

open Lib

inductive Fault where
  | read
  | write
deriving DecidableEq, Repr

/-- The output buffer, the pointer `out` into it, and `out_count`. -/
structure Output where
  buffer : Bytes
  pos : Nat
  out_count : UInt32

/-- `*out = b` -/
def Output.put (o : Output) (b : UInt8) : Except Fault Output :=
  match store o.buffer o.pos [b] with
  | none => .error .write
  | some buffer => .ok { o with buffer }

/-- `++out; ++out_count` -/
def Output.advance (o : Output) : Output := { o with pos := o.pos + 1, out_count := o.out_count + 1 }

/-- What both functions do after their loops: the return value and the buffer. -/
def Output.finish (o : Output) (out_len : UInt32) : Except Fault (UInt32 × Bytes) :=
  if o.out_count ≤ out_len then
    if o.out_count < out_len then
      match o.put 0 with
      | .error e => .error e
      | .ok o => .ok (o.out_count, o.buffer)
    else
      .ok (o.out_count, o.buffer)
  else
    .ok (0, o.buffer)

/-! ### Encoding -/

def BASE64_ENCODE_TABLE : Bytes :=
  ascii "ABCDEFGHIJKLMNOPQRSTUVWXYZabcdefghijklmnopqrstuvwxyz0123456789+/=" ++ [0]

/-- The loop that encodes the characters. -/
def encodeChars : List UInt8 → Output → Except Fault Output
  | [], o => .ok o
  | c :: cs, o =>
      match BASE64_ENCODE_TABLE[c.toNat]? with
      | none => .error .read
      | some char =>
          match o.put char with
          | .error e => .error e
          | .ok o => encodeChars cs { o with pos := o.pos + 1 }

/-- The end of a turn of the loop, with the values of `c`. -/
def encodeQuantum (out_len : UInt32) (c : List UInt8) (o : Output) : Except Fault Output :=
  let o := { o with out_count := o.out_count + 4 }
  if o.out_count ≤ out_len then encodeChars c o else .ok o

/-- The loop of `Base64_encode`; `in` and `in_len` are the bytes that are left. -/
def encodeLoop (out_len : UInt32) : Bytes → Output → Except Fault Output
  | [], o => .ok o
  | [i], o =>
      if o.out_count < out_len then
        encodeQuantum out_len [(i &&& ~~~0x3) >>> 2, (i &&& 0x3) <<< 4, 64, 64] o
      else .ok o
  | [i, j], o =>
      if o.out_count < out_len then
        encodeQuantum out_len
          [(i &&& ~~~0x3) >>> 2, (i &&& 0x3) <<< 4 ||| (j &&& ~~~0xF) >>> 4, (j &&& 0xF) <<< 2, 64] o
      else .ok o
  | i :: j :: k :: rest, o =>
      if o.out_count < out_len then
        match encodeQuantum out_len
          [(i &&& ~~~0x3) >>> 2, (i &&& 0x3) <<< 4 ||| (j &&& ~~~0xF) >>> 4,
            (j &&& 0xF) <<< 2 ||| (k &&& ~~~0x3F) >>> 6, k &&& 0x3F] o with
        | .error e => .error e
        | .ok o => encodeLoop out_len rest o
      else .ok o

def Base64_encode (buffer : Bytes) (out_len : UInt32) (data : Bytes) :
    Except Fault (UInt32 × Bytes) :=
  match encodeLoop out_len data ⟨buffer, 0, 0⟩ with
  | .error e => .error e
  | .ok o => o.finish out_len

def Base64_encodeLength (in_len : UInt32) : UInt32 := ((4 * in_len / 3) + 3) &&& ~~~0x3

/-! ### Decoding -/

/-- No value: the character is none of the alphabet. -/
def NV : UInt8 := 64

def BASE64_DECODE_TABLE : List UInt8 :=
  [NV, NV, NV, NV, NV, NV, NV, NV, NV, NV, NV, NV, NV, NV, NV, NV,
    NV, NV, NV, NV, NV, NV, NV, NV, NV, NV, NV, NV, NV, NV, NV, NV,
    NV, NV, NV, NV, NV, NV, NV, NV, NV, NV, NV, 62, NV, NV, NV, 63,
    52, 53, 54, 55, 56, 57, 58, 59, 60, 61, NV, NV, NV, NV, NV, NV,
    NV, 0, 1, 2, 3, 4, 5, 6, 7, 8, 9, 10, 11, 12, 13, 14,
    15, 16, 17, 18, 19, 20, 21, 22, 23, 24, 25, NV, NV, NV, NV, NV,
    NV, 26, 27, 28, 29, 30, 31, 32, 33, 34, 35, 36, 37, 38, 39, 40,
    41, 42, 43, 44, 45, 46, 47, 48, 49, 50, 51, NV, NV, NV, NV, NV] ++ List.replicate 128 NV

/-- The entry at `(int)(*in)`; a negative number is no index. -/
def decodeChar (char : CharType) (b : UInt8) : Except Fault UInt8 :=
  if char.value b < 0 then .error .read
  else
    match BASE64_DECODE_TABLE[(char.value b).toNat]? with
    | none => .error .read
    | some c => .ok c

/-- A turn of the loop with the values of `c`; false where it sets `in_len` to 0. -/
def decodeQuantum (out_len : UInt32) (c₀ c₁ c₂ c₃ : UInt8) (o : Output) :
    Except Fault (Output × Bool) :=
  match o.put (c₀ <<< 2 ||| (c₁ &&& ~~~0xF) >>> 4) with
  | .error e => .error e
  | .ok o =>
      let o := o.advance
      if o.out_count < out_len then
        if c₂ < NV then
          match o.put ((c₁ &&& 0xF) <<< 4 ||| (c₂ &&& ~~~0x3) >>> 2) with
          | .error e => .error e
          | .ok o =>
              let o := o.advance
              if o.out_count < out_len then
                if c₃ < NV then
                  match o.put ((c₂ &&& 0x3) <<< 6 ||| c₃) with
                  | .error e => .error e
                  | .ok o => .ok (o.advance, true)
                else
                  match o.put ((c₂ &&& 0x3) <<< 6) with
                  | .error e => .error e
                  | .ok o => .ok (o, false)
              else
                .ok (o, true)
        else
          match o.put ((c₁ &&& 0xF) <<< 4) with
          | .error e => .error e
          | .ok o => .ok (o, false)
      else
        .ok (o, true)

/-- The loop of `Base64_decode`; `in` and `in_len` are the characters that are left. -/
def decodeLoop (char : CharType) (out_len : UInt32) : Bytes → Output → Except Fault Output
  | a :: b :: c :: d :: rest, o =>
      if o.out_count < out_len then
        match decodeChar char a, decodeChar char b, decodeChar char c, decodeChar char d with
        | .ok c₀, .ok c₁, .ok c₂, .ok c₃ =>
            match decodeQuantum out_len c₀ c₁ c₂ c₃ o with
            | .error e => .error e
            | .ok (o, true) => decodeLoop char out_len rest o
            | .ok (o, false) => .ok o
        | _, _, _, _ => .error .read
      else
        .ok o
  | _, o => .ok o

def Base64_decode (char : CharType) (buffer : Bytes) (out_len : UInt32) (text : Bytes) :
    Except Fault (UInt32 × Bytes) :=
  match decodeLoop char out_len text ⟨buffer, 0, 0⟩ with
  | .error e => .error e
  | .ok o => o.finish out_len

/-- One character of padding that stands this far from the end. -/
def padAt (text : Bytes) (back : Nat) : UInt32 :=
  if text[text.length - back]? = some base64Pad then 1 else 0

/-- `Base64_decodeLength`; a text that is not NULL. -/
def Base64_decodeLength (text : Bytes) : UInt32 :=
  let pad := (if text.length > 1 then padAt text 2 else 0) +
    (if text.length > 0 then padAt text 1 else 0)
  UInt32.ofNat text.length / 4 * 3 - pad

/-! ### Masks and shifts -/

section Masks

variable (b : UInt8)

theorem toNat_high_six : ((b &&& ~~~0x3) >>> 2).toNat = b.toNat / 4 := by
  revert b
  rw [forall_byte_iff]
  decide +kernel

theorem toNat_low_two : ((b &&& 0x3) <<< 4).toNat = b.toNat % 4 * 16 := by
  revert b
  rw [forall_byte_iff]
  decide +kernel

theorem toNat_high_four : ((b &&& ~~~0xF) >>> 4).toNat = b.toNat / 16 := by
  revert b
  rw [forall_byte_iff]
  decide +kernel

theorem toNat_low_four : ((b &&& 0xF) <<< 2).toNat = b.toNat % 16 * 4 := by
  revert b
  rw [forall_byte_iff]
  decide +kernel

theorem toNat_high_two : ((b &&& ~~~0x3F) >>> 6).toNat = b.toNat / 64 := by
  revert b
  rw [forall_byte_iff]
  decide +kernel

theorem toNat_low_six : (b &&& 0x3F).toNat = b.toNat % 64 := by
  revert b
  rw [forall_byte_iff]
  decide +kernel

theorem toNat_shift_two : (b <<< 2).toNat = b.toNat % 64 * 4 := by
  revert b
  rw [forall_byte_iff]
  decide +kernel

theorem toNat_low_four_up : ((b &&& 0xF) <<< 4).toNat = b.toNat % 16 * 16 := by
  revert b
  rw [forall_byte_iff]
  decide +kernel

theorem toNat_low_two_up : ((b &&& 0x3) <<< 6).toNat = b.toNat % 4 * 64 := by
  revert b
  rw [forall_byte_iff]
  decide +kernel

end Masks

/-- Bits above and bits below are joined by adding them. -/
theorem toNat_or
    {high low : UInt8} {m : Nat} (k : Nat)
    (hhigh : high.toNat = m * 2 ^ k)
    (hlow : low.toNat < 2 ^ k) :
    (high ||| low).toNat = high.toNat + low.toNat := by
  rw [UInt8.toNat_or, hhigh, Nat.mul_comm]
  exact (Nat.two_pow_add_eq_or_of_lt hlow m).symm

/-- The second character, from the first two bytes. -/
theorem toNat_second
    (i j : UInt8) :
    ((i &&& 0x3) <<< 4 ||| (j &&& ~~~0xF) >>> 4).toNat = i.toNat % 4 * 16 + j.toNat / 16 := by
  have hj := j.toNat_lt
  rw [toNat_or 4 (toNat_low_two i) (by rw [toNat_high_four]; omega), toNat_low_two, toNat_high_four]

/-- The third character, from the last two bytes. -/
theorem toNat_third
    (j k : UInt8) :
    ((j &&& 0xF) <<< 2 ||| (k &&& ~~~0x3F) >>> 6).toNat = j.toNat % 16 * 4 + k.toNat / 64 := by
  have hk := k.toNat_lt
  rw [toNat_or 2 (toNat_low_four j) (by rw [toNat_high_two]; omega), toNat_low_four, toNat_high_two]

/-! ### Writing -/

namespace Output

theorem put_ok
    {o : Output}
    (h : o.pos < o.buffer.length)
    (b : UInt8) :
    o.put b = .ok { o with buffer := o.buffer.set o.pos b } := by
  rw [put, store_singleton h]

/-- Between the two outputs this text was written, and nothing in front of it was changed. -/
structure Wrote (o : Output) (text : Bytes) (o' : Output) : Prop where
  length : o'.buffer.length = o.buffer.length
  pos : o'.pos = o.pos + text.length
  taken : o'.buffer.take o'.pos = o.buffer.take o.pos ++ text

namespace Wrote

theorem refl
    (o : Output) :
    Wrote o [] o :=
  ⟨rfl, rfl, (List.append_nil _).symm⟩

theorem trans
    {o o' o'' : Output} {text text' : Bytes}
    (h : Wrote o text o')
    (h' : Wrote o' text' o'') :
    Wrote o (text ++ text') o'' where
  length := h'.length.trans h.length
  pos := by rw [h'.pos, h.pos, List.length_append, Nat.add_assoc]
  taken := by rw [h'.taken, h.taken, List.append_assoc]

/-- A byte at the pointer that the pointer stays at. -/
theorem put
    (o : Output) (b : UInt8) :
    Wrote o [] { o with buffer := o.buffer.set o.pos b } where
  length := List.length_set
  pos := rfl
  taken := by
    rw [List.append_nil]
    exact List.take_set_of_le (Nat.le_refl _)

theorem advance
    {o : Output}
    (h : o.pos < o.buffer.length)
    (b : UInt8) (out_count : UInt32) :
    Wrote o [b] { buffer := o.buffer.set o.pos b, pos := o.pos + 1, out_count } where
  length := List.length_set
  pos := rfl
  taken := take_succ_set h b

end Wrote

/-- The buffer has `out_len` bytes, and the pointer stands where the count says. -/
structure Ready (out_len : UInt32) (o : Output) : Prop where
  length : o.buffer.length = out_len.toNat
  pos : o.pos = o.out_count.toNat

theorem Ready.room
    {out_len : UInt32} {o : Output}
    (h : Ready out_len o)
    (hroom : o.out_count < out_len) :
    o.pos < o.buffer.length := by
  rw [h.length, h.pos]
  exact UInt32.lt_iff_toNat_lt.mp hroom

end Output

end Base64
end PahoMqtt
