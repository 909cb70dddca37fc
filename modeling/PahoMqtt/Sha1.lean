import PahoMqtt.Bytes
import PahoMqtt.Lib.Sha1

/-!
# SHA-1

The functions of SHA1.c that are built without OpenSSL and not for Windows.  The
block of a context is a union of bytes and words; the words are loaded and stored in
the byte order of the platform.
-/

namespace PahoMqtt
namespace SHA1

/-- The byte order of the platform. -/
inductive Endian where
  | little
  | big
deriving DecidableEq, Repr

/-- The word that four bytes in memory are. -/
def load32 : Endian → Bytes → UInt32
  | .little, bytes => UInt32.ofNat (Lib.ofBigEndian bytes.reverse)
  | .big, bytes => UInt32.ofNat (Lib.ofBigEndian bytes)

/-- The four bytes in memory that a word is. -/
def store32 : Endian → UInt32 → Bytes
  | .little, x => (Lib.wordBytes x).reverse
  | .big, x => Lib.wordBytes x

def swap32 (x : UInt32) : UInt32 := UInt32.ofNat (Lib.ofBigEndian (Lib.wordBytes x).reverse)

/-- `be32toh` and `htobe32` -/
def be32toh : Endian → UInt32 → UInt32
  | .little, x => swap32 x
  | .big, x => x

def htobe32 : Endian → UInt32 → UInt32 := be32toh

/-- The members `w` and `buffer` share their memory; `size` counts the bytes in it. -/
structure SHA_CTX where
  h : Vector UInt32 5
  buffer : Bytes
  size : Nat
  total : UInt32
  buffer_length : buffer.length = 64
  size_lt : size < 64

/-- `SHA1_Init` leaves the block as it finds it. -/
def SHA1_Init (buffer : Bytes) (buffer_length : buffer.length = 64) : SHA_CTX where
  h := #v[0x67452301, 0xEFCDAB89, 0x98BADCFE, 0x10325476, 0xC3D2E1F0]
  buffer := buffer
  size := 0
  total := 0
  buffer_length := buffer_length
  size_lt := by decide

/-! ### A block -/

def ROTATE_LEFT32 (a : UInt32) (n : UInt32) : UInt32 := (a <<< n) ||| (a >>> (32 - n))

/-- `i & 0x0F` -/
def slot (i : Nat) : Fin 16 := ⟨i &&& 0x0F, Nat.lt_of_le_of_lt Nat.and_le_right (by decide)⟩

/-- The words of the block, as numbers in the byte order of the platform. -/
def blockWords (e : Endian) (buffer : Bytes) : Vector UInt32 16 :=
  Vector.ofFn fun i => be32toh e (load32 e ((buffer.drop (4 * i)).take 4))

/-- The word of a turn takes the place of the word sixteen turns ago. -/
def scheduleTurn (i : Nat) (w : Vector UInt32 16) : Vector UInt32 16 :=
  if 16 ≤ i then
    w.set (slot i).val (ROTATE_LEFT32
      (w[slot (i + 13)] ^^^ w[slot (i + 8)] ^^^ w[slot (i + 2)] ^^^ w[slot i]) 1) (slot i).isLt
  else w

/-- What a turn stores in `tmp`. -/
def roundWord (i : Nat) (blks : Vector UInt32 5) (w : UInt32) : UInt32 :=
  if i < 20 then
    ROTATE_LEFT32 blks[0] 5 + ((blks[1] &&& blks[2]) ||| (~~~blks[1] &&& blks[3])) + blks[4] + w +
      0x5A827999
  else if i < 40 then
    ROTATE_LEFT32 blks[0] 5 + (blks[1] ^^^ blks[2] ^^^ blks[3]) + blks[4] + w + 0x6ED9EBA1
  else if i < 60 then
    ROTATE_LEFT32 blks[0] 5 +
      ((blks[1] &&& blks[2]) ||| (blks[1] &&& blks[3]) ||| (blks[2] &&& blks[3])) + blks[4] + w +
      0x8F1BBCDC
  else
    ROTATE_LEFT32 blks[0] 5 + (blks[1] ^^^ blks[2] ^^^ blks[3]) + blks[4] + w + 0xCA62C1D6

def roundTurn (i : Nat) (blks : Vector UInt32 5) (w : UInt32) : Vector UInt32 5 :=
  #v[roundWord i blks w, blks[0], ROTATE_LEFT32 blks[1] 30, blks[2], blks[3]]

/-- The first turns of the loop, this many of them: the registers and the words. -/
def turns : Nat → Vector UInt32 5 → Vector UInt32 16 → Vector UInt32 5 × Vector UInt32 16
  | 0, blks, w => (blks, w)
  | i + 1, blks, w =>
      let (blks, w) := turns i blks w
      let w := scheduleTurn i w
      (roundTurn i blks w[slot i], w)

/-- `SHA1_ProcessBlock`: the hash, and the block with the words that the loop leaves in it. -/
def SHA1_ProcessBlock (e : Endian) (h : Vector UInt32 5) (buffer : Bytes) :
    Vector UInt32 5 × Bytes :=
  let (blks, w) := turns 80 h (blockWords e buffer)
  (Vector.zipWith (· + ·) h blks, w.toList.flatMap (store32 e))

theorem length_store32
    (e : Endian) (x : UInt32) :
    (store32 e x).length = 4 := by
  cases e <;> rfl

theorem SHA1_ProcessBlock_length
    (e : Endian) (h : Vector UInt32 5) (buffer : Bytes) :
    (SHA1_ProcessBlock e h buffer).2.length = 64 := by
  rw [SHA1_ProcessBlock, List.length_flatMap]
  simp only [length_store32, List.map_const', List.sum_replicate, Vector.length_toList]
  rfl

/-! ### Pieces of a message -/

/-- How many bytes a turn of `SHA1_Update` takes. -/
def SHA_CTX.room (ctx : SHA_CTX) (data : Bytes) : Nat := min (64 - ctx.size) data.length

/-- The block with the bytes that a turn copies. -/
def SHA_CTX.copied (ctx : SHA_CTX) (data : Bytes) : Bytes :=
  ctx.buffer.take ctx.size ++ data.take (ctx.room data) ++ ctx.buffer.drop (ctx.size + ctx.room data)

theorem SHA_CTX.copied_length
    (ctx : SHA_CTX) (data : Bytes) :
    (ctx.copied data).length = 64 := by
  have := ctx.buffer_length
  have := ctx.size_lt
  simp only [copied, room, List.length_append, List.length_take, List.length_drop]
  omega

/-- A turn of the loop. -/
def SHA_CTX.fill (e : Endian) (ctx : SHA_CTX) (data : Bytes) : SHA_CTX :=
  if hfull : ctx.size + ctx.room data = 64 then
    { h := (SHA1_ProcessBlock e ctx.h (ctx.copied data)).1
      buffer := (SHA1_ProcessBlock e ctx.h (ctx.copied data)).2
      size := 0
      total := ctx.total + UInt32.ofNat (ctx.room data)
      buffer_length := SHA1_ProcessBlock_length e _ _
      size_lt := by decide }
  else
    { h := ctx.h
      buffer := ctx.copied data
      size := ctx.size + ctx.room data
      total := ctx.total + UInt32.ofNat (ctx.room data)
      buffer_length := ctx.copied_length data
      size_lt := by
        have := ctx.size_lt
        have : ctx.room data ≤ 64 - ctx.size := Nat.min_le_left _ _
        omega }

def SHA1_Update (e : Endian) (ctx : SHA_CTX) (data : Bytes) : SHA_CTX :=
  if data = [] then ctx
  else SHA1_Update e (ctx.fill e data) (data.drop (ctx.room data))
termination_by data.length
decreasing_by
  have hpos := List.length_pos_of_ne_nil ‹_›
  have := ctx.size_lt
  rw [List.length_drop, SHA_CTX.room]
  omega

/-! ### The end of a message -/

def pad : Bytes := 0x80 :: List.replicate 63 0

/-- `SHA1_Final`, with an area for the digest. -/
def SHA1_Final (e : Endian) (ctx : SHA_CTX) : Bytes :=
  let total := (ctx.total * 8).toUInt64
  let pad_amount := if ctx.size < 56 then 56 - ctx.size else 64 + 56 - ctx.size
  let ctx := SHA1_Update e ctx (pad.take pad_amount)
  let buffer := ctx.buffer.take 56 ++ store32 e (htobe32 e (total >>> 32).toUInt32) ++
    store32 e (htobe32 e total.toUInt32)
  ((SHA1_ProcessBlock e ctx.h buffer).1.toList.map (htobe32 e)).flatMap (store32 e)

end SHA1
end PahoMqtt
