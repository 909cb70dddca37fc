import PahoMqtt.Lib.BigEndian

/-!
# SHA-1

The secure hash standard's algorithm for messages of whole bytes.  A message is
padded to blocks of 64 bytes, each block is extended to a schedule of 80 words, and
80 rounds mix the schedule into the five words of the hash.
-/

namespace PahoMqtt
namespace Lib

/-- The four bytes of a word, the highest one first. -/
def wordBytes (x : UInt32) : List UInt8 := bigEndian 4 x.toNat

namespace Sha1

/-- `ROTL` -/
def rotl (n : UInt32) (x : UInt32) : UInt32 := (x <<< n) ||| (x >>> (32 - n))

def ch (x y z : UInt32) : UInt32 := (x &&& y) ^^^ (~~~x &&& z)

def parity (x y z : UInt32) : UInt32 := x ^^^ y ^^^ z

def maj (x y z : UInt32) : UInt32 := (x &&& y) ^^^ (x &&& z) ^^^ (y &&& z)

/-- The function of a round. -/
def f (t : Nat) : UInt32 → UInt32 → UInt32 → UInt32 :=
  if t < 20 then ch else if t < 40 then parity else if t < 60 then maj else parity

/-- The constant of a round. -/
def k (t : Nat) : UInt32 :=
  if t < 20 then 0x5A827999 else if t < 40 then 0x6ED9EBA1
  else if t < 60 then 0x8F1BBCDC else 0xCA62C1D6

/-- The word of a block with this number. -/
def blockWord (block : List UInt8) (t : Nat) : UInt32 :=
  UInt32.ofNat (ofBigEndian ((block.drop (4 * t)).take 4))

/-- The message schedule. -/
def schedule (block : List UInt8) (t : Nat) : UInt32 :=
  if t < 16 then blockWord block t
  else
    rotl 1 (schedule block (t - 3) ^^^ schedule block (t - 8) ^^^ schedule block (t - 14) ^^^
      schedule block (t - 16))

/-- The five working variables, or the five words of the hash. -/
structure Words where
  a : UInt32
  b : UInt32
  c : UInt32
  d : UInt32
  e : UInt32

def Words.add (s s' : Words) : Words := ⟨s.a + s'.a, s.b + s'.b, s.c + s'.c, s.d + s'.d, s.e + s'.e⟩

def Words.bytes (s : Words) : List UInt8 :=
  wordBytes s.a ++ wordBytes s.b ++ wordBytes s.c ++ wordBytes s.d ++ wordBytes s.e

def initial : Words := ⟨0x67452301, 0xEFCDAB89, 0x98BADCFE, 0x10325476, 0xC3D2E1F0⟩

def round (w : UInt32) (t : Nat) (s : Words) : Words :=
  ⟨rotl 5 s.a + f t s.b s.c s.d + s.e + k t + w, s.a, rotl 30 s.b, s.c, s.d⟩

/-- The first rounds, this many of them. -/
def rounds (w : Nat → UInt32) : Nat → Words → Words
  | 0, s => s
  | t + 1, s => round (w t) t (rounds w t s)

def compress (s : Words) (block : List UInt8) : Words :=
  (rounds (schedule block) 80 s).add s

/-- The hash after the whole blocks of a message. -/
def hashBlocks (s : Words) (message : List UInt8) : Words :=
  if message.length < 64 then s
  else hashBlocks (compress s (message.take 64)) (message.drop 64)
termination_by message.length
decreasing_by
  rw [List.length_drop]
  omega

/-- A one bit, as many zero bits as it takes, and the length in bits as a number of 64 bits. -/
def padding (length : Nat) : List UInt8 :=
  0x80 :: List.replicate ((119 - length % 64) % 64) 0 ++ bigEndian 8 (8 * length)

/-- The hash of a message. -/
def digest (message : List UInt8) : List UInt8 :=
  (hashBlocks initial (message ++ padding message.length)).bytes

theorem hashBlocks_append
    {message : List UInt8}
    (hwhole : 64 ∣ message.length)
    (s : Words) (rest : List UInt8) :
    hashBlocks s (message ++ rest) = hashBlocks (hashBlocks s message) rest := by
  induction hn : message.length using Nat.strongRecOn generalizing message s with
  | ind n ih =>
      by_cases hempty : message = []
      · subst hempty
        rw [List.nil_append, hashBlocks.eq_1 s []]
        rfl
      · have hpos := List.length_pos_of_ne_nil hempty
        have hle : 64 ≤ message.length := Nat.le_of_dvd hpos hwhole
        have hdrop : (message.drop 64).length = n - 64 := by rw [List.length_drop, hn]
        rw [hashBlocks, hashBlocks.eq_1 s message, if_neg (by rw [List.length_append]; omega),
          if_neg (by omega), List.take_append_of_le_length hle, List.drop_append_of_le_length hle]
        exact ih (n - 64) (by omega) (by rw [hdrop]; omega) _ hdrop

theorem hashBlocks_block
    {block : List UInt8}
    (h : block.length = 64)
    (s : Words) :
    hashBlocks s block = compress s block := by
  rw [hashBlocks, if_neg (by omega), List.take_of_length_le (by omega),
    List.drop_eq_nil_of_le (by omega), hashBlocks]
  rfl

end Sha1

end Lib
end PahoMqtt
