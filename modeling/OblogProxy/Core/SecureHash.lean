import OblogProxy.Core.Bytes

/-!
# The secure hash of FIPS 180-1

A message is padded to blocks of 64 bytes, which are processed one after the other.
-/

namespace OblogProxy.SecureHash

open Bytes List

/-- The operation `S` of the standard. -/
def circularShift (bits word : UInt32) : UInt32 :=
  word <<< bits ||| word >>> (32 - bits)

structure Words where
  a : UInt32
  b : UInt32
  c : UInt32
  d : UInt32
  e : UInt32

def Words.add (left right : Words) : Words :=
  ⟨left.a + right.a, left.b + right.b, left.c + right.c, left.d + right.d, left.e + right.e⟩

def Words.bytes (words : Words) : Bytes :=
  [words.a, words.b, words.c, words.d, words.e].flatMap fun word => storeBE 4 word.toNat

def initialHash : Words :=
  ⟨0x67452301, 0xEFCDAB89, 0x98BADCFE, 0x10325476, 0xC3D2E1F0⟩

def choose (b c d : UInt32) : UInt32 :=
  b &&& c ||| ~~~b &&& d

def parity (b c d : UInt32) : UInt32 :=
  b ^^^ c ^^^ d

def majority (b c d : UInt32) : UInt32 :=
  b &&& c ||| b &&& d ||| c &&& d

/-- The function and the constant in each quarter of the rounds. -/
def quarterKey : ℕ → (UInt32 → UInt32 → UInt32 → UInt32) × UInt32
  | 0 => (choose, 0x5A827999)
  | 1 => (parity, 0x6ED9EBA1)
  | 2 => (majority, 0x8F1BBCDC)
  | _ => (parity, 0xCA62C1D6)

def wordAt (block : Bytes) (t : ℕ) : UInt32 :=
  let byte (offset : ℕ) : UInt32 := (block.getD (4 * t + offset) 0).toUInt32
  byte 0 <<< 24 ||| byte 1 <<< 16 ||| byte 2 <<< 8 ||| byte 3

def expanded (block : Bytes) (t : ℕ) : UInt32 :=
  if t < 16 then wordAt block t
  else
    circularShift 1 (expanded block (t - 3) ^^^ expanded block (t - 8) ^^^
      expanded block (t - 14) ^^^ expanded block (t - 16))

def round (key : (UInt32 → UInt32 → UInt32 → UInt32) × UInt32) (word : UInt32) (words : Words) :
    Words where
  a := circularShift 5 words.a + key.1 words.b words.c words.d + words.e + word + key.2
  b := words.a
  c := circularShift 30 words.b
  d := words.c
  e := words.d

def processBlock (hash : Words) (block : Bytes) : Words :=
  hash.add ((range 80).foldl
    (fun words t => round (quarterKey (t / 20)) (expanded block t) words) hash)

/-- The state behind the blocks of 64 bytes. -/
def foldBlocks {State : Type*} (process : State → Bytes → State) (state : State) (bytes : Bytes) :
    State :=
  if bytes.length < 64 then state
  else foldBlocks process (process state (bytes.take 64)) (bytes.drop 64)
termination_by bytes.length

def padded (message : Bytes) : Bytes :=
  message ++ 0x80 :: replicate ((119 - message.length % 64) % 64) 0 ++
    storeBE 8 (8 * message.length)

def sha1 (message : Bytes) : Bytes :=
  (foldBlocks processBlock initialHash (padded message)).bytes

variable {State : Type*} (process : State → Bytes → State) (state : State)

theorem foldBlocks_append {front : Bytes} (hfront : front.length % 64 = 0) (rest : Bytes) :
    foldBlocks process state (front ++ rest) =
      foldBlocks process (foldBlocks process state front) rest := by
  fun_induction foldBlocks process state front with
  | case1 state front hshort =>
    obtain rfl : front = [] := length_eq_zero_iff.mp (by omega)
    rfl
  | case2 state front hlong ih =>
    have hle : 64 ≤ front.length := Nat.not_lt.mp hlong
    rw [foldBlocks, if_neg (by rw [length_append]; omega), take_append_of_le_length hle,
      drop_append_of_le_length hle, ih (by rw [length_drop]; omega)]

theorem foldBlocks_block {block : Bytes} (hblock : block.length = 64) :
    foldBlocks process state block = process state block := by
  rw [foldBlocks, if_neg hblock.not_lt, take_of_length_le hblock.le, drop_of_length_le hblock.le,
    foldBlocks, if_pos (by decide)]

end OblogProxy.SecureHash
