/-
  File:      Chip8/Random/ChaCha.lean
  Subject:   the ChaCha stream of twelve rounds

  A key of eight words and a counter of 64 bits make a block of sixteen words; the nonce is zero.
  Block after block the words are the stream of the key.
-/
namespace Chip8.ChaCha

/-- Sixteen words, four rows of four. -/
abbrev Block := Vector UInt32 16

abbrev Key := Vector UInt32 8

def rotateLeft (word count : UInt32) : UInt32 := word <<< count ||| word >>> (32 - count)

/-- Mixes four words of a block. -/
def quarterRound (s : Block) (a b c d : Fin 16) : Block :=
  let s := s.set a (s[a] + s[b])
  let s := s.set d (rotateLeft (s[d] ^^^ s[a]) 16)
  let s := s.set c (s[c] + s[d])
  let s := s.set b (rotateLeft (s[b] ^^^ s[c]) 12)
  let s := s.set a (s[a] + s[b])
  let s := s.set d (rotateLeft (s[d] ^^^ s[a]) 8)
  let s := s.set c (s[c] + s[d])
  s.set b (rotateLeft (s[b] ^^^ s[c]) 7)

/-- A round down the columns and a round down the diagonals. -/
def doubleRound (s : Block) : Block :=
  let s := quarterRound s 0 4 8 12
  let s := quarterRound s 1 5 9 13
  let s := quarterRound s 2 6 10 14
  let s := quarterRound s 3 7 11 15
  let s := quarterRound s 0 5 10 15
  let s := quarterRound s 1 6 11 12
  let s := quarterRound s 2 7 8 13
  quarterRound s 3 4 9 14

/-- The block before the rounds: four constants, the key, the counter with its low word first,
    and a nonce of zero. -/
def initialBlock (key : Key) (counter : Nat) : Block := #v[
  0x61707865, 0x3320646e, 0x79622d32, 0x6b206574,
  key[0], key[1], key[2], key[3],
  key[4], key[5], key[6], key[7],
  UInt32.ofNat (counter % 0x100000000), UInt32.ofNat (counter / 0x100000000 % 0x100000000), 0, 0]

/-- Block number `counter` of a key's stream. -/
def block (key : Key) (counter : Nat) : Block :=
  let start := initialBlock key counter
  let mixed := Nat.repeat doubleRound 6 start
  Vector.zipWith (· + ·) mixed start

/-- **Word number `place` of a key's stream.** -/
def word (key : Key) (place : Nat) : UInt32 :=
  (block key (place / 16)).get ⟨place % 16, Nat.mod_lt _ (by decide)⟩

/-- The stream of the key of zeros begins with this word. -/
example : word (Vector.replicate 8 0) 0 = 0x6A9AF49B := by decide +kernel

end Chip8.ChaCha
