/-
  File:      Chip8/Random/Generator.lean
  Subject:   the source of random bytes

  A generator is a key and the number of words of the key's stream that are used up. A byte takes
  one word, a new key eight.
-/
import Chip8.Random.ChaCha

namespace Chip8

/-- A source of random bytes. -/
@[ext] structure Generator where
  key : ChaCha.Key
  used : Nat

namespace Generator

/-! ## 1. Keys from a seed -/

/-- One step of the sequence a seed is stretched with. -/
def advanceSeed (seed : UInt64) : UInt64 := seed * 6364136223846793005 + 11634580027462260723

/-- The word a state of that sequence gives: its bits folded together and rotated by its top. -/
def seedWord (state : UInt64) : UInt32 :=
  let folded := (((state >>> 18) ^^^ state) >>> 27).toUInt32
  let count := (state >>> 59).toUInt32
  folded >>> count ||| folded <<< (32 - count)

/-- The state of that sequence after `count` steps. -/
def seedState (seed : UInt64) (count : Nat) : UInt64 := Nat.repeat advanceSeed count seed

def ofSeed (seed : UInt64) : Generator where
  key := Vector.ofFn fun i => seedWord (seedState seed (i.val + 1))
  used := 0

/-! ## 2. Drawing -/

/-- The word that lies `ahead` words in front of the next one. -/
def wordAhead (g : Generator) (ahead : Nat) : UInt32 := ChaCha.word g.key (g.used + ahead)

/-- The next byte: the low eight bits of the next word. -/
def nextByte (g : Generator) : UInt8 := (g.wordAhead 0).toUInt8

/-- The generator behind the next byte. -/
def afterByte (g : Generator) : Generator := { g with used := g.used + 1 }

/-- The generator whose key is the next eight words. -/
def rekeyed (g : Generator) : Generator where
  key := Vector.ofFn fun i => g.wordAhead i.val
  used := 0

end Generator

end Chip8
