/-
  File:      Chip8/Text/Hex.lean
  Subject:   upper-case hexadecimal text

  * `fixed`: exactly so many digits of a number, most significant first;
  * `padded`: all digits of a number, filled up with zeros to a least width;
  * `literal`: the same behind `0x`.
-/
namespace Chip8.Hex

/-- The upper-case digit of a number below sixteen. -/
def digit (n : Nat) : Char :=
  if n < 10 then Char.ofNat (48 + n) else Char.ofNat (55 + n)

/-- The last `width` digits of a number, most significant first. -/
def fixed : Nat → Nat → List Char
  | 0, _ => []
  | width + 1, n => fixed width (n / 16) ++ [digit (n % 16)]

/-- How many digits a number has; zero has one. -/
def digitCount (n : Nat) : Nat := n.log2 / 4 + 1

/-- All digits of a number, with zeros in front up to the given width. -/
def padded (width n : Nat) : String :=
  String.ofList (fixed (max width (digitCount n)) n)

/-- A number with `0x` in front and at least `width` digits. -/
def literal (width n : Nat) : String := "0x" ++ padded width n

@[simp] theorem length_fixed (width n : Nat) : (fixed width n).length = width := by
  induction width generalizing n with
  | zero => rfl
  | succ w ih => simp [fixed, ih]

end Chip8.Hex
