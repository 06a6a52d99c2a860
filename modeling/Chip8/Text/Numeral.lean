/-
  File:      Chip8/Text/Numeral.lean
  Subject:   reading natural numbers and hexadecimal text

  * `read`: an optional plus sign and at least one digit, with a value below a bound. The text is
    read from the left, and the first character that is no digit or makes the value reach the
    bound decides the refusal.
  * `hexValue?`: the number that hexadecimal digits of either case denote.

  Digits are the ASCII digits alone.
-/
namespace Chip8.Numeral

/-- Why a text is no number below the bound. -/
inductive Refusal where
  | empty
  /-- A character is no digit, or a sign stands alone. -/
  | notADigit
  /-- The value reaches the bound. -/
  | tooLarge
  deriving DecidableEq

def Refusal.message : Refusal → String
  | .empty => "cannot parse integer from empty string"
  | .notADigit => "invalid digit found in string"
  | .tooLarge => "number too large to fit in target type"

/-! ## 1. Decimal numbers -/

def digit? (c : Char) : Option Nat :=
  if '0' ≤ c ∧ c ≤ '9' then some (c.toNat - 48) else none

/-- Reads on behind digits of the given value. -/
def readDigits (bound : Nat) : Nat → List Char → Except Refusal Nat
  | value, [] => .ok value
  | value, c :: rest =>
    match digit? c with
    | none => .error .notADigit
    | some d =>
      if value * 10 + d < bound then readDigits bound (value * 10 + d) rest
      else .error .tooLarge

/-- **The number below `bound` that a text denotes, or why there is none.** -/
def read (bound : Nat) (text : String) : Except Refusal Nat :=
  match text.toList with
  | [] => .error .empty
  | ['+'] => .error .notADigit
  | '+' :: digits => readDigits bound 0 digits
  | digits => readDigits bound 0 digits

/-! ## 2. Hexadecimal digits -/

/-- The value of a hexadecimal digit of either case. -/
def hexDigit? (c : Char) : Option Nat :=
  if '0' ≤ c ∧ c ≤ '9' then some (c.toNat - 48)
  else if 'A' ≤ c ∧ c ≤ 'F' then some (c.toNat - 55)
  else if 'a' ≤ c ∧ c ≤ 'f' then some (c.toNat - 87)
  else none

/-- The values of hexadecimal digits; none if a character is no such digit. -/
def hexDigits? (text : List Char) : Option (List Nat) := text.mapM hexDigit?

/-- The number that digits denote in base sixteen. -/
def ofHexDigits (digits : List Nat) : Nat := digits.foldl (fun value d => value * 16 + d) 0

end Chip8.Numeral
