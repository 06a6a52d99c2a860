/-
  File:      Chip8/Numeric/Binary.lean
  Subject:   binary floating-point numbers, rounded to nearest with ties to even

  A finite number is a sign and a count of the least positive number of its format, so sums,
  comparisons and remainders are sums, comparisons and remainders of natural numbers, and each
  operation rounds once, in `Format.round`.

  * `Format.round`: a quotient to the nearest multiple of the step its size allows;
  * `add`, `sub`, `mul`, `div`, `rem`, `floor`, `lt`: the operations of the standard;
  * `ofBits`, `toBits`: the interchange encoding.
-/
namespace Chip8.Numeric

/-! ## 1. Formats -/

/-- A binary interchange format. -/
structure Format where
  /-- The bits of a significand, the leading one included. -/
  precision : Nat
  /-- The bits of the exponent field. -/
  exponentBits : Nat

namespace Format

def double : Format := ⟨53, 11⟩

def single : Format := ⟨24, 8⟩

/-- The least positive number is two to minus this power. -/
def scale (f : Format) : Nat := Nat.pow 2 (f.exponentBits - 1) + f.precision - 3

/-- How many least numbers make one. -/
def one (f : Format) : Nat := Nat.pow 2 f.scale

/-- Finite numbers count fewer least numbers than this. -/
def limit (f : Format) : Nat := Nat.pow 2 (f.precision + Nat.pow 2 f.exponentBits - 3)

/-- The distance of neighbouring numbers of the size of `count`, both counted in least numbers. -/
def step (f : Format) (count : Nat) : Nat := Nat.pow 2 (count.log2 + 1 - f.precision)

/-- **The quotient of two counts, rounded** to the nearest multiple of the step, a tie to the even
    multiple. -/
def round (f : Format) (num den : Nat) : Nat :=
  let step := f.step (num / den)
  let quotient := num / (den * step)
  let twice := 2 * (num % (den * step))
  let nearest :=
    if twice < den * step then quotient
    else if den * step < twice then quotient + 1
    else quotient + quotient % 2
  nearest * step

end Format

/-! ## 2. Numbers -/

/-- A number of a format. -/
inductive Binary (f : Format) where
  | nan
  | infinite (negative : Bool)
  | finite (negative : Bool) (count : Nat)
  deriving DecidableEq

namespace Binary

variable {f : Format}

/-- Positive zero. -/
def zero : Binary f := .finite false 0

/-- A quotient of two counts with a sign, rounded; beyond the limit it is infinite. -/
def ofRatio (negative : Bool) (num den : Nat) : Binary f :=
  let count := f.round num den
  if count < f.limit then .finite negative count else .infinite negative

/-- A natural number, rounded. -/
def ofNat (n : Nat) : Binary f := ofRatio false (n * f.one) 1

/-- The number with the other sign. -/
def neg : Binary f → Binary f
  | .nan => .nan
  | .infinite s => .infinite !s
  | .finite s a => .finite (!s) a

/-! ## 3. Arithmetic -/

/-- The sum, rounded; numbers that cancel give positive zero. -/
def add : Binary f → Binary f → Binary f
  | .nan, _ => .nan
  | _, .nan => .nan
  | .infinite s, .infinite t => if s = t then .infinite s else .nan
  | .infinite s, .finite _ _ => .infinite s
  | .finite _ _, .infinite t => .infinite t
  | .finite s a, .finite t b =>
    if s = t then ofRatio s (a + b) 1
    else if a = b then zero
    else if b < a then ofRatio s (a - b) 1
    else ofRatio t (b - a) 1

def sub (a b : Binary f) : Binary f := add a b.neg

def mul : Binary f → Binary f → Binary f
  | .nan, _ => .nan
  | _, .nan => .nan
  | .infinite s, .infinite t => .infinite (s ^^ t)
  | .infinite s, .finite t b => if b = 0 then .nan else .infinite (s ^^ t)
  | .finite s a, .infinite t => if a = 0 then .nan else .infinite (s ^^ t)
  | .finite s a, .finite t b => ofRatio (s ^^ t) (a * b) f.one

def div : Binary f → Binary f → Binary f
  | .nan, _ => .nan
  | _, .nan => .nan
  | .infinite _, .infinite _ => .nan
  | .infinite s, .finite t _ => .infinite (s ^^ t)
  | .finite s _, .infinite t => .finite (s ^^ t) 0
  | .finite s a, .finite t b =>
    if b = 0 then (if a = 0 then .nan else .infinite (s ^^ t))
    else ofRatio (s ^^ t) (a * f.one) b

/-- The remainder of the division that cuts its quotient towards zero; it is exact and has the
    sign of the dividend. -/
def rem : Binary f → Binary f → Binary f
  | .finite s a, .finite _ b => if b = 0 then .nan else .finite s (a % b)
  | .finite s a, .infinite _ => .finite s a
  | _, _ => .nan

/-- The greatest whole number that is not above. -/
def floor : Binary f → Binary f
  | .finite s a =>
    let whole := a / f.one
    .finite s (if s ∧ a % f.one ≠ 0 then (whole + 1) * f.one else whole * f.one)
  | a => a

/-- Whether one number is below another; nothing is below or above `nan`. -/
def lt : Binary f → Binary f → Bool
  | .nan, _ => false
  | _, .nan => false
  | .infinite s, .infinite t => s && !t
  | .infinite s, .finite _ _ => s
  | .finite _ _, .infinite t => !t
  | .finite s a, .finite t b =>
    match s, t with
    | false, false => decide (a < b)
    | false, true => false
    | true, false => decide (0 < a + b)
    | true, true => decide (b < a)

/-! ## 4. Whole numbers -/

/-- The number cut to a natural number of at most `most`: negative numbers and `nan` give zero,
    large ones `most`. -/
def toNatUpTo (most : Nat) : Binary f → Nat
  | .nan => 0
  | .infinite s => if s then 0 else most
  | .finite s a => if s then 0 else min (a / f.one) most

/-- The number times `factor`, cut towards zero and held between `low` and `high`; `nan` gives
    zero. -/
def scaledInto (factor : Nat) (low high : Int) : Binary f → Int
  | .nan => 0
  | .infinite s => if s then low else high
  | .finite s a =>
    let whole : Int := (a * factor / f.one : Nat)
    max low (min high (if s then -whole else whole))

/-! ## 5. Encodings -/

/-- The bits of a number: sign, exponent field, fraction. `nan` has the first bit of its fraction
    set. -/
def toBits : Binary f → Nat
  | .nan => (Nat.pow 2 (f.exponentBits + 1) - 1) * Nat.pow 2 (f.precision - 2)
  | .infinite s => signBits s + (Nat.pow 2 f.exponentBits - 1) * Nat.pow 2 (f.precision - 1)
  | .finite s a =>
    signBits s + ((a.log2 + 1 - f.precision) * Nat.pow 2 (f.precision - 1) + a / f.step a)
where
  signBits (s : Bool) : Nat := if s then Nat.pow 2 (f.exponentBits + f.precision - 1) else 0

/-- The number of an encoding; bits above the sign are not looked at. -/
def ofBits (bits : Nat) : Binary f :=
  let negative := bits.testBit (f.exponentBits + f.precision - 1)
  let exponent := bits / Nat.pow 2 (f.precision - 1) % Nat.pow 2 f.exponentBits
  let fraction := bits % Nat.pow 2 (f.precision - 1)
  if exponent = Nat.pow 2 f.exponentBits - 1 then
    if fraction = 0 then .infinite negative else .nan
  else if exponent = 0 then .finite negative fraction
  else .finite negative ((Nat.pow 2 (f.precision - 1) + fraction) * Nat.pow 2 (exponent - 1))

/-- A number of 32 bits as one of 64 bits; nothing is lost. -/
def widen : Binary .single → Binary .double
  | .nan => .nan
  | .infinite s => .infinite s
  | .finite s a => .finite s (a * Nat.pow 2 (Format.double.scale - Format.single.scale))

/-! ## 6. Known values -/

example : Format.double.scale = 1074 ∧ Format.single.scale = 149 := by decide

/-- One, a third, and three thirds, which round to one again. -/
example : toBits (ofNat 1 : Binary .double) = 0x3FF0000000000000 ∧
    toBits (div (ofNat 1) (ofNat 3) : Binary .double) = 0x3FD5555555555555 ∧
    mul (div (ofNat 1) (ofNat 3)) (ofNat 3) = (ofNat 1 : Binary .double) := by decide +kernel

end Binary

end Chip8.Numeric
