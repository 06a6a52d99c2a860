/-
  File:      Chip8/Proofs/Machine/Arithmetic.lean
  Subject:   the arithmetic of registers, whichever registers are named

  * `FlaggedOperation`: the five kinds of words that put a result in VX and then report in VF;
    `Law` says what both have to do with the operands, as numbers;
  * `PlainOperation`: the four that put a result in VX and leave it at that;
  * `exists_result`, `exists_value`: executed, they keep their laws;
  * `arithmetic_exact`: what they do to a machine, with `x` and `y` any registers, the same one and
    VF included; and what `FX1E` makes of I.

  A result is written before the report, so of the two the report stays if VX is VF. Both are told
  by the operands as they were before.
-/
import Chip8.Proofs.Instruction.Kind
import Chip8.Proofs.Machine.Bounds
import Chip8.Proofs.Machine.Periphery

namespace Chip8

/-! ## 1. Operations with a report -/

/-- The kinds of words that put a result in VX and report in VF. -/
inductive FlaggedOperation where
  /-- `8XY4`. -/
  | add
  /-- `8XY5`. -/
  | subtract
  /-- `8XY6`. -/
  | shiftRight
  /-- `8XY7`. -/
  | subtractFrom
  /-- `8XYE`. -/
  | shiftLeft

namespace FlaggedOperation

def word (x y : Nibble) : FlaggedOperation → UInt16
  | .add => Word.ofNibbles 0x8 x y 0x4
  | .subtract => Word.ofNibbles 0x8 x y 0x5
  | .shiftRight => Word.ofNibbles 0x8 x y 0x6
  | .subtractFrom => Word.ofNibbles 0x8 x y 0x7
  | .shiftLeft => Word.ofNibbles 0x8 x y 0xE

def instruction (x y : Nibble) : FlaggedOperation → Instruction
  | .add => .add x y
  | .subtract => .subtract x y
  | .shiftRight => .shiftRight x y
  | .subtractFrom => .subtractFrom x y
  | .shiftLeft => .shiftLeft x y

/-- **What result and report have to do with the operands**, as numbers. A sum and a double carry
    into the report, a half leaves its remainder there; a difference counts modulo 256, and its
    report tells that nothing was borrowed. -/
def Law (vx vy result report : UInt8) (operation : FlaggedOperation) : Prop :=
  report.toNat ≤ 1 ∧
    match operation with
    | .add => 256 * report.toNat + result.toNat = vx.toNat + vy.toNat
    | .subtract =>
      (result.toNat : Int) = ((vx.toNat : Int) - vy.toNat) % 256 ∧
        (report = 1 ↔ vy.toNat < vx.toNat)
    | .shiftRight => 2 * result.toNat + report.toNat = vx.toNat
    | .subtractFrom =>
      (result.toNat : Int) = ((vy.toNat : Int) - vx.toNat) % 256 ∧
        (report = 1 ↔ vx.toNat < vy.toNat)
    | .shiftLeft => 256 * report.toNat + result.toNat = 2 * vx.toNat

theorem decode_word (x y : Nibble) (operation : FlaggedOperation) :
    Instruction.decode (operation.word x y) = operation.instruction x y := by
  have hword : operation.word x y = (operation.instruction x y).encode := by
    cases operation <;> rfl
  rw [hword]
  apply Instruction.decode_encode
  cases operation <;> rfl

end FlaggedOperation

/-! ## 2. Operations without one -/

/-- The kinds of words that put a result in VX and do not report. -/
inductive PlainOperation where
  /-- `7XNN`. -/
  | addConstant (value : UInt8)
  /-- `8XY1`. -/
  | or
  /-- `8XY2`. -/
  | and
  /-- `8XY3`. -/
  | xor

namespace PlainOperation

def word (x y : Nibble) : PlainOperation → UInt16
  | .addConstant value => Word.ofConstant 0x7 x value
  | .or => Word.ofNibbles 0x8 x y 0x1
  | .and => Word.ofNibbles 0x8 x y 0x2
  | .xor => Word.ofNibbles 0x8 x y 0x3

def instruction (x y : Nibble) : PlainOperation → Instruction
  | .addConstant value => .addConstant x value
  | .or => .or x y
  | .and => .and x y
  | .xor => .xor x y

/-- **What the result has to do with the operands**: a sum modulo 256, or bit by bit. -/
def Law (vx vy result : UInt8) : PlainOperation → Prop
  | .addConstant value => result.toNat = (vx.toNat + value.toNat) % 256
  | .or => ∀ k, result.toNat.testBit k = (vx.toNat.testBit k || vy.toNat.testBit k)
  | .and => ∀ k, result.toNat.testBit k = (vx.toNat.testBit k && vy.toNat.testBit k)
  | .xor => ∀ k, result.toNat.testBit k = (vx.toNat.testBit k ^^ vy.toNat.testBit k)

theorem decode_word (x y : Nibble) (operation : PlainOperation) :
    Instruction.decode (operation.word x y) = operation.instruction x y := by
  have hword : operation.word x y = (operation.instruction x y).encode := by
    cases operation <;> rfl
  rw [hword]
  apply Instruction.decode_encode
  cases operation <;> rfl

end PlainOperation

/-! ## 3. Laws of bytes -/

/-- The byte that tells whether something holds. -/
def flagByte (holds : Bool) : UInt8 := if holds then 1 else 0

theorem toNat_flagByte (holds : Bool) : (flagByte holds).toNat = holds.toNat := by
  cases holds <;> rfl

theorem toNat_flagByte_le (holds : Bool) : (flagByte holds).toNat ≤ 1 := by
  cases holds <;> decide

theorem flagByte_lt_eq_one_iff (a b : UInt8) : flagByte (a < b) = 1 ↔ a.toNat < b.toNat := by
  rw [← UInt8.lt_iff_toNat_lt]
  by_cases h : a < b <;> simp [flagByte, h]

/-- A difference of bytes counts modulo 256. -/
theorem toNat_sub_emod (a b : UInt8) :
    ((a - b).toNat : Int) = ((a.toNat : Int) - b.toNat) % 256 := by
  have ha := a.toNat_lt
  have hb := b.toNat_lt
  rw [UInt8.toNat_sub]
  omega

namespace FlaggedOperation

variable (a b : UInt8)

theorem law_add : Law a b (a + b) (flagByte (255 < a.toNat + b.toNat)) .add := by
  have ha := a.toNat_lt
  have hb := b.toNat_lt
  have hsum : (a + b).toNat = (a.toNat + b.toNat) % 256 := UInt8.toNat_add a b
  simp only [Law, toNat_flagByte, hsum]
  by_cases hcarry : 255 < a.toNat + b.toNat
  · simp only [hcarry, decide_true, Bool.toNat_true]
    omega
  · simp only [hcarry, decide_false, Bool.toNat_false]
    omega

theorem law_subtract : Law a b (a - b) (flagByte (b < a)) .subtract :=
  ⟨toNat_flagByte_le _, toNat_sub_emod a b, flagByte_lt_eq_one_iff b a⟩

theorem law_subtractFrom : Law a b (b - a) (flagByte (a < b)) .subtractFrom :=
  ⟨toNat_flagByte_le _, toNat_sub_emod b a, flagByte_lt_eq_one_iff a b⟩

theorem law_shiftRight : Law a b (a / 2) (flagByte (a % 2 == 1)) .shiftRight := by
  have hhalf : (a / 2).toNat = a.toNat / 2 := UInt8.toNat_div a 2
  have hrest : (a % 2 == 1) = decide (a.toNat % 2 = 1) := by
    rw [Bool.eq_iff_iff, beq_iff_eq, decide_eq_true_iff, ← UInt8.toNat_inj, UInt8.toNat_mod]
    rfl
  simp only [Law, toNat_flagByte, hhalf, hrest]
  by_cases hodd : a.toNat % 2 = 1
  · simp only [hodd, decide_true, Bool.toNat_true]
    omega
  · simp only [hodd, decide_false, Bool.toNat_false]
    omega

theorem law_shiftLeft : Law a b (a + a) (flagByte (128 ≤ a)) .shiftLeft := by
  have ha := a.toNat_lt
  have hdouble : (a + a).toNat = (a.toNat + a.toNat) % 256 := UInt8.toNat_add a a
  have hbig : (128 ≤ a) = (128 ≤ a.toNat) := propext UInt8.le_iff_toNat_le
  simp only [Law, toNat_flagByte, hdouble, hbig]
  by_cases hcarry : 128 ≤ a.toNat
  · simp only [hcarry, decide_true, Bool.toNat_true]
    omega
  · simp only [hcarry, decide_false, Bool.toNat_false]
    omega

end FlaggedOperation

namespace PlainOperation

theorem law_addConstant (a b value : UInt8) : Law a b (a + value) (.addConstant value) :=
  UInt8.toNat_add a value

theorem law_or (a b : UInt8) : Law a b (a ||| b) .or := by
  intro k
  rw [UInt8.toNat_or, Nat.testBit_or]

theorem law_and (a b : UInt8) : Law a b (a &&& b) .and := by
  intro k
  rw [UInt8.toNat_and, Nat.testBit_and]

theorem law_xor (a b : UInt8) : Law a b (a ^^^ b) .xor := by
  intro k
  rw [UInt8.toNat_xor, Nat.testBit_xor]

end PlainOperation

namespace Machine

variable {m : Machine} {x y r : Nibble}

/-! ## 4. Operations carried out -/

/-- A word that reports writes its result first and its report second. -/
theorem exists_result (m : Machine) (x y : Nibble) (operation : FlaggedOperation) :
    ∃ (result : UInt8) (report : Bool),
      m.execute (operation.instruction x y) = .ok (m.setVWithFlag x result report).next ∧
      operation.Law (m.v x) (m.v y) result (flagByte report) := by
  cases operation with
  | add => exact ⟨_, _, rfl, FlaggedOperation.law_add (m.v x) (m.v y)⟩
  | subtract => exact ⟨_, _, rfl, FlaggedOperation.law_subtract (m.v x) (m.v y)⟩
  | shiftRight => exact ⟨_, _, rfl, FlaggedOperation.law_shiftRight (m.v x) (m.v y)⟩
  | subtractFrom => exact ⟨_, _, rfl, FlaggedOperation.law_subtractFrom (m.v x) (m.v y)⟩
  | shiftLeft => exact ⟨_, _, rfl, FlaggedOperation.law_shiftLeft (m.v x) (m.v y)⟩

/-- A word that does not report writes its result only. -/
theorem exists_value (m : Machine) (x y : Nibble) (operation : PlainOperation) :
    ∃ result, m.execute (operation.instruction x y) = .ok (m.setV x result).next ∧
      operation.Law (m.v x) (m.v y) result := by
  cases operation with
  | addConstant value => exact ⟨_, rfl, PlainOperation.law_addConstant (m.v x) (m.v y) value⟩
  | or => exact ⟨_, rfl, PlainOperation.law_or (m.v x) (m.v y)⟩
  | and => exact ⟨_, rfl, PlainOperation.law_and (m.v x) (m.v y)⟩
  | xor => exact ⟨_, rfl, PlainOperation.law_xor (m.v x) (m.v y)⟩

theorem setVWithFlag_eq (m : Machine) (x : Nibble) (value : UInt8) (report : Bool) :
    m.setVWithFlag x value report = (m.setV x value).setV 0xF (flagByte report) := rfl

/-- **The arithmetic of registers is exact**, whichever registers `x` and `y` are. The nine kinds of
    words keep their laws, with the operands as they were before; a report is in VF even if the
    result belonged there. Nothing else changes, but that the program counter goes on. `FX1E` adds
    VX to the index register and reports the carry out of twelve bits. -/
theorem arithmetic_exact (m : Machine) (x y : Nibble) :
    (∀ operation : FlaggedOperation, ∃ done result,
      m.CarriesOut (operation.word x y) done ∧
      operation.Law (m.v x) (m.v y) result (done.v 0xF) ∧
      (x ≠ 0xF → done.v x = result) ∧
      (∀ r, r ≠ x → r ≠ 0xF → done.v r = m.v r) ∧
      done = { m with registers := done.registers, pc := m.pc + 2 }) ∧
    (∀ operation : PlainOperation, ∃ done,
      m.CarriesOut (operation.word x y) done ∧
      operation.Law (m.v x) (m.v y) (done.v x) ∧
      (∀ r, r ≠ x → done.v r = m.v r) ∧
      done = { m with registers := done.registers, pc := m.pc + 2 }) ∧
    (m.index.toNat ≤ 0xFFF → ∃ done,
      m.CarriesOut (Word.ofConstant 0xF x 0x1E) done ∧
      4096 * (done.v 0xF).toNat + done.index.toNat = m.index.toNat + (m.v x).toNat ∧
      done.index.toNat ≤ 0xFFF ∧
      (∀ r, r ≠ 0xF → done.v r = m.v r) ∧
      done = { m with registers := done.registers, index := done.index, pc := m.pc + 2 }) := by
  refine ⟨fun operation => ?_, fun operation => ?_, fun hindex => ?_⟩
  · obtain ⟨result, report, hexecute, hlaw⟩ := m.exists_result x y operation
    rw [setVWithFlag_eq] at hexecute
    refine ⟨_, result, carriesOut_of_execute (operation.decode_word x y) hexecute, ?_,
      fun hx => ?_, fun r hr hflag => ?_, rfl⟩
    · show operation.Law _ _ _ (((m.setV x result).setV 0xF (flagByte report)).v 0xF)
      rw [v_setV_self]
      exact hlaw
    · exact (v_setV_of_ne hx _ _).trans (v_setV_self m x result)
    · exact (v_setV_of_ne hflag _ _).trans (v_setV_of_ne hr m result)
  · obtain ⟨result, hexecute, hlaw⟩ := m.exists_value x y operation
    refine ⟨_, carriesOut_of_execute (operation.decode_word x y) hexecute, ?_, fun r hr => ?_, rfl⟩
    · show operation.Law _ _ ((m.setV x result).v x)
      rw [v_setV_self]
      exact hlaw
    · exact v_setV_of_ne hr m result
  · have hdecode : Instruction.decode (Word.ofConstant 0xF x 0x1E) = .addToIndex x :=
      Instruction.decode_encode (i := .addToIndex x) rfl
    have hexecute : m.execute (.addToIndex x) =
        .ok ((m.setIndex (m.index + (m.v x).toUInt16)).setV 0xF
          (flagByte (4095 < m.index + (m.v x).toUInt16))).next := rfl
    refine ⟨_, carriesOut_of_execute hdecode hexecute, ?_, index_le_of_execute hindex hexecute,
      fun r hr => v_setV_of_ne hr _ _, rfl⟩
    rw [Nat.mul_comm]
    exact addToIndex_exact hindex hexecute

/-- A machine with 200 in V3 and 100 in VF. -/
def halfFull : Machine :=
  { withBytes [] with
    index := 0xFF0
    registers := (Registers.zero.set 3 200).set 0xF 100 }

/-- The sum of the two leaves 44 and a carry. If VF is to hold their difference, it holds the borrow
    instead; and I, raised by VF, starts over. -/
theorem arithmetic_of_halfFull :
    (∃ sum, halfFull.CarriesOut 0x83F4 sum ∧ (sum.v 3).toNat = 44 ∧ (sum.v 0xF).toNat = 1) ∧
    (∃ difference, halfFull.CarriesOut 0x8F35 difference ∧ (difference.v 0xF).toNat = 0) ∧
    (∃ moved, halfFull.CarriesOut 0xFF1E moved ∧
      moved.index.toNat = 0x054 ∧ (moved.v 0xF).toNat = 1) := by
  have hthree : (halfFull.v 3).toNat = 200 := by decide +kernel
  have hflag : (halfFull.v 0xF).toNat = 100 := by decide +kernel
  have hindex : halfFull.index.toNat = 0xFF0 := by decide
  obtain ⟨hsum, -, -⟩ := arithmetic_exact halfFull 3 0xF
  obtain ⟨hdifference, -, hmoves⟩ := arithmetic_exact halfFull 0xF 3
  obtain ⟨sum, result, hcarried, ⟨hle, hlaw⟩, hresult, -⟩ := hsum .add
  obtain ⟨difference, result', hcarried', ⟨hle', -, hlaw'⟩, -⟩ := hdifference .subtract
  obtain ⟨moved, hcarried'', hlaw'', hle'', -⟩ := hmoves (by omega)
  have hresult := hresult (by decide)
  simp only [hthree, hflag, ← hresult] at hlaw
  have hlt := (sum.v 3).toNat_lt
  refine ⟨⟨sum, hcarried, by omega, by omega⟩, ⟨difference, hcarried', ?_⟩,
    ⟨moved, hcarried'', by omega, by omega⟩⟩
  have hborrowed : difference.v 0xF ≠ 1 := fun e => absurd (hlaw'.mp e) (by omega)
  have hne : (difference.v 0xF).toNat ≠ 1 := fun e => hborrowed (UInt8.toNat_inj.mp e)
  omega

end Machine

end Chip8
