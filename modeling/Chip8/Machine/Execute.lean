/-
  File:      Chip8/Machine/Execute.lean
  Subject:   what each instruction does to the machine

  * `execute`: the machine after an instruction, or the fault it ends in.

  An instruction moves the program counter itself. One that reports in VF writes its result first
  and VF second, so with VF as its register the report stays.
-/
import Chip8.Instruction
import Chip8.Machine

namespace Chip8

/-! ## 1. Blocks of registers -/

/-- The memory with the first `count` registers stored from an address on. -/
def Memory.store (m : Memory) (v : Registers) (start : UInt16) : Nat → Memory
  | 0 => m
  | count + 1 =>
    (m.store v start count).set (start + UInt16.ofNat count) (v.get (Fin.ofNat 16 count))

/-- The registers with the first `count` loaded from an address on. -/
def Registers.load (v : Registers) (m : Memory) (start : UInt16) : Nat → Registers
  | 0 => v
  | count + 1 =>
    (v.load m start count).set (Fin.ofNat 16 count) (m.get (start + UInt16.ofNat count))

/-- The memory with the three decimal digits of a byte stored from an address on. -/
def Memory.storeDecimal (m : Memory) (value : UInt8) (start : UInt16) : Memory :=
  ((m.set start (value / 100)).set (start + 1) (value / 10 % 10)).set (start + 2) (value % 10)

namespace Machine

/-! ## 2. Parts of instructions -/

def v (m : Machine) (i : Nibble) : UInt8 := m.registers.get i

def setV (m : Machine) (i : Nibble) (value : UInt8) : Machine :=
  { m with registers := m.registers.set i value }

/-- A register becomes `value`, and then VF tells `report`. -/
def setVWithFlag (m : Machine) (i : Nibble) (value : UInt8) (report : Bool) : Machine :=
  { m with registers := (m.registers.set i value).setFlag report }

@[simp] theorem v_setV_self (m : Machine) (i : Nibble) (value : UInt8) :
    (m.setV i value).v i = value :=
  m.registers.get_set_self i value

theorem v_setV_of_ne {i j : Nibble} (h : j ≠ i) (m : Machine) (value : UInt8) :
    (m.setV i value).v j = m.v j :=
  (m.registers.get_set i j value).trans (if_neg h.symm)

/-- A sprite of `height` rows from I on, flipped onto the plane at (VX, VY). -/
def draw (m : Machine) (x y height : Nibble) : Machine :=
  let painted := m.plane.paint (m.v x) (m.v y) (m.memory.read m.index height.val)
  { m with
    plane := painted.1
    registers := m.registers.setFlag painted.2
    drawFlag := true }

/-! ## 3. The instructions -/

/-- **The machine after an instruction, or the fault it ends in.** -/
def execute (m : Machine) : Instruction → Except Fault Machine
  | .sys _ => .ok m.next
  | .clear => .ok { m with plane := .blank, drawFlag := true }.next
  | .ret =>
    match m.stack.pop? with
    | none => .error (.stackUnderflow m.pc)
    | some (caller, rest) => .ok ({ m with stack := rest }.goto (caller + 2))
  | .jump target => .ok (m.goto target.toWord)
  | .call target =>
    match m.stack.push? m.pc with
    | none => .error (.stackOverflow m.pc)
    | some longer => .ok ({ m with stack := longer }.goto target.toWord)
  | .skipIfIs x value => .ok (m.skipIf (m.v x == value))
  | .skipIfIsNot x value => .ok (m.skipIf (m.v x != value))
  | .skipIfSame x y => .ok (m.skipIf (m.v x == m.v y))
  | .skipIfDifferent x y => .ok (m.skipIf (m.v x != m.v y))
  | .set x value => .ok (m.setV x value).next
  | .addConstant x value => .ok { m with registers := m.registers.add x value }.next
  | .copy x y => .ok (m.setV x (m.v y)).next
  | .or x y => .ok (m.setV x (m.v x ||| m.v y)).next
  | .and x y => .ok (m.setV x (m.v x &&& m.v y)).next
  | .xor x y => .ok (m.setV x (m.v x ^^^ m.v y)).next
  | .add x y =>
    .ok (m.setVWithFlag x (m.v x + m.v y) (255 < (m.v x).toNat + (m.v y).toNat)).next
  | .subtract x y => .ok (m.setVWithFlag x (m.v x - m.v y) (m.v y < m.v x)).next
  | .subtractFrom x y => .ok (m.setVWithFlag x (m.v y - m.v x) (m.v x < m.v y)).next
  | .shiftRight x _ => .ok (m.setVWithFlag x (m.v x / 2) (m.v x % 2 == 1)).next
  | .shiftLeft x _ => .ok (m.setVWithFlag x (m.v x + m.v x) (128 ≤ m.v x)).next
  | .setIndex target => .ok (m.setIndex target.toWord).next
  | .jumpBeyond target => .ok (m.goto (target.toWord + (m.v 0).toUInt16))
  | .random x mask =>
    .ok { m.setV x (mask &&& m.generator.nextByte) with
      generator := m.generator.afterByte }.next
  | .draw x y height => .ok (m.draw x y height).next
  | .skipIfHeld x => .ok (m.skipIf (m.keypad.isHeld (m.v x)))
  | .skipIfFree x => .ok (m.skipIf (! m.keypad.isHeld (m.v x)))
  | .readDelay x => .ok (m.setV x m.delay.count).next
  | .awaitKey x =>
    match m.keypad.lowestHeld? with
    | none => .ok m
    | some key => .ok (m.setV x key.toByte).next
  | .setDelay x => .ok { m with delay := ⟨m.v x⟩ }.next
  | .setSound x => .ok { m with sound := ⟨m.v x⟩ }.next
  | .addToIndex x =>
    let sum := m.index + (m.v x).toUInt16
    .ok { m.setIndex sum with registers := m.registers.setFlag (4095 < sum) }.next
  | .pointToGlyph x =>
    .ok (m.setIndex (Memory.glyphAddress (Nibble.ofByte (m.v x)))).next
  | .storeDecimal x => .ok { m with memory := m.memory.storeDecimal (m.v x) m.index }.next
  | .storeRegisters x =>
    .ok { m with memory := m.memory.store m.registers m.index (x.val + 1) }.next
  | .loadRegisters x =>
    .ok { m with registers := m.registers.load m.memory m.index (x.val + 1) }.next
  | .unknown _ => .ok m.next

/-- The records an instruction at `pc` leaves in the log. -/
def executeRecords (pc : UInt16) : Instruction → List Log.Record
  | .sys target =>
    [⟨.debug, "ignoring SYS " ++ Hex.literal 3 target.val ++ " at " ++ Hex.literal 3 pc.toNat⟩]
  | .unknown word =>
    [⟨.warn, "unknown opcode " ++ Hex.literal 4 word.toNat ++ " at " ++ Hex.literal 3 pc.toNat ++
      ", skipped"⟩]
  | _ => []

end Machine

end Chip8
