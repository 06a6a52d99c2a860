/-
  File:      Chip8/Machine.lean
  Subject:   the state of the whole machine, and what the host does to it

  * `switchedOn`: a machine nobody has used;
  * `reset`: every part back to the state of power-on, a fresh random source, and a blank picture
    still to be shown;
  * `load`: a reset and a program in its place. A program that does not fit changes nothing;
  * `tick`, `takeFrame`, `press`, `release`: what the host does between instructions.

  The machine knows nothing of time: `step` in `Chip8.Machine.Step` runs one instruction, `tick`
  is one sixtieth of a second.
-/
import Chip8.CallStack
import Chip8.Error
import Chip8.Keypad
import Chip8.Log
import Chip8.Memory
import Chip8.Plane
import Chip8.Random.Generator
import Chip8.Registers
import Chip8.Timer

namespace Chip8

/-- The state of the machine. -/
@[ext] structure Machine where
  plane : Plane
  registers : Registers
  memory : Memory
  /-- The place of the next instruction. -/
  pc : UInt16
  /-- The index register I. -/
  index : UInt16
  stack : CallStack
  keypad : Keypad
  delay : Timer
  sound : Timer
  /-- The word fetched last. -/
  opcode : UInt16
  /-- Whether the plane has changed since the host was last given a picture. -/
  drawFlag : Bool
  generator : Generator

namespace Machine

/-! ## 1. Power -/

/-- A machine nobody has used, with the given random source. -/
def switchedOn (generator : Generator) : Machine where
  plane := .blank
  registers := .zero
  memory := .powerOn
  pc := Memory.programStart
  index := 0
  stack := .empty
  keypad := .released
  delay := .zero
  sound := .zero
  opcode := 0
  drawFlag := false
  generator := generator

def ofSeed (seed : UInt64) : Machine := switchedOn (.ofSeed seed)

/-- Power off and on: the random source gets its next eight words as its key, and the blank plane
    still has to reach the host. -/
def reset (m : Machine) : Machine :=
  { switchedOn m.generator.rekeyed with drawFlag := true }

/-- A program put in its place, unless it does not fit; nothing else changes. -/
def place (m : Machine) (program : Program) : Except Error Machine :=
  if Memory.programLimit < program.size then
    .error (.programTooLarge program.size Memory.programLimit)
  else
    .ok { m with memory := m.memory.withProgram program }

/-- The machine reset and a program put in its place. A program that does not fit is refused
    before anything changes. -/
def load (m : Machine) (program : Program) : Except Error Machine :=
  if Memory.programLimit < program.size then
    .error (.programTooLarge program.size Memory.programLimit)
  else
    .ok { m.reset with memory := m.reset.memory.withProgram program }

def loadRecord (program : Program) : Log.Record :=
  ⟨.info, "loaded " ++ toString program.size ++ " byte program"⟩

/-! ## 2. Moving the two address registers -/

def goto (m : Machine) (target : UInt16) : Machine := { m with pc := target }

/-- Go on with the instruction behind this one. -/
def next (m : Machine) : Machine := m.goto (m.pc + 2)

/-- Go on with the instruction behind this one, or skip that too. -/
def skipIf (m : Machine) (condition : Bool) : Machine :=
  m.goto (m.pc + if condition then 4 else 2)

/-- The index register holds twelve bits; higher ones are dropped. -/
def setIndex (m : Machine) (address : UInt16) : Machine := { m with index := address % 4096 }

/-! ## 3. The host's part -/

def press (m : Machine) (key : UInt8) : Machine := { m with keypad := m.keypad.press key }

def release (m : Machine) (key : UInt8) : Machine := { m with keypad := m.keypad.release key }

def tick (m : Machine) : Machine := { m with delay := m.delay.tick, sound := m.sound.tick }

/-- Whether the next tick makes the sound timer run out, which calls for the tone. -/
def toneDue (m : Machine) : Bool := m.sound.expires

def render (m : Machine) (palette : Palette) : Vector Colour 2048 := m.plane.render palette

/-- The picture the host has not seen yet, if there is one. -/
def frame? (m : Machine) (palette : Palette) : Option (Vector Colour 2048) :=
  if m.drawFlag then some (m.render palette) else none

/-- The machine after the host has asked for a picture. -/
def afterFrame (m : Machine) : Machine := { m with drawFlag := false }

end Machine

end Chip8
