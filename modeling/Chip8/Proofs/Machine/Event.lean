/-
  File:      Chip8/Proofs/Machine/Event.lean
  Subject:   what may happen to a machine, one thing after another

  * `Touch`: what the host does between two instructions;
  * `Move`: a step or a touch, what happens while a program runs;
  * `Event`: a move, a reset or a load, what happens while a machine is switched on.

  Each comes with the machine after it. A fact that one move (event) keeps is kept by any number
  of them: `afterMoves_induction`, `afterEvents_induction`. `RunsWithout` says which words none of
  their steps executes.
-/
import Chip8.Machine.Step
import Chip8.Proofs.History

namespace Chip8

/-- What the host does between two instructions. -/
inductive Touch where
  | tick
  | press (key : UInt8)
  | release (key : UInt8)
  /-- The host asks for a picture. -/
  | poll
  /-- The host looks at the state, as it is shown at some clock. -/
  | inspect (clock : UInt32)
  deriving DecidableEq

/-- What happens while a program runs. -/
inductive Move where
  /-- One instruction, or the fault it ends in. -/
  | step
  | touch (touch : Touch)
  deriving DecidableEq

/-- What happens while a machine is switched on. -/
inductive Event where
  | move (move : Move)
  | reset
  /-- A program is loaded, or refused. -/
  | load (program : Program)

namespace Machine

variable {m : Machine}

/-! ## 1. The machine after one of them -/

def afterTouch (m : Machine) : Touch → Machine
  | .tick => m.tick
  | .press key => m.press key
  | .release key => m.release key
  | .poll => m.afterFrame
  | .inspect _ => m

/-- The machine after a move; a step that ends in a fault counts. -/
def afterMove (m : Machine) : Move → Machine
  | .step => m.step.1
  | .touch t => m.afterTouch t

/-- The machine after a load; a program that is refused leaves it as it was. -/
def afterLoad (m : Machine) (program : Program) : Machine :=
  match m.load program with
  | .ok loaded => loaded
  | .error _ => m

def afterEvent (m : Machine) : Event → Machine
  | .move move => m.afterMove move
  | .reset => m.reset
  | .load program => m.afterLoad program

/-! ## 2. The machine after many of them -/

/-- The machine after moves, the first one first. -/
def afterMoves (m : Machine) (moves : List Move) : Machine := moves.foldl afterMove m

def afterEvents (m : Machine) (events : List Event) : Machine := events.foldl afterEvent m

theorem afterMoves_cons (m : Machine) (first : Move) (rest : List Move) :
    m.afterMoves (first :: rest) = (m.afterMove first).afterMoves rest := rfl

theorem afterEvents_cons (m : Machine) (first : Event) (rest : List Event) :
    m.afterEvents (first :: rest) = (m.afterEvent first).afterEvents rest := rfl

theorem afterMoves_step {done : Machine} {fault : Option Fault} (h : m.step = (done, fault))
    (rest : List Move) : m.afterMoves (.step :: rest) = done.afterMoves rest := by
  rw [afterMoves_cons, afterMove, h]

theorem afterMoves_append (m : Machine) (earlier later : List Move) :
    m.afterMoves (earlier ++ later) = (m.afterMoves earlier).afterMoves later :=
  List.foldl_append

/-- **What one move keeps, every run of moves keeps.** -/
theorem afterMoves_induction {P : Machine → Prop} (start : P m)
    (keep : ∀ n move, P n → P (afterMove n move)) (moves : List Move) : P (m.afterMoves moves) := by
  induction moves generalizing m with
  | nil => exact start
  | cons move rest ih => exact ih (keep m move start)

/-- **What one event keeps, every run of events keeps.** -/
theorem afterEvents_induction {P : Machine → Prop} (start : P m)
    (keep : ∀ n event, P n → P (afterEvent n event)) (events : List Event) :
    P (m.afterEvents events) := by
  induction events generalizing m with
  | nil => exact start
  | cons event rest ih => exact ih (keep m event start)

/-- The next step executes one of these words. -/
def Executes (m : Machine) (those : UInt16 → Prop) : Prop :=
  ∃ word, m.memory.fetch? m.pc = some word ∧ those word

theorem executes_iff {those : UInt16 → Prop} {word : UInt16}
    (hfetch : m.memory.fetch? m.pc = some word) : m.Executes those ↔ those word := by
  constructor
  · rintro ⟨word', hfetch', hthose⟩
    rw [hfetch] at hfetch'
    cases hfetch'
    exact hthose
  · intro hthose
    exact ⟨word, hfetch, hthose⟩

/-- No step among these moves executes one of these words. -/
def RunsWithout (m : Machine) (those : UInt16 → Prop) (moves : List Move) : Prop :=
  Never afterMove (fun n move => move = .step ∧ n.Executes those) m moves

/-! ## 3. What a touch leaves alone -/

/-- **A touch changes the timers, the keypad and the draw flag at most.** -/
theorem afterTouch_eq (m : Machine) (t : Touch) :
    m.afterTouch t = { m with
      delay := (m.afterTouch t).delay
      sound := (m.afterTouch t).sound
      keypad := (m.afterTouch t).keypad
      drawFlag := (m.afterTouch t).drawFlag } := by
  cases t <;> rfl

@[simp] theorem afterTouch_memory (m : Machine) (t : Touch) :
    (m.afterTouch t).memory = m.memory := by
  rw [afterTouch_eq]

@[simp] theorem afterTouch_pc (m : Machine) (t : Touch) : (m.afterTouch t).pc = m.pc := by
  rw [afterTouch_eq]

@[simp] theorem afterTouch_stack (m : Machine) (t : Touch) : (m.afterTouch t).stack = m.stack := by
  rw [afterTouch_eq]

@[simp] theorem afterTouch_opcode (m : Machine) (t : Touch) :
    (m.afterTouch t).opcode = m.opcode := by
  rw [afterTouch_eq]

/-! ## 4. What a load does -/

theorem afterLoad_of_fits {program : Program} (h : program.size ≤ Memory.programLimit) :
    m.afterLoad program = { m.reset with memory := m.reset.memory.withProgram program } := by
  rw [afterLoad, load, if_neg (by omega)]

theorem afterLoad_of_too_large {program : Program} (h : Memory.programLimit < program.size) :
    m.afterLoad program = m := by
  rw [afterLoad, load, if_pos h]

/-! ## 5. Machines to look at -/

/-- A machine just switched on, its memory zero but for some bytes. -/
def withBytes (bytes : List (UInt16 × UInt8)) : Machine :=
  { switchedOn (.ofSeed 7) with
    memory := bytes.foldl (fun memory byte => memory.set byte.1 byte.2) ⟨Vector.replicate 4096 0⟩ }

end Machine

end Chip8
