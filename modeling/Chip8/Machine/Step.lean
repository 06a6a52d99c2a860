/-
  File:      Chip8/Machine/Step.lean
  Subject:   fetching and running instructions

  * `fetch`: the machine that has noted the word at its program counter;
  * `step`: one instruction fetched and executed. A fault leaves the machine as it was, but for
    the word noted;
  * `run`: steps until a fault or until there were enough.
-/
import Chip8.Instruction.Decode
import Chip8.Instruction.Mnemonic
import Chip8.Machine.Execute

namespace Chip8.Machine

/-- The machine with the word at its program counter noted, or the fault that there is none. -/
def fetch (m : Machine) : Except Fault Machine :=
  match m.memory.fetch? m.pc with
  | none => .error (.outOfBounds m.pc)
  | some word => .ok { m with opcode := word }

/-- The instruction noted last. -/
def instruction (m : Machine) : Instruction := .decode m.opcode

/-- **One instruction.** The second part is the fault it ended in, if it did. -/
def step (m : Machine) : Machine × Option Fault :=
  match m.fetch with
  | .error fault => (m, some fault)
  | .ok fetched =>
    match fetched.execute fetched.instruction with
    | .error fault => (fetched, some fault)
    | .ok done => (done, none)

def traceRecord (pc word : UInt16) : Log.Record :=
  ⟨.trace, Hex.padded 3 pc.toNat ++ ": " ++ Hex.padded 4 word.toNat ++ " " ++
    (Instruction.decode word).mnemonic⟩

/-- The records the next step leaves in the log. -/
def stepRecords (m : Machine) : List Log.Record :=
  match m.memory.fetch? m.pc with
  | none => []
  | some word => traceRecord m.pc word :: executeRecords m.pc (.decode word)

/-- What a run of steps did. -/
structure Run where
  machine : Machine
  /-- The program counter before each step, the faulting one included. -/
  places : List UInt16
  /-- The fault that ended the run early. -/
  fault : Option Fault
  records : List Log.Record

/-- At most so many steps, ended early by a fault. -/
def run (m : Machine) : Nat → Run
  | 0 => ⟨m, [], none, []⟩
  | count + 1 =>
    match m.step with
    | (after, some fault) => ⟨after, [m.pc], some fault, m.stepRecords⟩
    | (after, none) =>
      let rest := after.run count
      ⟨rest.machine, m.pc :: rest.places, rest.fault, m.stepRecords ++ rest.records⟩

end Chip8.Machine
