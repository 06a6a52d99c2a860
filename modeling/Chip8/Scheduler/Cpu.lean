/-
  File:      Chip8/Scheduler/Cpu.lean
  Subject:   what the CPU thread does to the machine

  A `Cpu` is what the thread owns: a sink for tones and a divider. Its work is single steps and
  bursts, each followed by the ticks that are due.

  * `tickMany`: ticks one after the other, a tone at each that ends the sound timer; a sink that
    dies ends them early;
  * `Cpu.single`: one instruction, which counts as one cycle; a faulting one counts as none;
  * `Cpu.burst`: many instructions up to a fault, and the cycles that went by meanwhile.
-/
import Chip8.Divider
import Chip8.Machine.Step
import Chip8.Sound.Tone

namespace Chip8

/-- What the CPU thread owns. -/
structure Cpu where
  sink : Sink
  divider : Divider

def Cpu.ofSink (sink : Sink) : Cpu := ⟨sink, .fresh⟩

/-! ## 1. Ticks -/

/-- What became of some ticks. -/
structure Ticked where
  machine : Machine
  sink : Sink
  signals : List Signal
  died : Bool

/-- So many ticks, with a tone whenever the sound timer runs out. The tick a sink dies at still
    counts. -/
def tickMany (sink : Sink) (m : Machine) : Nat → Ticked
  | 0 => ⟨m, sink, [], false⟩
  | count + 1 =>
    if m.toneDue then
      match sink.play .beep with
      | none => ⟨m.tick, sink.given [.beep], [], true⟩
      | some shown =>
        let rest := tickMany (sink.given [.beep]) m.tick count
        { rest with signals := shown.map .audio ++ rest.signals }
    else tickMany sink m.tick count

/-- After so many ticks every timer has run out, and more of them change nothing. -/
def enoughTicks : Nat := 255

/-! ## 2. Work -/

/-- What became of some work of the thread. -/
structure Work where
  machine : Machine
  cpu : Cpu
  signals : List Signal
  faulted : Bool
  died : Bool

namespace Cpu

/-- The ticks that are due after some cycles, done. -/
def elapse (cpu : Cpu) (m : Machine) (cycles : Cycles) (hz : UInt32) : Work :=
  let (due, divider) := cpu.divider.advance cycles hz
  let ticked := tickMany cpu.sink m (min due enoughTicks)
  ⟨ticked.machine, ⟨ticked.sink, divider⟩, ticked.signals, false, ticked.died⟩

/-- The records of the next step, as the thread's. -/
def stepSignals (m : Machine) : List Signal := m.stepRecords.map .cpu

/-- **A single step.** -/
def single (cpu : Cpu) (m : Machine) (hz : UInt32) : Work :=
  match m.step with
  | (after, some fault) =>
    ⟨after, cpu, stepSignals m ++ [.cpu ⟨.error, fault.message⟩], true, false⟩
  | (after, none) =>
    let work := cpu.elapse after (Numeric.Binary.ofNat 1) hz
    { work with signals := stepSignals m ++ work.signals }

/-- **A burst** of at most so many steps, during which some cycles go by. -/
def burst (cpu : Cpu) (m : Machine) (hz : UInt32) (steps : Nat) (cycles : Cycles) : Work :=
  let run := m.run steps
  let complaint : List Signal := match run.fault with
    | none => []
    | some fault => [.cpu ⟨.error, fault.message ++ ", execution paused"⟩]
  let work := cpu.elapse run.machine cycles hz
  { work with
    signals := run.records.map .cpu ++ complaint ++ work.signals
    faulted := run.fault.isSome }

end Cpu

end Chip8
