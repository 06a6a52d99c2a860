/-
  File:      Chip8/Scheduler/Thread.lean
  Subject:   the moves of the CPU thread

  The thread takes turns. Paused, a turn serves the step that was asked for; not paused, it is a
  burst, and a fault in it pauses the thread. How many steps a burst has and how many cycles go by
  in it is up to the time the thread is given, so both are parameters of a turn.

  * `turn`: one turn;
  * `isAtRest`: whether the thread has nothing to do;
  * `settle`: turns until it has, or until patience runs out.
-/
import Chip8.Scheduler

namespace Chip8.Scheduler

/-- Whether the thread has nothing to do: it is not there, or dead, or waits for a step that nobody
    has asked for. -/
def isAtRest (s : Scheduler) : Bool :=
  match s.worker with
  | some (.alive _) => s.controls.paused && !s.controls.stepRequested
  | _ => true

/-- The scheduler after some work of its thread, which holds the lock as long as it works. -/
def afterWork (s : Scheduler) (work : Work) : Scheduler :=
  { s with
    shared := s.shared.giveBack work.machine work.died
    worker := some (if work.died then .dead else .alive work.cpu) }

/-- A paused thread: the step asked for is served, if there is one. -/
def pausedTurn (s : Scheduler) (cpu : Cpu) : Scheduler × List Signal :=
  if s.controls.stepRequested then
    let work := cpu.single s.lock s.controls.clock
    ((s.withControls s.controls.takeStep).afterWork work, work.signals)
  else (s, [])

/-- A thread that runs freely: a burst. -/
def freeTurn (s : Scheduler) (cpu : Cpu) (steps : Nat) (cycles : Cycles) :
    Scheduler × List Signal :=
  let work := cpu.burst s.lock s.controls.clock steps cycles
  let controls := if work.faulted then s.controls.pause else s.controls
  ((s.withControls controls).afterWork work, work.signals)

/-- **One turn of the thread.** -/
def turn (s : Scheduler) (steps : Nat) (cycles : Cycles) : Scheduler × List Signal :=
  match s.worker with
  | some (.alive cpu) => if s.controls.paused then s.pausedTurn cpu else s.freeTurn cpu steps cycles
  | _ => (s, [])

/-- The steps of a burst when nobody measures time. -/
def burstLength : Nat := 1000

/-- Turns until the thread has nothing to do, at most so many, and what could be seen of them. -/
def settleWithin (s : Scheduler) : Nat → Scheduler × List Signal
  | 0 => (s, [])
  | turns + 1 =>
    if s.isAtRest then (s, [])
    else
      let (after, signals) := s.turn burstLength Numeric.Binary.zero
      let (rested, more) := after.settleWithin turns
      (rested, signals ++ more)

/-- The turns after which a thread is given up. -/
def patience : Nat := 500

/-- The thread comes to rest. One that does not, because its program never faults, is given up, and
    `isAtRest` tells so of the outcome. -/
def settle (s : Scheduler) : Scheduler × List Signal := s.settleWithin patience

end Chip8.Scheduler
