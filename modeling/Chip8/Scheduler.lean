/-
  File:      Chip8/Scheduler.lean
  Subject:   a machine that runs on a thread of its own, and the host's controls over it

  Host and thread share the machine behind a lock. The thread either runs, and then owns its `Cpu`,
  or is parked and has handed it back. A thread that died has lost it, and has left the lock
  poisoned; halting such a thread gives a mute one in its place, and the poison is passed over.

  * `start`, `halt`, `load`: the life of the thread;
  * `perform`: any operation of the host, with its answer and what could be seen of it.
-/
import Chip8.Memory.Dump
import Chip8.Scheduler.Controls
import Chip8.Scheduler.Cpu
import Chip8.Shared
import Chip8.Snapshot

namespace Chip8

/-- A thread that has been started. -/
inductive Worker where
  | alive (cpu : Cpu)
  | dead

/-- The record of a thread found dead. -/
def Worker.deadRecord : Log.Record := ⟨.warn, "cpu thread panicked, continuing without sound"⟩

/-- What a thread hands back when it is halted: its own, or a mute one in place of what it lost. -/
def Worker.handBack : Worker → Cpu × List Signal
  | .alive cpu => (cpu, [])
  | .dead => (.ofSink .mute, [.host Worker.deadRecord])

/-- The state of the scheduler. -/
structure Scheduler where
  /-- The machine, behind the lock of host and thread. -/
  shared : Shared Machine
  controls : Controls
  /-- The thread, while it is started. -/
  worker : Option Worker
  /-- What the thread handed back, while it is not. -/
  parked : Option Cpu

namespace Scheduler

/-- A scheduler over a machine, not started. -/
def ofMachine (machine : Machine) (clock : UInt32) (sink : Sink) : Scheduler :=
  ⟨.ofValue machine, .initial clock, none, some (.ofSink sink)⟩

def isRunning (s : Scheduler) : Bool := s.worker.isSome

/-! ## 1. The machine behind its lock -/

/-- The machine, as host and thread find it behind the lock. -/
def lock (s : Scheduler) : Machine := s.shared.lock

/-- The machine, whether or not a thread has died over it. -/
def machine (s : Scheduler) : Machine := s.shared.value

@[simp] theorem lock_eq_machine (s : Scheduler) : s.lock = s.machine := s.shared.lock_eq

/-- Another machine, from a holder of the lock who is alive. -/
def withMachine (s : Scheduler) (machine : Machine) : Scheduler :=
  { s with shared := s.shared.giveBack machine false }

/-! ## 2. The life of the thread -/

/-- The thread is started, unless it is already. -/
def start (s : Scheduler) : Scheduler :=
  match s.parked with
  | none => s
  | some cpu =>
    { s with
      controls := { s.controls with running := true }
      worker := some (.alive cpu)
      parked := none }

/-- The thread is halted, if it is started. -/
def halt (s : Scheduler) : Scheduler × List Signal :=
  match s.worker with
  | none => (s, [])
  | some worker =>
    let (cpu, signals) := worker.handBack
    ({ s with
      controls := { s.controls with running := false }
      worker := none
      parked := some cpu }, signals)

/-- The divider of a parked thread, emptied. -/
def resetDivider (s : Scheduler) : Scheduler :=
  { s with parked := s.parked.map fun cpu => { cpu with divider := .fresh } }

def startIf (s : Scheduler) (wasRunning : Bool) : Scheduler := if wasRunning then s.start else s

/-- **A program loaded** into the machine of the halted thread, which goes on as before. A program
    that does not fit leaves machine and divider alone. -/
def load (s : Scheduler) (program : Program) : Scheduler × Option Error × List Signal :=
  let (halted, signals) := s.halt
  match halted.lock.load program with
  | .error e => (halted.startIf s.isRunning, some e, signals)
  | .ok machine =>
    ((halted.withMachine machine).resetDivider.startIf s.isRunning, none,
      signals ++ [.host (Machine.loadRecord program)])

/-! ## 3. Controls -/

def withControls (s : Scheduler) (controls : Controls) : Scheduler := { s with controls }

def info (text : String) : Signal := .host ⟨.info, text⟩

/-- The thread waits for single steps. -/
def pause (s : Scheduler) : Scheduler × List Signal :=
  (s.withControls s.controls.pause, [info "paused"])

/-- The thread runs freely. -/
def resume (s : Scheduler) : Scheduler × List Signal :=
  (s.withControls s.controls.resume,
    [info ("resumed at " ++ toString s.controls.clock.toNat ++ " Hz")])

/-- The thread waits if it ran freely, and the other way round. -/
def togglePause (s : Scheduler) : Scheduler × List Signal :=
  if s.controls.paused then s.resume else s.pause

/-! ## 4. Operations of the host -/

/-- What the host can do. -/
inductive Operation where
  | load (program : Program)
  | start
  | halt
  | pause
  | resume
  | togglePause
  | requestStep
  | setClock (hz : UInt32)
  | doubleClock
  | halveClock
  | press (key : UInt8)
  | release (key : UInt8)
  | takeFrame (palette : Palette)
  | snapshot
  | dump

/-- What the host is told. -/
inductive Answer where
  | done
  | refused (error : Error)
  | clock (hz : UInt32)
  /-- The picture, if there is a new one. -/
  | picture (picture : Option (Vector Colour 2048))
  | state (snapshot : Snapshot)
  /-- The memory as text. -/
  | text (text : String)

/-- What became of an operation. -/
structure Reply where
  scheduler : Scheduler
  answer : Answer
  signals : List Signal

def doneReply (result : Scheduler × List Signal) : Reply := ⟨result.1, .done, result.2⟩

/-- **Another clock**, held within its bounds; the host is told which. -/
def setClock (s : Scheduler) (hz : UInt32) : Reply :=
  let clock := clampClock hz
  ⟨s.withControls (s.controls.setClock clock), .clock clock,
    [info ("clock set to " ++ toString clock.toNat ++ " Hz")]⟩

/-- **An operation of the host.** -/
def perform (s : Scheduler) : Operation → Reply
  | .load program =>
    match s.load program with
    | (after, none, signals) => ⟨after, .done, signals⟩
    | (after, some e, signals) => ⟨after, .refused e, signals⟩
  | .start => doneReply (s.start, [])
  | .halt => doneReply s.halt
  | .pause => doneReply s.pause
  | .resume => doneReply s.resume
  | .togglePause => doneReply s.togglePause
  | .requestStep => doneReply (s.withControls s.controls.requestStep, [])
  | .setClock hz => s.setClock hz
  | .doubleClock => s.setClock (Controls.twice s.controls.clock)
  | .halveClock => s.setClock (s.controls.clock / 2)
  | .press key => doneReply (s.withMachine (s.lock.press key), [])
  | .release key => doneReply (s.withMachine (s.lock.release key), [])
  | .takeFrame palette => ⟨s.withMachine s.lock.afterFrame, .picture (s.lock.frame? palette), []⟩
  | .snapshot => ⟨s, .state (s.lock.snapshot s.controls.clock), []⟩
  | .dump => ⟨s, .text s.lock.memory.dump, []⟩

end Scheduler

end Chip8
