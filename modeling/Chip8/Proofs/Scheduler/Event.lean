/-
  File:      Chip8/Proofs/Scheduler/Event.lean
  Subject:   what may happen to a scheduler, one thing after another

  * `ThreadMove`: what the CPU thread does between two looks at the controls. The host may act
    between any two moves, so a piece of work carries the clock that was read for it, and a burst
    may come behind a pause it has not seen;
  * `Happening`: an operation of the host or a move of the thread, the scheduler after any number of
    them, `afterAll`, and what the outside is told of them, `toldAll`;
  * `turn_eq_moves`: a turn of the thread is some of its moves, and no more is told of it.
-/
import Chip8.Scheduler.Thread

namespace Chip8

/-- What the CPU thread does between two looks at the controls. -/
inductive ThreadMove where
  /-- The step that was asked for is taken. -/
  | take
  /-- A single step, at the clock that was read for it. -/
  | single (hz : UInt32)
  /-- A burst, at the clock that was read for it; a fault in it pauses the thread. -/
  | burst (hz : UInt32) (steps : Nat) (cycles : Cycles)

/-- What happens to a scheduler. -/
inductive Happening where
  /-- An operation of the host. -/
  | operate (operation : Scheduler.Operation)
  /-- A move of the CPU thread, if there is one that can move. -/
  | thread (move : ThreadMove)

namespace Scheduler

/-! ## 1. The scheduler behind a happening -/

def afterOperation (s : Scheduler) (operation : Operation) : Scheduler :=
  (s.perform operation).scheduler

/-- The scheduler after a move of its living thread. -/
def afterMoveOf (s : Scheduler) (cpu : Cpu) : ThreadMove → Scheduler
  | .take => s.withControls s.controls.takeStep
  | .single hz => s.afterWork (cpu.single s.lock hz)
  | .burst hz steps cycles =>
    let work := cpu.burst s.lock hz steps cycles
    (s.withControls (if work.faulted then s.controls.pause else s.controls)).afterWork work

/-- The scheduler after a move of its thread; one that is not there, or dead, makes none. -/
def afterThread (s : Scheduler) (move : ThreadMove) : Scheduler :=
  match s.worker with
  | some (.alive cpu) => s.afterMoveOf cpu move
  | _ => s

def after (s : Scheduler) : Happening → Scheduler
  | .operate operation => s.afterOperation operation
  | .thread move => s.afterThread move

/-- The scheduler after what has happened, the first thing first. -/
def afterAll (s : Scheduler) (history : List Happening) : Scheduler := history.foldl after s

/-- **What one happening keeps, every history keeps.** -/
theorem afterAll_induction {P : Scheduler → Prop} {s : Scheduler} (start : P s)
    (keep : ∀ t happening, P t → P (after t happening)) (history : List Happening) :
    P (s.afterAll history) := by
  induction history generalizing s with
  | nil => exact start
  | cons happening rest ih => exact ih (keep s happening start)

theorem afterAll_append (s : Scheduler) (earlier later : List Happening) :
    s.afterAll (earlier ++ later) = (s.afterAll earlier).afterAll later :=
  List.foldl_append

/-- The thread is there and alive, or nobody makes its moves. -/
theorem alive_or_idle (s : Scheduler) :
    (∃ cpu, s.worker = some (.alive cpu)) ∨ ∀ cpu, s.worker ≠ some (.alive cpu) := by
  by_cases halive : ∃ cpu, s.worker = some (.alive cpu)
  · exact .inl halive
  · exact .inr fun cpu h => halive ⟨cpu, h⟩

theorem afterThread_of_alive {s : Scheduler} {cpu : Cpu} (h : s.worker = some (.alive cpu))
    (move : ThreadMove) : s.afterThread move = s.afterMoveOf cpu move := by
  rw [afterThread, h]

theorem afterThread_of_not_alive {s : Scheduler} (h : ∀ cpu, s.worker ≠ some (.alive cpu))
    (move : ThreadMove) : s.afterThread move = s := by
  unfold afterThread
  split
  · rename_i cpu hworker
    exact absurd hworker (h cpu)
  · rfl

/-! ## 2. What is told of it -/

/-- What the outside is told of a happening. -/
structure Told where
  /-- What the host is answered, if it did something. -/
  answer? : Option Answer
  signals : List Signal

/-- What can be seen of a move of the living thread. -/
def signalsOf (s : Scheduler) (cpu : Cpu) : ThreadMove → List Signal
  | .take => []
  | .single hz => (cpu.single s.lock hz).signals
  | .burst hz steps cycles => (cpu.burst s.lock hz steps cycles).signals

/-- What can be seen of a move of the thread; one that is not there, or dead, makes none. -/
def threadSignals (s : Scheduler) (move : ThreadMove) : List Signal :=
  match s.worker with
  | some (.alive cpu) => s.signalsOf cpu move
  | _ => []

def told (s : Scheduler) : Happening → Told
  | .operate operation => ⟨some (s.perform operation).answer, (s.perform operation).signals⟩
  | .thread move => ⟨none, s.threadSignals move⟩

/-- What the outside is told of all that happens, the first thing first. -/
def toldAll (s : Scheduler) : List Happening → List Told
  | [] => []
  | first :: rest => s.told first :: (s.after first).toldAll rest

theorem threadSignals_of_alive {s : Scheduler} {cpu : Cpu} (h : s.worker = some (.alive cpu))
    (move : ThreadMove) : s.threadSignals move = s.signalsOf cpu move := by
  rw [threadSignals, h]

theorem threadSignals_of_not_alive {s : Scheduler} (h : ∀ cpu, s.worker ≠ some (.alive cpu))
    (move : ThreadMove) : s.threadSignals move = [] := by
  unfold threadSignals
  split
  · rename_i cpu hworker
    exact absurd hworker (h cpu)
  · rfl

/-! ## 3. Turns of the thread -/

/-- The moves of a turn. -/
def turnMoves (s : Scheduler) (steps : Nat) (cycles : Cycles) : List Happening :=
  if s.controls.paused then
    if s.controls.stepRequested then [.thread .take, .thread (.single s.controls.clock)] else []
  else [.thread (.burst s.controls.clock steps cycles)]

/-- **A turn of the thread is a few of its moves**, with nothing between them, and what can be seen
    of it is told of them. -/
theorem turn_eq_moves (s : Scheduler) (steps : Nat) (cycles : Cycles) :
    (s.turn steps cycles).1 = s.afterAll (s.turnMoves steps cycles) ∧
      (s.turn steps cycles).2 = (s.toldAll (s.turnMoves steps cycles)).flatMap Told.signals := by
  rcases s.alive_or_idle with ⟨cpu, hworker⟩ | hnone
  · unfold turn turnMoves
    rw [hworker]
    dsimp only
    split
    · rw [pausedTurn]
      split
      · -- the thread is still alive behind the first of the two moves
        have htake : s.afterThread .take = s.withControls s.controls.takeStep :=
          afterThread_of_alive hworker .take
        have htaken : (s.afterThread .take).worker = some (.alive cpu) := by
          rw [htake]
          exact hworker
        refine ⟨?_, ?_⟩
        · show _ = (s.afterThread .take).afterThread (.single s.controls.clock)
          rw [afterThread_of_alive htaken, htake]
          rfl
        · show _ = s.threadSignals .take ++
            ((s.afterThread .take).threadSignals (.single s.controls.clock) ++ [])
          rw [threadSignals_of_alive hworker, threadSignals_of_alive htaken, htake,
            List.append_nil]
          rfl
      · exact ⟨rfl, rfl⟩
    · refine ⟨?_, ?_⟩
      · show _ = s.afterThread (.burst s.controls.clock steps cycles)
        rw [afterThread_of_alive hworker]
        rfl
      · show _ = s.threadSignals (.burst s.controls.clock steps cycles) ++ []
        rw [threadSignals_of_alive hworker, List.append_nil]
        rfl
  · have hturn : s.turn steps cycles = (s, []) := by
      unfold turn
      split
      · rename_i cpu hworker
        exact absurd hworker (hnone cpu)
      · rfl
    have hidle := afterThread_of_not_alive hnone
    have hsilent := threadSignals_of_not_alive hnone
    rw [hturn]
    unfold turnMoves
    split
    · split
      · simp [afterAll, toldAll, after, told, hidle, hsilent]
      · exact ⟨rfl, rfl⟩
    · simp [afterAll, toldAll, after, told, hidle, hsilent]

end Scheduler

end Chip8
