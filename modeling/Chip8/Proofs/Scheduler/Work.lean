/-
  File:      Chip8/Proofs/Scheduler/Work.lean
  Subject:   what each happening does to the machine and to the `Cpu`

  * `ThreadMove.executed`, `ThreadMove.due`, `ThreadMove.controlsAfter`: the steps of a move of the
    thread, the ticks that are due behind them, and what the move tells the controls;
    `afterMoveOf_eq`: the move is these three;
  * `machine_after`: a load apart, every happening moves the machine; `Operation.touches` are the
    moves of the host;
  * `cpu?_after`: with a sink that does not die the `Cpu` is never lost.
-/
import Chip8.Proofs.Machine.Steps
import Chip8.Proofs.Scheduler.Load
import Chip8.Proofs.Scheduler.Ticks

namespace Chip8

open Numeric

/-! ## 1. Moves of the thread -/

namespace ThreadMove

/-- The machine behind the steps of a move, no tick done yet. -/
def executed (m : Machine) : ThreadMove → Machine
  | .take => m
  | .single _ => m.step.1
  | .burst _ steps _ => (m.run steps).machine

/-- **The ticks that are due behind a move**, and the divider then. A single step that faults is no
    cycle. -/
def due (cpu : Cpu) (m : Machine) : ThreadMove → Nat × Divider
  | .take => (0, cpu.divider)
  | .single hz =>
    if m.step.2.isSome then (0, cpu.divider) else cpu.divider.advance (Binary.ofNat 1) hz
  | .burst hz _ cycles => cpu.divider.advance cycles hz

/-- The controls behind a move: the step asked for is taken, and a fault in a burst pauses. -/
def controlsAfter (m : Machine) (c : Controls) : ThreadMove → Controls
  | .take => c.takeStep
  | .single _ => c
  | .burst _ steps _ => if (m.run steps).fault.isSome then c.pause else c

theorem executed_eq_afterSteps (m : Machine) (move : ThreadMove) :
    ∃ count, move.executed m = m.afterSteps count := by
  cases move with
  | take => exact ⟨0, rfl⟩
  | single hz => exact ⟨1, rfl⟩
  | burst hz steps cycles => exact ⟨_, (m.machine_run steps).1⟩

end ThreadMove

namespace Scheduler

variable {s : Scheduler} {cpu : Cpu}

/-- What became of the ticks behind a move. -/
def ticked (s : Scheduler) (cpu : Cpu) (move : ThreadMove) : Ticked :=
  tickMany cpu.sink (move.executed s.machine) (move.due cpu s.machine).1

/-- **A move of the thread**: its steps, then the ticks that are due; a sink that dies of them takes
    the thread with it and leaves the lock poisoned. -/
theorem afterMoveOf_eq (hworker : s.worker = some (.alive cpu)) (move : ThreadMove) :
    s.afterMoveOf cpu move = {
      shared := s.shared.giveBack (s.ticked cpu move).machine (s.ticked cpu move).died
      controls := move.controlsAfter s.machine s.controls
      worker := some (if (s.ticked cpu move).died then .dead
        else .alive ⟨(s.ticked cpu move).sink, (move.due cpu s.machine).2⟩)
      parked := s.parked } := by
  cases move with
  | take =>
    show s.withControls s.controls.takeStep = ⟨s.shared, s.controls.takeStep, some (.alive cpu), _⟩
    rw [← hworker]
    rfl
  | single hz =>
    unfold afterMoveOf ticked ThreadMove.executed ThreadMove.due ThreadMove.controlsAfter Cpu.single
    rw [lock_eq_machine]
    rcases s.machine.step with ⟨after, fault?⟩
    cases fault? with
    | some fault => rfl
    | none =>
      dsimp only [Cpu.elapse]
      rw [tickMany_enough]
      rfl
  | burst hz steps cycles =>
    unfold afterMoveOf ticked ThreadMove.executed ThreadMove.due ThreadMove.controlsAfter Cpu.burst
    rw [lock_eq_machine]
    dsimp only [Cpu.elapse]
    rw [tickMany_enough]
    rfl

/-- **All the ticks that are due are done**, or the thread dies of the one that ends the sound
    timer. -/
theorem ticked_cases (s : Scheduler) (cpu : Cpu) (move : ThreadMove) :
    let executed := move.executed s.machine
    let left := executed.sound.count.toNat
    ((s.ticked cpu move).died = false ∧
      (s.ticked cpu move).machine = executed.afterMoves (ticks (move.due cpu s.machine).1)) ∨
    ((s.ticked cpu move).died = true ∧ cpu.sink.play .beep = none ∧
      1 ≤ left ∧ left ≤ (move.due cpu s.machine).1 ∧
      (s.ticked cpu move).machine = executed.afterMoves (ticks left)) := by
  intro executed left
  unfold ticked
  rcases tickMany_cases cpu.sink executed (move.due cpu s.machine).1 with
    ⟨-, hticks⟩ | ⟨-, _, -, hticks⟩ | ⟨⟨hge, hle⟩, hdies, hticks⟩
  · rw [hticks]
    exact .inl ⟨rfl, rfl⟩
  · rw [hticks]
    exact .inl ⟨rfl, rfl⟩
  · rw [hticks]
    exact .inr ⟨rfl, hdies, hge, hle, rfl⟩

theorem machine_afterThread (s : Scheduler) (move : ThreadMove) :
    ∃ moves, (s.afterThread move).machine = s.machine.afterMoves moves := by
  rcases s.alive_or_idle with ⟨cpu, hworker⟩ | hnone
  · obtain ⟨count, hsteps⟩ := move.executed_eq_afterSteps s.machine
    have hticks : ∃ done, (s.ticked cpu move).machine =
        (move.executed s.machine).afterMoves (ticks done) := by
      rcases s.ticked_cases cpu move with ⟨-, h⟩ | ⟨-, -, -, -, h⟩
      · exact ⟨_, h⟩
      · exact ⟨_, h⟩
    obtain ⟨done, hmachine⟩ := hticks
    refine ⟨List.replicate count .step ++ ticks done, ?_⟩
    rw [afterThread_of_alive hworker, afterMoveOf_eq hworker]
    show (s.ticked cpu move).machine = _
    rw [hmachine, hsteps, Machine.afterMoves_append]
    rfl
  · rw [afterThread_of_not_alive hnone]
    exact ⟨[], rfl⟩

/-! ## 2. Operations of the host -/

/-- What an operation of the host does to the machine, if it is no load. -/
def Operation.touches : Operation → List Move
  | .press key => [.touch (.press key)]
  | .release key => [.touch (.release key)]
  | .takeFrame _ => [.touch .poll]
  | _ => []

/-- Starting and halting leave the machine and its lock alone. -/
theorem shared_start (s : Scheduler) : s.start.shared = s.shared := by
  cases hparked : s.parked with
  | none => rw [start_of_not_parked hparked]
  | some cpu => rw [start_of_parked hparked]

theorem shared_halt (s : Scheduler) : s.halt.1.shared = s.shared := by
  cases hworker : s.worker with
  | none => rw [halt_of_not_started hworker]
  | some worker => rw [halt_of_started hworker]

/-- **Only a load does more to the machine than to touch it.** -/
theorem machine_afterOperation {operation : Operation} (h : ∀ program, operation ≠ .load program) :
    (s.afterOperation operation).machine = s.machine.afterMoves operation.touches := by
  cases operation with
  | load program => exact absurd rfl (h program)
  | start => exact congrArg Shared.value s.shared_start
  | halt => exact congrArg Shared.value s.shared_halt
  | togglePause =>
    rw [afterOperation_togglePause]
    rfl
  | press | release | takeFrame =>
    rw [afterOperation, perform, lock_eq_machine]
    rfl
  | _ => rfl

/-- **A load apart, every happening moves the machine.** -/
theorem machine_after {happening : Happening}
    (h : ∀ program, happening ≠ .operate (.load program)) :
    ∃ moves, (s.after happening).machine = s.machine.afterMoves moves := by
  cases happening with
  | operate operation =>
    exact ⟨_, machine_afterOperation fun program e => h program (congrArg Happening.operate e)⟩
  | thread move => exact s.machine_afterThread move

theorem machine_afterAll {history : List Happening}
    (h : ∀ program, .operate (.load program) ∉ history) :
    ∃ moves, (s.afterAll history).machine = s.machine.afterMoves moves := by
  induction history generalizing s with
  | nil => exact ⟨[], rfl⟩
  | cons first rest ih =>
    have hfirst : ∃ moves, (s.after first).machine = s.machine.afterMoves moves :=
      machine_after fun program e => h program (e ▸ List.mem_cons_self)
    obtain ⟨earlier, hearlier⟩ := hfirst
    obtain ⟨later, hlater⟩ := ih (s := s.after first)
      fun program hmem => h program (List.mem_cons_of_mem _ hmem)
    refine ⟨earlier ++ later, ?_⟩
    show ((s.after first).afterAll rest).machine = _
    rw [hlater, hearlier, Machine.afterMoves_append]

/-- **A sink that does not die is never lost**; all that happens to it is that it gets tones. -/
theorem cpu?_after (hs : s.InOrder) (hcpu : s.cpu? = some cpu) (hsink : cpu.sink.NeverDies)
    (happening : Happening) :
    ∃ tones divider, (s.after happening).cpu? = some ⟨cpu.sink.given tones, divider⟩ := by
  have hparts := eq_ofParts hs hcpu
  have hsame : cpu = ⟨cpu.sink.given [], cpu.divider⟩ := by rw [Sink.given_nil]
  have hkept : ∃ tones divider, s.cpu? = some ⟨cpu.sink.given tones, divider⟩ :=
    ⟨[], cpu.divider, hcpu.trans (congrArg some hsame)⟩
  match happening with
  | .operate .start =>
    refine ⟨[], cpu.divider, ?_⟩
    show s.start.cpu? = _
    rw [hparts, start_ofParts, cpu?_ofParts, ← hsame]
  | .operate .halt =>
    refine ⟨[], cpu.divider, ?_⟩
    show s.halt.1.cpu? = _
    rw [halt_of_cpu hs hcpu, cpu?_ofParts, ← hsame]
  | .operate (.load program) =>
    show ∃ tones divider, (s.afterOperation (.load program)).cpu? = _
    rw [afterOperation_load]
    obtain ⟨hlarge, hfits⟩ := load_of_halt program (halt_of_cpu hs hcpu) hs.running.symm
    by_cases hsize : program.size ≤ 3584
    · refine ⟨[], .fresh, ?_⟩
      rw [hfits hsize, cpu?_ofParts, Sink.given_nil]
    · refine ⟨[], cpu.divider, ?_⟩
      rw [hlarge (Nat.lt_of_not_le hsize), cpu?_ofParts, ← hsame]
  | .operate .togglePause =>
    show ∃ tones divider, (s.afterOperation .togglePause).cpu? = _
    rw [afterOperation_togglePause]
    exact hkept
  | .operate .pause | .operate .resume | .operate .requestStep | .operate (.setClock _)
  | .operate .doubleClock | .operate .halveClock | .operate (.press _) | .operate (.release _)
  | .operate (.takeFrame _) | .operate .snapshot | .operate .dump => exact hkept
  | .thread move =>
    show ∃ tones divider, (s.afterThread move).cpu? = _
    by_cases halive : ∃ own, s.worker = some (.alive own)
    · obtain ⟨own, hworker⟩ := halive
      rw [cpu?, hworker] at hcpu
      cases hcpu
      have hticked : s.ticked cpu move = _ :=
        tickMany_of_neverDies hsink (move.executed s.machine) (move.due cpu s.machine).1
      rw [afterThread_of_alive hworker, afterMoveOf_eq hworker, hticked]
      exact ⟨_, _, rfl⟩
    · rw [afterThread_of_not_alive fun own hworker => halive ⟨own, hworker⟩]
      exact hkept

theorem cpu?_afterAll (hs : s.InOrder) (hcpu : s.cpu? = some cpu) (hsink : cpu.sink.NeverDies)
    (history : List Happening) :
    ∃ tones divider, (s.afterAll history).cpu? = some ⟨cpu.sink.given tones, divider⟩ := by
  have hfirst : ∃ tones divider, s.cpu? = some ⟨cpu.sink.given tones, divider⟩ :=
    ⟨[], cpu.divider, by rw [hcpu, Sink.given_nil]⟩
  have h := afterAll_induction
    (P := fun t => t.InOrder ∧ ∃ tones divider, t.cpu? = some ⟨cpu.sink.given tones, divider⟩)
    ⟨hs, hfirst⟩ (fun t happening ⟨ht, tones, divider, hcpu'⟩ => by
      obtain ⟨more, divider', hmore⟩ := cpu?_after ht hcpu' (hsink.given tones) happening
      rw [← Sink.given_append] at hmore
      exact ⟨inOrder_after ht happening, _, _, hmore⟩) history
  exact h.2

end Scheduler

end Chip8
