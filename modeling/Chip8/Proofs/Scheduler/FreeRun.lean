/-
  File:      Chip8/Proofs/Scheduler/FreeRun.lean
  Subject:   a thread that runs freely into a fault has stepped its machine plainly

  * `Burst`, `turns`: the bursts the thread cuts its run into, and the scheduler behind them;
  * `RanFreely`: what such a run has come to after so many steps, told by plain stepping;
    `turn_ranFreely` for one burst, `turns_ranFreely` for any number of them;
  * `free_run_is_plain`: so the run comes to rest behind the fault, with one complaint, and every
    later run ends there as well.
-/
import Chip8.Proofs.Scheduler.Work

namespace Chip8

/-! ## 1. Errors among the signals -/

/-- Whether a signal is the record of an error, of host or thread. What a sink shows is its own. -/
def Signal.isError : Signal → Bool
  | .host record => record.level = .error
  | .cpu record => record.level = .error
  | .audio _ => false

/-- What a thread that runs freely says of a fault. -/
def Fault.complaint (fault : Fault) : Signal :=
  .cpu ⟨.error, fault.message ++ ", execution paused"⟩

theorem errors_audio (shown : List Audio) :
    (shown.map Signal.audio).filter Signal.isError = [] := by
  refine List.filter_eq_nil_iff.mpr fun signal hsignal => ?_
  obtain ⟨audio, -, rfl⟩ := List.mem_map.mp hsignal
  exact Bool.false_ne_true

/-- **A burst shows no error but the complaint about its fault.** -/
theorem errors_burst {cpu : Cpu} (hsink : cpu.sink.NeverDies) (m : Machine) (hz : UInt32)
    (steps : Nat) (cycles : Cycles) :
    (cpu.burst m hz steps cycles).signals.filter Signal.isError =
      (m.run steps).fault.toList.map Fault.complaint := by
  have hrecords : ((m.run steps).records.map Signal.cpu).filter Signal.isError = [] := by
    refine List.filter_eq_nil_iff.mpr fun signal hsignal => ?_
    obtain ⟨record, hrecord, rfl⟩ := List.mem_map.mp hsignal
    rw [Signal.isError, decide_eq_true_eq]
    exact Machine.level_of_mem_run hrecord
  unfold Cpu.burst Cpu.elapse
  dsimp only
  rw [tickMany_enough, tickMany_of_neverDies hsink, List.filter_append, List.filter_append,
    hrecords, errors_audio, List.nil_append, List.append_nil]
  cases (m.run steps).fault with
  | none => rfl
  | some fault => rfl

/-! ## 2. Bursts -/

/-- A burst of the thread: its steps, and the cycles that go by meanwhile. -/
structure Burst where
  steps : Nat
  cycles : Cycles

/-- The steps of bursts, all together. -/
def stepsAll : List Burst → Nat
  | [] => 0
  | burst :: rest => burst.steps + stepsAll rest

namespace Scheduler

variable {s : Scheduler} {cpu : Cpu} {plain : Machine} {count : Nat} {fault : Fault}

/-- Turns of the thread, one after the other, and what could be seen of them. -/
def turns (s : Scheduler) : List Burst → Scheduler × List Signal
  | [] => (s, [])
  | burst :: rest =>
    let first := s.turn burst.steps burst.cycles
    let last := first.1.turns rest
    (last.1, first.2 ++ last.2)

theorem turns_of_not_asked (hpaused : s.controls.paused = true)
    (hasked : s.controls.stepRequested = false) (bursts : List Burst) :
    s.turns bursts = (s, []) := by
  induction bursts with
  | nil => rfl
  | cons burst rest ih =>
    rw [turns, turn_of_not_asked hpaused hasked]
    dsimp only
    rw [ih]
    rfl

/-- **What a free run has come to** after so many steps, if plain stepping from a machine faults
    behind `count` of them: its machine is the one plain stepping gives, but for the timers; the
    thread lives; and once the fault is behind it, it is paused and has complained once. -/
structure RanFreely (plain : Machine) (count : Nat) (fault : Fault) (c : Controls) (sink : Sink)
    (steps : Nat) (out : Scheduler × List Signal) : Prop where
  machine : (plain.afterSteps (min steps (count + 1))).SameButTimers out.1.machine
  controls : out.1.controls = if count < steps then c.pause else c
  worker : ∃ tones divider, out.1.worker = some (.alive ⟨sink.given tones, divider⟩)
  errors : out.2.filter Signal.isError = if count < steps then [fault.complaint] else []

theorem sameButTimers_ticks {m n : Machine} (h : m.SameButTimers n) (count : Nat) :
    m.SameButTimers (n.afterMoves (ticks count)) := by
  induction count generalizing n with
  | zero => exact h
  | succ count ih =>
    refine ih (n := n.tick) ?_
    rw [h]
    rfl

theorem turn_of_free (hworker : s.worker = some (.alive cpu)) (hfree : s.controls.paused = false)
    (steps : Nat) (cycles : Cycles) :
    s.turn steps cycles = (s.afterMoveOf cpu (.burst s.controls.clock steps cycles),
      (cpu.burst s.machine s.controls.clock steps cycles).signals) := by
  rw [turn, hworker]
  dsimp only
  rw [hfree, if_neg Bool.false_ne_true, ← lock_eq_machine]
  rfl

/-- **One burst.** -/
theorem turn_ranFreely (h : plain.FaultsBehind count fault)
    (hsame : plain.SameButTimers s.machine) (hworker : s.worker = some (.alive cpu))
    (hsink : cpu.sink.NeverDies) (hfree : s.controls.paused = false) (steps : Nat)
    (cycles : Cycles) :
    RanFreely plain count fault s.controls cpu.sink steps (s.turn steps cycles) := by
  obtain ⟨hfault, hmachine⟩ := Machine.run_of_faultsBehind h hsame steps
  have hticked : s.ticked cpu (.burst s.controls.clock steps cycles) = _ :=
    tickMany_of_neverDies hsink (s.machine.run steps).machine _
  rw [turn_of_free hworker hfree, afterMoveOf_eq hworker, hticked]
  refine ⟨sameButTimers_ticks hmachine _, ?_, ⟨_, _, rfl⟩, ?_⟩
  · show (if (s.machine.run steps).fault.isSome then s.controls.pause else s.controls) = _
    rw [hfault]
    split <;> rfl
  · show (cpu.burst s.machine s.controls.clock steps cycles).signals.filter Signal.isError = _
    rw [errors_burst hsink, hfault]
    split <;> rfl

/-- **Any number of bursts.** -/
theorem turns_ranFreely (h : plain.FaultsBehind count fault)
    (hsame : plain.SameButTimers s.machine) (hworker : s.worker = some (.alive cpu))
    (hsink : cpu.sink.NeverDies) (hfree : s.controls.paused = false)
    (hasked : s.controls.stepRequested = false) (bursts : List Burst) :
    RanFreely plain count fault s.controls cpu.sink (stepsAll bursts) (s.turns bursts) := by
  induction bursts generalizing s cpu plain count with
  | nil =>
    have hnone : ¬ count < stepsAll [] := Nat.not_lt_zero count
    refine ⟨?_, ?_, ⟨[], cpu.divider, by rw [Sink.given_nil]; exact hworker⟩, ?_⟩
    · rw [show min (stepsAll []) (count + 1) = 0 from Nat.zero_min _]
      exact hsame
    · rw [if_neg hnone]
      rfl
    · rw [if_neg hnone]
      rfl
  | cons burst rest ih =>
    have hsteps : stepsAll (burst :: rest) = burst.steps + stepsAll rest := rfl
    have hfirst := turn_ranFreely h hsame hworker hsink hfree burst.steps burst.cycles
    obtain ⟨tones, divider, hworker'⟩ := hfirst.worker
    rw [hsteps, turns]
    by_cases hover : count < burst.steps
    · -- the fault is in this burst, and the thread waits through the remaining ones
      have hpaused : (s.turn burst.steps burst.cycles).1.controls = s.controls.pause := by
        rw [hfirst.controls, if_pos hover]
      have hrest := turns_of_not_asked (s := (s.turn burst.steps burst.cycles).1)
        (by rw [hpaused]; rfl) (by rw [hpaused]; exact hasked) rest
      have hall : count < burst.steps + stepsAll rest := Nat.lt_add_right _ hover
      rw [hrest, List.append_nil]
      refine ⟨?_, ?_, ⟨tones, divider, hworker'⟩, ?_⟩
      · rw [Nat.min_eq_right hall, ← Nat.min_eq_right hover]
        exact hfirst.machine
      · rw [if_pos hall]
        exact hpaused
      · rw [if_pos hall, hfirst.errors, if_pos hover]
    · -- the fault is as many steps nearer as this burst had
      have hle : burst.steps ≤ count := Nat.le_of_not_lt hover
      have hcontrols : (s.turn burst.steps burst.cycles).1.controls = s.controls := by
        rw [hfirst.controls, if_neg hover]
      have hmachine := hfirst.machine
      rw [Nat.min_eq_left (by omega)] at hmachine
      have hlast := ih (h.behind hle) hmachine hworker' (hsink.given tones)
        (by rw [hcontrols]; exact hfree) (by rw [hcontrols]; exact hasked)
      obtain ⟨more, divider', hworker''⟩ := hlast.worker
      rw [← Sink.given_append] at hworker''
      have hiff : count - burst.steps < stepsAll rest ↔ count < burst.steps + stepsAll rest := by
        omega
      have hmin : min (burst.steps + stepsAll rest) (count + 1) =
          burst.steps + min (stepsAll rest) (count - burst.steps + 1) := by
        omega
      refine ⟨?_, ?_, ⟨_, divider', hworker''⟩, ?_⟩
      · rw [hmin, Machine.afterSteps_add]
        exact hlast.machine
      · rw [hlast.controls, hcontrols]
        simp only [hiff]
      · rw [List.filter_append, hfirst.errors, if_neg hover, hlast.errors, List.nil_append]
        simp only [hiff]

/-! ## 3. A free run and the ones after it -/

theorem inOrder_turns (hs : s.InOrder) (bursts : List Burst) : (s.turns bursts).1.InOrder := by
  induction bursts generalizing s with
  | nil => exact hs
  | cons burst rest ih =>
    refine ih (s := (s.turn burst.steps burst.cycles).1) ?_
    rw [(s.turn_eq_moves burst.steps burst.cycles).1]
    exact inOrder_afterAll hs _

theorem isAtRest_of_alive (hworker : s.worker = some (.alive cpu)) :
    s.isAtRest = (s.controls.paused && !s.controls.stepRequested) := by
  rw [isAtRest, hworker]

/-- **A thread set free at the place of a fault ends in it again** and leaves the machine as it is,
    but for the timers. -/
theorem resumed_at_fault (hworker : s.worker = some (.alive cpu)) (hsink : cpu.sink.NeverDies)
    (hstuck : s.machine.step = (s.machine, some fault)) {bursts : List Burst}
    (hsteps : 0 < stepsAll bursts) :
    let again := (s.afterOperation .resume).turns bursts
    again.1.isAtRest = true ∧ s.machine.SameButTimers again.1.machine ∧
      again.2.filter Signal.isError = [fault.complaint] := by
  intro again
  have hfaults : s.machine.FaultsBehind 0 fault := by
    refine ⟨fun k hk => ?_, fun k hk => ?_, ?_⟩
    · exact absurd hk (Nat.not_lt_zero k)
    · exact absurd hk (Nat.not_lt_zero k)
    · rw [Machine.afterSteps_zero, hstuck]
  have hran : RanFreely s.machine 0 fault s.controls.resume cpu.sink (stepsAll bursts) again :=
    turns_ranFreely (s := s.afterOperation .resume) hfaults (Machine.sameButTimers_refl _) hworker
      hsink rfl rfl bursts
  obtain ⟨tones, divider, hworker'⟩ := hran.worker
  refine ⟨?_, ?_, ?_⟩
  · rw [isAtRest_of_alive hworker', hran.controls, if_pos hsteps]
    rfl
  · have hmachine := hran.machine
    rw [Nat.min_eq_right hsteps] at hmachine
    have hone : s.machine.afterSteps (0 + 1) = s.machine := by
      show s.machine.step.1 = s.machine
      rw [hstuck]
    rw [hone] at hmachine
    exact hmachine
  · rw [hran.errors, if_pos hsteps]

/-- **A free run that faults is plain stepping.** Take a scheduler in order whose thread runs freely
    with a sink that does not die, and let plain stepping of its machine succeed `count` times
    without a look at the delay timer and then fault. However the thread cuts its run into bursts,
    and however many cycles go by in each, it comes to rest as soon as they have more than `count`
    steps: paused and still running, with one error among all it shows, the complaint about that
    fault, and with the machine that plain stepping leaves behind the fault, but for the timers.
    Whenever it is set free again, whatever has happened since but a load, it ends in the same fault
    with the same complaint and leaves the machine as it is, but for the timers. -/
theorem free_run_is_plain (hs : s.InOrder) (hworker : s.worker = some (.alive cpu))
    (hsink : cpu.sink.NeverDies) (hfree : s.controls.paused = false)
    (h : s.machine.FaultsBehind count fault) (bursts : List Burst) :
    let out := s.turns bursts
    (out.1.isAtRest = true ↔ count < stepsAll bursts) ∧
    (count < stepsAll bursts →
      out.1.controls = s.controls.pause ∧ out.1.isRunning = true ∧
      out.2.filter Signal.isError =
        [.cpu ⟨.error, fault.message ++ ", execution paused"⟩] ∧
      (s.machine.afterSteps (count + 1)).SameButTimers out.1.machine ∧
      ∀ history, (∀ program, .operate (.load program) ∉ history) →
        let later := out.1.afterAll history
        later.isRunning = true → ∀ more, 0 < stepsAll more →
          let again := (later.afterOperation .resume).turns more
          again.1.isAtRest = true ∧ later.machine.SameButTimers again.1.machine ∧
          again.2.filter Signal.isError =
            [.cpu ⟨.error, fault.message ++ ", execution paused"⟩]) := by
  intro out
  have hasked : s.controls.stepRequested = false := by
    rw [Bool.eq_false_iff]
    intro hrequest
    rw [hs.request hrequest] at hfree
    cases hfree
  have hran : RanFreely s.machine count fault s.controls cpu.sink (stepsAll bursts) out :=
    turns_ranFreely h (Machine.sameButTimers_refl _) hworker hsink hfree hasked bursts
  obtain ⟨tones, divider, hworker'⟩ := hran.worker
  refine ⟨?_, fun hover => ?_⟩
  · rw [isAtRest_of_alive hworker', hran.controls]
    split
    · rename_i hover
      exact iff_of_true (by rw [Controls.pause, hasked]; rfl) hover
    · rename_i hunder
      exact iff_of_false (by rw [hfree]; exact Bool.false_ne_true) hunder
  · have hmachine := hran.machine
    rw [Nat.min_eq_right hover] at hmachine
    have hstuck : out.1.machine.step = (out.1.machine, some fault) := by
      have hplain : (s.machine.afterSteps (count + 1)).step =
          (s.machine.afterSteps (count + 1), some fault) := by
        rw [Machine.afterSteps_add]
        exact Machine.step_again h.faults
      rw [hmachine]
      exact Machine.step_of_same_noted hplain rfl rfl rfl rfl
    refine ⟨by rw [hran.controls, if_pos hover], isRunning_of_worker hworker',
      by rw [hran.errors, if_pos hover]; rfl, hmachine, ?_⟩
    intro history hnoload later hrunning more hmore
    have hcpu : out.1.cpu? = some ⟨cpu.sink.given tones, divider⟩ := by rw [cpu?, hworker']
    have hlives := hsink.given tones
    obtain ⟨later, divider', hcpu'⟩ :=
      cpu?_afterAll (inOrder_turns hs bursts) hcpu hlives history
    obtain ⟨moves, hmoves⟩ := machine_afterAll (s := out.1) hnoload
    refine resumed_at_fault (worker_of_cpu hcpu' hrunning) (hlives.given later) ?_ hmore
    rw [hmoves]
    exact Machine.step_moved hstuck moves

/-- A thread that runs freely. Its program sets a register and returns, with no call open. -/
def returning : Scheduler :=
  (ofMachine (.withBytes [(0x200, 0x60), (0x201, 0x05), (0x202, 0x00), (0x203, 0xEE)]) 700
    .handOn).start

/-- A burst of one step does not reach the return; the one behind it comes to rest there, and so
    does a run that is set free later. -/
theorem free_run_returning :
    let bursts : List Burst := [⟨1, Numeric.Binary.ofNat 3⟩, ⟨5, Numeric.Binary.ofNat 20⟩]
    let rested := (returning.turns bursts).1
    let later := rested.afterAll [.operate (.press 3), .operate .requestStep]
    returning.InOrder ∧ returning.worker = some (.alive ⟨.handOn, .fresh⟩) ∧
    Sink.handOn.NeverDies ∧ returning.controls.paused = false ∧
    returning.machine.FaultsBehind 1 (.stackUnderflow 0x202) ∧
    rested.isAtRest = true ∧
    (returning.turns bursts).2.filter Signal.isError = [.cpu ⟨.error,
      "return from subroutine with an empty call stack at 0x202, execution paused"⟩] ∧
    ((later.afterOperation .resume).turns [⟨1, Numeric.Binary.zero⟩]).1.isAtRest = true := by
  intro bursts rested later
  have hs : returning.InOrder := (inOrder_ofMachine _ _ _).start.1
  have hfaults : returning.machine.FaultsBehind 1 (.stackUnderflow 0x202) := by
    refine ⟨fun k hk => ?_, fun k hk => ?_, by decide +kernel⟩
    · obtain rfl := Nat.lt_one_iff.mp hk
      decide +kernel
    · obtain rfl := Nat.lt_one_iff.mp hk
      rintro ⟨word, hfetch, hreads⟩
      have hword : returning.machine.memory.fetch? returning.machine.pc = some 0x6005 := by
        decide +kernel
      obtain rfl : 0x6005 = word := Option.some.inj (hword.symm.trans hfetch)
      exact absurd hreads.1 (by decide)
  obtain ⟨hrest, hover⟩ :=
    free_run_is_plain hs rfl Sink.neverDies_handOn rfl hfaults bursts
  have hlt : 1 < stepsAll bursts := by decide
  obtain ⟨-, hrunning, herrors, -, hlater⟩ := hover hlt
  have hkeep (t : Scheduler) :
      (t.afterAll [.operate (.press 3), .operate .requestStep]).isRunning = t.isRunning := rfl
  have hagain := hlater [.operate (.press 3), .operate .requestStep] (by simp)
    ((hkeep _).trans hrunning) [⟨1, Numeric.Binary.zero⟩] (by decide)
  exact ⟨hs, rfl, Sink.neverDies_handOn, rfl, hfaults, hrest.mpr hlt, herrors, hagain.1⟩

end Scheduler

end Chip8
