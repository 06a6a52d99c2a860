/-
  File:      Chip8/Proofs/Scheduler/Load.lean
  Subject:   a program given to a scheduler: all of it or nothing

  * `ofParts`: the scheduler of a machine behind its lock, controls and a `Cpu`; every scheduler in
    order whose thread is not dead is one (`eq_ofParts`);
  * `built`: a new scheduler whose host has set the controls. It has the same parts, with an empty
    divider and a lock nobody has died over (`InOrder.built_eq`);
  * `load_of_halt`: what a load makes of a scheduler, told by what halting it makes;
  * `load_all_or_nothing`: a program that does not fit changes nothing, and one that fits leaves
    what nobody can tell from a new scheduler over the loaded machine.
-/
import Chip8.Proofs.Machine.Load
import Chip8.Proofs.Scheduler.Alike

namespace Chip8

theorem clampClock_eq {hz : UInt32} (hge : 1 ≤ hz) (hle : hz ≤ maxClock) : clampClock hz = hz := by
  have hzero : hz ≠ 0 := by
    rintro rfl
    exact absurd hge (by decide)
  rw [clampClock, if_neg hzero, if_neg (UInt32.not_lt.mpr hle)]

namespace Scheduler

variable {s : Scheduler}

/-! ## 1. The parts of a scheduler -/

/-- The `Cpu` of a scheduler: with its living thread, or handed back. -/
def cpu? (s : Scheduler) : Option Cpu :=
  match s.worker with
  | some (.alive cpu) => some cpu
  | some .dead => none
  | none => s.parked

/-- **The scheduler of these parts**: the thread has the `Cpu` if it runs, and has handed it back
    if not. -/
def ofParts (shared : Shared Machine) (c : Controls) (cpu : Cpu) : Scheduler where
  shared := shared
  controls := c
  worker := if c.running then some (.alive cpu) else none
  parked := if c.running then none else some cpu

theorem isRunning_ofParts (shared : Shared Machine) (c : Controls) (cpu : Cpu) :
    (ofParts shared c cpu).isRunning = c.running := by
  unfold isRunning ofParts
  cases c.running with
  | false => rfl
  | true => rfl

theorem cpu?_ofParts (shared : Shared Machine) (c : Controls) (cpu : Cpu) :
    (ofParts shared c cpu).cpu? = some cpu := by
  unfold cpu? ofParts
  cases c.running with
  | false => rfl
  | true => rfl

theorem worker_of_cpu {cpu : Cpu} (hcpu : s.cpu? = some cpu) (hrunning : s.isRunning = true) :
    s.worker = some (.alive cpu) := by
  unfold cpu? at hcpu
  unfold isRunning at hrunning
  cases hworker : s.worker with
  | none =>
    rw [hworker] at hrunning
    cases hrunning
  | some worker =>
    rw [hworker] at hcpu
    cases worker with
    | dead => cases hcpu
    | alive own =>
      cases hcpu
      rfl

/-- A scheduler in order whose thread is not dead has a `Cpu`. -/
theorem InOrder.exists_cpu (hs : s.InOrder) (halive : s.worker ≠ some .dead) :
    ∃ cpu, s.cpu? = some cpu := by
  rcases hs.started_or_halted with ⟨worker, hworker, -, -⟩ | ⟨cpu, hworker, hparked, -⟩
  · cases worker with
    | alive cpu => exact ⟨cpu, by rw [cpu?, hworker]⟩
    | dead => exact absurd hworker halive
  · exact ⟨cpu, by rw [cpu?, hworker, ← hparked]⟩

/-- **A scheduler in order is the scheduler of its parts.** -/
theorem eq_ofParts (hs : s.InOrder) {cpu : Cpu} (hcpu : s.cpu? = some cpu) :
    s = ofParts s.shared s.controls cpu := by
  unfold cpu? at hcpu
  rcases hs.started_or_halted with ⟨worker, hworker, hparked, hrunning⟩ |
    ⟨own, hworker, hparked, hrunning⟩
  · rw [hworker] at hcpu
    cases worker with
    | dead => cases hcpu
    | alive own =>
      cases hcpu
      unfold ofParts
      rw [hrunning, if_pos rfl, if_pos rfl, ← hworker, ← hparked]
  · rw [hworker] at hcpu
    have hown : s.parked = some cpu := hcpu
    unfold ofParts
    rw [hrunning, if_neg Bool.false_ne_true, if_neg Bool.false_ne_true, ← hworker, ← hown]

theorem start_ofParts (shared : Shared Machine) (c : Controls) (cpu : Cpu) :
    (ofParts shared c cpu).start = ofParts shared { c with running := true } cpu := by
  obtain ⟨running, paused, stepRequested, clock⟩ := c
  cases running with
  | false => rfl
  | true => rfl

theorem halt_ofParts (shared : Shared Machine) (c : Controls) (cpu : Cpu) :
    (ofParts shared c cpu).halt = (ofParts shared { c with running := false } cpu, []) := by
  obtain ⟨running, paused, stepRequested, clock⟩ := c
  cases running with
  | false => rfl
  | true => rfl

theorem halt_of_cpu (hs : s.InOrder) {cpu : Cpu} (hcpu : s.cpu? = some cpu) :
    s.halt = (ofParts s.shared { s.controls with running := false } cpu, []) := by
  rw [← halt_ofParts, ← eq_ofParts hs hcpu]

/-- **A dead thread is halted as a mute one would be**, and found dead. -/
theorem halt_of_dead (hdead : s.worker = some .dead) :
    s.halt = (ofParts s.shared { s.controls with running := false } (.ofSink .mute),
      [.host Worker.deadRecord]) := by
  rw [halt, hdead]
  rfl

/-- Every scheduler in order has parts once it is halted. -/
theorem InOrder.halt_eq (hs : s.InOrder) :
    ∃ cpu signals, s.halt = (ofParts s.shared { s.controls with running := false } cpu,
      signals) := by
  by_cases hdead : s.worker = some .dead
  · exact ⟨_, _, halt_of_dead hdead⟩
  · obtain ⟨cpu, hcpu⟩ := hs.exists_cpu hdead
    exact ⟨_, _, halt_of_cpu hs hcpu⟩

/-! ## 2. New schedulers -/

/-- What a host does to give a new scheduler these controls. -/
def setUp (c : Controls) : List Operation :=
  (if c.paused then [.pause] else []) ++ (if c.stepRequested then [.requestStep] else []) ++
    if c.running then [.start] else []

/-- **A new scheduler** over a machine, at the clock of some controls and given the rest of them. -/
def built (machine : Machine) (c : Controls) (sink : Sink) : Scheduler :=
  (setUp c).foldl afterOperation (ofMachine machine c.clock sink)

/-- **A new scheduler has the controls it was given**, if they are in order. -/
theorem InOrder.built_eq (hs : s.InOrder) (machine : Machine) (sink : Sink) :
    built machine s.controls sink = ofParts (.ofValue machine) s.controls (.ofSink sink) := by
  have hrequest := hs.request
  have hclock := clampClock_eq hs.clock_ge hs.clock_le
  generalize s.controls = c at hrequest hclock ⊢
  obtain ⟨running, paused, stepRequested, clock⟩ := c
  dsimp only at hrequest hclock
  have hnew : ofMachine machine clock sink =
      ⟨.ofValue machine, ⟨false, false, false, clock⟩, none, some (.ofSink sink)⟩ := by
    rw [ofMachine, Controls.initial, hclock]
  rw [built, hnew]
  cases paused with
  | true => cases stepRequested <;> cases running <;> rfl
  | false =>
    cases stepRequested with
    | true => exact absurd (hrequest rfl) Bool.false_ne_true
    | false => cases running <;> rfl

/-! ## 3. Loads -/

/-- **A load is a halt, then the program, then a start if the thread ran.** -/
theorem load_of_halt {c : Controls} {cpu : Cpu} {signals : List Signal} (program : Program)
    (hhalt : s.halt = (ofParts s.shared { c with running := false } cpu, signals))
    (hrunning : s.isRunning = c.running) :
    (3584 < program.size →
      s.load program = (ofParts s.shared c cpu, some (.programTooLarge program.size 3584),
        signals)) ∧
    (program.size ≤ 3584 →
      s.load program =
        (ofParts ⟨Machine.loadedWith s.machine.generator.rekeyed program, s.shared.poisoned⟩ c
          { cpu with divider := .fresh },
        none, signals ++ [.host (Machine.loadRecord program)])) := by
  obtain ⟨running, paused, stepRequested, clock⟩ := c
  have hmachine : s.halt.1.machine = s.machine := by rw [hhalt]; rfl
  refine ⟨fun hlarge => ?_, fun hfits => ?_⟩
  · simp only [load, lock_eq_machine, hmachine, s.machine.load_of_too_large hlarge]
    rw [hhalt, hrunning]
    cases running with
    | false => rfl
    | true => rfl
  · simp only [load, lock_eq_machine, hmachine, s.machine.load_of_fits hfits]
    rw [hhalt, hrunning]
    cases running with
    | false => rfl
    | true => rfl

/-- **A scheduler of the same parts as a new one, but for the poison of its lock**, is like it. -/
theorem InOrder.alike_built (hs : s.InOrder) (shared : Shared Machine) (sink : Sink) :
    (ofParts shared s.controls (.ofSink sink)).Alike (built shared.value s.controls sink) := by
  apply alike_of_healed
  rw [hs.built_eq]
  rfl

/-- **A load is all or nothing.** Take a scheduler in order whose thread is not dead. A program
    that does not fit is refused with its size and the size that would, and nothing changes. One
    that fits leaves the loaded machine, an empty divider and everything else as it was: what a new
    scheduler would be over the loaded machine, with the same sink and the same controls, but for
    the poison that an earlier thread may have left on the lock. So nobody can tell the two apart,
    whatever happens to them. -/
theorem load_all_or_nothing (hs : s.InOrder) (halive : s.worker ≠ some .dead)
    (program : Program) :
    ∃ cpu, s.cpu? = some cpu ∧
      (3584 < program.size →
        s.load program = (s, some (.programTooLarge program.size 3584), [])) ∧
      (program.size ≤ 3584 → ∃ loaded after,
        s.machine.load program = .ok loaded ∧ loaded.Fresh program ∧
        s.load program = (after, none, [.host (Machine.loadRecord program)]) ∧
        after.machine = loaded ∧ after.controls = s.controls ∧ after.isRunning = s.isRunning ∧
        after.cpu? = some ⟨cpu.sink, .fresh⟩ ∧
        after = { built loaded s.controls cpu.sink with shared := ⟨loaded, s.shared.poisoned⟩ } ∧
        after.Alike (built loaded s.controls cpu.sink)) := by
  obtain ⟨cpu, hcpu⟩ := hs.exists_cpu halive
  have hparts := eq_ofParts hs hcpu
  obtain ⟨hlarge, hfits⟩ := load_of_halt program (halt_of_cpu hs hcpu) hs.running.symm
  refine ⟨cpu, hcpu, fun hsize => ?_, fun hsize => ?_⟩
  · rw [hlarge hsize, ← hparts]
  · refine ⟨Machine.loadedWith s.machine.generator.rekeyed program, _, s.machine.load_of_fits hsize,
      Machine.fresh_loadedWith _ hsize, hfits hsize, rfl, rfl, ?_, cpu?_ofParts _ _ _, ?_,
      hs.alike_built _ cpu.sink⟩
    · rw [isRunning_ofParts, hs.running]
    · rw [hs.built_eq]
      rfl

/-- A paused scheduler whose thread runs and has yet to serve a step, with seven cycles carried and
    a lock that an earlier thread has died over. -/
def halfway : Scheduler :=
  ofParts ⟨.withBytes [(0x200, 0x60), (0x201, 0x02)], true⟩ ⟨true, true, true, 700⟩
    ⟨.handOn, ⟨Numeric.Binary.ofNat 7⟩⟩

/-- It refuses a program of one byte too many and is then what it was; a program of two bytes leaves
    what nobody can tell from a new scheduler, paused and running and with a step to serve. -/
theorem load_halfway :
    halfway.InOrder ∧ halfway.worker ≠ some .dead ∧
    halfway.load (Array.replicate 3585 0) = (halfway, some (.programTooLarge 3585 3584), []) ∧
    ∃ loaded, halfway.machine.load #[0x12, 0x00] = .ok loaded ∧
      (halfway.load #[0x12, 0x00]).1.Alike (built loaded ⟨true, true, true, 700⟩ .handOn) := by
  have hs : halfway.InOrder := ⟨fun _ => rfl, rfl, rfl, by decide, by decide⟩
  have halive : halfway.worker ≠ some .dead := fun h => nomatch h
  obtain ⟨_, -, hlarge, -⟩ := load_all_or_nothing hs halive (Array.replicate 3585 0)
  obtain ⟨cpu, hcpu, -, hfits⟩ := load_all_or_nothing hs halive #[0x12, 0x00]
  rw [Array.size_replicate] at hlarge
  obtain ⟨loaded, after, hloaded, -, hload, -, -, -, -, -, halike⟩ := hfits (by decide)
  cases hcpu
  refine ⟨hs, halive, hlarge (by decide), loaded, hloaded, ?_⟩
  rw [hload]
  exact halike

end Scheduler

end Chip8
