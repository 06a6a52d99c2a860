/-
  File:      Chip8/Proofs/Scheduler/Pace.lean
  Subject:   the ticks of a paused scheduler keep pace with the time its steps take

  Time is counted in sixtieths of a second. The divider carries cycles over and not time, so that a
  change of the clock changes the time that is carried.

  * `Bench.elapsedAll`: the time the steps took, `Bench.gainedAll`: what the changes of the clock
    made of the time carried over;
  * `Bench.ticks_balance`: ticks and time carried are time elapsed and gained, but for the rounding;
  * `ticks_keep_pace`: so it is behind every load. At one clock the ticks stay within two of the
    time that went by; `not_always_in_pace` has changes of the clock that take them further.
-/
import Chip8.Proofs.Divider.Cycle
import Chip8.Proofs.Machine.Route
import Chip8.Proofs.Scheduler.Paused

namespace Chip8

open Numeric Numeric.Format Numeric.Binary

/-! ## 1. Time on the bench -/

/-- Whether a handle is for the clock. -/
def Handle.setsClock : Handle → Bool
  | .setClock _ => true
  | .doubleClock => true
  | .halveClock => true
  | _ => false

namespace Bench

/-- Whether a handle makes a cycle go by: a step is served then, and does not fault. -/
def Cycles (b : Bench) (h : Handle) : Prop := b.serves h = true ∧ b.machine.step.2 = none

instance (b : Bench) (h : Handle) : Decidable (b.Cycles h) :=
  inferInstanceAs (Decidable (_ ∧ _))

/-- The time carried over, in sixtieths of a second. -/
def carriedTime (b : Bench) : ℚ := b.divider.cycles * sixtieths b.clock

/-- The time that goes by at a handle, in sixtieths of a second. -/
def elapsed (b : Bench) (h : Handle) : ℚ := if b.Cycles h then sixtieths b.clock else 0

/-- What a handle makes of the time carried over: a change of the clock changes the length of the
    cycles. -/
def gained (b : Bench) (h : Handle) : ℚ :=
  b.divider.cycles * (sixtieths (b.clockAfter h) - sixtieths b.clock)

def elapsedAll (b : Bench) : List Handle → ℚ
  | [] => 0
  | h :: rest => b.elapsed h + (b.after h).elapsedAll rest

def gainedAll (b : Bench) : List Handle → ℚ
  | [] => 0
  | h :: rest => b.gained h + (b.after h).gainedAll rest

/-- The ticks among the moves of the machine. -/
def ticksAll (b : Bench) (handles : List Handle) : ℕ := (b.movesAll handles).count (.touch .tick)

/-- **A bench whose clock is inside its bounds**, and what it carries too. -/
structure Sound (b : Bench) : Prop where
  carries : ∃ count, b.divider.Carries count
  clock_ge : 1 ≤ b.clock
  clock_le : b.clock ≤ maxClock

variable {b : Bench}

theorem due_of_none (h : b.machine.step.2 = none) :
    b.due = b.divider.advance (ofNat 1) b.clock := by
  rw [due, h]

theorem due_of_ne_none (h : b.machine.step.2 ≠ none) : b.due = (0, b.divider) := by
  rw [due]
  split
  · rfl
  · rename_i hnone
    exact absurd hnone h

/-- The ticks of one handle are those that are due behind the step it makes be served. -/
theorem count_moves (b : Bench) (h : Handle) :
    (b.moves h).count (.touch .tick) = if b.serves h then b.due.1 else 0 := by
  cases h with
  | requestStep | start =>
    simp only [moves]
    split
    · rw [List.count_cons_of_ne (by decide), ticks, List.count_replicate_self]
    · rfl
  | _ => rfl

theorem ticksAll_nil (b : Bench) : b.ticksAll [] = 0 := rfl

theorem ticksAll_cons (b : Bench) (h : Handle) (rest : List Handle) :
    b.ticksAll (h :: rest) = (b.moves h).count (.touch .tick) + (b.after h).ticksAll rest :=
  List.count_append

/-- **A cycle advances the divider once**, at a clock that stays. -/
theorem after_of_cycles {h : Handle} (hc : b.Cycles h) :
    (b.moves h).count (.touch .tick) = (b.divider.advance (ofNat 1) b.clock).1 ∧
      (b.after h).divider = (b.divider.advance (ofNat 1) b.clock).2 ∧
      (b.after h).clock = b.clock := by
  obtain ⟨hserves, hstep⟩ := hc
  have hdue := due_of_none hstep
  refine ⟨?_, ?_, ?_⟩
  · rw [count_moves, if_pos hserves, hdue]
  · show (if b.serves h then b.due.2 else b.divider) = _
    rw [if_pos hserves, hdue]
  · cases h with
    | requestStep | start => rfl
    | _ => cases hserves

/-- **Without a cycle there is no tick**, and the divider stays. -/
theorem after_of_not_cycles {h : Handle} (hc : ¬ b.Cycles h) :
    (b.moves h).count (.touch .tick) = 0 ∧ (b.after h).divider = b.divider := by
  have hstill : b.serves h = true → b.due = (0, b.divider) := fun hserves =>
    due_of_ne_none fun hstep => hc ⟨hserves, hstep⟩
  rw [count_moves]
  show _ ∧ (if b.serves h then b.due.2 else b.divider) = b.divider
  by_cases hserves : b.serves h = true
  · rw [if_pos hserves, if_pos hserves, hstill hserves]
    exact ⟨rfl, rfl⟩
  · rw [if_neg hserves, if_neg hserves]
    exact ⟨rfl, rfl⟩

theorem clockAfter_ge (hb : 1 ≤ b.clock) (h : Handle) : 1 ≤ b.clockAfter h := by
  cases h with
  | setClock | doubleClock | halveClock => exact Scheduler.clampClock_ge _
  | _ => exact hb

theorem clockAfter_le (hb : b.clock ≤ maxClock) (h : Handle) : b.clockAfter h ≤ maxClock := by
  cases h with
  | setClock | doubleClock | halveClock => exact Scheduler.clampClock_le _
  | _ => exact hb

theorem sound_after (hb : b.Sound) (h : Handle) : (b.after h).Sound := by
  obtain ⟨⟨count, hcarries⟩, hge, hle⟩ := hb
  refine ⟨?_, clockAfter_ge hge h, clockAfter_le hle h⟩
  by_cases hc : b.Cycles h
  · rw [(after_of_cycles hc).2.1]
    exact (Divider.advance_one hcarries hge hle).1
  · rw [(after_of_not_cycles hc).2]
    exact ⟨count, hcarries⟩

/-! ## 2. The balance -/

/-- **One handle balances**: its ticks and the time carried after it are the time carried before it,
    the time that went by and what the clock made of it, but for the rounding. -/
theorem balance_after (hb : b.Sound) (h : Handle) :
    |((b.moves h).count (.touch .tick) + (b.after h).carriedTime) -
      (b.carriedTime + b.elapsed h + b.gained h)| ≤
        (((b.moves h).count (.touch .tick) : ℕ) + 1) / 2 ^ 49 := by
  obtain ⟨⟨count, hcarries⟩, hge, hle⟩ := hb
  by_cases hc : b.Cycles h
  · obtain ⟨hticks, hdivider, hclock⟩ := after_of_cycles hc
    obtain ⟨-, hbalance, -⟩ := Divider.advance_one hcarries hge hle
    have hgained : b.gained h = 0 := by
      have hsame : b.clockAfter h = b.clock := hclock
      rw [gained, hsame, sub_self, mul_zero]
    have helapsed : b.elapsed h = sixtieths b.clock := if_pos hc
    rw [hticks, hgained, helapsed, carriedTime, carriedTime, hdivider, hclock]
    refine le_trans (le_of_eq ?_) hbalance
    rw [← abs_neg]
    congr 1
    ring
  · obtain ⟨hticks, hdivider⟩ := after_of_not_cycles hc
    have helapsed : b.elapsed h = 0 := if_neg hc
    have hzero : ((0 : ℕ) + (b.after h).carriedTime) -
        (b.carriedTime + b.elapsed h + b.gained h) = 0 := by
      rw [helapsed, carriedTime, carriedTime, hdivider, gained]
      show _ + b.divider.cycles * sixtieths (b.clockAfter h) - _ = _
      push_cast
      ring
    rw [hticks, hzero, abs_zero]
    positivity

/-- **Any number of handles balance.** -/
theorem ticks_balance (hb : b.Sound) (handles : List Handle) :
    |(b.ticksAll handles + (b.afterAll handles).carriedTime) -
      (b.carriedTime + b.elapsedAll handles + b.gainedAll handles)| ≤
        (b.ticksAll handles + handles.length) / 2 ^ 49 := by
  induction handles generalizing b with
  | nil =>
    simp [ticksAll, movesAll, afterAll, elapsedAll, gainedAll]
  | cons h rest ih =>
    have hfirst := balance_after hb h
    have hrest := ih (sound_after hb h)
    have hlast : b.afterAll (h :: rest) = (b.after h).afterAll rest := rfl
    rw [ticksAll_cons, hlast, elapsedAll, gainedAll, List.length_cons]
    push_cast
    rw [abs_le] at hfirst hrest ⊢
    constructor <;> linarith

/-- **While the clock stays nothing is gained**, and no more than a tick is carried over. -/
theorem steady_after (hb : b.Sound) (hc : |b.carriedTime| ≤ 9 / 8) {h : Handle}
    (hsteady : h.setsClock = false) :
    |(b.after h).carriedTime| ≤ 9 / 8 ∧ b.gained h = 0 := by
  have hclock : b.clockAfter h = b.clock := by
    cases h with
    | setClock | doubleClock | halveClock => cases hsteady
    | _ => rfl
  have hclock' : (b.after h).clock = b.clock := hclock
  refine ⟨?_, by rw [gained, hclock, sub_self, mul_zero]⟩
  rw [carriedTime, hclock']
  obtain ⟨⟨count, hcarries⟩, hge, hle⟩ := hb
  by_cases hcycles : b.Cycles h
  · rw [(after_of_cycles hcycles).2.1]
    exact (Divider.advance_one hcarries hge hle).2.2
  · rw [(after_of_not_cycles hcycles).2]
    exact hc

theorem steady_afterAll (hb : b.Sound) (hc : |b.carriedTime| ≤ 9 / 8) {handles : List Handle}
    (hsteady : ∀ h ∈ handles, h.setsClock = false) :
    |(b.afterAll handles).carriedTime| ≤ 9 / 8 ∧ b.gainedAll handles = 0 := by
  induction handles generalizing b with
  | nil => exact ⟨hc, rfl⟩
  | cons h rest ih =>
    obtain ⟨hnext, hgained⟩ := steady_after hb hc (hsteady h List.mem_cons_self)
    obtain ⟨hlast, hmore⟩ :=
      ih (sound_after hb h) hnext fun h' hh' => hsteady h' (List.mem_cons_of_mem _ hh')
    refine ⟨hlast, ?_⟩
    rw [gainedAll, hgained, hmore, add_zero]

end Bench

/-! ## 3. Behind a load -/

namespace Scheduler

variable {s : Scheduler}

/-- **A load that is accepted empties the divider.** -/
theorem divider_of_load (hs : s.InOrder) {program : Program}
    (haccepted : (s.load program).2.1 = none) {cpu : Cpu}
    (hcpu : (s.load program).1.cpu? = some cpu) : cpu.divider = .fresh := by
  obtain ⟨own, signals, hhalt⟩ := hs.halt_eq
  obtain ⟨hlarge, hfits⟩ := load_of_halt program hhalt hs.running.symm
  by_cases hsize : program.size ≤ 3584
  · rw [hfits hsize, cpu?_ofParts] at hcpu
    cases hcpu
    rfl
  · rw [hlarge (Nat.lt_of_not_le hsize)] at haccepted
    cases haccepted

/-- **The ticks keep pace with the steps.** Load a program into a paused scheduler in order, with no
    step asked for and a sink that does not die, and take any handles, the thread coming to rest
    behind each. The ticks of the timers and the time carried over are then the time the steps took,
    each at the clock of its moment, and what the changes of the clock made of the time carried
    over, within one sixtieth of a second. So while the clock stays, the ticks are within two of the
    time that went by. -/
theorem ticks_keep_pace (hs : s.InOrder) (hpaused : s.controls.paused = true)
    (hrequest : s.controls.stepRequested = false) {program : Program}
    (haccepted : (s.load program).2.1 = none) {cpu : Cpu}
    (hcpu : (s.load program).1.cpu? = some cpu) (hsink : cpu.sink.NeverDies)
    (handles : List Handle) :
    let loaded := (s.load program).1
    let b := loaded.bench cpu.divider
    (loaded.handleAll handles).1.machine = loaded.machine.afterMoves (b.movesAll handles) ∧
      (b.ticksAll handles + handles.length ≤ 2 ^ 48 →
        |(b.ticksAll handles + (b.afterAll handles).carriedTime) -
          (b.elapsedAll handles + b.gainedAll handles)| < 1 ∧
        ((∀ h ∈ handles, h.setsClock = false) →
          |b.ticksAll handles - b.elapsedAll handles| < 2)) := by
  intro loaded b
  have hloaded : loaded.InOrder := (hs.load program).1
  have hcontrols := s.controls_load program
  have hpaused' : loaded.controls.paused = true := by
    show (s.load program).1.controls.paused = true
    rw [hcontrols]
    exact hpaused
  have hrequest' : loaded.controls.stepRequested = false := by
    show (s.load program).1.controls.stepRequested = false
    rw [hcontrols]
    exact hrequest
  have hfresh : cpu.divider = .fresh := divider_of_load hs haccepted hcpu
  have hbench : loaded = b.scheduler loaded.shared.poisoned cpu.sink :=
    eq_scheduler_bench hloaded hpaused' hcpu
  have hsettled : b.Settled := fun _ => hrequest'
  have hsound : b.Sound := by
    refine ⟨⟨0, ?_⟩, hloaded.clock_ge, hloaded.clock_le⟩
    show cpu.divider.Carries 0
    rw [hfresh]
    exact Divider.carries_fresh
  have hempty : b.carriedTime = 0 := by
    show cpu.divider.cycles * _ = 0
    rw [hfresh, Divider.cycles, Divider.carries_fresh.counts.value_eq, Int.cast_zero, zero_div,
      zero_mul]
  refine ⟨?_, fun hfew => ?_⟩
  · have hall := (Bench.handleAll_scheduler hsettled hsink loaded.shared.poisoned handles).1
    rw [← hbench] at hall
    rw [hall, Bench.machine_scheduler]
    exact b.machine_afterAll handles
  · have hbalance := Bench.ticks_balance hsound handles
    rw [hempty, zero_add] at hbalance
    have hfew' : ((b.ticksAll handles : ℚ) + handles.length) ≤ 2 ^ 48 := by exact_mod_cast hfew
    have hsmall : ((b.ticksAll handles : ℚ) + handles.length) / 2 ^ 49 ≤ 1 / 2 := by
      rw [div_le_iff₀ (by norm_num)]
      linarith
    have hhalf := le_trans hbalance hsmall
    refine ⟨lt_of_le_of_lt hhalf (by norm_num), fun hsteady => ?_⟩
    obtain ⟨hcarried, hgained⟩ :=
      Bench.steady_afterAll hsound (by rw [hempty, abs_zero]; norm_num) hsteady
    rw [hgained, add_zero] at hhalf
    rw [abs_le] at hhalf hcarried
    rw [abs_lt]
    constructor <;> linarith

/-! ## 4. Out of pace -/

/-- A program of one instruction, to go to where it is. -/
def circle : Program := #[0x12, 0x00]

/-- **A machine that goes round in a circle.** -/
structure Circling (m : Machine) : Prop where
  pc : m.pc = Memory.programStart
  fetch : m.memory.fetch? Memory.programStart = some 0x1200

/-- No step of it faults. -/
theorem circling_step {m : Machine} (hm : Circling m) : m.step.2 = none ∧ Circling m.step.1 := by
  have hfetch : m.memory.fetch? m.pc = some 0x1200 := by rw [hm.pc, hm.fetch]
  have hstep : m.step = ({ m.noting 0x1200 with pc := Memory.programStart }, none) :=
    Machine.step_of_execute hfetch rfl
  rw [hstep]
  exact ⟨rfl, rfl, hm.fetch⟩

theorem circling_afterMoves {m : Machine} (hm : Circling m) (moves : List Move) :
    Circling (m.afterMoves moves) := by
  refine Machine.afterMoves_induction hm (fun n move hn => ?_) moves
  cases move with
  | step => exact (circling_step hn).2
  | touch t =>
    refine ⟨(Machine.afterTouch_pc n t).trans hn.pc, ?_⟩
    show (n.afterTouch t).memory.fetch? _ = _
    rw [Machine.afterTouch_memory, hn.fetch]

theorem circling_after {b : Bench} (hm : Circling b.machine) (h : Handle) :
    Circling (b.after h).machine :=
  circling_afterMoves hm (b.moves h)

/-- Every step that is asked for is a cycle then, while the bench runs. -/
theorem cycles_of_circling {b : Bench} (hm : Circling b.machine) (hrunning : b.running = true) :
    b.Cycles .requestStep :=
  ⟨hrunning, (circling_step hm).1⟩

/-- A paused scheduler whose thread runs, at the highest clock. -/
def rushed : Scheduler where
  shared := .ofValue (.ofSeed 7)
  controls := ⟨true, true, false, maxClock⟩
  worker := some (.alive ⟨.handOn, .fresh⟩)
  parked := none

/-- Two steps at the highest clock, and one at the lowest. -/
def slowedDown : List Handle := [.requestStep, .requestStep, .setClock 1, .requestStep]

/-- The bench behind the load. -/
def rushedBench : Bench where
  machine :=
    { rushed.machine.reset with memory := rushed.machine.reset.memory.withProgram circle }
  divider := .fresh
  clock := maxClock
  running := true
  pending := false

theorem load_rushed :
    rushed.load circle =
      (rushedBench.scheduler false .handOn, none, [.host (Machine.loadRecord circle)]) := by
  have hload : rushed.machine.load circle = .ok rushedBench.machine := by
    rw [Machine.load, if_neg (by decide)]
    rfl
  have hhalted : rushed.halt.1.machine = rushed.machine := rfl
  unfold load
  dsimp only
  rw [lock_eq_machine, hhalted, hload]
  rfl

theorem circling_rushedBench : Circling rushedBench.machine := by
  refine ⟨?_, ?_⟩
  · rfl
  · have hfetch := @Memory.fetch?_withProgram rushed.machine.reset.memory circle (by decide)
    refine hfetch.trans ?_
    decide

/-- The benches behind the first, the second and the third handle. -/
def steppedBench : Bench := rushedBench.after .requestStep

def twiceSteppedBench : Bench := steppedBench.after .requestStep

def slowBench : Bench := twiceSteppedBench.after (.setClock 1)

/-- Each of the three steps is a cycle. -/
theorem cycles_slowedDown :
    rushedBench.Cycles .requestStep ∧ steppedBench.Cycles .requestStep ∧
      slowBench.Cycles .requestStep := by
  have hrushed := circling_rushedBench
  have hstepped : Circling steppedBench.machine := circling_after hrushed _
  have htwice : Circling twiceSteppedBench.machine := circling_after hstepped _
  have hslow : Circling slowBench.machine := circling_after htwice _
  exact ⟨cycles_of_circling hrushed rfl, cycles_of_circling hstepped rfl,
    cycles_of_circling hslow rfl⟩

/-- Two cycles are carried over, and with the third one they are a hundred and eighty ticks of the
    slow clock. -/
theorem ticksAll_slowedDown : rushedBench.ticksAll slowedDown = 180 := by
  obtain ⟨h1, h2, h3⟩ := cycles_slowedDown
  obtain ⟨hticks1, hdivider1, hclock1⟩ := Bench.after_of_cycles h1
  obtain ⟨hticks2, hdivider2, -⟩ := Bench.after_of_cycles h2
  obtain ⟨hticks3, -, -⟩ := Bench.after_of_cycles h3
  have hdivider : steppedBench.divider = (Divider.fresh.advance (ofNat 1) maxClock).2 := hdivider1
  have hclock : steppedBench.clock = maxClock := hclock1
  have htwice : twiceSteppedBench.divider =
      (steppedBench.divider.advance (ofNat 1) maxClock).2 := by
    rw [← hclock]
    exact hdivider2
  have hslow : slowBench.divider = twiceSteppedBench.divider :=
    (@Bench.after_of_not_cycles twiceSteppedBench (.setClock 1) fun h => nomatch h.1).2
  have hone : slowBench.clock = 1 := rfl
  rw [hdivider, hclock] at hticks2
  rw [hslow, hone, htwice, hdivider] at hticks3
  have hset : (twiceSteppedBench.moves (.setClock 1)).count (.touch .tick) = 0 := rfl
  rw [slowedDown, Bench.ticksAll_cons, ← steppedBench, Bench.ticksAll_cons, ← twiceSteppedBench,
    Bench.ticksAll_cons, ← slowBench, Bench.ticksAll_cons, Bench.ticksAll_nil, hticks1, hticks2,
    hset, hticks3]
  decide +kernel

theorem elapsedAll_slowedDown : rushedBench.elapsedAll slowedDown = 60 + 120 / 10 ^ 9 := by
  have hfast : sixtieths maxClock = 60 / 10 ^ 9 := by
    show (60 : ℚ) / ((1000000000 : ℕ) : ℚ) = _
    norm_num
  have hslow : sixtieths 1 = 60 := by
    show (60 : ℚ) / ((1 : ℕ) : ℚ) = _
    norm_num
  obtain ⟨h1, h2, h3⟩ := cycles_slowedDown
  have hfirst : rushedBench.elapsed .requestStep = sixtieths maxClock := if_pos h1
  have hsecond : steppedBench.elapsed .requestStep = sixtieths maxClock := if_pos h2
  have hset : twiceSteppedBench.elapsed (.setClock 1) = 0 := if_neg fun h => nomatch h.1
  have hthird : slowBench.elapsed .requestStep = sixtieths 1 := if_pos h3
  show rushedBench.elapsed .requestStep + (steppedBench.elapsed .requestStep +
    (twiceSteppedBench.elapsed (.setClock 1) + (slowBench.elapsed .requestStep + 0))) = _
  rw [hfirst, hsecond, hset, hthird, hfast, hslow]
  norm_num

theorem bench_rushed :
    (rushed.load circle).1.bench (⟨.handOn, .fresh⟩ : Cpu).divider = rushedBench := by
  rw [load_rushed]
  rfl

/-- The rushed scheduler keeps its balance when it is slowed down. -/
theorem slowedDown_keeps_balance :
    rushed.InOrder ∧ rushed.controls.paused = true ∧ rushed.controls.stepRequested = false ∧
      (rushed.load circle).2.1 = none ∧
      (rushed.load circle).1.cpu? = some ⟨.handOn, .fresh⟩ ∧ Sink.handOn.NeverDies ∧
      |(180 + (rushedBench.afterAll slowedDown).carriedTime) -
        (60 + 120 / 10 ^ 9 + rushedBench.gainedAll slowedDown)| < 1 := by
  have hs : rushed.InOrder := ⟨by decide, rfl, rfl, by decide, by decide⟩
  have haccepted : (rushed.load circle).2.1 = none := by rw [load_rushed]
  have hcpu : (rushed.load circle).1.cpu? = some ⟨.handOn, .fresh⟩ := by
    rw [load_rushed]
    rfl
  have hpace := (ticks_keep_pace hs rfl rfl haccepted hcpu Sink.neverDies_handOn slowedDown).2
  rw [bench_rushed, ticksAll_slowedDown, elapsedAll_slowedDown] at hpace
  have hfew : 180 + slowedDown.length ≤ 2 ^ 48 := by norm_num [slowedDown]
  have hbalance := (hpace hfew).1
  rw [Nat.cast_ofNat] at hbalance
  exact ⟨hs, rfl, rfl, haccepted, hcpu, Sink.neverDies_handOn, hbalance⟩

/-- **Changes of the clock take the ticks out of pace**: three steps that succeed take little more
    than a second, and the timers tick a hundred and eighty times. -/
theorem not_always_in_pace :
    rushed.controls.paused = true ∧ (rushed.load circle).2.1 = none ∧
      (rushed.load circle).1.isRunning = true ∧
      ((rushed.load circle).1.handleAll slowedDown).1.machine =
        rushedBench.machine.afterMoves (rushedBench.movesAll slowedDown) ∧
      (rushed.load circle).1.bench (⟨.handOn, .fresh⟩ : Cpu).divider = rushedBench ∧
      rushedBench.Cycles .requestStep ∧ steppedBench.Cycles .requestStep ∧
      slowBench.Cycles .requestStep ∧ rushedBench.ticksAll slowedDown = 180 ∧
      rushedBench.elapsedAll slowedDown = 60 + 120 / 10 ^ 9 ∧
      2 ≤ |(rushedBench.ticksAll slowedDown : ℚ) - rushedBench.elapsedAll slowedDown| := by
  obtain ⟨h1, h2, h3⟩ := cycles_slowedDown
  have haccepted : (rushed.load circle).2.1 = none := by rw [load_rushed]
  have hrunning : (rushed.load circle).1.isRunning = true := by
    rw [load_rushed]
    rfl
  have hmachine : ((rushed.load circle).1.handleAll slowedDown).1.machine =
      rushedBench.machine.afterMoves (rushedBench.movesAll slowedDown) := by
    have hsettled : rushedBench.Settled := fun _ => rfl
    have hall := (Bench.handleAll_scheduler hsettled Sink.neverDies_handOn false slowedDown).1
    rw [load_rushed, hall, Bench.machine_scheduler, Bench.machine_afterAll]
  refine ⟨rfl, haccepted, hrunning, hmachine, bench_rushed, h1, h2, h3, ticksAll_slowedDown,
    elapsedAll_slowedDown, ?_⟩
  rw [ticksAll_slowedDown, elapsedAll_slowedDown]
  norm_num

end Scheduler

end Chip8
