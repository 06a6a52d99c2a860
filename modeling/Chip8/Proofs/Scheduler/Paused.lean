/-
  File:      Chip8/Proofs/Scheduler/Paused.lean
  Subject:   a paused scheduler is a bare machine that is stepped by hand

  * `Handle`: what a host does with a scheduler that it keeps paused, and `Scheduler.handle`, after
    which the thread has come to rest;
  * `Bench`: a bare machine with a divider beside it. `Bench.moves` are the moves a handle makes it
    do: a touch for a key, a picture or a look, and for a request that is served one step and the
    ticks the divider gives for one cycle;
  * `does_handle`: the scheduler over a bench does what the bench does, and its sink gets the tones
    that the moves of the bench call for;
  * `paused_refines_bench`: so it is with every paused scheduler, for any number of handles.
-/
import Chip8.Proofs.Scheduler.Load
import Chip8.Proofs.Scheduler.Ticks

namespace Chip8

open Numeric

/-! ## 1. Handles -/

/-- What a host does with a scheduler it keeps paused. -/
inductive Handle where
  | requestStep
  | pause
  | press (key : UInt8)
  | release (key : UInt8)
  | setClock (hz : UInt32)
  | doubleClock
  | halveClock
  | takeFrame (palette : Palette)
  | snapshot
  | dump
  | start
  | halt

def Handle.operation : Handle → Scheduler.Operation
  | .requestStep => .requestStep
  | .pause => .pause
  | .press key => .press key
  | .release key => .release key
  | .setClock hz => .setClock hz
  | .doubleClock => .doubleClock
  | .halveClock => .halveClock
  | .takeFrame palette => .takeFrame palette
  | .snapshot => .snapshot
  | .dump => .dump
  | .start => .start
  | .halt => .halt

/-- Whether a signal comes from the sink. -/
def Signal.isAudio : Signal → Bool
  | .audio _ => true
  | _ => false

namespace Scheduler

/-- **A handle**, and then the thread comes to rest. -/
def handle (s : Scheduler) (h : Handle) : Scheduler × List Signal :=
  let reply := s.perform h.operation
  let rested := reply.scheduler.settle
  (rested.1, reply.signals ++ rested.2)

/-- Handles one after the other, and what could be seen of them. -/
def handleAll (s : Scheduler) : List Handle → Scheduler × List Signal
  | [] => (s, [])
  | h :: rest =>
    let handled := s.handle h
    let last := handled.1.handleAll rest
    (last.1, handled.2 ++ last.2)

/-! ## 2. Coming to rest -/

theorem settleWithin_of_isAtRest {s : Scheduler} (h : s.isAtRest = true) (turns : Nat) :
    s.settleWithin turns = (s, []) := by
  cases turns with
  | zero => rfl
  | succ turns => rw [settleWithin, if_pos h]

/-- A thread that rests after one turn. -/
theorem settle_of_turn {s after : Scheduler} {signals : List Signal} (h : s.isAtRest = false)
    (hturn : s.turn burstLength Binary.zero = (after, signals)) (hrest : after.isAtRest = true) :
    s.settle = (after, signals) := by
  show s.settleWithin (499 + 1) = _
  rw [settleWithin, h, if_neg (by decide), hturn]
  dsimp only
  rw [settleWithin_of_isAtRest hrest, List.append_nil]

end Scheduler

/-! ## 3. The bench -/

/-- **A bare machine on the bench**, and what is beside it. -/
structure Bench where
  machine : Machine
  divider : Divider
  clock : UInt32
  /-- Whether a step that is asked for is served at once. -/
  running : Bool
  /-- Whether a step waits to be served. -/
  pending : Bool

namespace Bench

/-- The ticks behind the next step, and the divider then. A step that faults is no cycle. -/
def due (b : Bench) : Nat × Divider :=
  match b.machine.step.2 with
  | some _ => (0, b.divider)
  | none => b.divider.advance (Binary.ofNat 1) b.clock

/-- Whether a handle makes a step be served: one that is asked for while the bench runs, or one
    that waits when it starts. -/
def serves (b : Bench) : Handle → Bool
  | .requestStep => b.running
  | .start => b.pending
  | _ => false

/-- **The moves of the machine** at a handle. -/
def moves (b : Bench) (h : Handle) : List Move :=
  match h with
  | .press key => [.touch (.press key)]
  | .release key => [.touch (.release key)]
  | .takeFrame _ => [.touch .poll]
  | .snapshot => [.touch (.inspect b.clock)]
  | _ => if b.serves h then .step :: ticks b.due.1 else []

def clockAfter (b : Bench) : Handle → UInt32
  | .setClock hz => clampClock hz
  | .doubleClock => clampClock (Controls.twice b.clock)
  | .halveClock => clampClock (b.clock / 2)
  | _ => b.clock

def runningAfter (b : Bench) : Handle → Bool
  | .start => true
  | .halt => false
  | _ => b.running

/-- A step waits if it was asked for while the bench did not run, however often. -/
def pendingAfter (b : Bench) : Handle → Bool
  | .requestStep => !b.running
  | .start => false
  | _ => b.pending

def after (b : Bench) (h : Handle) : Bench where
  machine := b.machine.afterMoves (b.moves h)
  divider := if b.serves h then b.due.2 else b.divider
  clock := b.clockAfter h
  running := b.runningAfter h
  pending := b.pendingAfter h

def afterAll (b : Bench) (handles : List Handle) : Bench := handles.foldl after b

/-- All the moves of the machine, in their order. -/
def movesAll (b : Bench) : List Handle → List Move
  | [] => []
  | h :: rest => b.moves h ++ (b.after h).movesAll rest

/-- Nothing waits while the bench runs. -/
def Settled (b : Bench) : Prop := b.running = true → b.pending = false

theorem settled_after {b : Bench} (hb : b.Settled) (h : Handle) : (b.after h).Settled := by
  intro hrunning
  cases h with
  | requestStep =>
    have hrunning' : b.running = true := hrunning
    show (!b.running) = false
    rw [hrunning']
    rfl
  | start => rfl
  | halt => cases hrunning
  | _ => exact hb hrunning

theorem machine_afterAll (b : Bench) (handles : List Handle) :
    (b.afterAll handles).machine = b.machine.afterMoves (b.movesAll handles) := by
  induction handles generalizing b with
  | nil => rfl
  | cons h rest ih =>
    rw [movesAll, Machine.afterMoves_append]
    exact ih (b.after h)

/-! ## 4. The scheduler over a bench -/

/-- **The paused scheduler over a bench**, its thread at rest. -/
def scheduler (b : Bench) (poisoned : Bool) (sink : Sink) : Scheduler where
  shared := ⟨b.machine, poisoned⟩
  controls := ⟨b.running, true, b.pending, b.clock⟩
  worker := if b.running then some (.alive ⟨sink, b.divider⟩) else none
  parked := if b.running then none else some ⟨sink, b.divider⟩

section Scheduler

variable {b : Bench} {poisoned : Bool} {sink : Sink} {h : Handle}

theorem scheduler_eq_ofParts (b : Bench) (poisoned : Bool) (sink : Sink) :
    b.scheduler poisoned sink = Scheduler.ofParts ⟨b.machine, poisoned⟩
      ⟨b.running, true, b.pending, b.clock⟩ ⟨sink, b.divider⟩ := rfl

theorem machine_scheduler (b : Bench) (poisoned : Bool) (sink : Sink) :
    (b.scheduler poisoned sink).machine = b.machine := rfl

theorem lock_scheduler (b : Bench) (poisoned : Bool) (sink : Sink) :
    (b.scheduler poisoned sink).lock = b.machine :=
  Scheduler.lock_eq_machine _

theorem worker_scheduler (hrunning : b.running = true) (poisoned : Bool) (sink : Sink) :
    (b.scheduler poisoned sink).worker = some (.alive ⟨sink, b.divider⟩) :=
  if_pos hrunning

theorem isAtRest_scheduler (hb : b.Settled) (poisoned : Bool) (sink : Sink) :
    (b.scheduler poisoned sink).isAtRest = true := by
  cases hrunning : b.running with
  | false => simp [Scheduler.isAtRest, scheduler, hrunning]
  | true => simp [Scheduler.isAtRest, scheduler, hrunning, hb hrunning]

/-- No record of a step comes from the sink. -/
theorem audio_stepSignals (m : Machine) : (Cpu.stepSignals m).filter Signal.isAudio = [] := by
  refine List.filter_eq_nil_iff.mpr fun signal hsignal => ?_
  obtain ⟨record, -, rfl⟩ := List.mem_map.mp hsignal
  exact Bool.false_ne_true

theorem audio_map (shown : List Audio) :
    (shown.map Signal.audio).filter Signal.isAudio = shown.map .audio := by
  refine List.filter_eq_self.mpr fun signal hsignal => ?_
  obtain ⟨audio, -, rfl⟩ := List.mem_map.mp hsignal
  rfl

/-- **A single step of the thread** is a step of the machine and the ticks that are due then. -/
theorem single_eq (b : Bench) (hsink : sink.NeverDies) :
    let work := Cpu.single ⟨sink, b.divider⟩ b.machine b.clock
    let tones := b.machine.tones (.step :: ticks b.due.1)
    work.machine = b.machine.afterMoves (.step :: ticks b.due.1) ∧
      work.cpu = ⟨sink.given tones, b.due.2⟩ ∧ work.died = false ∧
      work.signals.filter Signal.isAudio = (sink.shown tones).map .audio := by
  intro work tones
  have hwork : work = Cpu.single ⟨sink, b.divider⟩ b.machine b.clock := rfl
  have htones : tones = b.machine.step.1.tones (ticks b.due.1) := b.machine.tones_step _
  show _ = b.machine.step.1.afterMoves (ticks b.due.1) ∧ _
  rcases hstep : b.machine.step with ⟨after, fault?⟩
  rw [hstep] at htones
  cases fault? with
  | some fault =>
    have hdue : b.due = (0, b.divider) := by rw [due, hstep]
    have hnone : tones = [] := by rw [htones, hdue]; rfl
    rw [Cpu.single, hstep] at hwork
    rw [hwork, hdue, hnone, Sink.given_nil]
    refine ⟨rfl, rfl, rfl, ?_⟩
    dsimp only
    rw [List.filter_append, audio_stepSignals]
    rfl
  | none =>
    have hdue : b.due = b.divider.advance (Binary.ofNat 1) b.clock := by rw [due, hstep]
    rw [Cpu.single, hstep] at hwork
    dsimp only [Cpu.elapse] at hwork
    rw [tickMany_enough, tickMany_of_neverDies hsink, ← hdue, ← htones] at hwork
    rw [hwork]
    refine ⟨rfl, rfl, rfl, ?_⟩
    dsimp only
    rw [List.filter_append, audio_stepSignals, List.nil_append, audio_map]

/-- The bench behind the step that waits on it. -/
def served (b : Bench) : Bench :=
  { b with
    machine := b.machine.afterMoves (.step :: ticks b.due.1)
    divider := b.due.2
    pending := false }

/-- **A step that waits while the thread runs is served in one turn**, and then the thread rests. -/
theorem settle_scheduler (b : Bench) (hsink : sink.NeverDies) (hrunning : b.running = true)
    (hpending : b.pending = true) (poisoned : Bool) :
    let tones := b.machine.tones (.step :: ticks b.due.1)
    (b.scheduler poisoned sink).settle.1 = b.served.scheduler poisoned (sink.given tones) ∧
      (b.scheduler poisoned sink).settle.2.filter Signal.isAudio =
        (sink.shown tones).map .audio := by
  intro tones
  obtain ⟨hmachine, hcpu, hdied, hsignals⟩ := b.single_eq hsink
  have hturn : (b.scheduler poisoned sink).turn Scheduler.burstLength Binary.zero =
      (b.served.scheduler poisoned (sink.given tones),
        (Cpu.single ⟨sink, b.divider⟩ b.machine b.clock).signals) := by
    have hpaused : (b.scheduler poisoned sink).controls.paused = true := rfl
    have hasked : (b.scheduler poisoned sink).controls.stepRequested = true := hpending
    rw [Scheduler.turn, worker_scheduler hrunning]
    dsimp only
    rw [if_pos hpaused, Scheduler.pausedTurn, if_pos hasked, lock_scheduler]
    dsimp only [scheduler]
    simp only [Scheduler.afterWork, Scheduler.withControls, Shared.giveBack, Controls.takeStep,
      hmachine, hcpu, hdied, served, hrunning, Bool.false_or, Bool.false_eq_true, if_false, if_true,
      tones]
  have hbusy : (b.scheduler poisoned sink).isAtRest = false := by
    simp [Scheduler.isAtRest, scheduler, hrunning, hpending]
  have hsettle : (b.scheduler poisoned sink).settle = _ :=
    Scheduler.settle_of_turn hbusy hturn (isAtRest_scheduler (fun _ => rfl) poisoned _)
  rw [hsettle]
  exact ⟨rfl, hsignals⟩

/-- **The scheduler over a bench does what the bench does** at a handle, and its sink gets the tones
    that the moves of the bench call for. -/
def Does (b : Bench) (poisoned : Bool) (sink : Sink) (h : Handle) : Prop :=
  let tones := b.machine.tones (b.moves h)
  ((b.scheduler poisoned sink).handle h).1 = (b.after h).scheduler poisoned (sink.given tones) ∧
    ((b.scheduler poisoned sink).handle h).2.filter Signal.isAudio = (sink.shown tones).map .audio

/-- No operation of the host comes from the sink. -/
theorem audio_perform (s : Scheduler) (h : Handle) :
    (s.perform h.operation).signals.filter Signal.isAudio = [] := by
  cases h with
  | halt =>
    show s.halt.2.filter Signal.isAudio = []
    unfold Scheduler.halt
    split
    · rfl
    · rename_i worker hworker
      cases worker with
      | alive cpu => rfl
      | dead => rfl
  | _ => rfl

/-- A handle that leaves nothing to serve. -/
theorem does_of_settled
    (hacted : ((b.scheduler poisoned sink).perform h.operation).scheduler =
      (b.after h).scheduler poisoned sink)
    (hafter : (b.after h).Settled) (hquiet : b.machine.tones (b.moves h) = []) :
    b.Does poisoned sink h := by
  have hrest : ((b.after h).scheduler poisoned sink).settle =
      ((b.after h).scheduler poisoned sink, []) :=
    Scheduler.settleWithin_of_isAtRest (isAtRest_scheduler hafter poisoned sink) _
  unfold Does
  rw [Scheduler.handle, hquiet]
  dsimp only
  rw [hacted, hrest, List.append_nil, audio_perform, Sink.given_nil]
  exact ⟨rfl, rfl⟩

/-- A handle that leaves a step to serve, and a thread that runs. -/
theorem does_of_waiting (acted : Bench) (hsink : sink.NeverDies)
    (hacted : ((b.scheduler poisoned sink).perform h.operation).scheduler =
      acted.scheduler poisoned sink)
    (hmachine : acted.machine = b.machine) (hmoves : b.moves h = .step :: ticks acted.due.1)
    (hserved : b.after h = acted.served) (hrunning : acted.running = true)
    (hpending : acted.pending = true) : b.Does poisoned sink h := by
  obtain ⟨hscheduler, haudio⟩ := acted.settle_scheduler hsink hrunning hpending poisoned
  unfold Does
  simp only [Scheduler.handle, hacted, List.filter_append, audio_perform, List.nil_append, hmoves,
    hserved, ← hmachine]
  exact ⟨hscheduler, haudio⟩

theorem perform_start (b : Bench) (poisoned : Bool) (sink : Sink) :
    ((b.scheduler poisoned sink).perform .start).scheduler =
      ({ b with running := true } : Bench).scheduler poisoned sink := by
  show (b.scheduler poisoned sink).start = _
  rw [scheduler_eq_ofParts, Scheduler.start_ofParts]
  rfl

theorem perform_halt (b : Bench) (poisoned : Bool) (sink : Sink) :
    ((b.scheduler poisoned sink).perform .halt).scheduler =
      (b.after .halt).scheduler poisoned sink := by
  show (b.scheduler poisoned sink).halt.1 = _
  rw [scheduler_eq_ofParts, Scheduler.halt_ofParts]
  rfl

/-- **Every handle does what it does on the bench.** -/
theorem does_handle (hb : b.Settled) (hsink : sink.NeverDies) (poisoned : Bool) (h : Handle) :
    b.Does poisoned sink h := by
  have hafter := settled_after hb h
  cases h with
  | requestStep =>
    cases hrunning : b.running with
    | true =>
      have hmoves : b.moves .requestStep = .step :: ticks b.due.1 := by
        simp only [moves, serves, hrunning, if_true]
      refine does_of_waiting { b with pending := true } hsink rfl rfl hmoves ?_ hrunning rfl
      simp only [after, hmoves, serves, hrunning, if_true, clockAfter, runningAfter, pendingAfter,
        Bool.not_true, served]
      rfl
    | false =>
      have hmoves : b.moves .requestStep = [] := by
        simp only [moves, serves, hrunning, Bool.false_eq_true, if_false]
      have hidle : b.after .requestStep = { b with pending := true } := by
        simp only [after, moves, serves, hrunning, Bool.false_eq_true, if_false, clockAfter,
          runningAfter, pendingAfter, Bool.not_false]
        rfl
      refine does_of_settled ?_ hafter (by rw [hmoves]; rfl)
      rw [hidle]
      rfl
  | start =>
    cases hpending : b.pending with
    | true =>
      have hmoves : b.moves .start = .step :: ticks b.due.1 := by
        simp only [moves, serves, hpending, if_true]
      refine does_of_waiting { b with running := true } hsink (perform_start b _ _) rfl hmoves
        ?_ rfl hpending
      simp only [after, hmoves, serves, hpending, if_true, clockAfter, runningAfter, pendingAfter,
        served]
      rfl
    | false =>
      have hmoves : b.moves .start = [] := by
        simp only [moves, serves, hpending, Bool.false_eq_true, if_false]
      have hidle : b.after .start = { b with running := true } := by
        simp only [after, moves, serves, hpending, Bool.false_eq_true, if_false, clockAfter,
          runningAfter, pendingAfter]
        rfl
      refine does_of_settled ?_ hafter (by rw [hmoves]; rfl)
      rw [hidle]
      exact perform_start b _ _
  | halt => exact does_of_settled (perform_halt b _ _) hafter rfl
  | press | release | takeFrame =>
    refine does_of_settled ?_ hafter rfl
    rw [Handle.operation, Scheduler.perform, lock_scheduler]
    rfl
  | pause | setClock | doubleClock | halveClock | snapshot | dump =>
    exact does_of_settled rfl hafter rfl

/-- **Any number of handles.** -/
theorem handleAll_scheduler (hb : b.Settled) (hsink : sink.NeverDies) (poisoned : Bool)
    (handles : List Handle) :
    let tones := b.machine.tones (b.movesAll handles)
    ((b.scheduler poisoned sink).handleAll handles).1 =
        (b.afterAll handles).scheduler poisoned (sink.given tones) ∧
      ((b.scheduler poisoned sink).handleAll handles).2.filter Signal.isAudio =
        (sink.shown tones).map .audio := by
  induction handles generalizing b sink with
  | nil => exact ⟨congrArg (b.scheduler poisoned) sink.given_nil.symm, rfl⟩
  | cons h rest ih =>
    obtain ⟨hscheduler, haudio⟩ := does_handle hb hsink poisoned h
    obtain ⟨hlast, hmore⟩ := ih (settled_after hb h) (hsink.given (b.machine.tones (b.moves h)))
    intro tones
    have htones : tones = b.machine.tones (b.moves h) ++
        (b.after h).machine.tones ((b.after h).movesAll rest) := b.machine.tones_append _ _
    rw [Scheduler.handleAll, hscheduler, htones, Sink.given_append, hsink.shown_append]
    refine ⟨hlast, ?_⟩
    rw [List.filter_append, haudio, hmore, List.map_append]

end Scheduler

end Bench

/-! ## 5. Every paused scheduler -/

namespace Scheduler

/-- The bench of a scheduler whose thread has a certain divider. -/
def bench (s : Scheduler) (divider : Divider) : Bench where
  machine := s.machine
  divider := divider
  clock := s.controls.clock
  running := s.isRunning
  pending := s.controls.stepRequested

/-- A paused scheduler in order is the scheduler over its bench. -/
theorem eq_scheduler_bench {s : Scheduler} (hs : s.InOrder) (hpaused : s.controls.paused = true)
    {cpu : Cpu} (hcpu : s.cpu? = some cpu) :
    s = (s.bench cpu.divider).scheduler s.shared.poisoned cpu.sink := by
  have hcontrols : s.controls =
      ⟨s.isRunning, true, s.controls.stepRequested, s.controls.clock⟩ := by
    rw [← hs.running, ← hpaused]
  have hparts : s = ofParts s.shared s.controls cpu := eq_ofParts hs hcpu
  rw [hcontrols] at hparts
  exact hparts

/-- **A paused scheduler is a bare machine stepped by hand.** Take a scheduler in order that is
    paused, with no step asked for and a sink that does not die, and any handles, the thread coming
    to rest behind each. Its machine has made the moves of the bench and no others: those of the
    keys, the pictures and the looks in their order, and for each step that is served, at once while
    the thread runs and at the next start for those asked for while it was halted, one step with the
    ticks that one divider gives for a cycle at the clock of that moment. The thread's divider is
    that one, through halts and starts. And for each tick that ends the sound timer, and for nothing
    else, the sink has got a tone of 1000 Hz and 50 ms, and has shown what it shows of those. -/
theorem paused_refines_bench {s : Scheduler} (hs : s.InOrder)
    (hpaused : s.controls.paused = true) (hrequest : s.controls.stepRequested = false)
    {cpu : Cpu} (hcpu : s.cpu? = some cpu) (hsink : cpu.sink.NeverDies) (handles : List Handle) :
    let b := s.bench cpu.divider
    let out := s.handleAll handles
    let moves := b.movesAll handles
    let tones := List.replicate (s.machine.expiries moves) (⟨1000, 50⟩ : Tone)
    out.1.machine = s.machine.afterMoves moves ∧
    out.1 = (b.afterAll handles).scheduler s.shared.poisoned (cpu.sink.given tones) ∧
    out.1.cpu? = some ⟨cpu.sink.given tones, (b.afterAll handles).divider⟩ ∧
    out.2.filter Signal.isAudio = (cpu.sink.shown tones).map .audio := by
  intro b out moves tones
  have hout : out = (b.scheduler s.shared.poisoned cpu.sink).handleAll handles := by
    rw [← eq_scheduler_bench hs hpaused hcpu]
  have hb : b.Settled := fun _ => hrequest
  obtain ⟨hscheduler, haudio⟩ := Bench.handleAll_scheduler hb hsink s.shared.poisoned handles
  rw [← hout] at hscheduler haudio
  refine ⟨?_, hscheduler, ?_, haudio⟩
  · rw [hscheduler, Bench.machine_scheduler]
    exact b.machine_afterAll handles
  · rw [hscheduler, Bench.scheduler_eq_ofParts]
    exact cpu?_ofParts _ _ _

/-- A halted scheduler, paused, at a clock of one cycle a tick. Its program sets the sound timer to
    two and then goes round in a circle. -/
def humming : Scheduler :=
  { ofMachine
      (.withBytes [(0x200, 0x60), (0x201, 0x02), (0x202, 0xF0), (0x203, 0x18), (0x204, 0x12),
        (0x205, 0x04)]) 60 .handOn with
    controls := ⟨false, true, false, 60⟩ }

/-- Two steps while the thread runs; of the two that are asked for while it is halted the next start
    serves one. That makes three steps with a tick each, and at the last of them the sink gets its
    tone. -/
theorem humming_refines_bench :
    let handles := [Handle.start, .requestStep, .requestStep, .halt, .requestStep, .requestStep,
      .start]
    humming.InOrder ∧ humming.controls.paused = true ∧
    humming.controls.stepRequested = false ∧ humming.cpu? = some ⟨.handOn, .fresh⟩ ∧
    Sink.handOn.NeverDies ∧
    (humming.handleAll handles).1.machine = humming.machine.afterMoves
      [.step, .touch .tick, .step, .touch .tick, .step, .touch .tick] ∧
    (humming.handleAll handles).1.cpu?.map (·.sink.heard) = some [⟨1000, 50⟩] ∧
    (humming.handleAll handles).2.filter Signal.isAudio = [.audio (.tone ⟨1000, 50⟩)] := by
  intro handles
  have hs : humming.InOrder := ⟨by decide, rfl, rfl, by decide, by decide⟩
  have hmoves : (humming.bench .fresh).movesAll handles =
      [.step, .touch .tick, .step, .touch .tick, .step, .touch .tick] := by decide +kernel
  have hends : humming.machine.expiries
      [.step, .touch .tick, .step, .touch .tick, .step, .touch .tick] = 1 := by
    decide +kernel
  obtain ⟨hmachine, -, hcpu, hsignals⟩ :=
    @paused_refines_bench humming hs rfl rfl ⟨.handOn, .fresh⟩ rfl Sink.neverDies_handOn handles
  dsimp only at hcpu hsignals
  rw [hmoves] at hmachine
  rw [hmoves, hends] at hcpu hsignals
  refine ⟨hs, rfl, rfl, rfl, Sink.neverDies_handOn, hmachine, ?_, hsignals⟩
  rw [hcpu]
  rfl

end Scheduler

end Chip8
