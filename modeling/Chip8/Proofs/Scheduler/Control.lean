/-
  File:      Chip8/Proofs/Scheduler/Control.lean
  Subject:   the controls of a scheduler stay in order, whatever host and thread do

  * `InOrder`: a step is asked for only while paused; both ways to ask whether the thread runs
    agree; the thread's `Cpu` is with the thread or handed back, never both or neither; the clock
    is inside its bounds;
  * `inOrder_after`: every operation of the host and every move of the thread keeps that;
  * `asked_after_iff`, `running_after_iff`: which of them raise and lower the request for a step,
    and which start and stop the thread;
  * `asked_afterAll_iff`, `isRunning_afterAll_iff`: so a history tells whether a step is asked for
    and whether the thread runs; `not_asked_behind_withdrawal`: nothing is left of a request that
    has ended.
-/
import Chip8.Proofs.History
import Chip8.Proofs.Scheduler.Event

namespace Chip8.Scheduler

variable {s : Scheduler}

/-! ## 1. The invariant -/

/-- **A scheduler in order.** -/
structure InOrder (s : Scheduler) : Prop where
  request : s.controls.stepRequested = true → s.controls.paused = true
  running : s.controls.running = s.isRunning
  /-- Exactly one of the thread and its parked `Cpu` is there. -/
  handedBack : s.parked.isSome = !s.isRunning
  clock_ge : 1 ≤ s.controls.clock
  clock_le : s.controls.clock ≤ maxClock

theorem isRunning_of_worker {worker : Worker} (h : s.worker = some worker) :
    s.isRunning = true := by
  rw [isRunning, h]
  rfl

/-- A scheduler in order has started its thread or has its `Cpu` back. -/
theorem InOrder.started_or_halted (h : s.InOrder) :
    (∃ worker, s.worker = some worker ∧ s.parked = none ∧ s.controls.running = true) ∨
      ∃ cpu, s.worker = none ∧ s.parked = some cpu ∧ s.controls.running = false := by
  have hrunning := h.running
  have hparked := h.handedBack
  unfold isRunning at hrunning hparked
  cases hworker : s.worker with
  | some worker =>
    rw [hworker] at hrunning hparked
    exact .inl ⟨worker, rfl, by simpa using hparked, hrunning⟩
  | none =>
    rw [hworker] at hrunning hparked
    obtain ⟨cpu, hcpu⟩ := Option.isSome_iff_exists.mp hparked
    exact .inr ⟨cpu, rfl, hcpu, hrunning⟩

theorem toNat_clampClock (hz : UInt32) :
    (clampClock hz).toNat = min (max hz.toNat 1) 1000000000 := by
  have hmost : maxClock.toNat = 1000000000 := rfl
  unfold clampClock
  split
  · rename_i hzero
    subst hzero
    rfl
  · rename_i hzero
    have hpos : hz.toNat ≠ 0 := fun e => hzero (UInt32.toNat_inj.mp e)
    split
    · rename_i hfast
      have hfast' := UInt32.lt_iff_toNat_lt.mp hfast
      omega
    · rename_i hslow
      have hslow' := UInt32.le_iff_toNat_le.mp (UInt32.not_lt.mp hslow)
      omega

theorem clampClock_ge (hz : UInt32) : 1 ≤ clampClock hz := by
  rw [UInt32.le_iff_toNat_le, toNat_clampClock]
  show 1 ≤ _
  omega

theorem clampClock_le (hz : UInt32) : clampClock hz ≤ maxClock := by
  rw [UInt32.le_iff_toNat_le, toNat_clampClock]
  exact Nat.min_le_right _ _

theorem inOrder_ofMachine (machine : Machine) (clock : UInt32) (sink : Sink) :
    (ofMachine machine clock sink).InOrder where
  request h := by cases h
  running := rfl
  handedBack := rfl
  clock_ge := clampClock_ge clock
  clock_le := clampClock_le clock

/-! ## 2. Starting and halting -/

theorem start_of_parked {cpu : Cpu} (h : s.parked = some cpu) :
    s.start = { s with
      controls := { s.controls with running := true }
      worker := some (.alive cpu)
      parked := none } := by
  rw [start, h]

theorem start_of_not_parked (h : s.parked = none) : s.start = s := by
  rw [start, h]

theorem halt_of_started {worker : Worker} (h : s.worker = some worker) :
    s.halt.1 = { s with
      controls := { s.controls with running := false }
      worker := none
      parked := some worker.handBack.1 } := by
  rw [halt, h]

theorem halt_of_not_started (h : s.worker = none) : s.halt = (s, []) := by
  rw [halt, h]

theorem InOrder.start (h : s.InOrder) : s.start.InOrder ∧ s.start.isRunning = true := by
  rcases h.started_or_halted with ⟨worker, hworker, hparked, -⟩ | ⟨cpu, -, hparked, -⟩
  · rw [start_of_not_parked hparked]
    exact ⟨h, isRunning_of_worker hworker⟩
  · rw [start_of_parked hparked]
    exact ⟨⟨h.request, rfl, rfl, h.clock_ge, h.clock_le⟩, rfl⟩

theorem InOrder.halt (h : s.InOrder) : s.halt.1.InOrder ∧ s.halt.1.isRunning = false := by
  rcases h.started_or_halted with ⟨worker, hworker, -, -⟩ | ⟨cpu, hworker, -, -⟩
  · rw [halt_of_started hworker]
    exact ⟨⟨h.request, rfl, rfl, h.clock_ge, h.clock_le⟩, rfl⟩
  · rw [halt_of_not_started hworker]
    exact ⟨h, by rw [isRunning, hworker]; rfl⟩

theorem InOrder.of_eq {t : Scheduler} (h : s.InOrder) (hcontrols : t.controls = s.controls)
    (hworker : t.isRunning = s.isRunning) (hparked : t.parked.isSome = s.parked.isSome) :
    t.InOrder := by
  obtain ⟨hrequest, hrunning, hback, hge, hle⟩ := h
  rw [← hcontrols] at hrequest hrunning hge hle
  rw [← hworker] at hrunning hback
  rw [← hparked] at hback
  exact ⟨hrequest, hrunning, hback, hge, hle⟩

theorem InOrder.startIf (h : s.InOrder) (hhalted : s.isRunning = false) (wasRunning : Bool) :
    (s.startIf wasRunning).InOrder ∧ (s.startIf wasRunning).isRunning = wasRunning := by
  cases wasRunning with
  | false => exact ⟨h, hhalted⟩
  | true => exact h.start

/-- A load ends in a halted scheduler that is started again if it was. -/
theorem load_eq_startIf (program : Program) :
    ∃ t : Scheduler, t.controls = s.halt.1.controls ∧ t.isRunning = s.halt.1.isRunning ∧
      t.parked.isSome = s.halt.1.parked.isSome ∧ (s.load program).1 = t.startIf s.isRunning := by
  unfold load
  dsimp only
  split
  · exact ⟨s.halt.1, rfl, rfl, rfl, rfl⟩
  · rename_i machine hload
    exact ⟨(s.halt.1.withMachine machine).resetDivider, rfl, rfl, Option.isSome_map, rfl⟩

/-- **A load leaves the thread as started or halted as it was.** -/
theorem InOrder.load (h : s.InOrder) (program : Program) :
    (s.load program).1.InOrder ∧ (s.load program).1.isRunning = s.isRunning := by
  obtain ⟨t, hcontrols, hworker, hparked, e⟩ := s.load_eq_startIf program
  rw [e]
  refine InOrder.startIf (h.halt.1.of_eq hcontrols hworker hparked) ?_ _
  rw [hworker]
  exact h.halt.2

/-- Starting, halting and loading say nothing to the thread but whether it runs. -/
theorem controls_start (s : Scheduler) :
    s.start.controls = { s.controls with running := s.start.controls.running } := by
  cases hparked : s.parked with
  | none => rw [start_of_not_parked hparked]
  | some cpu => rw [start_of_parked hparked]

theorem controls_halt (s : Scheduler) :
    s.halt.1.controls = { s.controls with running := s.halt.1.controls.running } := by
  cases hworker : s.worker with
  | none => rw [halt_of_not_started hworker]
  | some worker => rw [halt_of_started hworker]

theorem controls_load (s : Scheduler) (program : Program) :
    (s.load program).1.controls =
      { s.controls with running := (s.load program).1.controls.running } := by
  obtain ⟨t, hcontrols, -, -, e⟩ := s.load_eq_startIf program
  rw [e]
  cases s.isRunning with
  | false =>
    show t.controls = { s.controls with running := t.controls.running }
    rw [hcontrols, controls_halt]
  | true =>
    show t.start.controls = { s.controls with running := t.start.controls.running }
    rw [controls_start, hcontrols, controls_halt]

/-! ## 3. Operations and moves -/

theorem InOrder.withControls (h : s.InOrder) {c : Controls}
    (hrunning : c.running = s.controls.running)
    (hrequest : c.stepRequested = true → c.paused = true)
    (hclock : 1 ≤ c.clock ∧ c.clock ≤ maxClock) : (s.withControls c).InOrder where
  request := hrequest
  running := hrunning.trans h.running
  handedBack := h.handedBack
  clock_ge := hclock.1
  clock_le := hclock.2

theorem InOrder.pause (h : s.InOrder) : (s.withControls s.controls.pause).InOrder :=
  h.withControls rfl (fun _ => rfl) ⟨h.clock_ge, h.clock_le⟩

theorem InOrder.resume (h : s.InOrder) : (s.withControls s.controls.resume).InOrder :=
  h.withControls rfl (fun hrequest => nomatch hrequest) ⟨h.clock_ge, h.clock_le⟩

theorem InOrder.setClock (h : s.InOrder) (hz : UInt32) :
    (s.withControls (s.controls.setClock (clampClock hz))).InOrder :=
  h.withControls rfl h.request ⟨clampClock_ge hz, clampClock_le hz⟩

theorem InOrder.requestStep (h : s.InOrder) :
    (s.withControls s.controls.requestStep).InOrder := by
  refine h.withControls rfl (fun hrequest => ?_) ⟨h.clock_ge, h.clock_le⟩
  rcases Bool.or_eq_true_iff.mp hrequest with hpaused | hearlier
  · exact hpaused
  · exact h.request hearlier

theorem afterOperation_load (program : Program) :
    s.afterOperation (.load program) = (s.load program).1 := by
  unfold afterOperation perform
  dsimp only
  split <;> rename_i e <;> rw [e]

theorem afterOperation_togglePause :
    s.afterOperation .togglePause =
      s.withControls (if s.controls.paused then s.controls.resume else s.controls.pause) := by
  show s.togglePause.1 = _
  unfold togglePause
  split <;> rfl

/-- **Every operation of the host keeps a scheduler in order.** -/
theorem inOrder_afterOperation (h : s.InOrder) (operation : Operation) :
    (s.afterOperation operation).InOrder := by
  cases operation with
  | load program =>
    rw [afterOperation_load]
    exact (h.load program).1
  | start => exact h.start.1
  | halt => exact h.halt.1
  | pause => exact h.pause
  | resume => exact h.resume
  | togglePause =>
    rw [afterOperation_togglePause]
    split
    · exact h.resume
    · exact h.pause
  | requestStep => exact h.requestStep
  | setClock hz => exact h.setClock hz
  | doubleClock => exact h.setClock _
  | halveClock => exact h.setClock _
  | press key => exact h.of_eq rfl rfl rfl
  | release key => exact h.of_eq rfl rfl rfl
  | takeFrame palette => exact h.of_eq rfl rfl rfl
  | snapshot => exact h
  | dump => exact h

/-- Work leaves the controls alone, and the thread is there, alive or dead. -/
theorem InOrder.afterWork (h : s.InOrder) (hrunning : s.isRunning = true) (work : Work) :
    (s.afterWork work).InOrder :=
  h.of_eq rfl hrunning.symm rfl

/-- **Every move of the thread keeps a scheduler in order.** -/
theorem inOrder_afterThread (h : s.InOrder) (move : ThreadMove) :
    (s.afterThread move).InOrder := by
  unfold afterThread
  split
  · rename_i cpu hworker
    have hrunning := isRunning_of_worker hworker
    cases move with
    | take =>
      exact h.withControls rfl (fun hrequest => nomatch hrequest) ⟨h.clock_ge, h.clock_le⟩
    | single hz => exact h.afterWork hrunning _
    | burst hz steps cycles =>
      dsimp only [afterMoveOf]
      split
      · exact h.pause.afterWork hrunning _
      · exact InOrder.afterWork (s := s.withControls s.controls) h hrunning _
  · exact h

theorem inOrder_after (h : s.InOrder) (happening : Happening) : (s.after happening).InOrder := by
  cases happening with
  | operate operation => exact inOrder_afterOperation h operation
  | thread move => exact inOrder_afterThread h move

/-! ## 4. What starts and stops the thread -/

theorem isRunning_afterThread (s : Scheduler) (move : ThreadMove) :
    (s.afterThread move).isRunning = s.isRunning := by
  unfold afterThread
  split
  · rename_i cpu hworker
    have hrunning := isRunning_of_worker hworker
    rw [hrunning]
    cases move with
    | take => exact hrunning
    | single hz => rfl
    | burst hz steps cycles => rfl
  · rfl

/-- **Only a start sets the thread going and only a halt stops it**; it counts as going when it is
    dead, too. -/
theorem running_after_iff (h : s.InOrder) (happening : Happening) :
    (s.after happening).isRunning = true ↔
      happening = .operate .start ∨ (s.isRunning = true ∧ happening ≠ .operate .halt) := by
  match happening with
  | .operate .start => exact ⟨fun _ => .inl rfl, fun _ => h.start.2⟩
  | .operate .halt =>
    show s.halt.1.isRunning = true ↔ _
    rw [h.halt.2]
    simp
  | .operate (.load program) =>
    show (s.afterOperation (.load program)).isRunning = true ↔ _
    rw [afterOperation_load, (h.load program).2]
    simp
  | .operate .togglePause =>
    show (s.afterOperation .togglePause).isRunning = true ↔ _
    rw [afterOperation_togglePause]
    simp [withControls, isRunning]
  | .thread move =>
    show (s.afterThread move).isRunning = true ↔ _
    rw [isRunning_afterThread]
    simp
  | .operate .pause | .operate .resume | .operate .requestStep | .operate (.setClock _)
  | .operate .doubleClock | .operate .halveClock | .operate (.press _) | .operate (.release _)
  | .operate (.takeFrame _) | .operate .snapshot | .operate .dump =>
    simp [after, afterOperation, perform, doneReply, Scheduler.pause, Scheduler.resume,
      Scheduler.setClock, withControls, withMachine, isRunning]

/-! ## 5. What asks for a step -/

/-- The host asks for a step while the thread is paused, so that it is heard. -/
def Asks (s : Scheduler) (happening : Happening) : Prop :=
  happening = .operate .requestStep ∧ s.controls.paused = true

/-- **What ends a request for a step**: the host lets the thread run freely, or the thread takes
    the step. -/
def Withdraws (s : Scheduler) : Happening → Prop
  | .operate .resume => True
  | .operate .togglePause => s.controls.paused = true
  | .thread .take => ∃ cpu, s.worker = some (.alive cpu)
  | _ => False

theorem stepRequested_of_controls {t : Scheduler} {running : Bool}
    (h : t.controls = { s.controls with running }) :
    t.controls.stepRequested = s.controls.stepRequested := by
  rw [h]

/-- **A step is asked for behind a happening** if it asked, or if a step was asked for before and
    it did not end the request. -/
theorem asked_after_iff (s : Scheduler) (happening : Happening) :
    (s.after happening).controls.stepRequested = true ↔
      s.Asks happening ∨ (s.controls.stepRequested = true ∧ ¬ s.Withdraws happening) := by
  match happening with
  | .operate .requestStep =>
    show (s.controls.paused || s.controls.stepRequested) = true ↔ _
    simp [Asks, Withdraws]
  | .operate .resume =>
    show false = true ↔ _
    simp [Asks, Withdraws]
  | .operate .togglePause =>
    show (s.afterOperation .togglePause).controls.stepRequested = true ↔ _
    rw [afterOperation_togglePause]
    cases hpaused : s.controls.paused <;>
      simp [Asks, Withdraws, hpaused, withControls, Controls.pause, Controls.resume]
  | .operate .start =>
    show s.start.controls.stepRequested = true ↔ _
    rw [stepRequested_of_controls s.controls_start]
    simp [Asks, Withdraws]
  | .operate .halt =>
    show s.halt.1.controls.stepRequested = true ↔ _
    rw [stepRequested_of_controls s.controls_halt]
    simp [Asks, Withdraws]
  | .operate (.load program) =>
    show (s.afterOperation (.load program)).controls.stepRequested = true ↔ _
    rw [afterOperation_load, stepRequested_of_controls (s.controls_load program)]
    simp [Asks, Withdraws]
  | .thread move =>
    show (s.afterThread move).controls.stepRequested = true ↔ _
    rcases s.alive_or_idle with ⟨cpu, hworker⟩ | hnone
    · rw [afterThread_of_alive hworker]
      cases move with
      | take => simp [Asks, Withdraws, hworker, afterMoveOf, withControls, Controls.takeStep]
      | single hz => simp [Asks, Withdraws, afterMoveOf, afterWork]
      | burst hz steps cycles =>
        dsimp only [afterMoveOf]
        split <;> simp [Asks, Withdraws, afterWork, withControls, Controls.pause]
    · rw [afterThread_of_not_alive hnone]
      cases move with
      | take =>
        have hwithdraws : ¬ s.Withdraws (.thread .take) := fun ⟨cpu, h⟩ => hnone cpu h
        simp [Asks, hwithdraws]
      | single hz => simp [Asks, Withdraws]
      | burst hz steps cycles => simp [Asks, Withdraws]
  | .operate .pause | .operate (.setClock _) | .operate .doubleClock | .operate .halveClock
  | .operate (.press _) | .operate (.release _) | .operate (.takeFrame _) | .operate .snapshot
  | .operate .dump =>
    simp [Asks, Withdraws, after, afterOperation, perform, doneReply, Scheduler.pause,
      Scheduler.setClock, withControls, withMachine, Controls.pause, Controls.setClock]

/-- A thread that waits and has no step to serve does nothing. -/
theorem turn_of_not_asked (hpaused : s.controls.paused = true)
    (hrequest : s.controls.stepRequested = false) (steps : Nat) (cycles : Cycles) :
    s.turn steps cycles = (s, []) := by
  unfold turn
  split
  · simp only [hpaused, pausedTurn, hrequest, if_true, Bool.false_eq_true, if_false]
  · rfl

/-! ## 6. After every history -/

theorem inOrder_afterAll (h : s.InOrder) (history : List Happening) :
    (s.afterAll history).InOrder :=
  afterAll_induction h (fun _ happening ht => inOrder_after ht happening) history

/-- **The request for a step remembers**: it is up exactly if a step was asked for while the thread
    was paused, and the request has not been ended since. -/
theorem asked_afterAll_iff (hs : s.controls.stepRequested = false) (history : List Happening) :
    (s.afterAll history).controls.stepRequested = true ↔
      ∃ earlier later, history = earlier ++ .operate .requestStep :: later ∧
        (s.afterAll earlier).controls.paused = true ∧
        Never after Withdraws (s.afterAll (earlier ++ [.operate .requestStep])) later := by
  have h := foldl_raised_iff (fun _ => True)
    (fun t : Scheduler => t.controls.stepRequested = true) (fun _ _ _ => trivial)
    (fun t happening _ => asked_after_iff t happening) (s := s) trivial history
  simp only [hs, Bool.false_eq_true, false_and, false_or] at h
  refine h.trans ⟨?_, ?_⟩
  · rintro ⟨earlier, _, later, rfl, ⟨rfl, hpaused⟩, hnever⟩
    refine ⟨earlier, later, rfl, hpaused, ?_⟩
    rw [afterAll_append]
    exact hnever
  · rintro ⟨earlier, later, rfl, hpaused, hnever⟩
    rw [afterAll_append] at hnever
    exact ⟨earlier, _, later, rfl, ⟨rfl, hpaused⟩, hnever⟩

theorem isRunning_afterAll_iff (h : s.InOrder) (hs : s.isRunning = false)
    (history : List Happening) :
    (s.afterAll history).isRunning = true ↔
      ∃ earlier later, history = earlier ++ .operate .start :: later ∧
        .operate .halt ∉ later := by
  have hflag := foldl_raised_iff InOrder (fun t => t.isRunning = true)
    (fun _ happening ht => inOrder_after ht happening)
    (fun _ happening ht => running_after_iff ht happening) h history
  simp only [hs, Bool.false_eq_true, false_and, false_or, never_iff_not_mem] at hflag
  refine hflag.trans ⟨?_, ?_⟩
  · rintro ⟨earlier, _, later, rfl, rfl, hnever⟩
    exact ⟨earlier, later, rfl, hnever⟩
  · rintro ⟨earlier, later, rfl, hnever⟩
    exact ⟨earlier, _, later, rfl, rfl, hnever⟩

/-- **What ends a request leaves none behind.** -/
theorem not_asked_of_withdraws {happening : Happening} (hends : s.Withdraws happening) :
    (s.after happening).controls.stepRequested = false := by
  rw [Bool.eq_false_iff, ne_eq, asked_after_iff]
  rintro (⟨rfl, -⟩ | ⟨-, hnot⟩)
  · exact hends
  · exact hnot hends

/-- **Nothing is left of a request that has ended**: behind a happening that ends one, no step is
    asked for until the host asks again. -/
theorem not_asked_behind_withdrawal {happening : Happening} (hends : s.Withdraws happening)
    {later : List Happening} (hlater : .operate .requestStep ∉ later) :
    ((s.after happening).afterAll later).controls.stepRequested = false := by
  rw [Bool.eq_false_iff, ne_eq, asked_afterAll_iff (not_asked_of_withdraws hends)]
  rintro ⟨earlier, rest, rfl, -, -⟩
  exact hlater (List.mem_append_right _ List.mem_cons_self)

end Chip8.Scheduler
