/-
  File:      Chip8/Proofs/Scheduler/InTurn.lean
  Subject:   which steps are executed, if every move of the thread comes in its turn

  The thread takes a step first and executes it next, and does nothing else in between; the host may
  do anything in between but halt it, which waits.

  * `Progress`: a scheduler, and whether its thread holds a step it has taken and not executed;
    `InTurn`: the histories in which every move of the thread comes in its turn. The moves of a turn
    do (`inTurn_turnMoves`);
  * `asked_and_taken`: a step that is executed was asked for while the thread was paused, and taken
    before the request was ended; `steps_le_requests`: no request is served twice;
  * `controls_in_order`: the controls are in order behind every history, and all that is left behind
    the end of a request is the one step the thread may hold;
  * `taken_step_outlives_resume`: that step is executed behind a resume and a later pause.
-/
import Chip8.Proofs.Machine.Event
import Chip8.Proofs.Scheduler.Control

namespace Chip8

/-- The host does something that does not halt the thread. -/
def Happening.SparesThread (happening : Happening) : Prop :=
  ∃ operation, happening = .operate operation ∧ operation ≠ .halt ∧
    ∀ program, operation ≠ .load program

/-- A scheduler, and whether its thread holds a step that it has taken and not executed yet. -/
structure Progress where
  scheduler : Scheduler
  holds : Bool

namespace Progress

open Scheduler

variable {p : Progress} {happening : Happening}

/-! ## 1. Moves in their turn -/

/-- Whether the thread finds a step to take. -/
def finds (p : Progress) : Bool :=
  match p.scheduler.worker with
  | some (.alive _) => p.scheduler.controls.stepRequested
  | _ => false

def holdsAfter (p : Progress) : Happening → Bool
  | .thread .take => p.finds || p.holds
  | .thread (.single _) => false
  | _ => p.holds

def after (p : Progress) (happening : Happening) : Progress :=
  ⟨p.scheduler.after happening, p.holdsAfter happening⟩

def afterAll (p : Progress) (history : List Happening) : Progress := history.foldl after p

/-- **What does not happen**: the thread executes no step that it does not hold. While it holds one
    it makes no other move, and a halt waits for it, also the one of a load. -/
def OutOfTurn (p : Progress) : Happening → Prop
  | .thread (.single _) => p.holds = false
  | .thread .take => p.holds = true
  | .thread (.burst ..) => p.holds = true
  | .operate .halt => p.holds = true
  | .operate (.load _) => p.holds = true
  | .operate _ => False

/-- Every move of the thread comes in its turn. -/
def InTurn (p : Progress) (history : List Happening) : Prop := Never after OutOfTurn p history

theorem scheduler_afterAll (p : Progress) (history : List Happening) :
    (p.afterAll history).scheduler = p.scheduler.afterAll history := by
  induction history generalizing p with
  | nil => rfl
  | cons first rest ih => exact ih (p.after first)

theorem inTurn_append {earlier later : List Happening} :
    p.InTurn (earlier ++ later) ↔ p.InTurn earlier ∧ (p.afterAll earlier).InTurn later :=
  never_append

theorem finds_of_alive {cpu : Cpu} (h : p.scheduler.worker = some (.alive cpu)) :
    p.finds = p.scheduler.controls.stepRequested := by
  rw [finds, h]

theorem finds_of_not_alive (h : ∀ cpu, p.scheduler.worker ≠ some (.alive cpu)) :
    p.finds = false := by
  unfold finds
  split
  · rename_i cpu hworker
    exact absurd hworker (h cpu)
  · rfl

/-- **The moves of a turn come in their turn**, and the thread holds nothing behind them. -/
theorem inTurn_turnMoves {s : Scheduler} {cpu : Cpu} (hworker : s.worker = some (.alive cpu))
    (steps : Nat) (cycles : Cycles) :
    InTurn ⟨s, false⟩ (s.turnMoves steps cycles) ∧
      (afterAll ⟨s, false⟩ (s.turnMoves steps cycles)).holds = false := by
  unfold turnMoves
  split
  · split
    · rename_i hasked
      have hholds : (after ⟨s, false⟩ (.thread .take)).holds = true := by
        show (finds ⟨s, false⟩ || false) = true
        rw [finds_of_alive hworker, hasked]
        rfl
      exact ⟨⟨Bool.false_ne_true, fun hnone => Bool.false_ne_true (hnone.symm.trans hholds),
        trivial⟩, rfl⟩
    · exact ⟨trivial, rfl⟩
  · exact ⟨⟨Bool.false_ne_true, trivial⟩, rfl⟩

/-! ## 2. Where a step comes from -/

/-- The thread comes to hold a step by taking one, and loses it by executing it. -/
theorem holds_after_iff (p : Progress) (happening : Happening) :
    (p.after happening).holds = true ↔
      (happening = .thread .take ∧ p.finds = true) ∨
        (p.holds = true ∧ ¬ ∃ hz, happening = .thread (.single hz)) := by
  match happening with
  | .thread .take =>
    show (p.finds || p.holds) = true ↔ _
    simp
  | .thread (.single hz) =>
    show false = true ↔ _
    simp
  | .thread (.burst ..) | .operate _ =>
    show p.holds = true ↔ _
    simp

/-- **While the thread holds a step only the host acts**, and does not halt it. -/
theorem waits_of_holds {history : List Happening} (hturn : p.InTurn history)
    (hholds : p.holds = true)
    (hkeeps : Never after (fun _ h => ∃ hz, h = .thread (.single hz)) p history) :
    ∀ happening ∈ history, happening.SparesThread := by
  induction history generalizing p with
  | nil => exact fun _ hmem => nomatch hmem
  | cons first rest ih =>
    obtain ⟨hfirst, hrest⟩ := hturn
    obtain ⟨hnot, hkeeps'⟩ := hkeeps
    have hholds' : (p.after first).holds = true :=
      (p.holds_after_iff first).mpr (.inr ⟨hholds, hnot⟩)
    intro happening hmem
    rcases List.mem_cons.mp hmem with rfl | hlater
    · match happening with
      | .thread (.single hz) => exact absurd ⟨hz, rfl⟩ hnot
      | .thread .take | .thread (.burst ..) => exact absurd hholds hfirst
      | .operate operation =>
        refine ⟨operation, rfl, ?_, ?_⟩
        · rintro rfl
          exact hfirst hholds
        · rintro program rfl
          exact hfirst hholds
    · exact ih hrest hholds' hkeeps' happening hlater

/-- **A step that is executed was taken by a living thread**, that found it asked for. -/
theorem taken_of_holds {history : List Happening} (hnone : p.holds = false)
    (hturn : p.InTurn history) (hholds : (p.afterAll history).holds = true) :
    ∃ earlier later, history = earlier ++ .thread .take :: later ∧
      (p.afterAll earlier).finds = true ∧
      ∀ happening ∈ later, happening.SparesThread := by
  have h := foldl_raised_iff (fun _ => True) (fun q : Progress => q.holds = true)
    (fun _ _ _ => trivial) (fun q happening _ => q.holds_after_iff happening) (s := p) trivial
    history
  simp only [hnone, Bool.false_eq_true, false_and, false_or] at h
  obtain ⟨earlier, _, later, rfl, ⟨rfl, hfinds⟩, hkeeps⟩ := h.mp hholds
  have htaken : ((p.afterAll earlier).after (.thread .take)).holds = true :=
    ((p.afterAll earlier).holds_after_iff _).mpr (.inl ⟨rfl, hfinds⟩)
  exact ⟨earlier, later, rfl, hfinds,
    waits_of_holds (inTurn_append.mp hturn).2.2 htaken hkeeps⟩

/-- **A step that is executed** was asked for while the thread was paused, was taken before the
    request was ended, and is the next thing the thread does. -/
theorem asked_and_taken {s : Scheduler} (hs : s.controls.stepRequested = false)
    {earlier : List Happening} {hz : UInt32}
    (hturn : InTurn ⟨s, false⟩ (earlier ++ [.thread (.single hz)])) :
    ∃ before between behind,
      earlier = before ++ .operate .requestStep :: between ++ .thread .take :: behind ∧
      (s.afterAll before).controls.paused = true ∧
      Never Scheduler.after Withdraws (s.afterAll (before ++ [.operate .requestStep])) between ∧
      ∀ happening ∈ behind, happening.SparesThread := by
  obtain ⟨hearlier, hsingle, -⟩ := inTurn_append.mp hturn
  have hholds : (afterAll ⟨s, false⟩ earlier).holds = true := (Bool.not_eq_false _).mp hsingle
  obtain ⟨asked, behind, rfl, hfinds, hwaits⟩ := taken_of_holds rfl hearlier hholds
  have hrequest : (s.afterAll asked).controls.stepRequested = true := by
    rw [finds, scheduler_afterAll] at hfinds
    split at hfinds
    · exact hfinds
    · cases hfinds
  obtain ⟨before, between, rfl, hpaused, hnever⟩ := (asked_afterAll_iff hs asked).mp hrequest
  exact ⟨before, between, behind, rfl, hpaused, hnever, hwaits⟩

end Progress

/-! ## 3. How many steps there are -/

/-- Whether a step is executed. -/
def Happening.isStep : Happening → Bool
  | .thread (.single _) => true
  | _ => false

/-- Whether the host asks for a step. -/
def Happening.isRequest : Happening → Bool
  | .operate .requestStep => true
  | _ => false

theorem Happening.isRequest_iff {happening : Happening} :
    happening.isRequest = true ↔ happening = .operate .requestStep := by
  unfold isRequest
  split
  · exact ⟨fun _ => rfl, fun _ => rfl⟩
  · rename_i hnot
    exact ⟨fun h => Bool.noConfusion h, fun h => absurd h hnot⟩

namespace Progress

open Scheduler

variable {p : Progress} {happening : Happening}

/-- The steps that are due: one that is asked for, and one that the thread holds. -/
def openSteps (p : Progress) : Nat := p.scheduler.controls.stepRequested.toNat + p.holds.toNat

/-- Only the host raises the number of open steps. -/
theorem requested_after_le (s : Scheduler) (happening : Happening) :
    (s.after happening).controls.stepRequested.toNat ≤
      happening.isRequest.toNat + s.controls.stepRequested.toNat := by
  cases hafter : (s.after happening).controls.stepRequested with
  | false => exact Nat.zero_le _
  | true =>
    rcases (asked_after_iff s happening).mp hafter with ⟨rfl, -⟩ | ⟨hbefore, -⟩
    · exact Nat.le_add_right _ _
    · rw [hbefore]
      exact Nat.le_add_left _ _

/-- A step is executed by a thread that holds it, and only a step that is taken is held from then
    on. -/
theorem held_after_le (hturn : ¬ p.OutOfTurn happening) (htake : happening ≠ .thread .take) :
    happening.isStep.toNat + (p.holdsAfter happening).toNat ≤ p.holds.toNat := by
  match happening with
  | .thread .take => exact absurd rfl htake
  | .thread (.single hz) =>
    have hholds : p.holds = true := (Bool.not_eq_false _).mp hturn
    rw [hholds]
    exact Nat.le_refl 1
  | .thread (.burst ..) | .operate _ => exact Nat.le_of_eq (Nat.zero_add _)

/-- The step that is taken is no longer asked for. -/
theorem open_take_le : (p.after (.thread .take)).openSteps ≤ p.openSteps := by
  unfold openSteps
  rcases p.scheduler.alive_or_idle with ⟨cpu, hworker⟩ | hnone
  · show ((p.scheduler.afterThread .take).controls.stepRequested).toNat +
      (p.finds || p.holds).toNat ≤ _
    rw [afterThread_of_alive hworker, finds_of_alive hworker]
    show 0 + (p.scheduler.controls.stepRequested || p.holds).toNat ≤ _
    cases p.scheduler.controls.stepRequested <;> cases p.holds <;> decide
  · show ((p.scheduler.afterThread .take).controls.stepRequested).toNat +
      (p.finds || p.holds).toNat ≤ _
    rw [afterThread_of_not_alive hnone, finds_of_not_alive hnone]
    exact Nat.le_refl _

/-- **What happens in its turn is paid for**: a step by the one the thread holds, and that one by a
    request. -/
theorem spent_after (hturn : ¬ p.OutOfTurn happening) :
    happening.isStep.toNat + (p.after happening).openSteps ≤
      happening.isRequest.toNat + p.openSteps := by
  by_cases htake : happening = .thread .take
  · subst htake
    have htaken := p.open_take_le
    show 0 + _ ≤ 0 + _
    omega
  · have hrequested := requested_after_le p.scheduler happening
    have hheld := held_after_le hturn htake
    show _ + ((p.scheduler.after happening).controls.stepRequested.toNat +
      (p.holdsAfter happening).toNat) ≤ _ + (_ + _)
    omega

/-- **No request is served twice.** -/
theorem steps_le_requests {history : List Happening} (hturn : p.InTurn history) :
    history.countP Happening.isStep ≤ history.countP Happening.isRequest + p.openSteps := by
  induction history generalizing p with
  | nil => exact Nat.zero_le _
  | cons first rest ih =>
    have hfirst := spent_after hturn.1
    have hrest := ih hturn.2
    rw [List.countP_cons, List.countP_cons]
    cases hstep : first.isStep <;> cases hrequest : first.isRequest <;>
      simp only [hstep, hrequest, Bool.toNat_true, Bool.toNat_false, Bool.false_eq_true, if_true,
        if_false] at hfirst ⊢ <;>
      omega

/-- **Nothing but the step that is held is left behind the end of a request**, until the host asks
    again. -/
theorem steps_behind_withdrawal {operation : Operation}
    (hends : p.scheduler.Withdraws (.operate operation)) {later : List Happening}
    (hlater : .operate .requestStep ∉ later)
    (hturn : (p.after (.operate operation)).InTurn later) :
    later.countP Happening.isStep ≤ p.holds.toNat := by
  have hsteps := steps_le_requests hturn
  have hnone : later.countP Happening.isRequest = 0 := by
    rw [List.countP_eq_zero]
    intro happening hmem hrequest
    rw [Happening.isRequest_iff] at hrequest
    exact hlater (hrequest ▸ hmem)
  have hended : (p.scheduler.after (.operate operation)).controls.stepRequested = false :=
    not_asked_of_withdraws hends
  have hopen : (p.after (.operate operation)).openSteps = p.holds.toNat := by
    show (p.scheduler.after (.operate operation)).controls.stepRequested.toNat + p.holds.toNat = _
    rw [hended]
    exact Nat.zero_add _
  rw [hnone, hopen, Nat.zero_add] at hsteps
  exact hsteps

end Progress

/-! ## 4. The controls behind every history -/

namespace Scheduler

/-- **The controls are in order, whatever host and thread do.** A step is asked for only while
    paused, and exactly if it was asked for and the request has not been ended. A step that is
    executed was asked for while paused and taken before that request was ended; so an operation
    that lets the thread run freely ends the request, and leaves behind at most the one step that
    the thread held by then. The thread runs exactly if it has been started since it was halted
    last, and a halted one starts. -/
theorem controls_in_order (machine : Machine) (clock : UInt32) (sink : Sink)
    (history : List Happening) :
    let first := ofMachine machine clock sink
    let s := first.afterAll history
    s.InOrder ∧
      (s.controls.stepRequested = true ↔
        ∃ earlier later, history = earlier ++ .operate .requestStep :: later ∧
          (first.afterAll earlier).controls.paused = true ∧
          Never after Withdraws (first.afterAll (earlier ++ [.operate .requestStep])) later) ∧
      (∀ earlier hz later, history = earlier ++ .thread (.single hz) :: later →
        Progress.InTurn ⟨first, false⟩ history →
        ∃ before between behind,
          earlier = before ++ .operate .requestStep :: between ++ .thread .take :: behind ∧
          (first.afterAll before).controls.paused = true ∧
          Never after Withdraws (first.afterAll (before ++ [.operate .requestStep])) between ∧
          ∀ happening ∈ behind, happening.SparesThread) ∧
      (∀ earlier operation later, history = earlier ++ .operate operation :: later →
        (first.afterAll earlier).Withdraws (.operate operation) →
        .operate .requestStep ∉ later →
        s.controls.stepRequested = false ∧
          (Progress.InTurn ⟨first, false⟩ history →
            later.countP Happening.isStep ≤
              (Progress.afterAll ⟨first, false⟩ earlier).holds.toNat)) ∧
      (s.isRunning = true ↔
        ∃ earlier later, history = earlier ++ .operate .start :: later ∧
          .operate .halt ∉ later) ∧
      (s.isRunning = false → ∃ cpu, s.start.worker = some (.alive cpu)) := by
  intro first s
  have hfirst : first.InOrder := inOrder_ofMachine machine clock sink
  have horder : s.InOrder := inOrder_afterAll hfirst history
  refine ⟨horder, asked_afterAll_iff rfl history, ?executed, ?ended,
    isRunning_afterAll_iff hfirst rfl history, ?starts⟩
  case executed =>
    rintro earlier hz later rfl hturn
    rw [← List.singleton_append, ← List.append_assoc] at hturn
    exact Progress.asked_and_taken rfl (Progress.inTurn_append.mp hturn).1
  case ended =>
    intro earlier operation later hhistory hends hlater
    refine ⟨?_, fun hturn => ?_⟩
    · have hafter : s = ((first.afterAll earlier).after (.operate operation)).afterAll later := by
        show first.afterAll history = _
        rw [hhistory, afterAll_append]
        rfl
      rw [hafter]
      exact not_asked_behind_withdrawal hends hlater
    · rw [hhistory] at hturn
      have hearlier := Progress.scheduler_afterAll ⟨first, false⟩ earlier
      exact Progress.steps_behind_withdrawal (hearlier.symm ▸ hends) hlater
        (Progress.inTurn_append.mp hturn).2.2
  case starts =>
    intro hhalted
    rcases horder.started_or_halted with ⟨worker, hworker, -⟩ | ⟨cpu, -, hparked, -⟩
    · rw [isRunning_of_worker hworker] at hhalted
      cases hhalted
    · exact ⟨cpu, by rw [start_of_parked hparked]⟩

/-! ## 5. A step that has been taken -/

/-- A new scheduler whose program sets a register. -/
def setting : Scheduler :=
  ofMachine (.withBytes [(0x200, 0x60), (0x201, 0x02)]) 500 .handOn

/-- The thread takes a step, and then the host resumes and pauses. -/
def overtaken : List Happening :=
  [.operate .pause, .operate .start, .operate .requestStep, .thread .take, .operate .resume,
    .operate .pause]

/-- Every move of the thread is in its turn, also the one that executes the step behind all that. -/
theorem inTurn_overtaken :
    Progress.InTurn ⟨setting, false⟩ (overtaken ++ [.thread (.single 500)]) :=
  ⟨id, id, id, Bool.false_ne_true, id, id, fun hnone => Bool.false_ne_true hnone.symm, trivial⟩

/-- The thread executes the step it has taken, and no other behind the resume. -/
theorem overtaken_in_order :
    let s := setting.afterAll (overtaken ++ [.thread (.single 500)])
    s.InOrder ∧ s.controls.stepRequested = false ∧
      [Happening.operate .pause, .thread (.single 500)].countP Happening.isStep ≤ 1 ∧
      (∃ before between behind,
        overtaken = before ++ .operate .requestStep :: between ++ .thread .take :: behind ∧
        (setting.afterAll before).controls.paused = true) ∧
      s.isRunning = true := by
  obtain ⟨horder, -, hexecuted, hended, hrunning, -⟩ :=
    controls_in_order (.withBytes [(0x200, 0x60), (0x201, 0x02)]) 500 .handOn
      (overtaken ++ [.thread (.single 500)])
  obtain ⟨hasked, hsteps⟩ :=
    hended (overtaken.take 4) .resume [.operate .pause, .thread (.single 500)] rfl trivial
      (by simp)
  obtain ⟨before, between, behind, e, hpaused, -⟩ :=
    hexecuted overtaken 500 [] rfl inTurn_overtaken
  refine ⟨horder, hasked, hsteps inTurn_overtaken, ⟨before, between, behind, e, hpaused⟩,
    hrunning.mpr ⟨[.operate .pause], _, rfl, ?_⟩⟩
  simp

/-- **That nothing is left of a step behind a resume**: what is executed behind it and behind a
    later pause has been asked for since. -/
def ForgetsSteps (first : Scheduler) : Prop :=
  ∀ earlier between later hz,
    Progress.InTurn ⟨first, false⟩
      (earlier ++ .operate .resume :: between ++ .operate .pause :: later ++
        [.thread (.single hz)]) →
    .operate .requestStep ∈ between ++ later

/-- **It is not so.** The thread has taken the step before the resume, so that no request is left to
    be forgotten; it executes it behind the pause all the same. -/
theorem taken_step_outlives_resume :
    let s := setting.afterAll overtaken
    s.controls = ⟨true, true, false, 500⟩ ∧ s.machine.pc = 0x200 ∧
      (s.after (.thread (.single 500))).machine.pc = 0x202 ∧ ¬ setting.ForgetsSteps := by
  refine ⟨by decide +kernel, by decide +kernel, by decide +kernel, fun hforgets => ?_⟩
  have hasked := hforgets (overtaken.take 4) [] [] 500 inTurn_overtaken
  cases hasked

end Scheduler

end Chip8
