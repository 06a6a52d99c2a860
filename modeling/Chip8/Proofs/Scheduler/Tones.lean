/-
  File:      Chip8/Proofs/Scheduler/Tones.lean
  Subject:   every tone is paid for by an instruction of the program

  * `Event.startsTone`, `Event.endsTone`: the steps that put more than zero on the sound timer, and
    the ticks that report its end;
  * `tick_ends_iff`, `ends_ticks`: of consecutive ticks the one reports that brings the timer to
    zero; `tones_tickMany`: the thread gives the sink a tone for it, whatever becomes of the sink;
  * `sounding_afterEvent`: only an instruction makes a silent timer run;
  * `ends_le_starts`, `started_between`: so over a run there are no more reports than such
    instructions, and one of them lies between any two reports;
  * `tones_accounted`: this together.
-/
import Chip8.Proofs.Machine.Footprint
import Chip8.Proofs.Scheduler.Ticks

namespace Chip8

/-! ## 1. The start and the end of a tone -/

namespace Event

/-- An `FX18` is executed and VX is not zero. -/
def startsTone (m : Machine) : Event → Bool
  | .move .step =>
    match m.memory.fetch? m.pc with
    | some word => decide (Word.EndsIn 0xF 0x18 word) && m.v (Word.x word) != 0
    | none => false
  | _ => false

/-- A tick reports that the sound timer has run out. -/
def endsTone (m : Machine) : Event → Bool
  | .move (.touch .tick) => m.toneDue
  | _ => false

end Event

namespace Machine

variable {m : Machine} {event : Event} {word : UInt16}

/-- Something is left on the sound timer. -/
def Sounding (m : Machine) : Prop := m.sound.count ≠ 0

instance (m : Machine) : Decidable m.Sounding := inferInstanceAs (Decidable (m.sound.count ≠ 0))

/-! ## 2. Ticks -/

/-- Ticks change the timers and nothing else. -/
theorem afterMoves_ticks (m : Machine) (count : Nat) :
    m.afterMoves (ticks count) = { m with
      delay := (m.afterMoves (ticks count)).delay
      sound := (m.afterMoves (ticks count)).sound } := by
  induction count generalizing m with
  | zero => rfl
  | succ count ih => exact ih m.tick

theorem toNat_delay_ticks (m : Machine) (count : Nat) :
    (m.afterMoves (ticks count)).delay.count.toNat = m.delay.count.toNat - count := by
  induction count generalizing m with
  | zero => rfl
  | succ count ih =>
    have htick : m.tick.delay.count.toNat = m.delay.count.toNat - 1 := m.delay.toNat_count_tick
    show (m.tick.afterMoves (ticks count)).delay.count.toNat = _
    rw [ih, htick]
    omega

/-- **The tick behind so many others reports the end of the sound timer** exactly if it is the one
    that brings it to zero. -/
theorem tick_ends_iff (m : Machine) (count : Nat) :
    (m.afterMoves (ticks count)).toneDue = true ↔ count + 1 = m.sound.count.toNat := by
  rw [toneDue_iff, toNat_sound_ticks]
  omega

/-- The reports of moves, told as those of events. -/
theorem ends_moves (m : Machine) (moves : List Move) :
    occurrences afterEvent Event.endsTone m (moves.map .move) = m.expiries moves := by
  induction moves generalizing m with
  | nil => rfl
  | cons move rest ih =>
    rw [List.map_cons, expiries, occurrences, occurrences]
    refine congr (congrArg _ (congrArg Bool.toNat ?_)) (ih (m.afterMove move))
    rcases move with _ | touch
    · rfl
    · cases touch <;> rfl

/-- The reports of consecutive ticks: one, if there are enough of them for the sound timer. -/
theorem ends_ticks (m : Machine) (count : Nat) :
    occurrences afterEvent Event.endsTone m ((ticks count).map .move) =
      if 1 ≤ m.sound.count.toNat ∧ m.sound.count.toNat ≤ count then 1 else 0 := by
  rw [ends_moves, expiries_ticks]

/-- **The thread gives the sink a tone for every report**, and shows what the sink does; it dies if
    the sink dies of that tone. -/
theorem tones_tickMany (sink : Sink) (m : Machine) (count : Nat) :
    let reports := occurrences afterEvent Event.endsTone m ((ticks count).map .move)
    let tones := List.replicate reports Tone.beep
    (tickMany sink m count).sink = sink.given tones ∧
      (tickMany sink m count).signals = (sink.shown tones).map .audio ∧
      ((tickMany sink m count).died = true ↔ 0 < reports ∧ sink.play .beep = none) := by
  intro reports tones
  have hreports : reports = _ := m.ends_ticks count
  have htones : tones = List.replicate reports Tone.beep := rfl
  rcases tickMany_cases sink m count with ⟨hfew, hticks⟩ | ⟨henough, shown, hplay, hticks⟩ |
    ⟨henough, hdies, hticks⟩
  · rw [if_neg hfew] at hreports
    rw [hticks, htones, hreports, List.replicate_zero, Sink.given_nil]
    exact ⟨rfl, rfl, by simp⟩
  · rw [if_pos henough] at hreports
    rw [hticks, htones, hreports, List.replicate_one, Sink.shown_of_play hplay]
    exact ⟨rfl, rfl, by simp [hplay]⟩
  · rw [if_pos henough] at hreports
    rw [hticks, htones, hreports, List.replicate_one, Sink.shown, hdies]
    exact ⟨rfl, rfl, by simp⟩

/-! ## 3. Steps and other events -/

/-- `FX18` puts VX on the sound timer, and no other step writes it. -/
theorem sound_step (m : Machine) :
    (∃ word, m.memory.fetch? m.pc = some word ∧ Word.EndsIn 0xF 0x18 word ∧
      m.step.1.sound = ⟨m.v (Word.x word)⟩) ∨
    m.step.1.sound = m.sound := by
  cases hfetch : m.memory.fetch? m.pc with
  | none =>
    rw [step_of_fetch_none hfetch]
    exact .inr rfl
  | some word =>
    by_cases hsets : Word.EndsIn 0xF 0x18 word
    · refine .inl ⟨word, rfl, hsets, ?_⟩
      rw [step_eq_afterExecute hfetch, afterExecute, Instruction.decode_of_setsSound hsets]
      rfl
    · right
      have hpart : Part.sound ≠ .opcode := by
        intro e
        cases e
      have hsame : Part.Same m m.step.1 .sound := by
        refine step_same hpart fun other hother howns => ?_
        rw [hfetch] at hother
        cases hother
        cases howns with
        | sound hkind => exact hsets hkind
      exact hsame

/-- **Only an `FX18` makes a silent timer run**, and an event that ends a tone leaves it silent. -/
theorem sounding_afterEvent (h : (m.afterEvent event).Sounding) :
    event.startsTone m = true ∨ (m.Sounding ∧ event.endsTone m = false) := by
  match event, h with
  | .move .step, h =>
    rcases m.sound_step with ⟨word, hfetch, hsets, hsound⟩ | hsound
    · left
      have hcount : m.v (Word.x word) ≠ 0 := by
        intro hzero
        apply h
        show m.step.1.sound.count = 0
        rw [hsound]
        exact hzero
      simp [Event.startsTone, hfetch, hsets, hcount]
    · right
      have hcount : m.step.1.sound.count ≠ 0 := h
      rw [hsound] at hcount
      exact ⟨hcount, rfl⟩
  | .move (.touch .tick), h =>
    right
    have hcount : m.tick.sound.count.toNat ≠ 0 := fun e => h (UInt8.toNat_inj.mp e)
    have htick := toNat_sound_tick m
    refine ⟨fun hzero => ?_, Bool.eq_false_iff.mpr fun hdue => ?_⟩
    · have hzero' : m.sound.count.toNat = 0 := UInt8.toNat_inj.mpr hzero
      omega
    · have hlast := toneDue_iff.mp hdue
      omega
  | .move (.touch (.press _)), h | .move (.touch (.release _)), h | .move (.touch .poll), h
  | .move (.touch (.inspect _)), h => exact .inr ⟨h, rfl⟩
  | .reset, h => exact absurd rfl h
  | .load program, h =>
    right
    by_cases hfits : program.size ≤ Memory.programLimit
    · exfalso
      apply h
      show (m.afterLoad program).sound.count = 0
      rw [afterLoad_of_fits hfits]
      rfl
    · have hsame : (m.afterEvent (.load program)) = m :=
        afterLoad_of_too_large (Nat.lt_of_not_le hfits)
      rw [hsame] at h
      exact ⟨h, rfl⟩

theorem sounding_of_ends (h : event.endsTone m = true) : m.Sounding := by
  match event, h with
  | .move (.touch .tick), h =>
    intro hzero
    have hdue : m.sound.count.toNat = 1 := toneDue_iff.mp h
    rw [hzero] at hdue
    cases hdue

/-- Behind the end of a tone the timer is silent. -/
theorem silent_of_ends (h : event.endsTone m = true) : ¬ (m.afterEvent event).Sounding := by
  intro hsounding
  rcases sounding_afterEvent hsounding with hstarts | ⟨-, hnot⟩
  · match event, h, hstarts with
    | .move (.touch .tick), _, hstarts => cases hstarts
  · rw [h] at hnot
    cases hnot

/-! ## 4. Runs -/

/-- **There are no more reports than instructions that start a tone**, but for a tone that was on
    before. -/
theorem ends_le_starts (m : Machine) (events : List Event) :
    occurrences afterEvent Event.endsTone m events ≤
      occurrences afterEvent Event.startsTone m events + (decide m.Sounding).toNat := by
  have law (n : Machine) (event : Event) :
      (event.endsTone n).toNat + (decide (n.afterEvent event).Sounding).toNat ≤
        (event.startsTone n).toNat + (decide n.Sounding).toNat := by
    by_cases hbehind : (n.afterEvent event).Sounding
    · rcases sounding_afterEvent hbehind with hstarts | ⟨hbefore, hnot⟩
      · by_cases hends : event.endsTone n = true
        · exact absurd hbehind (silent_of_ends hends)
        · simp [hstarts, hbehind, hends]
      · simp [hnot, hbefore, hbehind]
    · by_cases hends : event.endsTone n = true
      · simp [hends, hbehind, sounding_of_ends hends]
      · simp [hends, hbehind]
  exact Nat.le_trans (Nat.le_add_right _ _)
    (occurrences_add_le (fun n => (decide n.Sounding).toNat) law m events)

/-- **Between two reports a tone is started.** -/
theorem started_between {first second : Event} {between : List Event}
    (hfirst : first.endsTone m = true)
    (hsecond : second.endsTone ((m.afterEvent first).afterEvents between) = true) :
    ∃ before event behind, between = before ++ event :: behind ∧
      event.startsTone ((m.afterEvent first).afterEvents before) = true := by
  have law (n : Machine) (event : Event) (h : (n.afterEvent event).Sounding) :
      n.Sounding ∨ event.startsTone n = true :=
    (sounding_afterEvent h).symm.imp And.left id
  exact exists_raised law (silent_of_ends hfirst) (sounding_of_ends hsecond)

/-- **Every tone is accounted for.** So many ticks lower each timer by as many, down to zero at
    most, and leave the rest of the machine alone; the one among them that brings the sound timer to
    zero reports it, and no other does. The thread gives the sink a tone of 1000 Hz and 50 ms for
    each report, shows what the sink shows of them, and dies if that is what the sink does. Over
    every run of a new machine there are no more reports than there were `FX18` with VX not zero;
    and one of these lies between any two reports of any run. -/
theorem tones_accounted :
    (∀ (m : Machine) (n : Nat),
      let last := m.afterMoves (ticks n)
      last = { m with delay := last.delay, sound := last.sound } ∧
      last.delay.count.toNat = m.delay.count.toNat - n ∧
      last.sound.count.toNat = m.sound.count.toNat - n ∧
      (last.toneDue = true ↔ n + 1 = m.sound.count.toNat) ∧
      occurrences afterEvent Event.endsTone m ((ticks n).map .move) =
        (if 1 ≤ m.sound.count.toNat ∧ m.sound.count.toNat ≤ n then 1 else 0) ∧
      ∀ sink : Sink,
        let reports := occurrences afterEvent Event.endsTone m ((ticks n).map .move)
        let tones := List.replicate reports (⟨1000, 50⟩ : Tone)
        let ticked := tickMany sink m n
        ticked.sink = sink.given tones ∧ ticked.signals = (sink.shown tones).map .audio ∧
        (ticked.died = true ↔ 0 < reports ∧ sink.play ⟨1000, 50⟩ = none)) ∧
    (∀ generator events, occurrences afterEvent Event.endsTone (switchedOn generator) events ≤
      occurrences afterEvent Event.startsTone (switchedOn generator) events) ∧
    (∀ (m : Machine) (first second : Event) (between : List Event),
      first.endsTone m = true →
      second.endsTone ((m.afterEvent first).afterEvents between) = true →
      ∃ before, ∃ event : Event, ∃ behind, between = before ++ event :: behind ∧
        event.startsTone ((m.afterEvent first).afterEvents before) = true) := by
  refine ⟨fun m n => ?_, fun generator events => ?_, fun m first second between => started_between⟩
  · exact ⟨m.afterMoves_ticks n, m.toNat_delay_ticks n, toNat_sound_ticks m n, m.tick_ends_iff n,
      m.ends_ticks n, fun sink => tones_tickMany sink m n⟩
  · have hsilent : ¬ (switchedOn generator).Sounding := fun h => h rfl
    have hpaid := ends_le_starts (switchedOn generator) events
    rw [decide_eq_false hsilent] at hpaid
    exact hpaid

/-- A machine whose tone is about to end and whose next instruction starts another. -/
def chime : Machine :=
  { withBytes [(0x200, 0xF0), (0x201, 0x18)] with
    registers := Registers.zero.set 0 1
    sound := ⟨1⟩ }

/-- A tick, the instruction and a tick: two reports and a start between them. -/
theorem tones_of_chime :
    let tick := Event.move (.touch .tick)
    let step := Event.move .step
    tick.endsTone chime = true ∧
      tick.endsTone ((chime.afterEvent tick).afterEvents [step]) = true ∧
      ∃ before, ∃ event : Event, ∃ behind, [step] = before ++ event :: behind ∧
        event.startsTone ((chime.afterEvent tick).afterEvents before) = true := by
  intro tick step
  have hfirst : tick.endsTone chime = true := by decide
  have hsecond : tick.endsTone ((chime.afterEvent tick).afterEvents [step]) = true := by
    decide +kernel
  exact ⟨hfirst, hsecond, tones_accounted.2.2 chime tick tick [step] hfirst hsecond⟩

end Machine

end Chip8
