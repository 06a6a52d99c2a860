/-
  File:      Chip8/Proofs/Scheduler/Ticks.lean
  Subject:   the ticks the CPU thread does behind its work

  * `tickMany_enough`: more ticks than a timer can hold change nothing and make no sound, so that
    the thread may leave them out;
  * `Machine.expiries`: how many of the moves of a machine are ticks that end the sound timer; among
    ticks alone there is one at most (`expiries_ticks`). `Machine.tones`: the tones they call for;
  * `Sink.NeverDies`: no tone is the end of a sink; `Sink.shown`: what a sink shows of tones as long
    as it lives;
  * `tickMany_cases`: the ticks are moves of the machine, and the sink is given a tone for the one
    that ends the sound timer. A sink that dies of it ends the ticks there;
    `tickMany_of_neverDies`: one that does not gets a tone for each.
-/
import Chip8.Proofs.History
import Chip8.Proofs.Machine.Event
import Chip8.Scheduler.Cpu

namespace Chip8

/-! ## 1. More ticks than enough -/

section Enough

variable {m : Machine}

theorem toneDue_eq_false (h : m.sound.count.toNat = 0) : m.toneDue = false := by
  have hcount : m.sound.count = 0 := UInt8.toNat_inj.mp h
  rw [Machine.toneDue, Timer.expires, hcount]
  rfl

theorem tick_eq_self {t : Timer} (h : t.count.toNat = 0) : t.tick = t := by
  have hcount : t.count = 0 := UInt8.toNat_inj.mp h
  rw [Timer.tick, if_pos hcount]

/-- Ticks of timers that have run out. -/
theorem tickMany_of_run_out (sink : Sink) (hdelay : m.delay.count.toNat = 0)
    (hsound : m.sound.count.toNat = 0) (count : Nat) :
    tickMany sink m count = ⟨m, sink, [], false⟩ := by
  have hm : m.tick = m := by
    rw [Machine.tick, tick_eq_self hdelay, tick_eq_self hsound]
  induction count with
  | zero => rfl
  | succ count ih =>
    rw [tickMany, toneDue_eq_false hsound, if_neg (by decide), hm]
    exact ih

/-- **Ticks behind the end of both timers change nothing.** -/
theorem tickMany_add_of_le (sink : Sink) {enough : Nat} (hdelay : m.delay.count.toNat ≤ enough)
    (hsound : m.sound.count.toNat ≤ enough) (more : Nat) :
    tickMany sink m (enough + more) = tickMany sink m enough := by
  induction enough generalizing sink m with
  | zero =>
    have hdelay' : m.delay.count.toNat = 0 := by omega
    have hsound' : m.sound.count.toNat = 0 := by omega
    rw [tickMany_of_run_out sink hdelay' hsound', tickMany_of_run_out sink hdelay' hsound']
  | succ enough ih =>
    have hdelay' : m.tick.delay.count.toNat ≤ enough := by
      have h := Timer.toNat_count_tick m.delay
      show m.delay.tick.count.toNat ≤ enough
      omega
    have hsound' : m.tick.sound.count.toNat ≤ enough := by
      have h := Timer.toNat_count_tick m.sound
      show m.sound.tick.count.toNat ≤ enough
      omega
    rw [Nat.succ_add, tickMany, tickMany, ih sink hdelay' hsound',
      ih (sink.given [.beep]) hdelay' hsound']

/-- **The ticks that are left out would have changed nothing.** -/
theorem tickMany_enough (sink : Sink) (m : Machine) (count : Nat) :
    tickMany sink m (min count enoughTicks) = tickMany sink m count := by
  by_cases h : count ≤ enoughTicks
  · rw [Nat.min_eq_left h]
  · obtain ⟨more, rfl⟩ := Nat.exists_eq_add_of_le (Nat.le_of_not_le h)
    have hdelay := m.delay.count.toNat_lt
    have hsound := m.sound.count.toNat_lt
    rw [Nat.min_eq_right (Nat.le_add_right _ _), tickMany_add_of_le sink]
    · show m.delay.count.toNat ≤ 255
      omega
    · show m.sound.count.toNat ≤ 255
      omega

end Enough

/-! ## 2. Ticks that end the sound timer -/

/-- The moves of so many ticks. -/
def ticks (count : Nat) : List Move := List.replicate count (.touch .tick)

/-- Whether a move is a tick that reports the end of the sound timer. -/
def Move.endsTone (m : Machine) : Move → Bool
  | .touch .tick => m.toneDue
  | _ => false

/-- **How many of the moves are ticks that report the end of the sound timer.** -/
def Machine.expiries (m : Machine) (moves : List Move) : Nat :=
  occurrences Machine.afterMove Move.endsTone m moves

/-- The tones that moves call for, one for each of these ticks. -/
def Machine.tones (m : Machine) (moves : List Move) : List Tone :=
  List.replicate (m.expiries moves) .beep

section Expiries

variable {m : Machine}

theorem Machine.tones_append (m : Machine) (earlier later : List Move) :
    m.tones (earlier ++ later) = m.tones earlier ++ (m.afterMoves earlier).tones later := by
  have hcount : m.expiries (earlier ++ later) =
      m.expiries earlier + (m.afterMoves earlier).expiries later := occurrences_append earlier later
  rw [tones, tones, tones, hcount, List.replicate_append_replicate]

/-- A step calls for none. -/
theorem Machine.tones_step (m : Machine) (rest : List Move) :
    m.tones (.step :: rest) = m.step.1.tones rest :=
  congrArg (List.replicate · Tone.beep) (Nat.zero_add _)

theorem toneDue_iff : m.toneDue = true ↔ m.sound.count.toNat = 1 := by
  rw [Machine.toneDue, Timer.expires, beq_iff_eq, ← UInt8.toNat_inj]
  rfl

theorem toNat_sound_tick (m : Machine) : m.tick.sound.count.toNat = m.sound.count.toNat - 1 :=
  m.sound.toNat_count_tick

theorem toNat_sound_ticks (m : Machine) (count : Nat) :
    (m.afterMoves (ticks count)).sound.count.toNat = m.sound.count.toNat - count := by
  induction count generalizing m with
  | zero => rfl
  | succ count ih =>
    show (m.tick.afterMoves (ticks count)).sound.count.toNat = _
    rw [ih, toNat_sound_tick]
    omega

/-- **Ticks one after the other report one end of the sound timer**, if there are enough of them. -/
theorem expiries_ticks (m : Machine) (count : Nat) :
    m.expiries (ticks count) =
      if 1 ≤ m.sound.count.toNat ∧ m.sound.count.toNat ≤ count then 1 else 0 := by
  induction count generalizing m with
  | zero =>
    rw [if_neg (by omega)]
    rfl
  | succ count ih =>
    have htick := toNat_sound_tick m
    show m.toneDue.toNat + m.tick.expiries (ticks count) = _
    rw [ih, htick]
    by_cases hdue : m.sound.count.toNat = 1
    · rw [toneDue_iff.mpr hdue, if_neg (by omega), if_pos (by omega)]
      rfl
    · have hquiet : m.toneDue = false := Bool.eq_false_iff.mpr fun h => hdue (toneDue_iff.mp h)
      have hsame : (1 ≤ m.sound.count.toNat - 1 ∧ m.sound.count.toNat - 1 ≤ count) ↔
          (1 ≤ m.sound.count.toNat ∧ m.sound.count.toNat ≤ count + 1) := by omega
      rw [hquiet, Bool.toNat_false, Nat.zero_add]
      simp only [hsame]

end Expiries

/-! ## 3. Sinks -/

namespace Sink

variable {sink : Sink}

/-- **No tone is the end of the sink**, whatever it is given. -/
def NeverDies (sink : Sink) : Prop := ∀ tones tone, (sink.given tones).play tone ≠ none

/-- What a sink shows of tones, as long as it lives. -/
def shown (sink : Sink) : List Tone → List Audio
  | [] => []
  | tone :: rest =>
    match sink.play tone with
    | none => []
    | some shown => shown ++ (sink.given [tone]).shown rest

theorem neverDies_handOn : handOn.NeverDies := fun _ _ h => nomatch h

theorem given_nil (sink : Sink) : sink.given [] = sink := by
  rw [given, List.append_nil]

theorem given_append (sink : Sink) (earlier later : List Tone) :
    sink.given (earlier ++ later) = (sink.given earlier).given later := by
  simp only [given, List.append_assoc]

theorem NeverDies.given (h : sink.NeverDies) (tones : List Tone) :
    (sink.given tones).NeverDies := by
  intro more tone
  rw [← given_append]
  exact h _ tone

theorem NeverDies.exists_play (h : sink.NeverDies) (tone : Tone) :
    ∃ shown, sink.play tone = some shown := by
  have hlives := h [] tone
  rw [given_nil] at hlives
  exact Option.ne_none_iff_exists'.mp hlives

theorem shown_of_play {tone : Tone} {shown : List Audio} (h : sink.play tone = some shown) :
    sink.shown [tone] = shown := by
  rw [Sink.shown, h, Sink.shown]
  exact List.append_nil shown

theorem NeverDies.shown_append (h : sink.NeverDies) (earlier later : List Tone) :
    sink.shown (earlier ++ later) = sink.shown earlier ++ (sink.given earlier).shown later := by
  induction earlier generalizing sink with
  | nil => rw [given_nil, List.nil_append, Sink.shown, List.nil_append]
  | cons tone rest ih =>
    obtain ⟨shown, hplay⟩ := h.exists_play tone
    have hgiven : sink.given (tone :: rest) = (sink.given [tone]).given rest :=
      sink.given_append [tone] rest
    rw [List.cons_append, Sink.shown, Sink.shown, hplay, ih (h.given [tone]), hgiven,
      List.append_assoc]

end Sink

/-! ## 4. Ticks as moves -/

section Ticked

variable {sink : Sink} {m : Machine}

/-- **While the sound timer is silent** there is no tone. -/
theorem tickMany_of_silent (sink : Sink) (hsound : m.sound.count.toNat = 0) (count : Nat) :
    tickMany sink m count = ⟨m.afterMoves (ticks count), sink, [], false⟩ := by
  induction count generalizing m with
  | zero => rfl
  | succ count ih =>
    have htick : m.tick.sound.count.toNat = 0 := by rw [toNat_sound_tick m, hsound]
    rw [tickMany, toneDue_eq_false hsound, if_neg Bool.false_ne_true, ih htick]
    rfl

/-- **With any sink the ticks are ticks of the machine.** There are too few of them to end the sound
    timer; or one ends it, and the sink shows its tone; or the sink dies of that tone, and the ticks
    behind it are not done. -/
theorem tickMany_cases (sink : Sink) (m : Machine) (count : Nat) :
    (¬ (1 ≤ m.sound.count.toNat ∧ m.sound.count.toNat ≤ count) ∧
      tickMany sink m count = ⟨m.afterMoves (ticks count), sink, [], false⟩) ∨
    ((1 ≤ m.sound.count.toNat ∧ m.sound.count.toNat ≤ count) ∧ ∃ shown,
      sink.play .beep = some shown ∧ tickMany sink m count =
        ⟨m.afterMoves (ticks count), sink.given [.beep], shown.map .audio, false⟩) ∨
    ((1 ≤ m.sound.count.toNat ∧ m.sound.count.toNat ≤ count) ∧ sink.play .beep = none ∧
      tickMany sink m count =
        ⟨m.afterMoves (ticks m.sound.count.toNat), sink.given [.beep], [], true⟩) := by
  induction count generalizing m with
  | zero => exact .inl ⟨by omega, rfl⟩
  | succ count ih =>
    have htick := toNat_sound_tick m
    by_cases hdue : m.sound.count.toNat = 1
    · -- this tick ends the sound timer, and none of those behind it does
      right
      rw [tickMany, if_pos (toneDue_iff.mpr hdue), hdue]
      cases hplay : sink.play .beep with
      | none => exact .inr ⟨by omega, rfl, rfl⟩
      | some shown =>
        refine .inl ⟨by omega, shown, rfl, ?_⟩
        dsimp only
        rw [tickMany_of_silent _ (by omega), List.append_nil]
        rfl
    · -- it does not, and all is up to those behind it
      have hquiet : m.toneDue = false := Bool.eq_false_iff.mpr fun h => hdue (toneDue_iff.mp h)
      have hmany : tickMany sink m (count + 1) = tickMany sink m.tick count := by
        rw [tickMany, hquiet, if_neg Bool.false_ne_true]
      rw [hmany]
      rcases ih m.tick with ⟨hfew, hticks⟩ | ⟨henough, hticks⟩ | ⟨henough, hdies, hticks⟩
      · exact .inl ⟨by omega, hticks⟩
      · exact .inr (.inl ⟨by omega, hticks⟩)
      · have hleft : m.sound.count.toNat = m.tick.sound.count.toNat + 1 := by omega
        refine .inr (.inr ⟨by omega, hdies, ?_⟩)
        rw [hleft]
        exact hticks

/-- **With a sink that does not die** all the ticks are done, and the sink gets a tone for each of
    them that ends the sound timer. -/
theorem tickMany_of_neverDies (h : sink.NeverDies) (m : Machine) (count : Nat) :
    let tones := m.tones (ticks count)
    tickMany sink m count =
      ⟨m.afterMoves (ticks count), sink.given tones, (sink.shown tones).map .audio, false⟩ := by
  intro tones
  have htones : tones = List.replicate (m.expiries (ticks count)) .beep := rfl
  rw [expiries_ticks] at htones
  rcases tickMany_cases sink m count with ⟨hfew, hticks⟩ | ⟨henough, shown, hplay, hticks⟩ |
    ⟨-, hdies, -⟩
  · rw [if_neg hfew] at htones
    rw [hticks, htones, List.replicate_zero, Sink.given_nil]
    rfl
  · rw [if_pos henough] at htones
    rw [hticks, htones, List.replicate_one, Sink.shown_of_play hplay]
  · obtain ⟨shown, hplay⟩ := h.exists_play .beep
    rw [hdies] at hplay
    cases hplay

end Ticked

end Chip8
