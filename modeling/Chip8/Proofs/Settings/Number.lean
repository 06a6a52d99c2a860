/-
  File:      Chip8/Proofs/Settings/Number.lean
  Subject:   the texts that denote a clock or a scale

  * `ClockAnswers`, `ScaleAnswers`: what has to be answered to a text; `readClock_eq_iff`,
    `readScale_eq_iff`: that is what is answered;
  * `numbers_read_exactly`: each answer with the texts that get it, and the words of the refusals.

  Both are numerals with a bound set by the size of the number they are kept in: 32 bits for a
  clock, 64 for a scale.
-/
import Chip8.Proofs.Text.Numeral
import Chip8.Settings.Value

namespace Chip8.Settings

open Numeral

variable {text : String}

/-! ## 1. Clocks -/

/-- **What has to be answered to a text that should be a clock.** -/
inductive ClockAnswers (text : String) : Except ValueRefusal UInt32 → Prop where
  | clock {hz : UInt32} : Denotes text hz.toNat → 1 ≤ hz.toNat → hz.toNat ≤ 1000000000 →
    ClockAnswers text (.ok hz)
  | tooSlow : Denotes text 0 → ClockAnswers text (.error .clockTooSlow)
  | tooFast {n : Nat} : Denotes text n → 1000000000 < n → n < 0x100000000 →
    ClockAnswers text (.error .clockTooFast)
  | noClock {reason : Refusal} : read 0x100000000 text = .error reason →
    ClockAnswers text (.error (.noClock reason))

theorem read_clock_iff {n : Nat} :
    read 0x100000000 text = .ok n ↔ Denotes text n ∧ n < 0x100000000 :=
  read_eq_ok_iff (by decide)

theorem readClock_of_ok {n : Nat} (h : read 0x100000000 text = .ok n) :
    readClock text =
      if n = 0 then .error .clockTooSlow
      else if 1000000000 < n then .error .clockTooFast
      else .ok (UInt32.ofNat n) := by
  rw [readClock, h]
  rfl

theorem readClock_of_error {reason : Refusal} (h : read 0x100000000 text = .error reason) :
    readClock text = .error (.noClock reason) := by
  rw [readClock, h]

theorem clockAnswers_readClock (text : String) : ClockAnswers text (readClock text) := by
  cases hread : read 0x100000000 text with
  | error reason =>
    rw [readClock_of_error hread]
    exact .noClock hread
  | ok n =>
    obtain ⟨hdenotes, hlt⟩ := read_clock_iff.mp hread
    rw [readClock_of_ok hread]
    split
    · rename_i hzero
      subst hzero
      exact .tooSlow hdenotes
    · split
      · rename_i hfast
        exact .tooFast hdenotes hfast hlt
      · have htoNat : (UInt32.ofNat n).toNat = n := UInt32.toNat_ofNat_of_lt' hlt
        refine .clock ?_ ?_ ?_
        · rw [htoNat]
          exact hdenotes
        · omega
        · omega

theorem readClock_eq_iff {answer : Except ValueRefusal UInt32} :
    readClock text = answer ↔ ClockAnswers text answer := by
  constructor
  · intro h
    rw [← h]
    exact clockAnswers_readClock text
  · intro h
    cases h with
    | @clock hz hdenotes hlow hhigh =>
      rw [readClock_of_ok (read_clock_iff.mpr ⟨hdenotes, hz.toNat_lt⟩), if_neg (by omega),
        if_neg (by omega), UInt32.ofNat_toNat]
    | tooSlow hdenotes =>
      rw [readClock_of_ok (read_clock_iff.mpr ⟨hdenotes, by decide⟩), if_pos rfl]
    | tooFast hdenotes hfast hlt =>
      rw [readClock_of_ok (read_clock_iff.mpr ⟨hdenotes, hlt⟩), if_neg (by omega), if_pos hfast]
    | noClock h => exact readClock_of_error h

theorem readClock_eq_ok_iff {hz : UInt32} :
    readClock text = .ok hz ↔ Denotes text hz.toNat ∧ 1 ≤ hz.toNat ∧ hz.toNat ≤ 1000000000 := by
  rw [readClock_eq_iff]
  constructor
  · intro h
    cases h with
    | clock hdenotes hlow hhigh => exact ⟨hdenotes, hlow, hhigh⟩
  · intro h
    exact .clock h.1 h.2.1 h.2.2

theorem readClock_eq_tooSlow_iff : readClock text = .error .clockTooSlow ↔ Denotes text 0 := by
  rw [readClock_eq_iff]
  constructor
  · intro h
    cases h with
    | tooSlow hdenotes => exact hdenotes
  · exact .tooSlow

theorem readClock_eq_tooFast_iff :
    readClock text = .error .clockTooFast ↔
      ∃ n, Denotes text n ∧ 1000000000 < n ∧ n < 0x100000000 := by
  rw [readClock_eq_iff]
  constructor
  · intro h
    cases h with
    | tooFast hdenotes hfast hlt => exact ⟨_, hdenotes, hfast, hlt⟩
  · intro h
    obtain ⟨n, hdenotes, hfast, hlt⟩ := h
    exact .tooFast hdenotes hfast hlt

theorem readClock_eq_noClock_iff {reason : Refusal} :
    readClock text = .error (.noClock reason) ↔ read 0x100000000 text = .error reason := by
  rw [readClock_eq_iff]
  constructor
  · intro h
    cases h with
    | noClock h => exact h
  · exact .noClock

/-- Of two characters that offend the first one decides. -/
example : readClock "99999999999x" = .error (.noClock .tooLarge) ∧
    readClock "99x99999999999" = .error (.noClock .notADigit) := by
  decide

/-! ## 2. Scales -/

/-- **What has to be answered to a text that should be a scale.** -/
inductive ScaleAnswers (text : String) : Except ValueRefusal Nat → Prop where
  | scale {n : Nat} : Denotes text n → n ∈ scales → ScaleAnswers text (.ok n)
  | unknown {n : Nat} : Denotes text n → n < 0x10000000000000000 → n ∉ scales →
    ScaleAnswers text (.error .unknownScale)
  | notANumber : (∀ n < 0x10000000000000000, ¬ Denotes text n) →
    ScaleAnswers text (.error (.notANumber text))

theorem read_scale_iff {n : Nat} :
    read 0x10000000000000000 text = .ok n ↔ Denotes text n ∧ n < 0x10000000000000000 :=
  read_eq_ok_iff (by decide)

theorem readScale_of_ok {n : Nat} (h : read 0x10000000000000000 text = .ok n) :
    readScale text = if n ∈ scales then .ok n else .error .unknownScale := by
  rw [readScale, h]

theorem readScale_of_not (h : ∀ n < 0x10000000000000000, ¬ Denotes text n) :
    readScale text = .error (.notANumber text) := by
  cases hread : read 0x10000000000000000 text with
  | error reason => rw [readScale, hread]
  | ok n =>
    obtain ⟨hdenotes, hlt⟩ := read_scale_iff.mp hread
    exact absurd hdenotes (h n hlt)

theorem lt_of_mem_scales {n : Nat} (h : n ∈ scales) : n < 0x10000000000000000 := by
  have hall : ∀ scale ∈ scales, scale < 0x10000000000000000 := by decide
  exact hall n h

theorem scaleAnswers_readScale (text : String) : ScaleAnswers text (readScale text) := by
  by_cases h : ∃ n < 0x10000000000000000, Denotes text n
  · obtain ⟨n, hlt, hdenotes⟩ := h
    rw [readScale_of_ok (read_scale_iff.mpr ⟨hdenotes, hlt⟩)]
    split
    · rename_i hmem
      exact .scale hdenotes hmem
    · rename_i hmem
      exact .unknown hdenotes hlt hmem
  · have hnone : ∀ n < 0x10000000000000000, ¬ Denotes text n :=
      fun n hlt hdenotes => h ⟨n, hlt, hdenotes⟩
    rw [readScale_of_not hnone]
    exact .notANumber hnone

theorem readScale_eq_iff {answer : Except ValueRefusal Nat} :
    readScale text = answer ↔ ScaleAnswers text answer := by
  constructor
  · intro h
    rw [← h]
    exact scaleAnswers_readScale text
  · intro h
    cases h with
    | scale hdenotes hmem =>
      rw [readScale_of_ok (read_scale_iff.mpr ⟨hdenotes, lt_of_mem_scales hmem⟩), if_pos hmem]
    | unknown hdenotes hlt hmem =>
      rw [readScale_of_ok (read_scale_iff.mpr ⟨hdenotes, hlt⟩), if_neg hmem]
    | notANumber h => exact readScale_of_not h

theorem readScale_eq_ok_iff {n : Nat} :
    readScale text = .ok n ↔ Denotes text n ∧ n ∈ scales := by
  rw [readScale_eq_iff]
  constructor
  · intro h
    cases h with
    | scale hdenotes hmem => exact ⟨hdenotes, hmem⟩
  · intro h
    exact .scale h.1 h.2

theorem readScale_eq_notANumber_iff :
    readScale text = .error (.notANumber text) ↔
      (∀ n, ¬ Denotes text n) ∨ ∃ n, Denotes text n ∧ 0x10000000000000000 ≤ n := by
  rw [readScale_eq_iff]
  constructor
  · intro h
    cases h with
    | notANumber hnone =>
      by_cases hnumeral : ∃ n, Denotes text n
      · obtain ⟨n, hdenotes⟩ := hnumeral
        exact .inr ⟨n, hdenotes, Nat.le_of_not_lt fun hlt => hnone n hlt hdenotes⟩
      · exact .inl (not_exists.mp hnumeral)
  · intro h
    refine .notANumber fun n hlt hdenotes => ?_
    rcases h with hnone | ⟨large, hlarge, hle⟩
    · exact hnone n hdenotes
    · rw [hdenotes.unique hlarge] at hlt
      exact Nat.not_le.mpr hlt hle

theorem readScale_eq_unknown_iff :
    readScale text = .error .unknownScale ↔
      ∃ n < 0x10000000000000000, Denotes text n ∧ n ∉ scales := by
  rw [readScale_eq_iff]
  constructor
  · intro h
    cases h with
    | unknown hdenotes hlt hmem => exact ⟨_, hlt, hdenotes, hmem⟩
  · intro h
    obtain ⟨n, hlt, hdenotes, hmem⟩ := h
    exact .unknown hdenotes hlt hmem

/-! ## 3. Refusals -/

theorem refusal_of_readClock {refusal : ValueRefusal} (h : readClock text = .error refusal) :
    refusal = .clockTooSlow ∨ refusal = .clockTooFast ∨ ∃ reason, refusal = .noClock reason := by
  cases readClock_eq_iff.mp h with
  | tooSlow => exact .inl rfl
  | tooFast => exact .inr (.inl rfl)
  | noClock => exact .inr (.inr ⟨_, rfl⟩)

theorem refusal_of_readScale {refusal : ValueRefusal} (h : readScale text = .error refusal) :
    refusal = .notANumber text ∨ refusal = .unknownScale := by
  cases readScale_eq_iff.mp h with
  | unknown => exact .inr rfl
  | notANumber => exact .inl rfl

/-- **A clock and a scale are read exactly from their numerals**, a plus sign or none and at least
    one digit, with zeros in front or not. A clock lies between 1 and 1000000000 Hz. A numeral
    outside these bounds is too slow or too fast; what is no numeral below `2^32` is empty, or the
    first character that is no digit or makes the value reach `2^32` decides. A scale is one of six
    numbers; what is no numeral below `2^64` is no number, and any other number is answered with
    the list. -/
theorem numbers_read_exactly (text : String) :
    ((∀ hz : UInt32, readClock text = .ok hz ↔
        Denotes text hz.toNat ∧ 1 ≤ hz.toNat ∧ hz.toNat ≤ 1000000000) ∧
      (readClock text = .error .clockTooSlow ↔ Denotes text 0) ∧
      (readClock text = .error .clockTooFast ↔
        ∃ n, Denotes text n ∧ 1000000000 < n ∧ n < 0x100000000) ∧
      (readClock text = .error (.noClock .empty) ↔ text = "") ∧
      (readClock text = .error (.noClock .notADigit) ↔ text = "+" ∨
        ∃ before c, FirstOffence 0x100000000 (unsigned text.toList) before c ∧ c.isDigit = false) ∧
      (readClock text = .error (.noClock .tooLarge) ↔
        ∃ before c, FirstOffence 0x100000000 (unsigned text.toList) before c ∧ c.isDigit = true) ∧
      ∀ refusal, readClock text = .error refusal →
        refusal = .clockTooSlow ∨ refusal = .clockTooFast ∨ ∃ reason, refusal = .noClock reason) ∧
    ((∀ n, readScale text = .ok n ↔ Denotes text n ∧ n ∈ [1, 2, 4, 8, 16, 32]) ∧
      (readScale text = .error (.notANumber text) ↔
        (∀ n, ¬ Denotes text n) ∨ ∃ n, Denotes text n ∧ 0x10000000000000000 ≤ n) ∧
      (readScale text = .error .unknownScale ↔
        ∃ n < 0x10000000000000000, Denotes text n ∧ n ∉ [1, 2, 4, 8, 16, 32]) ∧
      ∀ refusal, readScale text = .error refusal →
        refusal = .notANumber text ∨ refusal = .unknownScale) ∧
    (ValueRefusal.clockTooSlow.message = "clock must be at least 1 Hz" ∧
      ValueRefusal.clockTooFast.message = "clock must be at most 1000000000 Hz" ∧
      (ValueRefusal.noClock .empty).message = "cannot parse integer from empty string" ∧
      (ValueRefusal.noClock .notADigit).message = "invalid digit found in string" ∧
      (ValueRefusal.noClock .tooLarge).message = "number too large to fit in target type" ∧
      (ValueRefusal.notANumber text).message = "'" ++ text ++ "' is not a number" ∧
      ValueRefusal.unknownScale.message = "scale must be one of [1, 2, 4, 8, 16, 32]") := by
  refine ⟨⟨?_, ?_, ?_, ?_, ?_, ?_, ?_⟩, ⟨?_, ?_, ?_, ?_⟩, ?_⟩
  · intro hz
    exact readClock_eq_ok_iff
  · exact readClock_eq_tooSlow_iff
  · exact readClock_eq_tooFast_iff
  · exact readClock_eq_noClock_iff.trans (read_eq_empty_iff (by decide))
  · exact readClock_eq_noClock_iff.trans (read_eq_notADigit_iff (by decide))
  · exact readClock_eq_noClock_iff.trans (read_eq_tooLarge_iff (by decide))
  · intro refusal h
    exact refusal_of_readClock h
  · intro n
    exact readScale_eq_ok_iff
  · exact readScale_eq_notANumber_iff
  · exact readScale_eq_unknown_iff
  · intro refusal h
    exact refusal_of_readScale h
  · exact ⟨rfl, by decide, rfl, rfl, rfl, rfl, by decide⟩

end Chip8.Settings
