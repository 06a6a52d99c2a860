/-
  File:      Chip8/Proofs/Text/Numeral.lean
  Subject:   the texts that denote a natural number, and where the others go wrong

  * `decimal`: the number that digits denote in base ten; `Denotes`: an optional plus sign and at
    least one digit, zeros in front or not;
  * `FirstOffence`: the first character that is no digit, or with which the value reaches a bound;
    `digits_or_offence`: without one a text is all digits of a number below the bound;
  * `readDigits_of_digits`, `readDigits_of_offence`: the reader gives the number, or says what is
    wrong with the first offending character;
  * `read_eq_ok_iff` and its siblings: which texts lead to which answer.
-/
import Chip8.Text.Numeral
import Mathlib.Data.List.Induction

namespace Chip8.Numeral

variable {bound n : Nat} {text : String} {digits before : List Char} {c : Char}

/-! ## 1. Digits -/

/-- The number that digits denote in base ten. -/
def decimal (digits : List Char) : Nat := Nat.ofDigitChars 10 digits 0

theorem decimal_concat (digits : List Char) (c : Char) :
    decimal (digits ++ [c]) = decimal digits * 10 + (c.toNat - 48) := by
  rw [decimal, Nat.ofDigitChars_append, Nat.ofDigitChars_cons, Nat.ofDigitChars_nil, Nat.mul_comm]
  rfl

theorem decimal_le_append (digits more : List Char) :
    decimal digits ≤ decimal (digits ++ more) := by
  induction more using List.reverseRecOn with
  | nil => exact Nat.le_of_eq (by rw [List.append_nil])
  | append_singleton more c ih =>
    rw [← List.append_assoc, decimal_concat]
    omega

theorem digit?_of_digit (h : c.isDigit = true) : digit? c = some (c.toNat - 48) := by
  obtain ⟨hlow, hhigh⟩ := Char.isDigit_iff_toNat.mp h
  exact if_pos ⟨hlow, hhigh⟩

theorem digit?_of_not_digit (h : c.isDigit = false) : digit? c = none := by
  refine if_neg fun hrange => ?_
  have hdigit : c.isDigit = true := Char.isDigit_iff_toNat.mpr ⟨hrange.1, hrange.2⟩
  rw [h] at hdigit
  cases hdigit

/-! ## 2. Offending characters -/

/-- A character that cannot stand behind the given digits: it is no digit, or with it the value
    reaches the bound. -/
def Offends (bound : Nat) (before : List Char) (c : Char) : Prop :=
  c.isDigit = false ∨ bound ≤ decimal (before ++ [c])

/-- **The first character from the left that offends**, and what stands in front of it. -/
structure FirstOffence (bound : Nat) (digits before : List Char) (c : Char) : Prop where
  here : before ++ [c] <+: digits
  offends : Offends bound before c
  first : ∀ earlier d, earlier ++ [d] <+: before → ¬ Offends bound earlier d

/-- Digits of a number below the bound. -/
def Fits (bound : Nat) (digits : List Char) : Prop :=
  (∀ c ∈ digits, c.isDigit = true) ∧ decimal digits < bound

theorem Fits.of_prefix (h : Fits bound digits) (hbefore : before <+: digits) :
    Fits bound before := by
  obtain ⟨behind, rfl⟩ := hbefore
  obtain ⟨hdigits, hlt⟩ := h
  exact ⟨fun c hc => hdigits c (List.mem_append_left behind hc),
    Nat.lt_of_le_of_lt (decimal_le_append before behind) hlt⟩

theorem Fits.not_offends (h : Fits bound (before ++ [c])) : ¬ Offends bound before c := by
  obtain ⟨hdigits, hlt⟩ := h
  intro hoffends
  rcases hoffends with hc | hle
  · rw [hdigits c (by simp)] at hc
    cases hc
  · exact Nat.not_le.mpr hlt hle

theorem Fits.concat (h : Fits bound before) (hc : ¬ Offends bound before c) :
    Fits bound (before ++ [c]) := by
  obtain ⟨hdigit, hlt⟩ := not_or.mp hc
  refine ⟨fun d hd => ?_, Nat.not_le.mp hlt⟩
  rcases List.mem_append.mp hd with hold | hnew
  · exact h.1 d hold
  · rw [List.mem_singleton.mp hnew]
    exact eq_true_of_ne_false hdigit

/-- **Without an offending character a text is all digits of a number below the bound.** -/
theorem digits_or_offence (hbound : 0 < bound) (digits : List Char) :
    Fits bound digits ∨ ∃ before c, FirstOffence bound digits before c := by
  -- one more character at the end: an offence found before stays the first one
  induction digits using List.reverseRecOn with
  | nil => exact .inl ⟨fun c hc => absurd hc List.not_mem_nil, hbound⟩
  | append_singleton digits c ih =>
    rcases ih with hfits | ⟨before, d, hoffence⟩
    · by_cases hc : Offends bound digits c
      · refine .inr ⟨digits, c, List.prefix_rfl, hc, fun earlier d hearlier => ?_⟩
        exact (hfits.of_prefix hearlier).not_offends
      · exact .inl (hfits.concat hc)
    · exact .inr ⟨before, d, hoffence.here.trans (List.prefix_append digits [c]),
        hoffence.offends, hoffence.first⟩

theorem FirstOffence.fits (h : FirstOffence bound digits before c) (hbound : 0 < bound) :
    Fits bound before := by
  rcases digits_or_offence hbound before with hfits | ⟨earlier, d, hoffence⟩
  · exact hfits
  · -- what offends among the characters in front would have been the first
    exact absurd hoffence.offends (h.first earlier d hoffence.here)

/-! ## 3. The reader behind digits -/

/-- The reader goes on behind digits of a number below the bound. -/
theorem readDigits_append (h : Fits bound before) (rest : List Char) :
    readDigits bound 0 (before ++ rest) = readDigits bound (decimal before) rest := by
  induction before using List.reverseRecOn generalizing rest with
  | nil => rfl
  | append_singleton before c ih =>
    have hlt := h.2
    rw [decimal_concat] at hlt
    rw [List.append_assoc, ih (h.of_prefix (List.prefix_append before [c])), List.singleton_append,
      readDigits, digit?_of_digit (h.1 c (by simp)), decimal_concat]
    exact if_pos hlt

/-- **Digits of a number below the bound are read as that number.** -/
theorem readDigits_of_digits (h : Fits bound digits) :
    readDigits bound 0 digits = .ok (decimal digits) := by
  have hread := readDigits_append h []
  rw [List.append_nil] at hread
  exact hread

/-- **The first offending character decides the refusal.** -/
theorem readDigits_of_offence (h : FirstOffence bound digits before c) (hbound : 0 < bound) :
    readDigits bound 0 digits = .error (if c.isDigit = true then .tooLarge else .notADigit) := by
  obtain ⟨rest, rfl⟩ := h.here
  rw [List.append_assoc, readDigits_append (h.fits hbound), List.singleton_append, readDigits]
  by_cases hc : c.isDigit = true
  · have hle : bound ≤ decimal before * 10 + (c.toNat - 48) := by
      rw [← decimal_concat]
      exact h.offends.resolve_left (by simp [hc])
    rw [digit?_of_digit hc, if_pos hc]
    exact if_neg (Nat.not_lt.mpr hle)
  · rw [digit?_of_not_digit (eq_false_of_ne_true hc), if_neg hc]

/-! ## 4. Numerals -/

/-- A text without the plus sign it may begin with. -/
def unsigned : List Char → List Char
  | '+' :: rest => rest
  | text => text

/-- **A text denotes a number**: a plus sign or none, and at least one ASCII digit. -/
def Denotes (text : String) (n : Nat) : Prop :=
  ∃ digits, (text.toList = digits ∨ text.toList = '+' :: digits) ∧ digits ≠ [] ∧
    (∀ c ∈ digits, c.isDigit = true) ∧ decimal digits = n

theorem toList_cases (text : String) :
    text.toList = unsigned text.toList ∨ text.toList = '+' :: unsigned text.toList := by
  unfold unsigned
  split
  · exact .inr ‹_›
  · exact .inl rfl

theorem unsigned_of_digits (h : ∀ c ∈ digits, c.isDigit = true) : unsigned digits = digits := by
  unfold unsigned
  split
  · have hplus : '+'.isDigit = true := h '+' List.mem_cons_self
    cases hplus
  · rfl

theorem denotes_iff :
    Denotes text n ↔ unsigned text.toList ≠ [] ∧
      (∀ c ∈ unsigned text.toList, c.isDigit = true) ∧ decimal (unsigned text.toList) = n := by
  constructor
  · intro h
    obtain ⟨digits, htext | htext, hne, hdigits, hvalue⟩ := h
    · rw [htext, unsigned_of_digits hdigits]
      exact ⟨hne, hdigits, hvalue⟩
    · rw [htext]
      exact ⟨hne, hdigits, hvalue⟩
  · intro h
    exact ⟨_, toList_cases text, h⟩

theorem Denotes.unique {m : Nat} (h : Denotes text n) (hm : Denotes text m) : n = m :=
  (denotes_iff.mp h).2.2.symm.trans (denotes_iff.mp hm).2.2

theorem unsigned_ne_nil (hempty : text ≠ "") (hsign : text ≠ "+") : unsigned text.toList ≠ [] := by
  intro h
  rcases toList_cases text with e | e
  · exact hempty (String.toList_inj.mp (e.trans h))
  · exact hsign (String.toList_inj.mp (e.trans (congrArg ('+' :: ·) h)))

/-! ## 5. The reader -/

/-- **Behind its sign a text is read as digits**, unless nothing stands there. -/
theorem read_eq_readDigits (h : unsigned text.toList ≠ []) :
    read bound text = readDigits bound 0 (unsigned text.toList) := by
  unfold read
  split
  · rename_i htext
    rw [htext] at h
    exact absurd rfl h
  · rename_i htext
    rw [htext] at h
    exact absurd rfl h
  · rename_i digits _ htext
    rw [htext]
    rfl
  · rename_i hother
    rcases toList_cases text with e | e
    · rw [← e]
    · exact absurd e (hother _)

theorem read_of_denotes (h : Denotes text n) (hn : n < bound) : read bound text = .ok n := by
  obtain ⟨hne, hdigits, rfl⟩ := denotes_iff.mp h
  rw [read_eq_readDigits hne, readDigits_of_digits ⟨hdigits, hn⟩]

theorem read_of_offence (h : FirstOffence bound (unsigned text.toList) before c)
    (hbound : 0 < bound) :
    read bound text = .error (if c.isDigit = true then .tooLarge else .notADigit) := by
  have hne : unsigned text.toList ≠ [] := by
    intro hnil
    have hhere := h.here
    rw [hnil, List.prefix_nil] at hhere
    exact List.append_ne_nil_of_right_ne_nil before (List.cons_ne_nil c []) hhere
  rw [read_eq_readDigits hne, readDigits_of_offence h hbound]

/-- **What a reader with a bound has to answer**: the number, if the text denotes one below the
    bound; that it is empty, if it is; else what is wrong with the first character that offends. A
    sign that stands alone counts as a character that is no digit. -/
inductive Answers (bound : Nat) (text : String) : Except Refusal Nat → Prop where
  | number {n : Nat} : Denotes text n → n < bound → Answers bound text (.ok n)
  | empty : text = "" → Answers bound text (.error .empty)
  | sign : text = "+" → Answers bound text (.error .notADigit)
  | notADigit {before : List Char} {c : Char} :
    FirstOffence bound (unsigned text.toList) before c → c.isDigit = false →
      Answers bound text (.error .notADigit)
  | tooLarge {before : List Char} {c : Char} :
    FirstOffence bound (unsigned text.toList) before c → c.isDigit = true →
      Answers bound text (.error .tooLarge)

theorem answers_read (hbound : 0 < bound) (text : String) :
    Answers bound text (read bound text) := by
  by_cases hempty : text = ""
  · subst hempty
    exact .empty rfl
  by_cases hsign : text = "+"
  · subst hsign
    exact .sign rfl
  rcases digits_or_offence hbound (unsigned text.toList) with hfits | ⟨before, c, h⟩
  · have hdenotes : Denotes text (decimal (unsigned text.toList)) :=
      denotes_iff.mpr ⟨unsigned_ne_nil hempty hsign, hfits.1, rfl⟩
    rw [read_of_denotes hdenotes hfits.2]
    exact .number hdenotes hfits.2
  · rw [read_of_offence h hbound]
    by_cases hc : c.isDigit = true
    · rw [if_pos hc]
      exact .tooLarge h hc
    · rw [if_neg hc]
      exact .notADigit h (eq_false_of_ne_true hc)

/-- **The reader gives the answer it has to give.** -/
theorem read_eq_iff (hbound : 0 < bound) {answer : Except Refusal Nat} :
    read bound text = answer ↔ Answers bound text answer := by
  constructor
  · intro h
    rw [← h]
    exact answers_read hbound text
  · intro h
    cases h with
    | number hdenotes hlt => exact read_of_denotes hdenotes hlt
    | empty h =>
      subst h
      rfl
    | sign h =>
      subst h
      rfl
    | notADigit h hc => rw [read_of_offence h hbound, if_neg (ne_true_of_eq_false hc)]
    | tooLarge h hc => rw [read_of_offence h hbound, if_pos hc]

theorem read_eq_ok_iff (hbound : 0 < bound) :
    read bound text = .ok n ↔ Denotes text n ∧ n < bound := by
  rw [read_eq_iff hbound]
  constructor
  · intro h
    cases h with
    | number hdenotes hlt => exact ⟨hdenotes, hlt⟩
  · intro h
    exact .number h.1 h.2

theorem read_eq_empty_iff (hbound : 0 < bound) :
    read bound text = .error .empty ↔ text = "" := by
  rw [read_eq_iff hbound]
  constructor
  · intro h
    cases h with
    | empty h => exact h
  · exact .empty

theorem read_eq_notADigit_iff (hbound : 0 < bound) :
    read bound text = .error .notADigit ↔ text = "+" ∨
      ∃ before c, FirstOffence bound (unsigned text.toList) before c ∧ c.isDigit = false := by
  rw [read_eq_iff hbound]
  constructor
  · intro h
    cases h with
    | sign h => exact .inl h
    | notADigit h hc => exact .inr ⟨_, _, h, hc⟩
  · intro h
    rcases h with hsign | ⟨before, c, hfirst, hc⟩
    · exact .sign hsign
    · exact .notADigit hfirst hc

theorem read_eq_tooLarge_iff (hbound : 0 < bound) :
    read bound text = .error .tooLarge ↔
      ∃ before c, FirstOffence bound (unsigned text.toList) before c ∧ c.isDigit = true := by
  rw [read_eq_iff hbound]
  constructor
  · intro h
    cases h with
    | tooLarge h hc => exact ⟨_, _, h, hc⟩
  · intro h
    obtain ⟨before, c, hfirst, hc⟩ := h
    exact .tooLarge hfirst hc

end Chip8.Numeral
