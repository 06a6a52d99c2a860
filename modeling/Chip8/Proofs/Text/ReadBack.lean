/-
  File:      Chip8/Proofs/Text/ReadBack.lean
  Subject:   numbers and words that can be read back from a text

  * `Hex.getElem?_digits`: the upper-case digits, in their order;
  * `Hex.value?`: the number that a text of hexadecimal digits denotes; `Hex.value?_fixed` and
    `Hex.value?_padded`: a number written in hexadecimal is read back, so `Hex.padded_inj`;
  * `decimal_inj`: so is one written in decimal;
  * `Hex.not_mem_padded`, `not_mem_decimal`: nothing but digits is written;
  * `intercalate_inj`: words that do not hold the separator are told apart by the text that they
    make with separators between them; `append_cons_inj` cuts a text behind a part;
  * `mapM_map_eq_some`: parts that are read one by one are read together.
-/
import Chip8.Text.Hex
import Chip8.Text.Numeral

namespace Chip8

namespace Hex

/-! ## 1. Hexadecimal numbers -/

/-- The number that a text of hexadecimal digits denotes. -/
def value? (text : List Char) : Option Nat :=
  (Numeral.hexDigits? text).map Numeral.ofHexDigits

/-- **The digits in their order.** -/
theorem getElem?_digits {n : Nat} (h : n < 16) :
    "0123456789ABCDEF".toList[n]? = some (digit n) := by
  have hall : ∀ d : Fin 16, "0123456789ABCDEF".toList[d.val]? = some (digit d.val) := by decide
  exact hall ⟨n, h⟩

theorem hexDigit?_digit {n : Nat} (h : n < 16) : Numeral.hexDigit? (digit n) = some n := by
  have hall : ∀ d : Fin 16, Numeral.hexDigit? (digit d.val) = some d.val := by decide
  exact hall ⟨n, h⟩

/-- One digit more makes sixteen times the number and the digit. -/
theorem value?_concat {text : List Char} {c : Char} {n d : Nat} (htext : value? text = some n)
    (hc : Numeral.hexDigit? c = some d) : value? (text ++ [c]) = some (n * 16 + d) := by
  obtain ⟨digits, hdigits, rfl⟩ := Option.map_eq_some_iff.mp htext
  rw [Numeral.hexDigits?] at hdigits
  simp [value?, Numeral.hexDigits?, List.mapM_append, hdigits, hc, Numeral.ofHexDigits]

/-- **The last digits of a number** are read back as what they are of it. -/
theorem value?_fixed (width n : Nat) : value? (fixed width n) = some (n % Nat.pow 16 width) := by
  induction width generalizing n with
  | zero =>
    show some 0 = some (n % 1)
    rw [Nat.mod_one]
  | succ width ih =>
    rw [fixed, value?_concat (ih (n / 16)) (hexDigit?_digit (Nat.mod_lt n (by decide)))]
    have hsplit : n % (16 * Nat.pow 16 width) = n % 16 + 16 * (n / 16 % Nat.pow 16 width) :=
      Nat.mod_mul
    have hpow : Nat.pow 16 (width + 1) = 16 * Nat.pow 16 width := Nat.pow_succ'
    rw [hpow, hsplit, Nat.add_comm, Nat.mul_comm]

theorem lt_pow_digitCount (n : Nat) : n < Nat.pow 16 (digitCount n) := by
  have hlog : n < 2 ^ (n.log2 + 1) := Nat.lt_log2_self
  have hle : n.log2 + 1 ≤ 4 * digitCount n := by
    rw [digitCount]
    omega
  have hpow : Nat.pow 16 (digitCount n) = 2 ^ (4 * digitCount n) := (Nat.pow_mul 2 4 _).symm
  rw [hpow]
  exact Nat.lt_of_lt_of_le hlog (Nat.pow_le_pow_right (by decide) hle)

theorem toList_padded (width n : Nat) :
    (padded width n).toList = fixed (max width (digitCount n)) n := by
  rw [padded, String.toList_ofList]

/-- **A number written in hexadecimal** is read back. -/
theorem value?_padded (width n : Nat) : value? (padded width n).toList = some n := by
  have hlt : n < Nat.pow 16 (max width (digitCount n)) :=
    Nat.lt_of_lt_of_le (lt_pow_digitCount n)
      (Nat.pow_le_pow_right (by decide) (Nat.le_max_right width (digitCount n)))
  rw [toList_padded, value?_fixed, Nat.mod_eq_of_lt hlt]

theorem padded_inj {width a b : Nat} : padded width a = padded width b ↔ a = b := by
  constructor
  · intro h
    have hvalue := value?_padded width a
    rw [h, value?_padded] at hvalue
    exact (Option.some.inj hvalue).symm
  · rintro rfl
    rfl

/-- A number that fits in a width has no more digits. -/
theorem toList_padded_of_lt {width n : Nat} (hwidth : 0 < width) (h : n < Nat.pow 16 width) :
    (padded width n).toList = fixed width n := by
  have hcount : digitCount n ≤ width := by
    by_cases hzero : n = 0
    · subst hzero
      exact hwidth
    · have hpow : Nat.pow 16 width = 2 ^ (4 * width) := (Nat.pow_mul 2 4 _).symm
      rw [hpow, ← Nat.log2_lt hzero] at h
      rw [digitCount]
      omega
  rw [toList_padded, Nat.max_eq_left hcount]

theorem hexDigit?_of_mem_fixed {width n : Nat} {c : Char} (h : c ∈ fixed width n) :
    Numeral.hexDigit? c ≠ none := by
  induction width generalizing n with
  | zero => cases h
  | succ width ih =>
    rcases List.mem_append.mp h with hfirst | hlast
    · exact ih hfirst
    · rw [List.mem_singleton.mp hlast, hexDigit?_digit (Nat.mod_lt n (by decide))]
      exact Option.some_ne_none _

theorem not_mem_fixed {c : Char} (hc : Numeral.hexDigit? c = none) (width n : Nat) :
    c ∉ fixed width n := fun h => hexDigit?_of_mem_fixed h hc

theorem not_mem_padded {c : Char} (hc : Numeral.hexDigit? c = none) (width n : Nat) :
    c ∉ (padded width n).toList := by
  rw [toList_padded]
  exact not_mem_fixed hc _ n

end Hex

/-! ## 2. Decimal numbers -/

theorem not_mem_decimal {c : Char} (hc : c.isDigit = false) (n : Nat) :
    c ∉ (toString n).toList := by
  rw [Nat.toString_eq_ofList_toDigits, String.toList_ofList]
  intro h
  have hdigit := Nat.isDigit_of_mem_toDigits (by decide) (by decide) h
  rw [hc] at hdigit
  cases hdigit

/-- **A number written in decimal** is read back. -/
theorem ofDigitChars_decimal (n : Nat) : Nat.ofDigitChars 10 (toString n).toList 0 = n := by
  rw [Nat.toString_eq_ofList_toDigits, String.toList_ofList]
  exact Nat.ofDigitChars_toDigits (by decide) (by decide)

theorem decimal_inj {a b : Nat} : toString a = toString b ↔ a = b := by
  constructor
  · intro h
    rw [← ofDigitChars_decimal a, h, ofDigitChars_decimal]
  · rintro rfl
    rfl

/-! ## 3. Words -/

/-- **Words without the separator** are told apart by the text they make. -/
theorem intercalate_inj {separator : Char} {words others : List (List Char)}
    (hwords : ∀ word ∈ words, separator ∉ word) (hothers : ∀ word ∈ others, separator ∉ word)
    (hne : words ≠ []) (hne' : others ≠ []) :
    [separator].intercalate words = [separator].intercalate others ↔ words = others := by
  constructor
  · intro h
    rw [← List.splitOn_intercalate separator hwords hne, h,
      List.splitOn_intercalate separator hothers hne']
  · rintro rfl
    rfl

/-- So are words of which it is known how many they are. -/
theorem intercalate_inj_of_length {separator : Char} {words others : List (List Char)}
    (hwords : ∀ word ∈ words, separator ∉ word) (hothers : ∀ word ∈ others, separator ∉ word)
    (hlength : words.length = others.length) :
    [separator].intercalate words = [separator].intercalate others ↔ words = others := by
  by_cases hnil : words = []
  · subst hnil
    simp [List.length_eq_zero_iff.mp hlength.symm]
  · have hnil' : others ≠ [] := by
      rw [← List.length_pos_iff, ← hlength, List.length_pos_iff]
      exact hnil
    exact intercalate_inj hwords hothers hnil hnil'

theorem not_mem_intercalate {c separator : Char} {words : List (List Char)}
    (hwords : ∀ word ∈ words, c ∉ word) (hc : c ≠ separator) :
    c ∉ [separator].intercalate words := by
  induction words with
  | nil => exact List.not_mem_nil
  | cons first rest ih =>
    have hfirst := hwords first List.mem_cons_self
    have hrest := ih fun word hword => hwords word (List.mem_cons_of_mem first hword)
    cases rest with
    | nil => simpa using hfirst
    | cons second more => simp [List.intercalate_cons_cons, hfirst, hc, hrest]

/-- A text is told by its pieces between separators. -/
theorem splitOn_inj (separator : Char) {text other : List Char} :
    text.splitOn separator = other.splitOn separator ↔ text = other := by
  constructor
  · intro h
    have htext : [separator].intercalate (text.splitOn separator) = text :=
      List.intercalate_splitOn separator
    rw [← htext, h, List.intercalate_splitOn]
  · rintro rfl
    rfl

/-- **A text is cut behind a part** of which it is known how many separators it holds. -/
theorem append_cons_inj {separator : Char} {first other rest rest' : List Char}
    (h : (first.splitOn separator).length = (other.splitOn separator).length) :
    first ++ separator :: rest = other ++ separator :: rest' ↔ first = other ∧ rest = rest' := by
  constructor
  · intro heq
    have hsplit := congrArg (List.splitOn separator) heq
    rw [List.splitOn_append_cons_self, List.splitOn_append_cons_self] at hsplit
    obtain ⟨hfirst, hrest⟩ := List.append_inj hsplit h
    exact ⟨(splitOn_inj separator).mp hfirst, (splitOn_inj separator).mp hrest⟩
  · rintro ⟨rfl, rfl⟩
    rfl

/-- A text is cut at its first separator. -/
theorem append_cons_inj_of_not_mem {separator : Char} {first other rest rest' : List Char}
    (hfirst : separator ∉ first) (hother : separator ∉ other) :
    first ++ separator :: rest = other ++ separator :: rest' ↔ first = other ∧ rest = rest' := by
  refine append_cons_inj ?_
  rw [List.splitOn_eq_singleton hfirst, List.splitOn_eq_singleton hother]
  rfl

/-- Lines that each end with a newline have nothing behind the last one. -/
theorem flatMap_newline (lines : List (List Char)) :
    lines.flatMap (· ++ ['\n']) = ['\n'].intercalate (lines ++ [[]]) := by
  induction lines with
  | nil => rfl
  | cons first rest ih =>
    rw [List.flatMap_cons, ih]
    cases rest with
    | nil => simp [List.intercalate_cons_cons]
    | cons second more => simp [List.intercalate_cons_cons]

/-! ## 4. Lists of parts -/

/-- Parts that are read one by one are read together. -/
theorem mapM_map_eq_some {α β γ : Type} {write : α → β} {read : β → Option γ} {told : α → γ}
    (parts : List α) (h : ∀ a ∈ parts, read (write a) = some (told a)) :
    (parts.map write).mapM read = some (parts.map told) := by
  induction parts with
  | nil => rfl
  | cons a rest ih =>
    have hrest := ih fun b hb => h b (List.mem_cons_of_mem a hb)
    simp [h a List.mem_cons_self, hrest]

end Chip8
