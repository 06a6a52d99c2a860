/-
  File:      Chip8/Proofs/Settings/Colour.lean
  Subject:   the texts that denote a colour

  * `ShowsColour`: six hexadecimal digits, behind at most one `#`, and the number they denote;
    `readColour_cases`: these texts are read, and every other one is refused by name;
  * `readColourByBytes`: the same reading by the bytes of the text, two of them cut out for each
    channel; `readColourByBytes_eq`: no cut falls outside the text or inside a character, and the
    answer is the same;
  * `colour_read_exactly`: all of this together, and that the digits of a colour are read back.
-/
import Chip8.Proofs.Settings.Value
import Chip8.Proofs.Text.HexDigits

namespace Chip8.Settings

variable {text : String} {value : Nat} {colour : Colour}

/-! ## 1. Six digits -/

/-- **A text shows a colour**: six hexadecimal digits of either case, with `#` in front or not. -/
def ShowsColour (text : String) (value : Nat) : Prop :=
  ∃ digits, (text.toList = digits ∨ text.toList = '#' :: digits) ∧ digits.length = 6 ∧
    Hex.Denotes digits value

theorem toList_cases (text : String) :
    text.toList = withoutHash text.toList ∨ text.toList = '#' :: withoutHash text.toList := by
  unfold withoutHash
  split
  · exact .inr ‹_›
  · exact .inl rfl

theorem withoutHash_of_digits {digits : List Char} (h : Hex.Denotes digits value) :
    withoutHash digits = digits := by
  obtain ⟨values, hshows, -⟩ := h
  unfold withoutHash
  split
  · cases hshows with
    | cons hfirst _ =>
      have hhash : Numeral.hexDigit? '#' = none := by decide
      rw [Hex.hexDigit?_eq_some_iff.mpr hfirst] at hhash
      cases hhash
  · rfl

theorem showsColour_iff :
    ShowsColour text value ↔ (withoutHash text.toList).length = 6 ∧
      Hex.Denotes (withoutHash text.toList) value := by
  constructor
  · intro h
    obtain ⟨digits, htext | htext, hlength, hvalue⟩ := h
    · rw [htext, withoutHash_of_digits hvalue]
      exact ⟨hlength, hvalue⟩
    · rw [htext]
      exact ⟨hlength, hvalue⟩
  · intro h
    exact ⟨_, toList_cases text, h.1, h.2⟩

theorem ShowsColour.le (h : ShowsColour text value) : value ≤ 0xFFFFFF := by
  obtain ⟨digits, -, hlength, hvalue⟩ := h
  have hlt := hvalue.lt
  rw [hlength] at hlt
  exact Nat.le_of_lt_succ hlt

/-- Behind at most one `#` there are six characters, all of them hexadecimal digits. -/
def HasSixDigits (text : String) : Prop :=
  (withoutHash text.toList).length = 6 ∧ ∀ c ∈ withoutHash text.toList, c.isHexDigit = true

theorem hasSixDigits_iff :
    HasSixDigits text ↔ ∃ r1 r0 g1 g0 b1 b0,
      List.Forall₂ Hex.Shows (withoutHash text.toList) [r1, r0, g1, g0, b1, b0] := by
  constructor
  · intro h
    obtain ⟨hlength, hdigits⟩ := h
    obtain ⟨values, hshows⟩ := Hex.exists_shows_iff.mpr hdigits
    rw [hshows.length_eq] at hlength
    match values, hlength with
    | [r1, r0, g1, g0, b1, b0], _ => exact ⟨r1, r0, g1, g0, b1, b0, hshows⟩
  · intro h
    obtain ⟨r1, r0, g1, g0, b1, b0, hshows⟩ := h
    exact ⟨hshows.length_eq, Hex.exists_shows_iff.mp ⟨_, hshows⟩⟩

theorem ShowsColour.hasSixDigits (h : ShowsColour text value) : HasSixDigits text := by
  obtain ⟨hlength, values, hshows, -⟩ := showsColour_iff.mp h
  exact ⟨hlength, Hex.exists_shows_iff.mp ⟨values, hshows⟩⟩

section Digits

variable {r1 r0 g1 g0 b1 b0 : Nat}

/-- The colour whose channels have the given digits. -/
def colourOfDigits (r1 r0 g1 g0 b1 b0 : Nat) : Colour :=
  Colour.ofChannels (UInt8.ofNat (r1 * 16 + r0)) (UInt8.ofNat (g1 * 16 + g0))
    (UInt8.ofNat (b1 * 16 + b0))

theorem readColour_of_shows
    (h : List.Forall₂ Hex.Shows (withoutHash text.toList) [r1, r0, g1, g0, b1, b0]) :
    readColour text = .ok (colourOfDigits r1 r0 g1 g0 b1 b0) := by
  rw [readColour, Hex.hexDigits?_eq_some_iff.mpr h]
  rfl

theorem showsColour_of_shows
    (h : List.Forall₂ Hex.Shows (withoutHash text.toList) [r1, r0, g1, g0, b1, b0]) :
    ShowsColour text (colourOfDigits r1 r0 g1 g0 b1 b0).toNat := by
  have hlt := fun d => Hex.lt_of_shows (d := d) h
  simp only [List.mem_cons, List.not_mem_nil, or_false, forall_eq_or_imp, forall_eq] at hlt
  refine showsColour_iff.mpr ⟨h.length_eq, _, h, ?_⟩
  rw [colourOfDigits, Colour.toNat_ofChannels]
  simp only [UInt8.toNat_ofNat', List.reverse_cons, List.reverse_nil, List.nil_append,
    List.cons_append, Nat.ofDigits_cons, Nat.ofDigits_nil]
  omega

end Digits

theorem readColour_of_not_hasSixDigits (h : ¬ HasSixDigits text) :
    readColour text = .error (.notAColour text) := by
  unfold readColour
  split
  · rename_i hread
    exact absurd (hasSixDigits_iff.mpr ⟨_, _, _, _, _, _, Hex.hexDigits?_eq_some_iff.mp hread⟩) h
  · rfl

/-- **Either a text shows a colour and that colour is read, or it is refused.** -/
theorem readColour_cases (text : String) :
    (∃ colour, readColour text = .ok colour ∧ ShowsColour text colour.toNat) ∨
      readColour text = .error (.notAColour text) ∧ ∀ value, ¬ ShowsColour text value := by
  by_cases h : HasSixDigits text
  · obtain ⟨r1, r0, g1, g0, b1, b0, hshows⟩ := hasSixDigits_iff.mp h
    exact .inl ⟨_, readColour_of_shows hshows, showsColour_of_shows hshows⟩
  · exact .inr ⟨readColour_of_not_hasSixDigits h, fun value hvalue => h hvalue.hasSixDigits⟩

/-! ## 2. Cuts by bytes -/

/-- A text cut at a byte of its UTF-8 encoding; nothing if the text ends before it or the byte lies
    inside a character. -/
def splitAtByte? : Nat → List Char → Option (List Char × List Char)
  | 0, text => some ([], text)
  | _ + 1, [] => none
  | place + 1, c :: rest =>
    if c.utf8Size ≤ place + 1 then
      (splitAtByte? (place + 1 - c.utf8Size) rest).map fun parts => (c :: parts.1, parts.2)
    else none

/-- The two bytes of a text that begin at a byte. -/
def cutPair? (text : List Char) (place : Nat) : Option (List Char) := do
  let (_, behind) ← splitAtByte? place text
  let (pair, _) ← splitAtByte? 2 behind
  return pair

/-- The number that a text of two bytes denotes in hexadecimal. A plus sign may stand in front of a
    single digit. -/
def readPair : List Char → Except Numeral.Refusal UInt8
  | ['+', low] =>
    match Numeral.hexDigit? low with
    | some l => .ok (UInt8.ofNat l)
    | none => .error .notADigit
  | [high, low] =>
    match Numeral.hexDigit? high, Numeral.hexDigit? low with
    | some h, some l => .ok (UInt8.ofNat (h * 16 + l))
    | _, _ => .error .notADigit
  | _ => .error .notADigit

/-- The channel whose digits begin at a byte. There is no answer if they cannot be cut out. -/
def channelAt (digits : List Char) (place : Nat) : ExceptT String Option UInt8 :=
  ExceptT.mk ((cutPair? digits place).map fun pair =>
    (readPair pair).mapError Numeral.Refusal.message)

/-- **The colour a text denotes, read by its bytes**: behind at most one `#` there have to be six
    bytes, all of them hexadecimal digits, and each channel is cut out at its place. There is no
    answer if a cut falls outside the text or inside a character. -/
def readColourByBytes (text : String) : ExceptT String Option Colour :=
  let digits := withoutHash text.toList
  if (String.ofList digits).utf8ByteSize = 6 ∧ digits.all Char.isHexDigit then do
    let red ← channelAt digits 0
    let green ← channelAt digits 2
    let blue ← channelAt digits 4
    return Colour.ofChannels red green blue
  else throw (ValueRefusal.notAColour text).message

theorem utf8ByteSize_of_bytes {digits : List Char} (h : ∀ c ∈ digits, c.utf8Size = 1) :
    (String.ofList digits).utf8ByteSize = digits.length := by
  induction digits with
  | nil => rfl
  | cons c rest ih =>
    rw [String.ofList_cons, String.utf8ByteSize_append, String.utf8ByteSize_singleton,
      h c List.mem_cons_self, ih fun d hd => h d (List.mem_cons_of_mem c hd), List.length_cons,
      Nat.add_comm]

theorem splitAtByte?_append {first : List Char} (h : ∀ c ∈ first, c.utf8Size = 1)
    (rest : List Char) : splitAtByte? first.length (first ++ rest) = some (first, rest) := by
  induction first with
  | nil => simp [splitAtByte?]
  | cons c more ih =>
    have hmore := ih fun d hd => h d (List.mem_cons_of_mem c hd)
    simp [splitAtByte?, h c List.mem_cons_self, hmore]

theorem readPair_of_shows {high low : Char} {h l : Nat} (hhigh : Hex.Shows high h)
    (hlow : Hex.Shows low l) : readPair [high, low] = .ok (UInt8.ofNat (h * 16 + l)) := by
  -- the sign is no digit, so the first case of `readPair` is not met
  have hread := Hex.hexDigit?_eq_some_iff.mpr hhigh
  have hread' := Hex.hexDigit?_eq_some_iff.mpr hlow
  have hplus : high ≠ '+' := by
    intro e
    rw [e] at hread
    cases hread
  simp [readPair, hread, hread']

/-- **A pair of digits behind other digits is cut out and read.** -/
theorem channelAt_of_shows (first : List Char) {rest : List Char} {high low : Char} {h l : Nat}
    (hfirst : ∀ c ∈ first, c.utf8Size = 1) (hhigh : Hex.Shows high h) (hlow : Hex.Shows low l) :
    channelAt (first ++ high :: low :: rest) first.length = pure (UInt8.ofNat (h * 16 + l)) := by
  have hpair : ∀ c ∈ [high, low], c.utf8Size = 1 := by
    simp [hhigh.utf8Size_eq, hlow.utf8Size_eq]
  have hcut : splitAtByte? 2 (high :: low :: rest) = some ([high, low], rest) :=
    splitAtByte?_append hpair rest
  have hcutPair : cutPair? (first ++ high :: low :: rest) first.length = some [high, low] := by
    simp [cutPair?, splitAtByte?_append hfirst, hcut]
  rw [channelAt, hcutPair, Option.map_some, readPair_of_shows hhigh hlow]
  rfl

theorem channels_of_shows {digits : List Char} {r1 r0 g1 g0 b1 b0 : Nat}
    (h : List.Forall₂ Hex.Shows digits [r1, r0, g1, g0, b1, b0]) :
    channelAt digits 0 = pure (UInt8.ofNat (r1 * 16 + r0)) ∧
      channelAt digits 2 = pure (UInt8.ofNat (g1 * 16 + g0)) ∧
      channelAt digits 4 = pure (UInt8.ofNat (b1 * 16 + b0)) := by
  have hbytes (c : Char) (hc : c ∈ digits) : c.utf8Size = 1 := Hex.utf8Size_of_shows h hc
  match digits, h with
  | [c1, c2, c3, c4, c5, c6], .cons h1 (.cons h2 (.cons h3 (.cons h4 (.cons h5 (.cons h6 _))))) =>
    refine ⟨channelAt_of_shows [] ?_ h1 h2,
      channelAt_of_shows [c1, c2] ?_ h3 h4,
      channelAt_of_shows [c1, c2, c3, c4] ?_ h5 h6⟩
    · intro c hc
      cases hc
    · intro c hc
      exact hbytes c (List.mem_append_left [c3, c4, c5, c6] hc)
    · intro c hc
      exact hbytes c (List.mem_append_left [c5, c6] hc)

/-- The check of the bytes is passed by the texts with six digits, and by no others. -/
theorem checked_iff :
    (String.ofList (withoutHash text.toList)).utf8ByteSize = 6 ∧
      (withoutHash text.toList).all Char.isHexDigit = true ↔ HasSixDigits text := by
  rw [HasSixDigits, List.all_eq_true]
  refine and_congr_left fun hdigits => ?_
  obtain ⟨values, hshows⟩ := Hex.exists_shows_iff.mpr hdigits
  rw [utf8ByteSize_of_bytes fun c hc => Hex.utf8Size_of_shows hshows hc]

/-- **Reading by bytes always gives an answer, the same one.** -/
theorem readColourByBytes_eq (text : String) :
    (readColourByBytes text).run = some ((readColour text).mapError ValueRefusal.message) := by
  by_cases h : HasSixDigits text
  · obtain ⟨r1, r0, g1, g0, b1, b0, hshows⟩ := hasSixDigits_iff.mp h
    obtain ⟨hred, hgreen, hblue⟩ := channels_of_shows hshows
    rw [readColourByBytes, if_pos (checked_iff.mpr h), readColour_of_shows hshows]
    simp only [hred, hgreen, hblue, pure_bind]
    rfl
  · rw [readColourByBytes, if_neg (checked_iff.not.mpr h), readColour_of_not_hasSixDigits h]
    rfl

/-! ## 3. Colours -/

/-- The spellings of a colour: six digits, all in upper or all in lower case, with `#` in front or
    not. -/
def spellings (colour : Colour) : List (List Char) :=
  let upper := Hex.fixed 6 colour.toNat
  let lower := upper.map Char.toLower
  [upper, lower, '#' :: upper, '#' :: lower]

theorem showsColour_of_spelling (h : colour.toNat ≤ 0xFFFFFF)
    (htext : text.toList ∈ spellings colour) : ShowsColour text colour.toNat := by
  have hupper : Hex.Denotes (Hex.fixed 6 colour.toNat) colour.toNat :=
    Hex.denotes_fixed (Nat.lt_succ_of_le h)
  have hlower := hupper.lower
  simp only [spellings, List.mem_cons, List.not_mem_nil, or_false] at htext
  rcases htext with e | e | e | e
  · exact ⟨_, .inl e, Hex.length_fixed 6 _, hupper⟩
  · exact ⟨_, .inl e, by simp, hlower⟩
  · exact ⟨_, .inr e, Hex.length_fixed 6 _, hupper⟩
  · exact ⟨_, .inr e, by simp, hlower⟩

theorem readColour_eq_ok_iff : readColour text = .ok colour ↔ ShowsColour text colour.toNat := by
  rcases readColour_cases text with ⟨other, hread, hother⟩ | ⟨hread, hnone⟩
  · rw [hread]
    constructor
    · intro h
      cases h
      exact hother
    · intro h
      have hsame := (showsColour_iff.mp h).2.unique (showsColour_iff.mp hother).2
      rw [UInt32.toNat_inj.mp hsame]
  · rw [hread]
    exact ⟨nofun, fun h => absurd h (hnone _)⟩

theorem readColour_eq_error_iff {refusal : ValueRefusal} :
    readColour text = .error refusal ↔
      refusal = .notAColour text ∧ ∀ value, ¬ ShowsColour text value := by
  rcases readColour_cases text with ⟨other, hread, hother⟩ | ⟨hread, hnone⟩
  · rw [hread]
    exact ⟨nofun, fun h => absurd hother (h.2 _)⟩
  · rw [hread]
    constructor
    · intro h
      cases h
      exact ⟨rfl, hnone⟩
    · intro h
      rw [h.1]

/-- **A text is read as a colour exactly if it shows one.** Behind at most one `#` there are exactly
    six hexadecimal digits of either case, and the colour is the number they denote, at most
    `0xFFFFFF`. Every other text is refused, and the refusal names it. Reading it by its bytes never
    cuts outside the text or inside a character and gives the same answer. The six digits of a
    colour, in either case and with or without the `#`, are read back as that colour. -/
theorem colour_read_exactly (text : String) :
    (∀ colour, readColour text = .ok colour ↔ ShowsColour text colour.toNat) ∧
    (∀ value, ShowsColour text value → value ≤ 0xFFFFFF) ∧
    (∀ refusal, readColour text = .error refusal ↔
      refusal = .notAColour text ∧ ∀ value, ¬ ShowsColour text value) ∧
    (ValueRefusal.notAColour text).message = "expected a colour as RRGGBB, got '" ++ text ++ "'" ∧
    (readColourByBytes text).run = some ((readColour text).mapError ValueRefusal.message) ∧
    ∀ colour : Colour, colour.toNat ≤ 0xFFFFFF → text.toList ∈ spellings colour →
      readColour text = .ok colour := by
  refine ⟨fun colour => readColour_eq_ok_iff, fun value h => h.le,
    fun refusal => readColour_eq_error_iff, rfl, readColourByBytes_eq text, ?_⟩
  intro colour h htext
  exact readColour_eq_ok_iff.mpr (showsColour_of_spelling h htext)

/-- Light green, in lower case and behind a `#`. -/
theorem colour_lightGreen :
    (0x90EE90 : Colour).toNat ≤ 0xFFFFFF ∧ "#90ee90".toList ∈ spellings 0x90EE90 ∧
      readColour "#90ee90" = .ok 0x90EE90 := by
  have hle : (0x90EE90 : Colour).toNat ≤ 0xFFFFFF := by decide
  have hmem : "#90ee90".toList ∈ spellings 0x90EE90 := by decide
  exact ⟨hle, hmem, (colour_read_exactly "#90ee90").2.2.2.2.2 0x90EE90 hle hmem⟩

end Chip8.Settings
