/-
  File:      Chip8/Proofs/Snapshot/Text.lean
  Subject:   the text of a snapshot tells all that is live in it

  * `SameSummary`, `SameLive`: snapshots that agree on what the summary shows, and on everything but
    the slots of the stack not in use;
  * `summary_eq_iff`: the words of a summary tell its fields;
  * `registers_eq_iff`, `stackText_eq_iff`: the lines behind it tell the registers and the open
    calls;
  * `text_tells`: texts and summaries are the same exactly for such snapshots.

  No number holds a blank or a newline, so a summary is cut at its blanks and the lines behind it at
  their ends. The mnemonic between them holds blanks of its own; by then the opcode is known.
-/
import Chip8.Proofs.Machine.Feedback
import Chip8.Proofs.Text.ReadBack
import Chip8.Snapshot

namespace Chip8.Snapshot

variable {s t : Snapshot}

/-! ## 1. Snapshots that agree -/

/-- **Snapshots that agree on what the summary shows.** -/
structure SameSummary (s t : Snapshot) : Prop where
  pc : s.pc = t.pc
  opcode : s.opcode = t.opcode
  index : s.index = t.index
  delay : s.delay = t.delay
  sound : s.sound = t.sound
  clock : s.clock = t.clock

/-- **Snapshots that agree on all that is live**: slots of the stack not in use do not count. -/
structure SameLive (s t : Snapshot) : Prop extends SameSummary s t where
  registers : s.registers = t.registers
  stack : s.stack.HoldsSame t.stack

/-! ## 2. The summary -/

/-- The words of a summary; two blanks have an empty one between them. -/
def summaryWords (s : Snapshot) : List (List Char) :=
  [['P', 'C'], (Hex.padded 4 s.pc.toNat).toList, [],
    ['O', 'P'], (Hex.padded 4 s.opcode.toNat).toList, [],
    ['I'], (Hex.padded 4 s.index.toNat).toList, [],
    ['D', 'T'], (Hex.padded 2 s.delay.toNat).toList, [],
    ['S', 'T'], (Hex.padded 2 s.sound.toNat).toList, [],
    (toString s.clock.toNat).toList, ['H', 'z']]

theorem summary_eq (s : Snapshot) : s.summary.toList = [' '].intercalate s.summaryWords := by
  unfold summary
  simp [summaryWords, List.intercalate_cons_cons]

theorem splitOn_summary (s : Snapshot) : s.summary.toList.splitOn ' ' = s.summaryWords := by
  have hblank : ∀ word ∈ s.summaryWords, ' ' ∉ word := by
    have hhex : Numeral.hexDigit? ' ' = none := by decide
    have hclock : ' ' ∉ (toString s.clock.toNat).toList := not_mem_decimal (by decide) _
    simpa [summaryWords, Hex.not_mem_padded hhex] using hclock
  rw [summary_eq, List.splitOn_intercalate ' ' hblank (by simp [summaryWords])]

theorem length_summaryWords (s : Snapshot) : s.summaryWords.length = 17 := rfl

theorem summaryWords_eq_iff : s.summaryWords = t.summaryWords ↔ SameSummary s t := by
  constructor
  · intro h
    simp only [summaryWords, List.cons.injEq, String.toList_inj, Hex.padded_inj, decimal_inj,
      UInt16.toNat_inj, UInt8.toNat_inj, UInt32.toNat_inj, true_and, and_true] at h
    obtain ⟨hpc, hopcode, hindex, hdelay, hsound, hclock⟩ := h
    exact ⟨hpc, hopcode, hindex, hdelay, hsound, hclock⟩
  · rintro ⟨hpc, hopcode, hindex, hdelay, hsound, hclock⟩
    rw [summaryWords, summaryWords, hpc, hopcode, hindex, hdelay, hsound, hclock]

/-- **Summaries are the same** exactly for snapshots that agree on what they show. -/
theorem summary_eq_iff : s.summary = t.summary ↔ SameSummary s t := by
  rw [← String.toList_inj, ← splitOn_inj ' ', splitOn_summary, splitOn_summary,
    summaryWords_eq_iff]

/-! ## 3. The registers -/

/-- The numbers of the registers in the first line and in the second. -/
def lowNumbers : List Nibble := [0, 1, 2, 3, 4, 5, 6, 7]

def highNumbers : List Nibble := [8, 9, 10, 11, 12, 13, 14, 15]

theorem not_mem_registerText {c : Char} (hc : c = ' ' ∨ c = '\n') (s : Snapshot) (i : Nibble) :
    c ∉ (s.registerText i).toList := by
  have hhex : Numeral.hexDigit? c = none ∧ c ≠ 'V' ∧ c ≠ '=' := by
    rcases hc with rfl | rfl <;> decide
  simp [registerText, String.toList_append, Hex.not_mem_padded hhex.1, hhex.2.1, hhex.2.2]

theorem registerText_inj {i : Nibble} (h : s.registerText i = t.registerText i) :
    s.registers.get i = t.registers.get i := by
  have hvalue := h
  rw [registerText, registerText, ← String.toList_inj] at hvalue
  simp only [String.toList_append] at hvalue
  have hpadded := List.append_cancel_left hvalue
  exact UInt8.toNat_inj.mp (Hex.padded_inj.mp (String.toList_inj.mp hpadded))

theorem registerText_congr (h : s.registers = t.registers) (i : Nibble) :
    s.registerText i = t.registerText i := by
  rw [registerText, registerText, h]

theorem toList_registerLine (s : Snapshot) (numbers : List Nibble) :
    (s.registerLine numbers).toList =
      [' '].intercalate (numbers.map fun i => (s.registerText i).toList) := by
  rw [registerLine, String.toList_intercalate, List.map_map]
  rfl

theorem newline_not_mem_registerLine (s : Snapshot) (numbers : List Nibble) :
    '\n' ∉ (s.registerLine numbers).toList := by
  rw [toList_registerLine]
  refine not_mem_intercalate (fun word hword => ?_) (by decide)
  obtain ⟨i, -, rfl⟩ := List.mem_map.mp hword
  exact s.not_mem_registerText (.inr rfl) i

/-- **A line of registers** tells what is in them. -/
theorem get_of_registerLine {numbers : List Nibble}
    (h : s.registerLine numbers = t.registerLine numbers) {i : Nibble} (hi : i ∈ numbers) :
    s.registers.get i = t.registers.get i := by
  have hblank (u : Snapshot) : ∀ word ∈ numbers.map fun i => (u.registerText i).toList,
      ' ' ∉ word := by
    intro word hword
    obtain ⟨j, -, rfl⟩ := List.mem_map.mp hword
    exact u.not_mem_registerText (.inl rfl) j
  rw [← String.toList_inj, toList_registerLine, toList_registerLine,
    intercalate_inj_of_length (hblank s) (hblank t) (by simp)] at h
  exact registerText_inj (String.toList_inj.mp (List.map_inj_left.mp h i hi))

theorem registers_eq_iff :
    (s.registerLine lowNumbers = t.registerLine lowNumbers ∧
      s.registerLine highNumbers = t.registerLine highNumbers) ↔ s.registers = t.registers := by
  constructor
  · rintro ⟨hlow, hhigh⟩
    refine Registers.ext_get fun i => ?_
    have hall : ∀ j : Nibble, j ∈ lowNumbers ∨ j ∈ highNumbers := by decide
    rcases hall i with hi | hi
    · exact get_of_registerLine hlow hi
    · exact get_of_registerLine hhigh hi
  · intro h
    have hline (numbers : List Nibble) : s.registerLine numbers = t.registerLine numbers := by
      rw [registerLine, registerLine, funext fun i => registerText_congr h i]
    exact ⟨hline lowNumbers, hline highNumbers⟩

/-! ## 4. The open calls -/

/-- The addresses of the open calls, as they are written. -/
def callWords (s : Snapshot) : List (List Char) :=
  s.stack.toList.map fun address => (Hex.padded 3 address.toNat).toList

theorem toList_stackText (s : Snapshot) :
    s.stackText.toList = ['S', 'P', '='] ++ (toString s.stack.pointer).toList ++
      ' ' :: ('[' :: [' '].intercalate s.callWords ++ [']']) := by
  simp [stackText, callWords, String.toList_append, String.toList_intercalate, List.map_map,
    Function.comp_def]

theorem blank_not_mem_callWords (s : Snapshot) : ∀ word ∈ s.callWords, ' ' ∉ word := by
  intro word hword
  obtain ⟨address, -, rfl⟩ := List.mem_map.mp hword
  exact Hex.not_mem_padded (by decide) 3 _

theorem length_callWords (hs : s.stack.pointer ≤ 16) : s.callWords.length = s.stack.pointer := by
  rw [callWords, List.length_map, CallStack.length_toList hs]

theorem callWords_eq_iff : s.callWords = t.callWords ↔ s.stack.toList = t.stack.toList := by
  refine List.map_inj_right fun a b h => ?_
  exact UInt16.toNat_inj.mp (Hex.padded_inj.mp (String.toList_inj.mp h))

/-- **The line of the stack** tells the open calls. -/
theorem stackText_eq_iff (hs : s.stack.pointer ≤ 16) (ht : t.stack.pointer ≤ 16) :
    s.stackText = t.stackText ↔ s.stack.HoldsSame t.stack := by
  have hhead (u : Snapshot) : ' ' ∉ ['S', 'P', '='] ++ (toString u.stack.pointer).toList := by
    simpa using not_mem_decimal (by decide) u.stack.pointer
  rw [← String.toList_inj, toList_stackText, toList_stackText,
    append_cons_inj_of_not_mem (hhead s) (hhead t), CallStack.holdsSame_iff hs ht,
    ← callWords_eq_iff, List.append_cancel_left_eq, String.toList_inj, decimal_inj,
    ← length_callWords hs, ← length_callWords ht]
  constructor
  · rintro ⟨hcount, hcalls⟩
    have hcalls := List.append_cancel_right (List.cons.inj hcalls).2
    exact (intercalate_inj_of_length (blank_not_mem_callWords s) (blank_not_mem_callWords t)
      hcount).mp hcalls
  · intro h
    rw [h]
    exact ⟨rfl, rfl⟩

/-! ## 5. The text -/

/-- What stands behind the line of the summary. -/
def body (s : Snapshot) : List Char :=
  (s.registerLine lowNumbers).toList ++
    '\n' :: ((s.registerLine highNumbers).toList ++ '\n' :: s.stackText.toList)

theorem toList_text (s : Snapshot) :
    s.text.toList = s.summary.toList ++ ' ' :: (' ' :: '(' ::
      ((Instruction.decode s.opcode).mnemonic.toList ++ ')' :: '\n' :: s.body)) := by
  simp [text, body, lowNumbers, highNumbers, String.toList_append]

theorem body_eq_iff (hs : s.stack.pointer ≤ 16) (ht : t.stack.pointer ≤ 16) :
    s.body = t.body ↔ s.registers = t.registers ∧ s.stack.HoldsSame t.stack := by
  rw [body, body,
    append_cons_inj_of_not_mem (newline_not_mem_registerLine s _) (newline_not_mem_registerLine t _),
    append_cons_inj_of_not_mem (newline_not_mem_registerLine s _) (newline_not_mem_registerLine t _),
    String.toList_inj, String.toList_inj, String.toList_inj, ← and_assoc, registers_eq_iff,
    stackText_eq_iff hs ht]

/-- Behind the summary stands nothing but the opcode's mnemonic and the lines behind it. -/
theorem text_eq_iff_summary_and_body :
    s.text = t.text ↔ s.summary = t.summary ∧ s.body = t.body := by
  have hcount : (s.summary.toList.splitOn ' ').length = (t.summary.toList.splitOn ' ').length := by
    rw [splitOn_summary, splitOn_summary, length_summaryWords, length_summaryWords]
  rw [← String.toList_inj, toList_text, toList_text, append_cons_inj hcount, String.toList_inj]
  refine and_congr_right fun hsummary => ?_
  rw [(summary_eq_iff.mp hsummary).opcode]
  simp

/-- **The text of a snapshot loses nothing that is live**, and its summary nothing of what it shows:
    texts are the same exactly for snapshots that agree on all but the slots of the stack not in
    use, and summaries exactly for those that agree on the program counter, the opcode, the index,
    both timers and the clock. -/
theorem text_tells (hs : s.stack.pointer ≤ 16) (ht : t.stack.pointer ≤ 16) :
    (s.text = t.text ↔ SameLive s t) ∧ (s.summary = t.summary ↔ SameSummary s t) := by
  refine ⟨?_, summary_eq_iff⟩
  rw [text_eq_iff_summary_and_body, summary_eq_iff, body_eq_iff hs ht]
  constructor
  · rintro ⟨hsummary, hregisters, hstack⟩
    exact ⟨hsummary, hregisters, hstack⟩
  · rintro ⟨hsummary, hregisters, hstack⟩
    exact ⟨hsummary, hregisters, hstack⟩

/-- A snapshot inside one call; the slots above it are left with what earlier calls had there. -/
def insideCall (left : UInt16) : Snapshot where
  opcode := 0x2300
  pc := 0x300
  index := 0x050
  registers := Registers.zero.set 15 1
  delay := 0x10
  sound := 0
  stack := ⟨Vector.ofFn fun slot => if slot.val = 0 then 0x202 else left, 1⟩
  clock := 600

/-- What is left in a slot not in use does not show. -/
theorem text_insideCall :
    (insideCall 0x400).stack.pointer ≤ 16 ∧ (insideCall 0x1400).stack.pointer ≤ 16 ∧
      insideCall 0x400 ≠ insideCall 0x1400 ∧ (insideCall 0x400).text = (insideCall 0x1400).text := by
  have hsame : (insideCall 0x400).stack.HoldsSame (insideCall 0x1400).stack :=
    (CallStack.holdsSame_iff (by decide) (by decide)).mpr (by decide)
  have hne : insideCall 0x400 ≠ insideCall 0x1400 := by
    intro h
    have hslot : (0x400 : UInt16) = 0x1400 := congrArg (fun s => s.stack.slots[1]) h
    exact absurd hslot (by decide)
  exact ⟨by decide, by decide, hne,
    (text_tells (by decide) (by decide)).1.mpr ⟨⟨rfl, rfl, rfl, rfl, rfl, rfl⟩, rfl, hsame⟩⟩

end Chip8.Snapshot
