/-
  File:      Chip8/Proofs/Instruction/Assembly.lean
  Subject:   a line of assembly can be read back

  * `Operand`, `operation`, `operands`: an instruction as the parts of a line; `mnemonic_eq` puts
    the line together from them;
  * `Operand.read?`, `Instruction.ofLine?`, `ofMnemonic?`: an operand, an instruction and a whole
    line read back;
  * `ofMnemonic?_mnemonic`: a line is read as the instruction it was written for, but for the second
    register of a shift, which it does not name; so `mnemonic_eq_iff`;
  * `mnemonic_tells`: words with one line of assembly do the same to every machine.

  A comma tells nothing that the blank behind it does not, so a line is read without its commas and
  cut at its blanks.
-/
import Chip8.Machine.Execute
import Chip8.Instruction.Mnemonic
import Chip8.Proofs.Instruction.Encode
import Chip8.Proofs.Text.ReadBack

namespace Chip8

/-! ## 1. Operands -/

/-- An operand of a line of assembly. -/
inductive Operand where
  | register (x : Nibble)
  | byte (value : UInt8)
  | address (target : Address)
  | word (word : UInt16)
  /-- The height of a sprite, in decimal. -/
  | height (n : Nibble)
  /-- The index register. -/
  | index
  /-- The memory from the index register on. -/
  | atIndex
  | delay
  | sound
  | glyph
  | decimal
  | key
  deriving DecidableEq

namespace Operand

def text : Operand → String
  | .register x => Instruction.registerName x
  | .byte value => Instruction.byteOperand value
  | .address target => Instruction.addressOperand target
  | .word w => Hex.literal 4 w.toNat
  | .height n => toString n.val
  | .index => "I"
  | .atIndex => "[I]"
  | .delay => "DT"
  | .sound => "ST"
  | .glyph => "F"
  | .decimal => "B"
  | .key => "K"

/-- The operand whose digits behind `0x` are given; their number tells its kind. -/
def ofLiteral? (digits : List Char) : Option Operand :=
  (Hex.value? digits).bind fun n =>
    match digits.length with
    | 2 => some (.byte (UInt8.ofNat n))
    | 3 => some (.address (Fin.ofNat 4096 n))
    | 4 => some (.word (UInt16.ofNat n))
    | _ => none

/-- The operand that a word of a line stands for. -/
def read? : List Char → Option Operand
  | ['I'] => some .index
  | ['[', 'I', ']'] => some .atIndex
  | ['D', 'T'] => some .delay
  | ['S', 'T'] => some .sound
  | ['F'] => some .glyph
  | ['B'] => some .decimal
  | ['K'] => some .key
  | ['V', digit] => (Numeral.hexDigit? digit).map fun n => .register (Fin.ofNat 16 n)
  | '0' :: 'x' :: digits => ofLiteral? digits
  | digits =>
    match Numeral.readDigits 16 0 digits with
    | .ok n => some (.height (Fin.ofNat 16 n))
    | .error _ => none

theorem read?_literal (width n : Nat) :
    read? (Hex.literal width n).toList = ofLiteral? (Hex.padded width n).toList := by
  rw [Hex.literal, String.toList_append]
  rfl

/-- **An operand is read back.** -/
theorem read?_text (o : Operand) : read? o.text.toList = some o := by
  cases o with
  | register x =>
    have hall : ∀ r : Nibble, read? (text (.register r)).toList = some (.register r) := by
      decide +kernel
    exact hall x
  | height n =>
    have hall : ∀ r : Nibble, read? (text (.height r)).toList = some (.height r) := by
      decide +kernel
    exact hall n
  | byte value =>
    have hlt : value.toNat < Nat.pow 16 2 := value.toNat_lt
    have hdigits := Hex.toList_padded_of_lt (by decide) hlt
    rw [text, Instruction.byteOperand, read?_literal, ofLiteral?, Hex.value?_padded, hdigits]
    simp
  | address target =>
    have hlt : target.val < Nat.pow 16 3 := target.isLt
    have hdigits := Hex.toList_padded_of_lt (by decide) hlt
    rw [text, Instruction.addressOperand, read?_literal, ofLiteral?, Hex.value?_padded, hdigits]
    simp
  | word w =>
    have hlt : w.toNat < Nat.pow 16 4 := w.toNat_lt
    have hdigits := Hex.toList_padded_of_lt (by decide) hlt
    rw [text, read?_literal, ofLiteral?, Hex.value?_padded, hdigits]
    simp
  | _ => rfl

/-- The characters between the parts of a line. -/
def separators : List Char := [' ', ',']

theorem eq_of_mem_separators {c : Char} (hc : c ∈ separators) : c = ' ' ∨ c = ',' := by
  simpa [separators] using hc

theorem not_mem_literal {c : Char} (hc : c ∈ separators) (width n : Nat) :
    c ∉ (Hex.literal width n).toList := by
  have hhex : Numeral.hexDigit? c = none ∧ c ≠ '0' ∧ c ≠ 'x' := by
    rcases eq_of_mem_separators hc with rfl | rfl <;> decide
  rw [Hex.literal, String.toList_append]
  simp [hhex.2, Hex.not_mem_padded hhex.1]

/-- **An operand holds no separator.** -/
theorem not_mem_text {c : Char} (hc : c ∈ separators) (o : Operand) : c ∉ o.text.toList := by
  cases o with
  | register x =>
    have hhex : Numeral.hexDigit? c = none ∧ c ≠ 'V' := by
      rcases eq_of_mem_separators hc with rfl | rfl <;> decide
    rw [text, Instruction.registerName, String.toList_append]
    simp [hhex.2, Hex.not_mem_padded hhex.1]
  | byte value => exact not_mem_literal hc 2 _
  | address target => exact not_mem_literal hc 3 _
  | word w => exact not_mem_literal hc 4 _
  | height n =>
    have hdigit : c.isDigit = false := by
      rcases eq_of_mem_separators hc with rfl | rfl <;> rfl
    exact not_mem_decimal hdigit _
  | _ => rcases eq_of_mem_separators hc with rfl | rfl <;> decide

end Operand

namespace Instruction

/-! ## 2. The parts of a line -/

/-- The name of the operation; operations with operands of several kinds share one. -/
def operation : Instruction → String
  | .sys _ => "SYS"
  | .clear => "CLS"
  | .ret => "RET"
  | .jump _ => "JP"
  | .call _ => "CALL"
  | .skipIfIs _ _ => "SE"
  | .skipIfIsNot _ _ => "SNE"
  | .skipIfSame _ _ => "SE"
  | .set _ _ => "LD"
  | .addConstant _ _ => "ADD"
  | .copy _ _ => "LD"
  | .or _ _ => "OR"
  | .and _ _ => "AND"
  | .xor _ _ => "XOR"
  | .add _ _ => "ADD"
  | .subtract _ _ => "SUB"
  | .shiftRight _ _ => "SHR"
  | .subtractFrom _ _ => "SUBN"
  | .shiftLeft _ _ => "SHL"
  | .skipIfDifferent _ _ => "SNE"
  | .setIndex _ => "LD"
  | .jumpBeyond _ => "JP"
  | .random _ _ => "RND"
  | .draw _ _ _ => "DRW"
  | .skipIfHeld _ => "SKP"
  | .skipIfFree _ => "SKNP"
  | .readDelay _ => "LD"
  | .awaitKey _ => "LD"
  | .setDelay _ => "LD"
  | .setSound _ => "LD"
  | .addToIndex _ => "ADD"
  | .pointToGlyph _ => "LD"
  | .storeDecimal _ => "LD"
  | .storeRegisters _ => "LD"
  | .loadRegisters _ => "LD"
  | .unknown _ => "???"

/-- The operands, in the order of the line. -/
def operands : Instruction → List Operand
  | .sys target => [.address target]
  | .clear => []
  | .ret => []
  | .jump target => [.address target]
  | .call target => [.address target]
  | .skipIfIs x value => [.register x, .byte value]
  | .skipIfIsNot x value => [.register x, .byte value]
  | .skipIfSame x y => [.register x, .register y]
  | .set x value => [.register x, .byte value]
  | .addConstant x value => [.register x, .byte value]
  | .copy x y => [.register x, .register y]
  | .or x y => [.register x, .register y]
  | .and x y => [.register x, .register y]
  | .xor x y => [.register x, .register y]
  | .add x y => [.register x, .register y]
  | .subtract x y => [.register x, .register y]
  | .shiftRight x _ => [.register x]
  | .subtractFrom x y => [.register x, .register y]
  | .shiftLeft x _ => [.register x]
  | .skipIfDifferent x y => [.register x, .register y]
  | .setIndex target => [.index, .address target]
  | .jumpBeyond target => [.register 0, .address target]
  | .random x mask => [.register x, .byte mask]
  | .draw x y height => [.register x, .register y, .height height]
  | .skipIfHeld x => [.register x]
  | .skipIfFree x => [.register x]
  | .readDelay x => [.register x, .delay]
  | .awaitKey x => [.register x, .key]
  | .setDelay x => [.delay, .register x]
  | .setSound x => [.sound, .register x]
  | .addToIndex x => [.index, .register x]
  | .pointToGlyph x => [.glyph, .register x]
  | .storeDecimal x => [.decimal, .register x]
  | .storeRegisters x => [.atIndex, .register x]
  | .loadRegisters x => [.register x, .atIndex]
  | .unknown w => [.word w]

/-- The words of a line of assembly. -/
def words (i : Instruction) : List (List Char) :=
  i.operation.toList :: i.operands.map fun o => o.text.toList

/-- The instruction with the given name and operands; the second register of a shift is taken to be
    the first of all. -/
def ofLine? (operation : String) (operands : List Operand) : Option Instruction :=
  match operation, operands with
  | "SYS", [.address target] => some (.sys target)
  | "CLS", [] => some .clear
  | "RET", [] => some .ret
  | "JP", [.address target] => some (.jump target)
  | "JP", [.register x, .address target] => if x = 0 then some (.jumpBeyond target) else none
  | "CALL", [.address target] => some (.call target)
  | "SE", [.register x, .byte value] => some (.skipIfIs x value)
  | "SE", [.register x, .register y] => some (.skipIfSame x y)
  | "SNE", [.register x, .byte value] => some (.skipIfIsNot x value)
  | "SNE", [.register x, .register y] => some (.skipIfDifferent x y)
  | "LD", [.register x, .byte value] => some (.set x value)
  | "LD", [.register x, .register y] => some (.copy x y)
  | "LD", [.index, .address target] => some (.setIndex target)
  | "LD", [.register x, .delay] => some (.readDelay x)
  | "LD", [.register x, .key] => some (.awaitKey x)
  | "LD", [.delay, .register x] => some (.setDelay x)
  | "LD", [.sound, .register x] => some (.setSound x)
  | "LD", [.glyph, .register x] => some (.pointToGlyph x)
  | "LD", [.decimal, .register x] => some (.storeDecimal x)
  | "LD", [.atIndex, .register x] => some (.storeRegisters x)
  | "LD", [.register x, .atIndex] => some (.loadRegisters x)
  | "ADD", [.register x, .byte value] => some (.addConstant x value)
  | "ADD", [.register x, .register y] => some (.add x y)
  | "ADD", [.index, .register x] => some (.addToIndex x)
  | "OR", [.register x, .register y] => some (.or x y)
  | "AND", [.register x, .register y] => some (.and x y)
  | "XOR", [.register x, .register y] => some (.xor x y)
  | "SUB", [.register x, .register y] => some (.subtract x y)
  | "SUBN", [.register x, .register y] => some (.subtractFrom x y)
  | "SHR", [.register x] => some (.shiftRight x 0)
  | "SHL", [.register x] => some (.shiftLeft x 0)
  | "RND", [.register x, .byte mask] => some (.random x mask)
  | "DRW", [.register x, .register y, .height height] => some (.draw x y height)
  | "SKP", [.register x] => some (.skipIfHeld x)
  | "SKNP", [.register x] => some (.skipIfFree x)
  | "???", [.word w] => some (.unknown w)
  | _, _ => none

/-- An instruction as its line of assembly tells it: a shift does not name its second register. -/
def asWritten : Instruction → Instruction
  | .shiftRight x _ => .shiftRight x 0
  | .shiftLeft x _ => .shiftLeft x 0
  | i => i

theorem ofLine?_operands (i : Instruction) : ofLine? i.operation i.operands = some i.asWritten := by
  cases i <;> rfl

/-! ## 3. Lines -/

/-- The line that the operation and the operands of an instruction make. -/
def line (i : Instruction) : String :=
  match i.operands with
  | [] => i.operation
  | first :: rest =>
    i.operation ++ " " ++ ", ".intercalate ((first :: rest).map Operand.text)

theorem mnemonic_eq (i : Instruction) : i.mnemonic = i.line := by
  have hzero : registerName 0 = "V0" := by decide +kernel
  rw [← String.toList_inj]
  cases i <;> simp [mnemonic, line, operation, operands, onRegisterAndByte, onRegisters,
    Operand.text, String.toList_append, hzero]

theorem not_mem_operation {c : Char} (hc : c ∈ Operand.separators) (i : Instruction) :
    c ∉ i.operation.toList := by
  rcases Operand.eq_of_mem_separators hc with rfl | rfl
  · cases i <;> simp only [operation] <;> decide
  · cases i <;> simp only [operation] <;> decide

theorem filter_of_not_mem {word : List Char} (h : ',' ∉ word) : word.filter (· ≠ ',') = word := by
  refine List.filter_eq_self.mpr fun c hc => ?_
  have hne : c ≠ ',' := fun e => h (e ▸ hc)
  simp [hne]

/-- Without the commas there are blanks between words. -/
theorem filter_intercalate {words : List (List Char)} (h : ∀ word ∈ words, ',' ∉ word) :
    ([',', ' '].intercalate words).filter (· ≠ ',') = [' '].intercalate words := by
  induction words with
  | nil => rfl
  | cons first rest ih =>
    have hfirst := filter_of_not_mem (h first List.mem_cons_self)
    cases rest with
    | nil => simpa using hfirst
    | cons second more =>
      have hrest := ih fun word hword => h word (List.mem_cons_of_mem _ hword)
      rw [List.intercalate_cons_cons, List.intercalate_cons_cons, List.filter_append,
        List.filter_append, hfirst, hrest]
      rfl

/-- **A line without its commas** is its words with blanks between them. -/
theorem filter_line (i : Instruction) :
    i.line.toList.filter (· ≠ ',') = [' '].intercalate i.words := by
  have hoperation := filter_of_not_mem (i.not_mem_operation (c := ',') (by decide))
  rw [line, words]
  cases i.operands with
  | nil => simpa using hoperation
  | cons first rest =>
    have hcommas : ∀ word ∈ (first :: rest).map fun o => o.text.toList, ',' ∉ word := by
      intro word hword
      obtain ⟨o, -, rfl⟩ := List.mem_map.mp hword
      exact o.not_mem_text (by decide)
    have hrest := filter_intercalate hcommas
    have hblank : " ".toList.filter (· ≠ ',') = [' '] := by decide
    have hcomma : ", ".toList = [',', ' '] := by decide
    have hparts : ((first :: rest).map Operand.text).map String.toList =
        (first :: rest).map fun o => o.text.toList := List.map_map
    dsimp only
    rw [String.toList_append, String.toList_append, String.toList_intercalate, List.filter_append,
      List.filter_append, hoperation, hblank, hcomma, hparts, hrest, List.map_cons,
      List.intercalate_cons_cons]

/-- The instruction that a line of assembly stands for. -/
def ofMnemonic? (line : String) : Option Instruction :=
  match (line.toList.filter (· ≠ ',')).splitOn ' ' with
  | [] => none
  | operation :: operands =>
    (operands.mapM Operand.read?).bind (ofLine? (String.ofList operation))

/-- **A line of assembly is read back.** -/
theorem ofMnemonic?_mnemonic (i : Instruction) : ofMnemonic? i.mnemonic = some i.asWritten := by
  have hblank : ∀ word ∈ i.words, ' ' ∉ word := by
    intro word hword
    rcases List.mem_cons.mp hword with rfl | hoperand
    · exact i.not_mem_operation (by decide)
    · obtain ⟨o, -, rfl⟩ := List.mem_map.mp hoperand
      exact o.not_mem_text (by decide)
  rw [ofMnemonic?, mnemonic_eq, filter_line, List.splitOn_intercalate ' ' hblank (by simp [words])]
  simp only [words]
  rw [mapM_map_eq_some _ fun o _ => o.read?_text, List.map_id', String.ofList_toList]
  exact ofLine?_operands i

/-! ## 4. What a line tells -/

/-- The same shift of the same register, with another second register, which is not used. -/
inductive SameShift : Instruction → Instruction → Prop where
  | right (x : Nibble) {y z : Nibble} (hne : y ≠ z) : SameShift (.shiftRight x y) (.shiftRight x z)
  | left (x : Nibble) {y z : Nibble} (hne : y ≠ z) : SameShift (.shiftLeft x y) (.shiftLeft x z)

theorem mnemonic_asWritten (i : Instruction) : i.asWritten.mnemonic = i.mnemonic := by
  cases i <;> rfl

def isShift : Instruction → Bool
  | .shiftRight _ _ => true
  | .shiftLeft _ _ => true
  | _ => false

theorem asWritten_eq_shiftRight_iff {i : Instruction} {x : Nibble} :
    i.asWritten = .shiftRight x 0 ↔ ∃ y, i = .shiftRight x y := by
  constructor
  · intro h
    cases i <;> cases h
    exact ⟨_, rfl⟩
  · rintro ⟨y, rfl⟩
    rfl

theorem asWritten_eq_shiftLeft_iff {i : Instruction} {x : Nibble} :
    i.asWritten = .shiftLeft x 0 ↔ ∃ y, i = .shiftLeft x y := by
  constructor
  · intro h
    cases i <;> cases h
    exact ⟨_, rfl⟩
  · rintro ⟨y, rfl⟩
    rfl

/-- Only a shift is written as a shift, so any other instruction is what is written. -/
theorem eq_of_asWritten {i j : Instruction} (h : j.asWritten = i) (hplain : i.isShift = false) :
    j = i := by
  subst h
  cases j with
  | shiftRight x y => cases hplain
  | shiftLeft x y => cases hplain
  | _ => rfl

theorem asWritten_eq_iff {i j : Instruction} :
    i.asWritten = j.asWritten ↔ i = j ∨ SameShift i j := by
  constructor
  · intro h
    cases i with
    | shiftRight x y =>
      obtain ⟨z, rfl⟩ := asWritten_eq_shiftRight_iff.mp h.symm
      by_cases hne : y = z
      · exact .inl (congrArg _ hne)
      · exact .inr (.right x hne)
    | shiftLeft x y =>
      obtain ⟨z, rfl⟩ := asWritten_eq_shiftLeft_iff.mp h.symm
      by_cases hne : y = z
      · exact .inl (congrArg _ hne)
      · exact .inr (.left x hne)
    | _ => exact .inl (eq_of_asWritten h.symm rfl).symm
  · rintro (rfl | hshift)
    · rfl
    · cases hshift <;> rfl

/-- **Lines of assembly are the same** exactly for one instruction, and for shifts that differ in
    their second register. -/
theorem mnemonic_eq_iff {i j : Instruction} :
    i.mnemonic = j.mnemonic ↔ i = j ∨ SameShift i j := by
  rw [← asWritten_eq_iff]
  constructor
  · intro h
    have hread := ofMnemonic?_mnemonic i
    rw [h, ofMnemonic?_mnemonic] at hread
    exact (Option.some.inj hread).symm
  · intro h
    rw [← mnemonic_asWritten i, h, mnemonic_asWritten]

/-- Such shifts do the same to every machine. -/
theorem SameShift.execute_eq {i j : Instruction} (h : SameShift i j) (m : Machine) :
    m.execute i = m.execute j ∧ Machine.executeRecords m.pc i = Machine.executeRecords m.pc j := by
  cases h <;> exact ⟨rfl, rfl⟩

theorem decode_inj {word other : UInt16} : decode word = decode other ↔ word = other := by
  constructor
  · intro h
    rw [← encode_decode word, h, encode_decode]
  · rintro rfl
    rfl

/-- **A line of assembly tells what a word does.** Words stand for one instruction only if they are
    one word; their lines of assembly are the same exactly if they stand for one instruction or for
    shifts that differ in the register they do not use; and then they do the same to every machine,
    with the same fault if there is one, and leave the same records. -/
theorem mnemonic_tells (word other : UInt16) :
    (decode word = decode other ↔ word = other) ∧
    ((decode word).mnemonic = (decode other).mnemonic ↔
      decode word = decode other ∨ SameShift (decode word) (decode other)) ∧
    ((decode word).mnemonic = (decode other).mnemonic → ∀ m : Machine,
      m.execute (decode word) = m.execute (decode other) ∧
      Machine.executeRecords m.pc (decode word) = Machine.executeRecords m.pc (decode other)) := by
  refine ⟨decode_inj, mnemonic_eq_iff, fun h m => ?_⟩
  rcases mnemonic_eq_iff.mp h with e | hshift
  · rw [e]
    exact ⟨rfl, rfl⟩
  · exact hshift.execute_eq m

end Instruction

end Chip8
