/-
  File:      Chip8/Proofs/Instruction/Kind.lean
  Subject:   the kinds of words, told by their digits

  * `Word.InGroup`, `Word.EndsIn`: the words of a group, and those of them that end in a byte;
  * `Word.HasResult`, `Word.Reports`, `Word.MovesIndex`: the words that write VX, VF and I;
  * `Word.Ignored`: the words that stand for nothing the machine can do;
  * `hasResult_of_decode`, `reports_of_decode`, `movesIndex_of_decode`, `decode_of_ignored`: what
    this says of the instructions they stand for;
  * `decode_encode`: an instruction with a word of its own is read back from it;
  * `decode_of_endsIn`: so is one that is written with a register and a byte, from a word that
    ends in the byte.

  A kind is a condition on the number of a word. Nothing here speaks of the order in which decoding
  asks for it.
-/
import Chip8.Proofs.Instruction.Encode

namespace Chip8

/-! ## 1. Kinds of words -/

namespace Word

/-- The words whose first digit is `group`. -/
def InGroup (group : Nat) (word : UInt16) : Prop := word.toNat / 4096 = group

/-- The words of a group whose second byte is `last`. -/
def EndsIn (group last : Nat) (word : UInt16) : Prop := InGroup group word ∧ word.toNat % 256 = last

instance (group : Nat) (word : UInt16) : Decidable (InGroup group word) :=
  inferInstanceAs (Decidable (word.toNat / 4096 = group))

instance (group last : Nat) (word : UInt16) : Decidable (EndsIn group last word) :=
  inferInstanceAs (Decidable (InGroup group word ∧ word.toNat % 256 = last))

/-- The words that put a result in VX: `6XNN`, `7XNN`, `8XY0` to `8XY7`, `8XYE`, `CXNN`, `FX07` and
    `FX0A`. -/
def HasResult (word : UInt16) : Prop :=
  InGroup 0x6 word ∨ InGroup 0x7 word ∨
    (InGroup 0x8 word ∧ (word.toNat % 16 ≤ 0x7 ∨ word.toNat % 16 = 0xE)) ∨
    InGroup 0xC word ∨ EndsIn 0xF 0x07 word ∨ EndsIn 0xF 0x0A word

/-- The words that report in VF: `8XY4` to `8XY7`, `8XYE`, `DXYN` and `FX1E`. -/
def Reports (word : UInt16) : Prop :=
  (InGroup 0x8 word ∧
      (0x4 ≤ word.toNat % 16 ∧ word.toNat % 16 ≤ 0x7 ∨ word.toNat % 16 = 0xE)) ∨
    InGroup 0xD word ∨ EndsIn 0xF 0x1E word

/-- The words that write the index register: `ANNN`, `FX1E` and `FX29`. -/
def MovesIndex (word : UInt16) : Prop :=
  InGroup 0xA word ∨ EndsIn 0xF 0x1E word ∨ EndsIn 0xF 0x29 word

/-- The words that stand for nothing this machine can do: `0NNN`, but for `00E0` and `00EE`, and
    those whose last digits no kind of instruction claims. -/
def Ignored (word : UInt16) : Prop :=
  (InGroup 0x0 word ∧ word ≠ 0x00E0 ∧ word ≠ 0x00EE) ∨
    ((InGroup 0x5 word ∨ InGroup 0x9 word) ∧ word.toNat % 16 ≠ 0) ∨
    (InGroup 0x8 word ∧ 0x7 < word.toNat % 16 ∧ word.toNat % 16 ≠ 0xE) ∨
    (InGroup 0xE word ∧ word.toNat % 256 ∉ [0x9E, 0xA1]) ∨
    (InGroup 0xF word ∧
      word.toNat % 256 ∉ [0x07, 0x0A, 0x15, 0x18, 0x1E, 0x29, 0x33, 0x55, 0x65])

/-! ## 2. The kinds of words made of fields -/

theorem inGroup_ofAddress (group : Nibble) (address : Address) :
    InGroup group.val (ofAddress group address) := by
  have h := address.isLt
  rw [InGroup, toNat_ofAddress]
  omega

theorem endsIn_ofConstant (group x : Nibble) (value : UInt8) :
    EndsIn group.val value.toNat (ofConstant group x value) := by
  have hx := x.isLt
  have hvalue := value.toNat_lt
  rw [EndsIn, InGroup, toNat_ofConstant]
  omega

theorem inGroup_ofNibbles (group x y n : Nibble) :
    InGroup group.val (ofNibbles group x y n) := by
  have hx := x.isLt
  have hy := y.isLt
  have hn := n.isLt
  rw [InGroup, toNat_ofNibbles]
  omega

theorem digit_ofNibbles (group x y n : Nibble) : (ofNibbles group x y n).toNat % 16 = n.val := by
  have hn := n.isLt
  rw [toNat_ofNibbles]
  omega

theorem group_ofAddress (g : Nibble) (target : Address) : group (ofAddress g target) = g := by
  have h := target.isLt
  apply Fin.ext
  rw [val_group, toNat_ofAddress]
  omega

theorem address_ofAddress (g : Nibble) (target : Address) : address (ofAddress g target) = target := by
  have h := target.isLt
  apply Fin.ext
  rw [val_address, toNat_ofAddress]
  omega

theorem group_ofConstant (g x : Nibble) (value : UInt8) : group (ofConstant g x value) = g := by
  have hx := x.isLt
  have hvalue := value.toNat_lt
  apply Fin.ext
  rw [val_group, toNat_ofConstant]
  omega

theorem constant_ofConstant (g x : Nibble) (value : UInt8) :
    constant (ofConstant g x value) = value := by
  have hvalue := value.toNat_lt
  apply UInt8.toNat_inj.mp
  rw [toNat_constant, toNat_ofConstant]
  omega

theorem group_ofNibbles (g x y n : Nibble) : group (ofNibbles g x y n) = g := by
  have hx := x.isLt
  have hy := y.isLt
  have hn := n.isLt
  apply Fin.ext
  rw [val_group, toNat_ofNibbles]
  omega

theorem x_ofConstant (group i : Nibble) (value : UInt8) : x (ofConstant group i value) = i := by
  have hi := i.isLt
  have hvalue := value.toNat_lt
  apply Fin.ext
  rw [val_x, toNat_ofConstant]
  omega

theorem x_ofNibbles (group i j n : Nibble) : x (ofNibbles group i j n) = i := by
  have hi := i.isLt
  have hj := j.isLt
  have hn := n.isLt
  apply Fin.ext
  rw [val_x, toNat_ofNibbles]
  omega

theorem y_ofNibbles (group i j n : Nibble) : y (ofNibbles group i j n) = j := by
  have hj := j.isLt
  have hn := n.isLt
  apply Fin.ext
  rw [val_y, toNat_ofNibbles]
  omega

theorem n_ofNibbles (group i j n : Nibble) : Word.n (ofNibbles group i j n) = n := by
  have hn := n.isLt
  apply Fin.ext
  rw [val_n, toNat_ofNibbles]
  omega

end Word

namespace Instruction

variable {word : UInt16} {i : Instruction}

/-! ## 3. The kinds of instructions -/

theorem encode_of_decode (h : decode word = i) : encode i = word := by
  rw [← h, encode_decode]

/-- Whether an instruction has a word of its own. What `sys` and `unknown` carry may be the word of
    another instruction. -/
def isNamed : Instruction → Bool
  | .sys _ => false
  | .unknown _ => false
  | _ => true

/-- **An instruction with a word of its own** is read back from it. -/
theorem decode_encode (h : i.isNamed = true) : decode i.encode = i := by
  cases i with
  | sys | unknown => cases h
  | clear | ret => rfl
  | jump | call | setIndex | jumpBeyond =>
    simp only [encode, decode, Word.group_ofAddress, Word.address_ofAddress]
    rfl
  | skipIfIs | skipIfIsNot | set | addConstant | random =>
    simp only [encode, decode, Word.group_ofConstant, Word.constant_ofConstant,
      Word.x_ofConstant]
    rfl
  | skipIfHeld | skipIfFree =>
    simp only [encode, decode, Word.group_ofConstant, Word.constant_ofConstant,
      Word.x_ofConstant, ofGroupE]
    rfl
  | readDelay | awaitKey | setDelay | setSound | addToIndex | pointToGlyph | storeDecimal
  | storeRegisters | loadRegisters =>
    simp only [encode, decode, Word.group_ofConstant, Word.constant_ofConstant,
      Word.x_ofConstant, ofGroupF]
    rfl
  | copy | or | and | xor | add | subtract | shiftRight | subtractFrom | shiftLeft
  | skipIfSame | skipIfDifferent | draw =>
    simp only [encode, decode, Word.group_ofNibbles, Word.x_ofNibbles, Word.y_ofNibbles,
      Word.n_ofNibbles, ofGroup8]
    rfl

/-- The register that an instruction puts its result in. -/
def result? : Instruction → Option Nibble
  | .set x _ => some x
  | .addConstant x _ => some x
  | .copy x _ => some x
  | .or x _ => some x
  | .and x _ => some x
  | .xor x _ => some x
  | .add x _ => some x
  | .subtract x _ => some x
  | .shiftRight x _ => some x
  | .subtractFrom x _ => some x
  | .shiftLeft x _ => some x
  | .random x _ => some x
  | .readDelay x => some x
  | .awaitKey x => some x
  | _ => none

/-- Whether an instruction reports in VF. -/
def reports : Instruction → Bool
  | .add _ _ => true
  | .subtract _ _ => true
  | .shiftRight _ _ => true
  | .subtractFrom _ _ => true
  | .shiftLeft _ _ => true
  | .draw _ _ _ => true
  | .addToIndex _ => true
  | _ => false

/-- Whether an instruction writes the index register. -/
def movesIndex : Instruction → Bool
  | .setIndex _ => true
  | .addToIndex _ => true
  | .pointToGlyph _ => true
  | _ => false

/-- Whether an instruction goes on with the one behind it, whatever the machine. -/
def isPlain : Instruction → Bool
  | .ret => false
  | .jump _ => false
  | .call _ => false
  | .jumpBeyond _ => false
  | .skipIfIs _ _ => false
  | .skipIfIsNot _ _ => false
  | .skipIfSame _ _ => false
  | .skipIfDifferent _ _ => false
  | .skipIfHeld _ => false
  | .skipIfFree _ => false
  | .awaitKey _ => false
  | _ => true

theorem hasResult_encode {x : Nibble} (h : i.result? = some x) :
    Word.HasResult i.encode ∧ Word.x i.encode = x := by
  cases i with
  | set r value =>
    cases h
    exact ⟨.inl (Word.endsIn_ofConstant 0x6 x value).1, Word.x_ofConstant 0x6 x value⟩
  | addConstant r value =>
    cases h
    exact ⟨.inr (.inl (Word.endsIn_ofConstant 0x7 x value).1), Word.x_ofConstant 0x7 x value⟩
  | random r mask =>
    cases h
    exact ⟨.inr (.inr (.inr (.inl (Word.endsIn_ofConstant 0xC x mask).1))),
      Word.x_ofConstant 0xC x mask⟩
  | readDelay r =>
    cases h
    exact ⟨.inr (.inr (.inr (.inr (.inl (Word.endsIn_ofConstant 0xF x 0x07))))),
      Word.x_ofConstant 0xF x 0x07⟩
  | awaitKey r =>
    cases h
    exact ⟨.inr (.inr (.inr (.inr (.inr (Word.endsIn_ofConstant 0xF x 0x0A))))),
      Word.x_ofConstant 0xF x 0x0A⟩
  | copy | or | and | xor | add | subtract | shiftRight | subtractFrom | shiftLeft =>
    cases h
    refine ⟨.inr (.inr (.inl ⟨Word.inGroup_ofNibbles 0x8 _ _ _, ?_⟩)), Word.x_ofNibbles 0x8 _ _ _⟩
    rw [encode, Word.digit_ofNibbles]
    decide
  | _ => cases h

theorem reports_encode (h : i.reports = true) : Word.Reports i.encode := by
  cases i with
  | draw x y height => exact .inr (.inl (Word.inGroup_ofNibbles 0xD x y height))
  | addToIndex x => exact .inr (.inr (Word.endsIn_ofConstant 0xF x 0x1E))
  | add | subtract | shiftRight | subtractFrom | shiftLeft =>
    refine .inl ⟨Word.inGroup_ofNibbles 0x8 _ _ _, ?_⟩
    rw [encode, Word.digit_ofNibbles]
    decide
  | _ => cases h

theorem movesIndex_encode (h : i.movesIndex = true) : Word.MovesIndex i.encode := by
  cases i with
  | setIndex target => exact .inl (Word.inGroup_ofAddress 0xA target)
  | addToIndex x => exact .inr (.inl (Word.endsIn_ofConstant 0xF x 0x1E))
  | pointToGlyph x => exact .inr (.inr (Word.endsIn_ofConstant 0xF x 0x29))
  | _ => cases h

theorem hasResult_of_decode {x : Nibble} (h : (decode word).result? = some x) :
    Word.HasResult word ∧ Word.x word = x := by
  have hword := hasResult_encode h
  rwa [encode_decode] at hword

theorem reports_of_decode (h : (decode word).reports = true) : Word.Reports word := by
  have hword := reports_encode h
  rwa [encode_decode] at hword

theorem movesIndex_of_decode (h : (decode word).movesIndex = true) : Word.MovesIndex word := by
  have hword := movesIndex_encode h
  rwa [encode_decode] at hword

/-- The fields of a word whose instruction is written with a register and a byte. -/
theorem fields_of_decode {g x : Nibble} {value : UInt8} (h : decode word = i)
    (hi : i.encode = Word.ofConstant g x value) :
    Word.EndsIn g.val value.toNat word ∧ Word.x word = x := by
  rw [← encode_of_decode h, hi]
  exact ⟨Word.endsIn_ofConstant g x value, Word.x_ofConstant g x value⟩

/-! ## 4. The instructions of single kinds of words -/

/-- **A word that ends in a byte** stands for the instruction that is written with this byte. -/
theorem decode_of_endsIn {g : Nibble} {b : UInt8} (h : Word.EndsIn g.val b.toNat word)
    (hi : i.encode = Word.ofConstant g (Word.x word) b) (hnamed : i.isNamed = true) :
    decode word = i := by
  have hgroup : (Word.group word).val = g.val := (Word.val_group word).trans h.1
  have hword : Word.ofConstant g (Word.x word) b = word :=
    ofConstant_of_constant hgroup ((Word.toNat_constant word).trans h.2)
  rw [← decode_encode hnamed, hi, hword]

theorem decode_of_setsSound (h : Word.EndsIn 0xF 0x18 word) :
    decode word = .setSound (Word.x word) :=
  decode_of_endsIn (g := 0xF) (b := 0x18) h rfl rfl

theorem decode_of_storesDecimal (h : Word.EndsIn 0xF 0x33 word) :
    decode word = .storeDecimal (Word.x word) :=
  decode_of_endsIn (g := 0xF) (b := 0x33) h rfl rfl

theorem decode_of_storesRegisters (h : Word.EndsIn 0xF 0x55 word) :
    decode word = .storeRegisters (Word.x word) :=
  decode_of_endsIn (g := 0xF) (b := 0x55) h rfl rfl

/-- **A word that is ignored** stands for a routine of the machine below, or for itself. -/
theorem decode_of_ignored (h : Word.Ignored word) :
    (∃ target, decode word = .sys target) ∨ decode word = .unknown word := by
  rcases h with ⟨hgroup, hclear, hret⟩ | ⟨hgroup | hgroup, hdigit⟩ | ⟨hgroup, hdigits⟩ |
    ⟨hgroup, hlast⟩ | ⟨hgroup, hlast⟩
  · left
    refine ⟨Word.address word, ?_⟩
    rw [Word.InGroup] at hgroup
    simp only [decode, Word.val_group, hgroup, ofGroup0, hclear, hret, if_false]
  · right
    rw [Word.InGroup] at hgroup
    simp only [decode, Word.val_group, hgroup, Word.val_n, hdigit, if_false]
  · right
    rw [Word.InGroup] at hgroup
    simp only [decode, Word.val_group, hgroup, Word.val_n, hdigit, if_false]
  · right
    rw [Word.InGroup] at hgroup
    simp only [decode, Word.val_group, hgroup, ofGroup8, Word.val_n]
    split
    case h_10 => rfl
    all_goals omega
  · right
    rw [Word.InGroup] at hgroup
    simp only [decode, Word.val_group, hgroup, ofGroupE, Word.toNat_constant]
    split <;> simp_all
  · right
    rw [Word.InGroup] at hgroup
    simp only [decode, Word.val_group, hgroup, ofGroupF, Word.toNat_constant]
    split <;> simp_all

end Instruction

end Chip8
