/-
  File:      Chip8/Proofs/Instruction/Encode.lean
  Subject:   the word of an instruction

  * `encode`: the word that an instruction is written as;
  * `encode_decode`: a word is the word of the instruction it stands for, so decoding loses
    nothing;
  * `decode_eq_clear_iff`, `decode_eq_ret_iff`, `decode_eq_call_iff`, `decode_eq_random_iff`,
    `decode_eq_draw_iff`, `decode_eq_readDelay_iff`: the words of single kinds of instructions.
-/
import Chip8.Instruction.Decode

namespace Chip8

namespace Word

/-! ## 1. Words made of fields -/

/-- The word of a group with an address. -/
def ofAddress (group : Nibble) (address : Address) : UInt16 :=
  UInt16.ofNat (group.val * 4096 + address.val)

/-- The word of a group with a register and a byte. -/
def ofConstant (group x : Nibble) (value : UInt8) : UInt16 :=
  UInt16.ofNat (group.val * 4096 + x.val * 256 + value.toNat)

/-- The word of four nibbles. -/
def ofNibbles (group x y n : Nibble) : UInt16 :=
  UInt16.ofNat (group.val * 4096 + x.val * 256 + y.val * 16 + n.val)

theorem toNat_ofAddress (group : Nibble) (address : Address) :
    (ofAddress group address).toNat = group.val * 4096 + address.val := by
  have h1 := group.isLt
  have h2 := address.isLt
  simp only [ofAddress, UInt16.toNat_ofNat']
  omega

theorem toNat_ofConstant (group x : Nibble) (value : UInt8) :
    (ofConstant group x value).toNat = group.val * 4096 + x.val * 256 + value.toNat := by
  have h1 := group.isLt
  have h2 := x.isLt
  have h3 := value.toNat_lt
  simp only [ofConstant, UInt16.toNat_ofNat']
  omega

theorem toNat_ofNibbles (group x y n : Nibble) :
    (ofNibbles group x y n).toNat = group.val * 4096 + x.val * 256 + y.val * 16 + n.val := by
  have h1 := group.isLt
  have h2 := x.isLt
  have h3 := y.isLt
  have h4 := n.isLt
  simp only [ofNibbles, UInt16.toNat_ofNat']
  omega

/-- The words of the instruction that draws a random byte, `CXNN`. -/
def Draws (word : UInt16) : Prop := word.toNat / 4096 = 0xC

instance (word : UInt16) : Decidable (Draws word) :=
  inferInstanceAs (Decidable (word.toNat / 4096 = 0xC))

/-- The words of the instruction that reads the delay timer, `FX07`. -/
def ReadsDelay (word : UInt16) : Prop := word.toNat / 4096 = 0xF ∧ word.toNat % 256 = 0x07

/-! ## 2. A word put together from its fields -/

theorem val_group (word : UInt16) : (group word).val = word.toNat / 4096 := by
  have h := word.toNat_lt
  show word.toNat / 4096 % 16 = _
  omega

theorem val_x (word : UInt16) : (x word).val = word.toNat / 256 % 16 := rfl

theorem val_y (word : UInt16) : (y word).val = word.toNat / 16 % 16 := rfl

theorem val_n (word : UInt16) : (n word).val = word.toNat % 16 := by
  show word.toNat / 1 % 16 = _
  omega

theorem ofAddress_address {word : UInt16} {g : Nibble} (hg : (group word).val = g.val) :
    ofAddress g (address word) = word := by
  apply UInt16.toNat_inj.mp
  rw [toNat_ofAddress, ← hg, val_group, val_address]
  omega

theorem ofConstant_constant {word : UInt16} {g : Nibble} (hg : (group word).val = g.val) :
    ofConstant g (x word) (constant word) = word := by
  apply UInt16.toNat_inj.mp
  rw [toNat_ofConstant, ← hg, val_group, val_x, toNat_constant]
  omega

theorem ofNibbles_n {word : UInt16} {g : Nibble} (hg : (group word).val = g.val) :
    ofNibbles g (x word) (y word) (n word) = word := by
  apply UInt16.toNat_inj.mp
  rw [toNat_ofNibbles, ← hg, val_group, val_x, val_y, val_n]
  omega

end Word

namespace Instruction

/-! ## 3. The word of an instruction -/

/-- The word that an instruction is written as. -/
def encode : Instruction → UInt16
  | .sys target => Word.ofAddress 0x0 target
  | .clear => 0x00E0
  | .ret => 0x00EE
  | .jump target => Word.ofAddress 0x1 target
  | .call target => Word.ofAddress 0x2 target
  | .skipIfIs x value => Word.ofConstant 0x3 x value
  | .skipIfIsNot x value => Word.ofConstant 0x4 x value
  | .skipIfSame x y => Word.ofNibbles 0x5 x y 0x0
  | .set x value => Word.ofConstant 0x6 x value
  | .addConstant x value => Word.ofConstant 0x7 x value
  | .copy x y => Word.ofNibbles 0x8 x y 0x0
  | .or x y => Word.ofNibbles 0x8 x y 0x1
  | .and x y => Word.ofNibbles 0x8 x y 0x2
  | .xor x y => Word.ofNibbles 0x8 x y 0x3
  | .add x y => Word.ofNibbles 0x8 x y 0x4
  | .subtract x y => Word.ofNibbles 0x8 x y 0x5
  | .shiftRight x y => Word.ofNibbles 0x8 x y 0x6
  | .subtractFrom x y => Word.ofNibbles 0x8 x y 0x7
  | .shiftLeft x y => Word.ofNibbles 0x8 x y 0xE
  | .skipIfDifferent x y => Word.ofNibbles 0x9 x y 0x0
  | .setIndex target => Word.ofAddress 0xA target
  | .jumpBeyond target => Word.ofAddress 0xB target
  | .random x mask => Word.ofConstant 0xC x mask
  | .draw x y height => Word.ofNibbles 0xD x y height
  | .skipIfHeld x => Word.ofConstant 0xE x 0x9E
  | .skipIfFree x => Word.ofConstant 0xE x 0xA1
  | .readDelay x => Word.ofConstant 0xF x 0x07
  | .awaitKey x => Word.ofConstant 0xF x 0x0A
  | .setDelay x => Word.ofConstant 0xF x 0x15
  | .setSound x => Word.ofConstant 0xF x 0x18
  | .addToIndex x => Word.ofConstant 0xF x 0x1E
  | .pointToGlyph x => Word.ofConstant 0xF x 0x29
  | .storeDecimal x => Word.ofConstant 0xF x 0x33
  | .storeRegisters x => Word.ofConstant 0xF x 0x55
  | .loadRegisters x => Word.ofConstant 0xF x 0x65
  | .unknown word => word

variable {word : UInt16}

theorem ofConstant_of_constant {g : Nibble} (hg : (Word.group word).val = g.val) {value : UInt8}
    (hv : (Word.constant word).toNat = value.toNat) :
    Word.ofConstant g (Word.x word) value = word := by
  rw [← UInt8.toNat_inj.mp hv, Word.ofConstant_constant hg]

theorem ofNibbles_of_n {g : Nibble} (hg : (Word.group word).val = g.val) {n : Nibble}
    (hn : (Word.n word).val = n.val) :
    Word.ofNibbles g (Word.x word) (Word.y word) n = word := by
  rw [← Fin.ext hn, Word.ofNibbles_n hg]

theorem encode_ofGroup0 (hg : (Word.group word).val = 0x0) : encode (ofGroup0 word) = word := by
  unfold ofGroup0
  split
  · rename_i h
    exact h.symm
  · split
    · rename_i h
      exact h.symm
    · exact Word.ofAddress_address hg

theorem encode_ofGroup8 (hg : (Word.group word).val = 0x8) : encode (ofGroup8 word) = word := by
  unfold ofGroup8
  dsimp only
  split
  case h_10 => rfl
  all_goals exact ofNibbles_of_n hg (by assumption)

theorem encode_ofGroupE (hg : (Word.group word).val = 0xE) : encode (ofGroupE word) = word := by
  unfold ofGroupE
  split
  case h_3 => rfl
  all_goals exact ofConstant_of_constant hg (by assumption)

theorem encode_ofGroupF (hg : (Word.group word).val = 0xF) : encode (ofGroupF word) = word := by
  unfold ofGroupF
  dsimp only
  split
  case h_10 => rfl
  all_goals exact ofConstant_of_constant hg (by assumption)

/-- **A word is the word of the instruction it stands for.** -/
theorem encode_decode (word : UInt16) : encode (decode word) = word := by
  unfold decode
  dsimp only
  split
  case h_1 hg => exact encode_ofGroup0 hg
  case h_2 hg => exact Word.ofAddress_address hg
  case h_3 hg => exact Word.ofAddress_address hg
  case h_4 hg => exact Word.ofConstant_constant hg
  case h_5 hg => exact Word.ofConstant_constant hg
  case h_6 hg =>
    split
    · exact ofNibbles_of_n hg (by assumption)
    · rfl
  case h_7 hg => exact Word.ofConstant_constant hg
  case h_8 hg => exact Word.ofConstant_constant hg
  case h_9 hg => exact encode_ofGroup8 hg
  case h_10 hg =>
    split
    · exact ofNibbles_of_n hg (by assumption)
    · rfl
  case h_11 hg => exact Word.ofAddress_address hg
  case h_12 hg => exact Word.ofAddress_address hg
  case h_13 hg => exact Word.ofConstant_constant hg
  case h_14 hg => exact Word.ofNibbles_n hg
  case h_15 hg => exact encode_ofGroupE hg
  case h_16 =>
    have hlt := (Word.group word).isLt
    have hg : (Word.group word).val = 0xF := by grind
    exact encode_ofGroupF hg

/-! ## 4. The words of single kinds -/

theorem decode_eq_clear_iff : decode word = .clear ↔ word = 0x00E0 := by
  constructor
  · intro h
    rw [← encode_decode word, h, encode]
  · rintro rfl
    rfl

theorem decode_eq_ret_iff : decode word = .ret ↔ word = 0x00EE := by
  constructor
  · intro h
    rw [← encode_decode word, h, encode]
  · rintro rfl
    rfl

theorem decode_eq_call_iff : (∃ target, decode word = .call target) ↔ word.toNat / 4096 = 0x2 := by
  constructor
  · rintro ⟨target, h⟩
    have hlt := target.isLt
    rw [← encode_decode word, h, encode, Word.toNat_ofAddress]
    omega
  · intro h
    refine ⟨Word.address word, ?_⟩
    simp only [decode, Word.val_group, h]

theorem decode_eq_random_iff :
    (∃ x mask, decode word = .random x mask) ↔ Word.Draws word := by
  rw [Word.Draws]
  constructor
  · rintro ⟨x, mask, h⟩
    have hx := x.isLt
    have hmask := mask.toNat_lt
    rw [← encode_decode word, h, encode, Word.toNat_ofConstant]
    omega
  · intro h
    refine ⟨Word.x word, Word.constant word, ?_⟩
    simp only [decode, Word.val_group, h]

theorem decode_eq_draw_iff :
    (∃ x y height, decode word = .draw x y height) ↔ word.toNat / 4096 = 0xD := by
  constructor
  · rintro ⟨x, y, height, h⟩
    have hx := x.isLt
    have hy := y.isLt
    have hh := height.isLt
    rw [← encode_decode word, h, encode, Word.toNat_ofNibbles]
    omega
  · intro h
    refine ⟨Word.x word, Word.y word, Word.n word, ?_⟩
    simp only [decode, Word.val_group, h]

theorem decode_eq_readDelay_iff :
    (∃ x, decode word = .readDelay x) ↔ Word.ReadsDelay word := by
  rw [Word.ReadsDelay]
  constructor
  · rintro ⟨x, h⟩
    have hx := x.isLt
    have hword : word.toNat = 0xF * 4096 + x.val * 256 + 0x07 := by
      rw [← encode_decode word, h, encode, Word.toNat_ofConstant]
      rfl
    omega
  · rintro ⟨hgroup, hconstant⟩
    refine ⟨Word.x word, ?_⟩
    simp only [decode, Word.val_group, hgroup, ofGroupF, Word.toNat_constant, hconstant]

end Instruction

end Chip8
