/-
  File:      Chip8/Proofs/Machine/Footprint.lean
  Subject:   what the instruction of a word may change, and where it goes on

  * `Part`: the parts of a machine, register by register and byte by byte;
  * `Owns`: the parts that a word may change, told by its digits;
  * `same_of_not_owned`: it leaves every other part as it was; `step_same`: so does a step;
  * `placeBehind`: where a word goes on; `pc_afterExecute`: it does;
  * `footprint_of_word`: this together, and what is stored by the two words that store.
-/
import Chip8.Proofs.Instruction.Kind
import Chip8.Proofs.Machine.Periphery
import Chip8.Proofs.Machine.Picture
import Chip8.Proofs.Memory.Block

namespace Chip8

/-! ## 1. Parts and their owners -/

/-- A part of a machine. -/
inductive Part where
  | register (r : Nibble)
  | byte (place : Address)
  | pc
  | index
  | stack
  | plane
  | drawFlag
  | keypad
  | delay
  | sound
  | opcode
  | generator

/-- Two machines have the same in a part. -/
def Part.Same (m n : Machine) : Part → Prop
  | .register r => n.v r = m.v r
  | .byte place => n.memory.bytes[place] = m.memory.bytes[place]
  | .pc => n.pc = m.pc
  | .index => n.index = m.index
  | .stack => n.stack = m.stack
  | .plane => n.plane = m.plane
  | .drawFlag => n.drawFlag = m.drawFlag
  | .keypad => n.keypad = m.keypad
  | .delay => n.delay = m.delay
  | .sound => n.sound = m.sound
  | .opcode => n.opcode = m.opcode
  | .generator => n.generator = m.generator

namespace Machine

variable {m done : Machine} {i : Instruction} {word : UInt16}

/-- **The parts that the instruction of a word may change.** -/
inductive Owns (m : Machine) (word : UInt16) : Part → Prop where
  | pc : Owns m word .pc
  | result (h : Word.HasResult word) : Owns m word (.register (Word.x word))
  | report (h : Word.Reports word) : Owns m word (.register Registers.flag)
  /-- `FX65`: V0 to VX. -/
  | loaded (h : Word.EndsIn 0xF 0x65 word) {r : Nibble} (hr : r ≤ Word.x word) :
      Owns m word (.register r)
  /-- `FX33`: three bytes from I on. -/
  | digit (h : Word.EndsIn 0xF 0x33 word) {k : Nat} (hk : k < 3) {place : Address}
      (hplace : place.val = (m.index.toNat + k) % 4096) : Owns m word (.byte place)
  /-- `FX55`: as many bytes from I on as there are registers from V0 to VX. -/
  | stored (h : Word.EndsIn 0xF 0x55 word) {k : Nat} (hk : k ≤ (Word.x word).val) {place : Address}
      (hplace : place.val = (m.index.toNat + k) % 4096) : Owns m word (.byte place)
  | index (h : Word.MovesIndex word) : Owns m word .index
  /-- `2NNN` and `00EE`. -/
  | stack (h : Word.InGroup 0x2 word ∨ word = 0x00EE) : Owns m word .stack
  /-- `00E0` and `DXYN`. -/
  | plane (h : Word.Paints word) : Owns m word .plane
  | drawFlag (h : Word.Paints word) : Owns m word .drawFlag
  /-- `FX15`. -/
  | delay (h : Word.EndsIn 0xF 0x15 word) : Owns m word .delay
  /-- `FX18`. -/
  | sound (h : Word.EndsIn 0xF 0x18 word) : Owns m word .sound
  /-- `CXNN`. -/
  | generator (h : Word.Draws word) : Owns m word .generator

/-! ## 2. Instructions and the parts they leave alone -/

theorem stack_of_execute (h : m.execute i = .ok done) :
    done.stack = m.stack ∨ i = .ret ∨ ∃ target, i = .call target := by
  cases route_of_execute h with
  | next _ _ stack _ | skip _ _ stack _ | stay _ stack _ | jump _ stack _ | jumpBeyond _ stack _ =>
    exact .inl stack
  | call target => exact .inr (.inr ⟨target, rfl⟩)
  | ret => exact .inr (.inl rfl)

theorem index_of_execute (h : m.execute i = .ok done) (hi : i.movesIndex = false) :
    done.index = m.index := by
  cases i with
  | setIndex | addToIndex | pointToGlyph => cases hi
  | ret | call | awaitKey =>
    rw [execute] at h
    split at h <;> cases h <;> rfl
  | _ =>
    cases h
    rfl

theorem memory_of_execute (h : m.execute i = .ok done) :
    done.memory = m.memory ∨
      (∃ x, i = .storeDecimal x ∧ done.memory = m.memory.storeDecimal (m.v x) m.index) ∨
      (∃ x, i = .storeRegisters x ∧
        done.memory = m.memory.store m.registers m.index (x.val + 1)) := by
  cases i with
  | storeDecimal x =>
    cases h
    exact .inr (.inl ⟨x, rfl, rfl⟩)
  | storeRegisters x =>
    cases h
    exact .inr (.inr ⟨x, rfl, rfl⟩)
  | ret | call | awaitKey =>
    rw [execute] at h
    split at h <;> cases h <;> exact .inl rfl
  | _ =>
    cases h
    exact .inl rfl

/-- **A register that is neither result nor report of an instruction, and is not loaded by it**,
    keeps its value. -/
theorem v_of_execute (h : m.execute i = .ok done) {r : Nibble} (hresult : i.result? ≠ some r)
    (hreport : i.reports = true → r ≠ Registers.flag)
    (hloaded : ∀ x, i = .loadRegisters x → x < r) : done.v r = m.v r := by
  cases i with
  | set x | addConstant x | copy x | or x | and x | xor x | random x | readDelay x =>
    cases h
    exact (Registers.get_set _ _ _ _).trans (if_neg fun e => hresult (congrArg some e))
  | add x | subtract x | shiftRight x | subtractFrom x | shiftLeft x =>
    cases h
    have hflag : Registers.flag ≠ r := fun e => hreport rfl e.symm
    refine (Registers.get_set _ _ _ _).trans ((if_neg hflag).trans ?_)
    exact (Registers.get_set _ _ _ _).trans (if_neg fun e => hresult (congrArg some e))
  | draw | addToIndex =>
    cases h
    exact (Registers.get_set _ _ _ _).trans (if_neg fun e => hreport rfl e.symm)
  | loadRegisters x =>
    cases h
    exact Registers.get_load_of_outside (hloaded x rfl)
  | awaitKey x =>
    rw [execute] at h
    split at h
    · cases h
      rfl
    · cases h
      exact (Registers.get_set _ _ _ _).trans (if_neg fun e => hresult (congrArg some e))
  | ret | call =>
    rw [execute] at h
    split at h <;> cases h
    rfl
  | _ =>
    cases h
    rfl

/-- **A word leaves the parts alone that it does not own.** -/
theorem same_of_not_owned {part : Part} (h : ¬ Owns m word part) :
    part.Same m (m.afterExecute word) := by
  rw [afterExecute]
  cases hexecute : m.execute (.decode word) with
  | error fault => cases part <;> rfl
  | ok done =>
    have hperiphery := periphery_of_execute hexecute
    cases part with
    | register r =>
      refine v_of_execute hexecute (fun hresult => ?_) (fun hreports hflag => ?_) fun x hloads => ?_
      · obtain ⟨hkind, rfl⟩ := Instruction.hasResult_of_decode hresult
        exact h (.result hkind)
      · subst hflag
        exact h (.report (Instruction.reports_of_decode hreports))
      · obtain ⟨hkind, rfl⟩ := Instruction.fields_of_decode hloads rfl
        exact Nat.lt_of_not_le fun hle => h (.loaded hkind hle)
    | byte place =>
      show done.memory.bytes[place] = m.memory.bytes[place]
      rcases memory_of_execute hexecute with e | ⟨x, hstores, e⟩ | ⟨x, hstores, e⟩
      · rw [e]
      · obtain ⟨hkind, -⟩ := Instruction.fields_of_decode hstores rfl
        rw [e]
        exact Memory.getElem_storeDecimal_of_outside fun k hk hplace => h (.digit hkind hk hplace)
      · obtain ⟨hkind, rfl⟩ := Instruction.fields_of_decode hstores rfl
        rw [e]
        exact Memory.getElem_store_of_outside fun k hk hplace =>
          h (.stored hkind (Nat.le_of_lt_succ hk) hplace)
    | pc => exact absurd .pc h
    | index =>
      refine index_of_execute hexecute (Bool.eq_false_iff.mpr fun hmoves => h (.index ?_))
      exact Instruction.movesIndex_of_decode hmoves
    | stack =>
      rcases stack_of_execute hexecute with e | hret | hcall
      · exact e
      · exact absurd (.stack (.inr (Instruction.decode_eq_ret_iff.mp hret))) h
      · exact absurd (.stack (.inl (Instruction.decode_eq_call_iff.mp hcall))) h
    | plane =>
      refine (execute_plane hexecute (Bool.eq_false_iff.mpr fun hpaints => h (.plane ?_))).1
      exact (Word.paints_iff word).mpr hpaints
    | drawFlag =>
      refine (execute_plane hexecute (Bool.eq_false_iff.mpr fun hpaints => h (.drawFlag ?_))).2
      exact (Word.paints_iff word).mpr hpaints
    | keypad =>
      refine (congrArg Periphery.keypad hperiphery).trans ?_
      cases Instruction.decode word <;> rfl
    | opcode =>
      refine (congrArg Periphery.opcode hperiphery).trans ?_
      cases Instruction.decode word <;> rfl
    | delay =>
      refine (congrArg Periphery.delay hperiphery).trans ?_
      cases hdecode : Instruction.decode word with
      | setDelay x =>
        exact absurd (.delay (Instruction.fields_of_decode hdecode rfl).1) h
      | _ => rfl
    | sound =>
      refine (congrArg Periphery.sound hperiphery).trans ?_
      cases hdecode : Instruction.decode word with
      | setSound x =>
        exact absurd (.sound (Instruction.fields_of_decode hdecode rfl).1) h
      | _ => rfl
    | generator =>
      refine (congrArg Periphery.generator hperiphery).trans ?_
      cases hdecode : Instruction.decode word with
      | random x mask =>
        exact absurd (.generator (Instruction.decode_eq_random_iff.mp ⟨x, mask, hdecode⟩)) h
      | _ => rfl

/-- **So does a step**, which besides notes the word. -/
theorem step_same {part : Part} (hpart : part ≠ .opcode)
    (h : ∀ word, m.memory.fetch? m.pc = some word → ¬ Owns (m.noting word) word part) :
    part.Same m m.step.1 := by
  cases hfetch : m.memory.fetch? m.pc with
  | none =>
    rw [step_of_fetch_none hfetch]
    cases part <;> rfl
  | some word =>
    have hsame := same_of_not_owned (h word hfetch)
    rw [← step_eq_afterExecute hfetch] at hsame
    cases part with
    | opcode => exact absurd rfl hpart
    | _ => exact hsame

/-! ## 3. Where a word goes on -/

/-- The place of the instruction behind this one, or of the one behind that if it is skipped. -/
def beyond (m : Machine) (skipped : Prop) [Decidable skipped] : UInt16 :=
  if skipped then m.pc + 4 else m.pc + 2

/-- **Where a machine goes on behind a word**, group by group: behind it, but for the return, the
    jumps, the call, the skips and the wait for a key. A return with no call open, and a call with
    sixteen open, stay where they are. -/
def placeBehind (m : Machine) (word : UInt16) : UInt16 :=
  let vx := m.v (Word.x word)
  let vy := m.v (Word.y word)
  match word.toNat / 4096 with
  | 0x0 =>
    if word = 0x00EE then
      match m.stack.toList.getLast? with
      | some caller => caller + 2
      | none => m.pc
    else m.pc + 2
  | 0x1 => (Word.address word).toWord
  | 0x2 => if m.stack.toList.length < 16 then (Word.address word).toWord else m.pc
  | 0x3 => m.beyond (vx = Word.constant word)
  | 0x4 => m.beyond (vx ≠ Word.constant word)
  | 0x5 => m.beyond (word.toNat % 16 = 0x0 ∧ vx = vy)
  | 0x9 => m.beyond (word.toNat % 16 = 0x0 ∧ vx ≠ vy)
  | 0xB => (Word.address word).toWord + (m.v 0).toUInt16
  | 0xE =>
    m.beyond (word.toNat % 256 = 0x9E ∧ m.keypad.isHeld vx ∨
      word.toNat % 256 = 0xA1 ∧ ¬ m.keypad.isHeld vx)
  | 0xF => if word.toNat % 256 = 0x0A ∧ m.keypad.heldKeys = [] then m.pc else m.pc + 2
  | _ => m.pc + 2

/-- The word of an instruction that skips goes on behind it, or one further. -/
theorem pc_of_skip {condition : Bool} {skipped : Prop} [Decidable skipped]
    (hdecode : Instruction.decode word = i) (hexecute : m.execute i = .ok (m.skipIf condition))
    (h : condition = true ↔ skipped) : (m.afterExecute word).pc = m.beyond skipped := by
  rw [afterExecute, hdecode, hexecute, beyond]
  simp only [← h]
  cases condition <;> rfl

/-- The word of a plain instruction goes on behind it. -/
theorem pc_of_plain (h : (Instruction.decode word).isPlain = true) :
    (m.afterExecute word).pc = m.pc + 2 := by
  rw [afterExecute]
  cases hdecode : Instruction.decode word with
  | ret | jump | call | jumpBeyond | skipIfIs | skipIfIsNot | skipIfSame | skipIfDifferent
  | skipIfHeld | skipIfFree | awaitKey =>
    rw [hdecode] at h
    cases h
  | _ => rfl

theorem beyond_of_not (m : Machine) {skipped : Prop} [Decidable skipped] (h : ¬ skipped) :
    m.beyond skipped = m.pc + 2 := if_neg h

theorem isPlain_of_group8 (hgroup : word.toNat / 4096 = 0x8) :
    (Instruction.decode word).isPlain = true := by
  simp only [Instruction.decode, Word.val_group, hgroup, Instruction.ofGroup8]
  split <;> rfl

/-- The words of the other groups without branches are plain. -/
theorem isPlain_of_group (h : word.toNat / 4096 ∈ [0x6, 0x7, 0xA, 0xC, 0xD]) :
    (Instruction.decode word).isPlain = true := by
  simp only [List.mem_cons, List.not_mem_nil, or_false] at h
  rcases h with hgroup | hgroup | hgroup | hgroup | hgroup
  all_goals
    simp only [Instruction.decode, Word.val_group, hgroup]
    rfl

theorem pc_of_group0 (hpointer : m.stack.pointer ≤ 16) (hgroup : word.toNat / 4096 = 0x0) :
    (m.afterExecute word).pc =
      if word = 0x00EE then
        match m.stack.toList.getLast? with
        | some caller => caller + 2
        | none => m.pc
      else m.pc + 2 := by
  by_cases hret : word = 0x00EE
  · rw [if_pos hret, CallStack.getLast?_toList hpointer, afterExecute,
      Instruction.decode_eq_ret_iff.mpr hret, execute]
    cases m.stack.pop? with
    | none => rfl
    | some popped => rfl
  · rw [if_neg hret]
    apply pc_of_plain
    simp only [Instruction.decode, Word.val_group, hgroup, Instruction.ofGroup0, hret, if_false]
    split <;> rfl

theorem pc_of_group2 (hpointer : m.stack.pointer ≤ 16) (hgroup : word.toNat / 4096 = 0x2) :
    (m.afterExecute word).pc =
      if m.stack.toList.length < 16 then (Word.address word).toWord else m.pc := by
  have hdecode : Instruction.decode word = .call (Word.address word) := by
    simp only [Instruction.decode, Word.val_group, hgroup]
  rw [CallStack.length_toList hpointer, afterExecute, hdecode]
  by_cases hroom : m.stack.pointer < 16
  · rw [execute_call _ hroom, if_pos hroom]
  · rw [execute, (CallStack.push?_eq_none_iff _ _).mpr (Nat.le_of_not_lt hroom), if_neg hroom]

/-- The words of a group that skip if their last digit is zero, and otherwise are unknown. -/
theorem pc_of_skip_or_unknown {condition : Bool} {skipped : Prop} [Decidable skipped]
    (hdecode : Instruction.decode word =
      if (Word.n word).val = 0 then i else .unknown word)
    (hexecute : m.execute i = .ok (m.skipIf condition)) (h : condition = true ↔ skipped) :
    (m.afterExecute word).pc = m.beyond (word.toNat % 16 = 0x0 ∧ skipped) := by
  rw [Word.val_n] at hdecode
  by_cases hdigit : word.toNat % 16 = 0x0
  · rw [if_pos hdigit] at hdecode
    exact pc_of_skip hdecode hexecute (by simp [hdigit, h])
  · rw [if_neg hdigit] at hdecode
    rw [m.beyond_of_not fun h => hdigit h.1]
    apply pc_of_plain
    rw [hdecode]
    rfl

theorem pc_of_groupE (hgroup : word.toNat / 4096 = 0xE) :
    (m.afterExecute word).pc =
      m.beyond (word.toNat % 256 = 0x9E ∧ m.keypad.isHeld (m.v (Word.x word)) ∨
        word.toNat % 256 = 0xA1 ∧ ¬ m.keypad.isHeld (m.v (Word.x word))) := by
  by_cases hheld : word.toNat % 256 = 0x9E
  · have hdecode : Instruction.decode word = .skipIfHeld (Word.x word) :=
      Instruction.decode_of_endsIn (g := 0xE) (b := 0x9E) ⟨hgroup, hheld⟩ rfl rfl
    exact pc_of_skip hdecode rfl (by simp [hheld])
  · by_cases hfree : word.toNat % 256 = 0xA1
    · have hdecode : Instruction.decode word = .skipIfFree (Word.x word) :=
        Instruction.decode_of_endsIn (g := 0xE) (b := 0xA1) ⟨hgroup, hfree⟩ rfl rfl
      exact pc_of_skip hdecode rfl (by simp [hfree])
    · rw [m.beyond_of_not fun h => h.elim (fun h => hheld h.1) fun h => hfree h.1]
      apply pc_of_plain
      simp only [Instruction.decode, Word.val_group, hgroup, Instruction.ofGroupE,
        Word.toNat_constant, Instruction.isPlain]

theorem pc_of_groupF (hgroup : word.toNat / 4096 = 0xF) :
    (m.afterExecute word).pc =
      if word.toNat % 256 = 0x0A ∧ m.keypad.heldKeys = [] then m.pc else m.pc + 2 := by
  by_cases hawaits : word.toNat % 256 = 0x0A
  · have hdecode : Instruction.decode word = .awaitKey (Word.x word) :=
      Instruction.decode_of_endsIn (g := 0xF) (b := 0x0A) ⟨hgroup, hawaits⟩ rfl rfl
    have hnone := m.keypad.lowestHeld?_eq_none_iff
    rw [afterExecute, hdecode, execute]
    cases hkey : m.keypad.lowestHeld? with
    | none => simp [hawaits, hnone.mp hkey]
    | some key =>
      have hheld : m.keypad.heldKeys ≠ [] := fun e => by simp [hnone.mpr e] at hkey
      simp [hheld, next, goto, setV]
  · rw [if_neg fun h => hawaits h.1]
    apply pc_of_plain
    simp only [Instruction.decode, Word.val_group, hgroup, Instruction.ofGroupF,
      Word.toNat_constant]
    split <;> simp_all [Instruction.isPlain]

/-- **A word goes on where it is said to.** -/
theorem pc_afterExecute (hpointer : m.stack.pointer ≤ 16) :
    (m.afterExecute word).pc = m.placeBehind word := by
  have hlt := word.toNat_lt
  unfold placeBehind
  dsimp only
  split
  case h_1 hgroup => exact pc_of_group0 hpointer hgroup
  case h_2 hgroup =>
    have hdecode : Instruction.decode word = .jump (Word.address word) := by
      simp only [Instruction.decode, Word.val_group, hgroup]
    rw [afterExecute, hdecode]
    rfl
  case h_3 hgroup => exact pc_of_group2 hpointer hgroup
  case h_4 hgroup =>
    have hdecode : Instruction.decode word = .skipIfIs (Word.x word) (Word.constant word) := by
      simp only [Instruction.decode, Word.val_group, hgroup]
    exact pc_of_skip hdecode rfl (by simp)
  case h_5 hgroup =>
    have hdecode : Instruction.decode word = .skipIfIsNot (Word.x word) (Word.constant word) := by
      simp only [Instruction.decode, Word.val_group, hgroup]
    exact pc_of_skip hdecode rfl (by simp)
  case h_6 hgroup =>
    have hdecode : Instruction.decode word =
        if (Word.n word).val = 0 then .skipIfSame (Word.x word) (Word.y word)
        else .unknown word := by
      simp only [Instruction.decode, Word.val_group, hgroup]
    exact pc_of_skip_or_unknown hdecode rfl (by simp)
  case h_7 hgroup =>
    have hdecode : Instruction.decode word =
        if (Word.n word).val = 0 then .skipIfDifferent (Word.x word) (Word.y word)
        else .unknown word := by
      simp only [Instruction.decode, Word.val_group, hgroup]
    exact pc_of_skip_or_unknown hdecode rfl (by simp)
  case h_8 hgroup =>
    have hdecode : Instruction.decode word = .jumpBeyond (Word.address word) := by
      simp only [Instruction.decode, Word.val_group, hgroup]
    rw [afterExecute, hdecode]
    rfl
  case h_9 hgroup => exact pc_of_groupE hgroup
  case h_10 hgroup => exact pc_of_groupF hgroup
  case h_11 =>
    apply pc_of_plain
    by_cases hgroup : word.toNat / 4096 = 0x8
    · exact isPlain_of_group8 hgroup
    · apply isPlain_of_group
      simp only [List.mem_cons, List.not_mem_nil, or_false]
      grind

/-! ## 4. The footprint of a word -/

/-- A word that is ignored changes the program counter only. -/
theorem afterExecute_of_ignored (h : Word.Ignored word) : m.afterExecute word = m.next := by
  rcases Instruction.decode_of_ignored h with ⟨target, hdecode⟩ | hdecode
  · rw [afterExecute, hdecode]
    rfl
  · rw [afterExecute, hdecode]
    rfl

/-- **The footprint of a word.** It leaves every part alone that it does not own, raises the draw
    flag if it owns it, and goes on where `placeBehind` says; a word that is ignored does nothing
    else. `FX33` stores the three decimal digits of VX from I on, and `FX55` stores V0 to VX, the
    addresses counting modulo 4096. -/
theorem footprint_of_word (m : Machine) (word : UInt16) (hpointer : m.stack.pointer ≤ 16) :
    (∀ part, ¬ Owns m word part → part.Same m (m.afterExecute word)) ∧
    (Owns m word .drawFlag → (m.afterExecute word).drawFlag = true) ∧
    (m.afterExecute word).pc = m.placeBehind word ∧
    (Word.Ignored word → m.afterExecute word = m.next) ∧
    (Word.EndsIn 0xF 0x33 word → ∃ hundreds tens units : UInt8,
      hundreds.toNat ≤ 9 ∧ tens.toNat ≤ 9 ∧ units.toNat ≤ 9 ∧
      100 * hundreds.toNat + 10 * tens.toNat + units.toNat = (m.v (Word.x word)).toNat ∧
      ∀ place : Address,
        (place.val = m.index.toNat % 4096 →
          (m.afterExecute word).memory.bytes[place] = hundreds) ∧
        (place.val = (m.index.toNat + 1) % 4096 →
          (m.afterExecute word).memory.bytes[place] = tens) ∧
        (place.val = (m.index.toNat + 2) % 4096 →
          (m.afterExecute word).memory.bytes[place] = units)) ∧
    (Word.EndsIn 0xF 0x55 word → ∀ (r : Nibble) (place : Address), r ≤ Word.x word →
      place.val = (m.index.toNat + r.val) % 4096 →
      (m.afterExecute word).memory.bytes[place] = m.v r) := by
  refine ⟨fun part => same_of_not_owned, fun howns => ?_, pc_afterExecute hpointer,
    afterExecute_of_ignored, fun hkind => ?_, fun hkind r place hr hplace => ?_⟩
  · cases howns with
    | drawFlag hpaints => exact afterExecute_of_paints hpaints
  · rw [afterExecute, Instruction.decode_of_storesDecimal hkind]
    exact m.memory.digits_storeDecimal (m.v (Word.x word)) m.index
  · rw [afterExecute, Instruction.decode_of_storesRegisters hkind]
    have hx := (Word.x word).isLt
    have hinside := Memory.getElem_store_of_inside (m := m.memory) (v := m.registers)
      (Nat.succ_le_of_lt hx) (Nat.lt_succ_of_le hr) hplace
    refine hinside.trans (congrArg m.v (Fin.ext ?_))
    exact Nat.mod_eq_of_lt r.isLt

/-- A machine whose index register is two bytes below the end of the memory. -/
def atTheBrim : Machine :=
  { withBytes [] with
    index := 0xFFE
    registers := (Registers.zero.set 0 1).set 3 77 }

theorem footprint_atTheBrim :
    atTheBrim.stack.pointer ≤ 16 ∧
      (atTheBrim.afterExecute 0xF355).memory.bytes[0xFFE]? = some 1 ∧
      (atTheBrim.afterExecute 0xF355).memory.bytes[0x001]? = some 77 ∧
      (atTheBrim.afterExecute 0xF355).stack = atTheBrim.stack ∧
      (atTheBrim.afterExecute 0xF355).pc = 0x202 := by
  have hpointer : atTheBrim.stack.pointer ≤ 16 := by decide
  obtain ⟨hsame, -, hpc, -, -, hstored⟩ := footprint_of_word atTheBrim 0xF355 hpointer
  have hkind : Word.EndsIn 0xF 0x55 0xF355 := by decide
  have hfirst := hstored hkind 0 0xFFE (by decide) (by decide)
  have hlast := hstored hkind 3 0x001 (by decide) (by decide)
  have hstack : ¬ Owns atTheBrim 0xF355 .stack := by
    intro howns
    cases howns with
    | stack h => exact absurd h (by decide)
  exact ⟨hpointer, congrArg some hfirst, congrArg some hlast, hsame .stack hstack, hpc⟩

end Machine

end Chip8
