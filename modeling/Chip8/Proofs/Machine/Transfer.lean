/-
  File:      Chip8/Proofs/Machine/Transfer.lean
  Subject:   registers stored to memory and loaded back

  * `carriesOut_store`, `carriesOut_load`: what `FX55` and `FX65` make of a machine;
  * `block_stored_and_loaded`: where the registers go, that loading them back restores them, and
    that storing what was loaded changes nothing.

  A block may begin anywhere. Where it runs over the end of the memory it goes on at its start, the
  same way in both directions.
-/
import Chip8.Proofs.Instruction.Kind
import Chip8.Proofs.Machine.Periphery
import Chip8.Proofs.Memory.Block

namespace Chip8.Machine

variable {m : Machine} {x : Nibble}

theorem carriesOut_store (m : Machine) (x : Nibble) :
    m.CarriesOut (Word.ofConstant 0xF x 0x55)
      { m with memory := m.memory.store m.registers m.index (x.val + 1) }.next :=
  carriesOut_of_execute (Instruction.decode_encode (i := .storeRegisters x) rfl) rfl

theorem carriesOut_load (m : Machine) (x : Nibble) :
    m.CarriesOut (Word.ofConstant 0xF x 0x65)
      { m with registers := m.registers.load m.memory m.index (x.val + 1) }.next :=
  carriesOut_of_execute (Instruction.decode_encode (i := .loadRegisters x) rfl) rfl

/-- **Storing and loading a block of registers undo each other**, wherever it begins. `FX55` puts
    V0 to VX into the bytes from I on, the addresses counting modulo 4096, and changes no other
    byte. Whatever becomes of the registers, `FX65` with the same memory and I brings V0 to VX back
    and leaves the registers behind them alone. And `FX55` behind `FX65` finds every byte as it
    would store it. -/
theorem block_stored_and_loaded (m : Machine) (x : Nibble) :
    (∃ stored, m.CarriesOut (Word.ofConstant 0xF x 0x55) stored ∧
      (∀ r ≤ x, ∀ place : Address, place.val = (m.index.toNat + r.val) % 4096 →
        stored.memory.bytes.get place = m.v r) ∧
      (∀ place : Address, (∀ r ≤ x, place.val ≠ (m.index.toNat + r.val) % 4096) →
        stored.memory.bytes.get place = m.memory.bytes.get place) ∧
      stored = { m with memory := stored.memory, pc := m.pc + 2 } ∧
      ∀ changed : Machine, changed.memory = stored.memory → changed.index = stored.index →
        ∃ loaded, changed.CarriesOut (Word.ofConstant 0xF x 0x65) loaded ∧
          (∀ r ≤ x, loaded.v r = m.v r) ∧
          (∀ r, x < r → loaded.v r = changed.v r) ∧
          loaded = { changed with registers := loaded.registers, pc := changed.pc + 2 }) ∧
    (∃ loaded, m.CarriesOut (Word.ofConstant 0xF x 0x65) loaded ∧
      loaded = { m with registers := loaded.registers, pc := m.pc + 2 } ∧
      ∀ changed : Machine, changed.memory = loaded.memory → changed.index = loaded.index →
        (∀ r ≤ x, changed.v r = loaded.v r) →
        ∃ stored, changed.CarriesOut (Word.ofConstant 0xF x 0x55) stored ∧
          stored.memory = m.memory) := by
  have hx : x.val + 1 ≤ 16 := x.isLt
  have hinside : ∀ r : Nibble, r ≤ x → r.val < x.val + 1 := fun r hr => Nat.lt_succ_of_le hr
  refine ⟨⟨_, m.carriesOut_store x, fun r hr place hplace => ?_, fun place houtside => ?_, rfl,
    fun changed hmemory hindex => ?_⟩, ⟨_, m.carriesOut_load x, rfl,
    fun changed hmemory hindex hsame => ?_⟩⟩
  · have hstored := Memory.getElem_store_of_inside (m := m.memory) (v := m.registers) hx
      (hinside r hr) hplace
    exact hstored.trans (congrArg m.v (Fin.ext (Nat.mod_eq_of_lt r.isLt)))
  · refine Memory.getElem_store_of_outside fun k hk => ?_
    exact houtside ⟨k, by omega⟩ (Nat.le_of_lt_succ hk)
  · refine ⟨_, changed.carriesOut_load x, fun r hr => ?_, fun r hr => ?_, rfl⟩
    · show (changed.registers.load changed.memory changed.index (x.val + 1)).get r = m.v r
      rw [hmemory, hindex]
      exact Registers.get_load_store hx (hinside r hr)
    · exact Registers.get_load_of_outside hr
  · refine ⟨_, changed.carriesOut_store x, ?_⟩
    show changed.memory.store changed.registers changed.index (x.val + 1) = m.memory
    rw [hmemory, hindex]
    exact Memory.store_load hx fun r hr => hsame r (Nat.le_of_lt_succ hr)

/-- A machine whose index register is three bytes below the end of the memory. -/
def nearTheEnd : Machine :=
  { withBytes [] with
    index := 0xFFD
    registers := (Registers.zero.set 1 11).set 4 44 }

theorem block_nearTheEnd :
    (∃ stored loaded, nearTheEnd.CarriesOut 0xF455 stored ∧
      stored.memory.bytes.get 0xFFE = 11 ∧ stored.memory.bytes.get 0x001 = 44 ∧
      { stored with registers := .zero }.CarriesOut 0xF465 loaded ∧
      loaded.v 1 = 11 ∧ loaded.v 4 = 44) ∧
    ∃ loaded stored, nearTheEnd.CarriesOut 0xF465 loaded ∧
      loaded.CarriesOut 0xF455 stored ∧ stored.memory = nearTheEnd.memory := by
  obtain ⟨⟨stored, hstored, hbytes, -, -, hback⟩, ⟨loaded, hloaded, -, hagain⟩⟩ :=
    block_stored_and_loaded nearTheEnd 4
  obtain ⟨restored, hrestored, hregisters, -, -⟩ :=
    hback { stored with registers := .zero } rfl rfl
  obtain ⟨same, hsame, hmemory⟩ := hagain loaded rfl rfl fun _ _ => rfl
  have hone : nearTheEnd.v 1 = 11 := by decide +kernel
  have hfour : nearTheEnd.v 4 = 44 := by decide +kernel
  have hbefore := (hbytes 1 (by decide) 0xFFE (by decide)).trans hone
  have hbehind := (hbytes 4 (by decide) 0x001 (by decide)).trans hfour
  exact ⟨⟨stored, restored, hstored, hbefore, hbehind, hrestored,
      (hregisters 1 (by decide)).trans hone, (hregisters 4 (by decide)).trans hfour⟩,
    ⟨loaded, same, hloaded, hsame, hmemory⟩⟩

end Chip8.Machine
