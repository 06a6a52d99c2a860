/-
  File:      Chip8/Proofs/Memory/Block.lean
  Subject:   blocks of registers stored and loaded, and the three digits of a byte stored

  * `getElem_set`: a byte behind a write of one byte; `getElem_read`: a byte of a block read;
  * `getElem_store_of_inside`, `getElem_store_of_outside`: the bytes behind a block of registers,
    whose addresses count modulo 4096;
  * `getElem_storeDecimal_of_outside`, `digits_storeDecimal`: those behind the digits of a byte;
  * `Registers.get_load_of_inside`, `Registers.get_load_of_outside`: the registers behind a block
    loaded;
  * `get_load_store`, `Memory.store_load`: a block stored and loaded back leaves the registers as
    they are, a block loaded and stored back leaves the memory as it is.

  A block has at most sixteen bytes, so no two of them fall on one place.
-/
import Chip8.Machine.Execute

namespace Chip8

theorem Address.val_ofWord_add (start : UInt16) (offset : Nat) :
    (Address.ofWord (start + UInt16.ofNat offset)).val = (start.toNat + offset) % 4096 := by
  show (start + UInt16.ofNat offset).toNat % 4096 = _
  rw [UInt16.toNat_add, UInt16.toNat_ofNat']
  omega

namespace Memory

variable {m : Memory} {v : Registers} {start : UInt16} {count k : Nat} {value : UInt8}
  {place : Address}

/-! ## 1. One byte and a block read -/

theorem getElem_set (m : Memory) (address : UInt16) (value : UInt8) (place : Address) :
    (m.set address value).bytes[place] =
      if Address.ofWord address = place then value else m.bytes[place] := by
  by_cases h : Address.ofWord address = place
  · simp [set, h]
  · have hval : (Address.ofWord address).val ≠ place.val := fun e => h (Fin.ext e)
    simp [set, h, hval]

/-- A byte so far behind a start is found there, modulo 4096. -/
theorem get_add (hplace : place.val = (start.toNat + k) % 4096) :
    m.get (start + UInt16.ofNat k) = m.bytes[place] := by
  have hsame : Address.ofWord (start + UInt16.ofNat k) = place := by
    apply Fin.ext
    rw [Address.val_ofWord_add, hplace]
  subst hsame
  rfl

theorem length_read (m : Memory) (address : UInt16) (count : Nat) :
    (m.read address count).length = count := by
  rw [read, List.length_map, List.length_range]

/-- **A byte of a block that is read** lies so far behind its start, modulo 4096. -/
theorem getElem_read (m : Memory) (address : UInt16) (count : Nat) {i : Nat}
    (h : i < (m.read address count).length) :
    (m.read address count)[i] = m.bytes[(address.toNat + i) % 4096] := by
  have hplace : Address.ofWord (address + UInt16.ofNat i) =
      ⟨(address.toNat + i) % 4096, Nat.mod_lt _ (by decide)⟩ :=
    Fin.ext (Address.val_ofWord_add address i)
  simp only [read, List.getElem_map, List.getElem_range, get, hplace]
  rfl

/-! ## 2. A block of registers -/

/-- **Outside a block** every byte is as it was. -/
theorem getElem_store_of_outside (houtside : ∀ k < count, place.val ≠ (start.toNat + k) % 4096) :
    (m.store v start count).bytes[place] = m.bytes[place] := by
  induction count with
  | zero => rfl
  | succ count ih =>
    have hlast : Address.ofWord (start + UInt16.ofNat count) ≠ place := by
      intro e
      apply houtside count (Nat.lt_succ_self count)
      rw [← e, Address.val_ofWord_add]
    rw [store, getElem_set, if_neg hlast]
    exact ih fun k hk => houtside k (Nat.lt_succ_of_lt hk)

/-- **Inside a block** lies one register behind the other. -/
theorem getElem_store_of_inside (hcount : count ≤ 16) (hk : k < count)
    (hplace : place.val = (start.toNat + k) % 4096) :
    (m.store v start count).bytes[place] = v.get (Fin.ofNat 16 k) := by
  induction count with
  | zero => omega
  | succ count ih =>
    rw [store, getElem_set]
    by_cases hlast : k = count
    · subst hlast
      have hsame : Address.ofWord (start + UInt16.ofNat k) = place := by
        apply Fin.ext
        rw [Address.val_ofWord_add, hplace]
      rw [if_pos hsame]
    · -- a later byte of the block falls on another place
      have hother : Address.ofWord (start + UInt16.ofNat count) ≠ place := by
        intro e
        rw [← e, Address.val_ofWord_add] at hplace
        omega
      rw [if_neg hother]
      exact ih (by omega) (by omega)

/-! ## 3. Three digits -/

theorem getElem_storeDecimal (m : Memory) (value : UInt8) (start : UInt16) (place : Address) :
    (m.storeDecimal value start).bytes[place] =
      if place.val = (start.toNat + 2) % 4096 then value % 10
      else if place.val = (start.toNat + 1) % 4096 then value / 10 % 10
      else if place.val = start.toNat % 4096 then value / 100
      else m.bytes[place] := by
  have hsame (offset : Nat) : Address.ofWord (start + UInt16.ofNat offset) = place ↔
      place.val = (start.toNat + offset) % 4096 := by
    rw [← Address.val_ofWord_add, Fin.ext_iff]
    exact eq_comm
  have hfirst : Address.ofWord start = place ↔ place.val = start.toNat % 4096 := by
    rw [Fin.ext_iff]
    exact eq_comm
  have hsecond := hsame 1
  have hthird := hsame 2
  unfold storeDecimal
  rw [getElem_set, getElem_set, getElem_set]
  simp only [← hfirst, ← hsecond, ← hthird]
  rfl

/-- **Outside the digits** every byte is as it was. -/
theorem getElem_storeDecimal_of_outside
    (houtside : ∀ k < 3, place.val ≠ (start.toNat + k) % 4096) :
    (m.storeDecimal value start).bytes[place] = m.bytes[place] := by
  have h0 := houtside 0 (by decide)
  have h1 := houtside 1 (by decide)
  have h2 := houtside 2 (by decide)
  rw [Nat.add_zero] at h0
  rw [getElem_storeDecimal, if_neg h2, if_neg h1, if_neg h0]

/-- The three digits of a byte are its decimal digits. -/
theorem digits_of_byte (value : UInt8) :
    (value / 100).toNat ≤ 9 ∧ (value / 10 % 10).toNat ≤ 9 ∧ (value % 10).toNat ≤ 9 ∧
      100 * (value / 100).toNat + 10 * (value / 10 % 10).toNat + (value % 10).toNat =
        value.toNat := by
  have h := value.toNat_lt
  simp only [UInt8.toNat_div, UInt8.toNat_mod]
  show value.toNat / 100 ≤ 9 ∧ value.toNat / 10 % 10 ≤ 9 ∧ value.toNat % 10 ≤ 9 ∧
    100 * (value.toNat / 100) + 10 * (value.toNat / 10 % 10) + value.toNat % 10 = value.toNat
  omega

/-- **The three bytes are the digits of the value**, hundreds first. -/
theorem digits_storeDecimal (m : Memory) (value : UInt8) (start : UInt16) :
    ∃ hundreds tens units : UInt8,
      hundreds.toNat ≤ 9 ∧ tens.toNat ≤ 9 ∧ units.toNat ≤ 9 ∧
      100 * hundreds.toNat + 10 * tens.toNat + units.toNat = value.toNat ∧
      ∀ place : Address,
        (place.val = start.toNat % 4096 →
          (m.storeDecimal value start).bytes[place] = hundreds) ∧
        (place.val = (start.toNat + 1) % 4096 →
          (m.storeDecimal value start).bytes[place] = tens) ∧
        (place.val = (start.toNat + 2) % 4096 →
          (m.storeDecimal value start).bytes[place] = units) := by
  obtain ⟨h1, h2, h3, hsum⟩ := digits_of_byte value
  refine ⟨_, _, _, h1, h2, h3, hsum, fun place => ⟨fun h => ?_, fun h => ?_, fun h => ?_⟩⟩
  · have h' : place.val ≠ (start.toNat + 1) % 4096 := by omega
    have h'' : place.val ≠ (start.toNat + 2) % 4096 := by omega
    rw [getElem_storeDecimal, if_neg h'', if_neg h', if_pos h]
  · have h' : place.val ≠ (start.toNat + 2) % 4096 := by omega
    rw [getElem_storeDecimal, if_neg h', if_pos h]
  · rw [getElem_storeDecimal, if_pos h]

end Memory

/-! ## 4. A block loaded -/

namespace Registers

variable {v w : Registers} {m : Memory} {start : UInt16} {count : Nat} {r : Nibble}
  {place : Address}

theorem ofNat_ne_of_lt {count : Nat} {r : Nibble} (hcount : count < 16) (hr : r.val ≠ count) :
    Fin.ofNat 16 count ≠ r := by
  intro e
  have hval : count % 16 = r.val := congrArg Fin.val e
  omega

/-- **A block loaded leaves the registers behind it alone.** -/
theorem get_load_of_outside (hr : count ≤ r.val) : (v.load m start count).get r = v.get r := by
  induction count with
  | zero => rfl
  | succ count ih =>
    have hlt := r.isLt
    rw [load, get_set, if_neg (ofNat_ne_of_lt (by omega) (by omega))]
    exact ih (by omega)

/-- **Into the registers of a block** goes one byte behind the other. -/
theorem get_load_of_inside (hcount : count ≤ 16) (hr : r.val < count)
    (hplace : place.val = (start.toNat + r.val) % 4096) :
    (v.load m start count).get r = m.bytes[place] := by
  induction count with
  | zero => omega
  | succ count ih =>
    rw [load, get_set]
    by_cases hlast : r.val = count
    · have hsame : Fin.ofNat 16 count = r := by
        apply Fin.ext
        show count % 16 = r.val
        omega
      rw [if_pos hsame]
      exact Memory.get_add (hlast ▸ hplace)
    · rw [if_neg (ofNat_ne_of_lt hcount hlast)]
      exact ih (by omega) (by omega)

/-! ## 5. There and back -/

/-- **A block stored and loaded again** is as it was, whatever the registers hold by then. -/
theorem get_load_store (hcount : count ≤ 16) (hr : r.val < count) :
    (w.load (m.store v start count) start count).get r = v.get r := by
  have hlt : (start.toNat + r.val) % 4096 < 4096 := Nat.mod_lt _ (by decide)
  have hplace : (⟨_, hlt⟩ : Address).val = (start.toNat + r.val) % 4096 := rfl
  rw [get_load_of_inside hcount hr hplace, Memory.getElem_store_of_inside hcount hr hplace]
  exact congrArg v.get (Fin.ext (Nat.mod_eq_of_lt r.isLt))

end Registers

/-- **A block loaded and stored again** leaves the memory as it is. -/
theorem Memory.store_load {v w : Registers} {m : Memory} {start : UInt16} {count : Nat}
    (hcount : count ≤ 16)
    (hw : ∀ r : Nibble, r.val < count → w.get r = (v.load m start count).get r) :
    m.store w start count = m := by
  apply Memory.ext
  apply Vector.ext
  intro i hi
  show (m.store w start count).bytes[(⟨i, hi⟩ : Address)] = m.bytes[(⟨i, hi⟩ : Address)]
  by_cases hinside : ∃ k < count, i = (start.toNat + k) % 4096
  · obtain ⟨k, hk, hplace⟩ := hinside
    have hval : (Fin.ofNat 16 k).val = k := Nat.mod_eq_of_lt (by omega)
    rw [getElem_store_of_inside hcount hk hplace, hw _ (hval.symm ▸ hk)]
    exact Registers.get_load_of_inside hcount (hval.symm ▸ hk) (hval.symm ▸ hplace)
  · refine getElem_store_of_outside fun k hk hplace => hinside ⟨k, hk, hplace⟩

end Chip8
