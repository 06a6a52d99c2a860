/-
  File:      Chip8/Proofs/Machine/Load.lean
  Subject:   a load forgets everything but the random source

  * `getElem_write_of_inside`, `getElem_write_of_outside`: the bytes of a memory behind a write;
  * `Fresh`: a machine with nothing in it but the glyphs and a program, popped slots and all;
    `fresh_loadedWith`: a load leaves such a machine;
  * `load_of_fits`: what else it leaves depends on the random source alone;
  * `afterMoves_sameButGenerator`: machines that differ in their random source only go on to do so
    as long as no random byte is drawn;
  * `load_forgets`: all of this together, and a program that does not fit changes nothing.
-/
import Chip8.Proofs.Machine.Periphery

namespace Chip8

/-! ## 1. The bytes of a memory -/

namespace Memory

variable {start k : Nat} {data : Array UInt8}

theorem getElem_write_of_inside (m : Memory) (hk : k < 4096) (hstart : start ≤ k)
    (hinside : k - start < data.size) : (m.write start data).bytes[k] = data[k - start] := by
  unfold write
  rw [Vector.getElem_ofFn, dif_pos ⟨hstart, hinside⟩]

theorem getElem_write_of_outside (m : Memory) (hk : k < 4096)
    (houtside : k < start ∨ start + data.size ≤ k) :
    (m.write start data).bytes[k] = m.bytes[k] := by
  have hnot : ¬ (start ≤ k ∧ k - start < data.size) := by omega
  unfold write
  rw [Vector.getElem_ofFn, dif_neg hnot]
  rfl

/-- The words of a program that fits lie behind the place where programs start. -/
theorem fetch?_withProgram_of_inside (m : Memory) {program : Program} {place : UInt16} {k : Nat}
    (hfits : program.size ≤ programLimit) (hplace : place.toNat = 0x200 + k)
    (hinside : k + 1 < program.size) :
    (m.withProgram program).fetch? place = some (Word.ofBytes program[k] program[k + 1]) := by
  have hlimit : programLimit = 3584 := rfl
  have hstart : programStart.toNat = 0x200 := rfl
  have hroom : place.toNat + 1 < 4096 := by omega
  have hfirst : place.toNat - programStart.toNat = k := by omega
  have hsecond : place.toNat + 1 - programStart.toNat = k + 1 := by omega
  rw [fetch?, dif_pos hroom, withProgram, getElem_write_of_inside _ _ (by omega) (by omega),
    getElem_write_of_inside _ _ (by omega) (by omega)]
  simp only [hfirst, hsecond]

theorem size_font : font.size = 80 := rfl

theorem getElem_powerOn_of_glyph (hk : k < 4096) (hglyph : k < font.size) :
    powerOn.bytes[k] = font[k] :=
  getElem_write_of_inside _ hk (Nat.zero_le k) hglyph

theorem getElem_powerOn_of_ge (hk : k < 4096) (hglyphs : font.size ≤ k) : powerOn.bytes[k] = 0 := by
  have houtside : k < fontStart.toNat ∨ fontStart.toNat + font.size ≤ k := by
    right
    show 0 + font.size ≤ k
    omega
  rw [powerOn, getElem_write_of_outside _ hk houtside, Vector.getElem_replicate]

end Memory

namespace Machine

variable {m n loaded : Machine} {program : Program}

/-! ## 2. A fresh machine -/

/-- **A machine with nothing in it but the glyphs and a program**, about to start, its blank plane
    still to be shown. -/
structure Fresh (m : Machine) (program : Program) : Prop where
  glyphs : ∀ k < 0x50, m.memory.bytes[k]? = Memory.font[k]?
  bytes : ∀ k (h : k < program.size), m.memory.bytes[0x200 + k]? = some program[k]
  /-- Between the glyphs and the program, and behind the program. -/
  zeros : ∀ k < 4096, 0x50 ≤ k → (k < 0x200 ∨ 0x200 + program.size ≤ k) →
    m.memory.bytes[k]? = some 0
  registers : ∀ x, m.v x = 0
  /-- Slots that were popped count as well. -/
  slots : ∀ k (h : k < 16), m.stack.slots[k] = 0
  pointer : m.stack.pointer = 0
  pc : m.pc = 0x200
  index : m.index = 0
  delay : m.delay.count = 0
  sound : m.sound.count = 0
  keypad : ∀ key, m.keypad.isHeld key = false
  opcode : m.opcode = 0
  plane : ∀ x y, m.plane.pixel x y = false
  drawFlag : m.drawFlag = true

/-- What a load makes of a machine, if the program fits: of what it was only the random source
    counts. -/
def loadedWith (generator : Generator) (program : Program) : Machine :=
  { switchedOn generator with
    memory := Memory.powerOn.withProgram program
    drawFlag := true }

theorem load_of_fits (m : Machine) (h : program.size ≤ Memory.programLimit) :
    m.load program = .ok (loadedWith m.generator.rekeyed program) := by
  rw [load, if_neg (Nat.not_lt.mpr h)]
  rfl

theorem load_of_too_large (m : Machine) (h : Memory.programLimit < program.size) :
    m.load program = .error (.programTooLarge program.size Memory.programLimit) := by
  rw [load, if_pos h]

/-- A load that is accepted leaves nothing else. -/
theorem eq_loadedWith_of_load (h : m.load program = .ok loaded) :
    program.size ≤ Memory.programLimit ∧ loaded = loadedWith m.generator.rekeyed program := by
  by_cases hfits : program.size ≤ Memory.programLimit
  · rw [load_of_fits m hfits] at h
    cases h
    exact ⟨hfits, rfl⟩
  · rw [load_of_too_large m (Nat.lt_of_not_le hfits)] at h
    cases h

/-- **A load leaves a fresh machine.** -/
theorem fresh_loadedWith (generator : Generator) (h : program.size ≤ Memory.programLimit) :
    (loadedWith generator program).Fresh program where
  glyphs k hglyph := by
    have hk : k < 4096 := by omega
    have hbelow : k < 0x200 := by omega
    have hfont : k < Memory.font.size := by rwa [Memory.size_font]
    rw [Vector.getElem?_eq_getElem hk, Array.getElem?_eq_getElem hfont,
      ← Memory.getElem_powerOn_of_glyph hk hfont]
    exact congrArg some (Memory.getElem_write_of_outside _ hk (.inl hbelow))
  bytes k hinside := by
    have hlimit : Memory.programLimit = 3584 := rfl
    have hstart : Memory.programStart.toNat = 0x200 := rfl
    have hk : 0x200 + k < 4096 := by omega
    have hoffset : 0x200 + k - Memory.programStart.toNat = k := by omega
    rw [Vector.getElem?_eq_getElem hk]
    refine congrArg some ((Memory.getElem_write_of_inside _ hk (by omega) (by omega)).trans ?_)
    simp only [hoffset]
  zeros k hk hglyphs houtside := by
    rw [Vector.getElem?_eq_getElem hk, ← Memory.getElem_powerOn_of_ge hk hglyphs]
    exact congrArg some (Memory.getElem_write_of_outside _ hk houtside)
  registers x := Registers.get_zero x
  slots k hk := Vector.getElem_replicate hk
  pointer := rfl
  pc := rfl
  index := rfl
  delay := rfl
  sound := rfl
  keypad key := Keypad.isHeld_released key
  opcode := rfl
  plane x y := Plane.pixel_blank x y
  drawFlag := rfl

/-! ## 3. Two machines -/

/-- **While no random byte is drawn**, machines that differ in their random source only go on to do
    so. -/
theorem afterMoves_sameButGenerator (h : m.SameButGenerator n) {moves : List Move}
    (hdraws : m.RunsWithout Word.Draws moves) :
    (m.afterMoves moves).SameButGenerator (n.afterMoves moves) := by
  induction moves generalizing m n with
  | nil => exact h
  | cons move rest ih =>
    obtain ⟨hfirst, hrest⟩ := hdraws
    refine ih ?_ hrest
    cases move with
    | step => exact (step_sameButGenerator h fun hword => hfirst ⟨rfl, hword⟩).1
    | touch t => exact afterTouch_sameButGenerator h t

/-- **A load forgets the past.** Two machines that are given the same program, which fits, are then
    fresh and differ in their random source at most; if their random sources were equal they are
    equal. Machines that differ in their random source only go on to do so, whatever moves both
    make, until a random byte is drawn. And a program that does not fit is refused with its size
    and the size that would, and changes nothing. -/
theorem load_forgets (m n : Machine) (program : Program) :
    (program.size ≤ 3584 → ∃ loaded other,
      m.load program = .ok loaded ∧ n.load program = .ok other ∧
      loaded.Fresh program ∧ loaded.SameButGenerator other ∧
      (m.generator = n.generator → loaded = other)) ∧
    (m.SameButGenerator n → ∀ moves, m.RunsWithout Word.Draws moves →
      (m.afterMoves moves).SameButGenerator (n.afterMoves moves)) ∧
    (3584 < program.size →
      m.load program = .error (.programTooLarge program.size 3584) ∧ m.afterLoad program = m) := by
  refine ⟨fun hfits => ?_, fun h moves => afterMoves_sameButGenerator h, fun hlarge => ?_⟩
  · refine ⟨_, _, m.load_of_fits hfits, n.load_of_fits hfits, fresh_loadedWith _ hfits, rfl,
      fun hgenerator => ?_⟩
    rw [hgenerator]
  · exact ⟨m.load_of_too_large hlarge, afterLoad_of_too_large hlarge⟩

end Machine

end Chip8
