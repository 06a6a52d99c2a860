/-
  File:      Chip8/Proofs/Machine/Draw.lean
  Subject:   a sprite drawn, told pixel by pixel

  * `Toggles`: whether a bit of the sprite lands on a pixel, asked from the pixel: its row and its
    column behind the place of the sprite say which byte and which bit to look at;
  * `Plane.Switches`: whether some pixel that is switched from one plane to another was lit;
  * `mem_hits_iff`: the pixels the sprite is scattered to are those it toggles;
  * `sprite_drawn_and_erased`: what `DXYN` does, and that once more it undoes it.
-/
import Chip8.Proofs.Instruction.Kind
import Chip8.Proofs.Machine.Event
import Chip8.Proofs.Machine.Route
import Chip8.Proofs.Memory.Block
import Chip8.Proofs.Plane.Paint

namespace Chip8

/-- Some pixel that is switched from one plane to the other was `lit` in the first. -/
def Plane.Switches (before after : Plane) (lit : Bool) : Prop :=
  ∃ cx cy, cx < 64 ∧ cy < 32 ∧ after.pixel cx cy ≠ before.pixel cx cy ∧ before.pixel cx cy = lit

/-- A byte is one if something holds and zero if not. -/
def FlagOf (value : UInt8) (holds : Prop) : Prop := value = 1 ∧ holds ∨ value = 0 ∧ ¬ holds

theorem flagOf_of_iff {seen : Bool} {holds : Prop} (h : seen = true ↔ holds) :
    FlagOf (if seen then 1 else 0) holds := by
  cases seen with
  | true => exact .inl ⟨rfl, h.mp rfl⟩
  | false => exact .inr ⟨rfl, fun hholds => Bool.false_ne_true (h.mpr hholds)⟩

namespace Machine

variable {m later : Machine} {x y height : Nibble} {cx cy : Nat} {lit : Bool}

/-! ## 1. Pixels and the bits that land on them -/

/-- **Whether a sprite of `height` rows at (VX, VY) toggles the pixel in column `cx` and row `cy`.**
    The pixel lies `r` rows and `j` columns behind (VX, VY), counted around the edges. A coordinate
    is less than 256, which is a multiple of both lengths. -/
def Toggles (m : Machine) (x y height : Nibble) (cx cy : Nat) : Prop :=
  let r := (cy + 256 - (m.v y).toNat) % 32
  let j := (cx + 256 - (m.v x).toNat) % 64
  r < height.val ∧ j < 8 ∧
    (m.memory.bytes[(m.index.toNat + r) % 4096]).toNat.testBit (7 - j) = true

instance (m : Machine) (x y height : Nibble) (cx cy : Nat) :
    Decidable (m.Toggles x y height cx cy) :=
  inferInstanceAs (Decidable (_ ∧ _ ∧ _))

/-- The rows of the sprite. -/
def sprite (m : Machine) (height : Nibble) : List UInt8 := m.memory.read m.index height.val

/-- The pixels the set bits of the sprite land on. -/
def hits (m : Machine) (x y height : Nibble) : List Cell :=
  Plane.targets (m.v x).toNat (m.v y).toNat (m.sprite height)

theorem length_sprite (m : Machine) (height : Nibble) : (m.sprite height).length ≤ 32 := by
  have h := height.isLt
  rw [sprite, Memory.length_read]
  omega

/-- **The pixels a sprite is scattered to are those it toggles.** -/
theorem mem_hits_iff (hcx : cx < 64) (hcy : cy < 32) :
    Plane.cellAt cx cy ∈ m.hits x y height ↔ m.Toggles x y height cx cy := by
  have hx := (m.v x).toNat_lt
  have hy := (m.v y).toNat_lt
  have hheight := height.isLt
  rw [hits, Plane.mem_targets_iff]
  constructor
  · rintro ⟨row, column, hrow, hcolumn, hbit, hcell⟩
    obtain ⟨hsamecolumn, hsamerow⟩ := Plane.cellAt_eq_iff.mp hcell
    have hlt : row < height.val := (Memory.length_read m.memory m.index height.val) ▸ hrow
    have hr : (cy + 256 - (m.v y).toNat) % 32 = row := by omega
    have hj : (cx + 256 - (m.v x).toNat) % 64 = column := by omega
    refine ⟨by omega, by omega, ?_⟩
    simp only [sprite, Memory.getElem_read] at hbit
    simp only [hr, hj, hbit]
  · rintro ⟨hlt, hcolumn, hbit⟩
    have hrow : (cy + 256 - (m.v y).toNat) % 32 < (m.sprite height).length :=
      (Memory.length_read m.memory m.index height.val).symm ▸ hlt
    refine ⟨_, _, hrow, hcolumn, ?_, Plane.cellAt_eq_iff.mpr ⟨by omega, by omega⟩⟩
    simp only [sprite, Memory.getElem_read, hbit]

/-! ## 2. A sprite drawn once -/

theorem execute_draw (m : Machine) (x y height : Nibble) :
    m.execute (.decode (Word.ofNibbles 0xD x y height)) = .ok (m.draw x y height).next := by
  have hdecode : Instruction.decode (Word.ofNibbles 0xD x y height) = .draw x y height :=
    Instruction.decode_encode (i := .draw x y height) rfl
  rw [hdecode]
  rfl

theorem lit_draw (m : Machine) (x y height : Nibble) (c : Cell) :
    (m.draw x y height).plane.lit c =
      (m.plane.lit c ^^ (m.hits x y height).contains c) :=
  Plane.lit_paint (m.length_sprite height) c

/-- Which pixels are switched. -/
theorem pixel_draw_ne_iff (hcx : cx < 64) (hcy : cy < 32) :
    (m.draw x y height).plane.pixel cx cy ≠ m.plane.pixel cx cy ↔
      m.Toggles x y height cx cy := by
  rw [← mem_hits_iff hcx hcy, Plane.pixel_eq, Plane.pixel_eq, lit_draw]
  by_cases h : Plane.cellAt cx cy ∈ m.hits x y height <;> simp [h]

/-- Whether one of those that are switched was lit. -/
theorem switches_draw_iff :
    m.plane.Switches (m.draw x y height).plane lit ↔
      ∃ c : Cell, c ∈ m.hits x y height ∧ m.plane.lit c = lit := by
  constructor
  · rintro ⟨cx, cy, hcx, hcy, hne, hlit⟩
    exact ⟨Plane.cellAt cx cy, (mem_hits_iff hcx hcy).mpr ((pixel_draw_ne_iff hcx hcy).mp hne), hlit⟩
  · rintro ⟨c, hc, hlit⟩
    obtain ⟨cx, cy, hcx, hcy, rfl⟩ := Plane.exists_cellAt c
    exact ⟨cx, cy, hcx, hcy, (pixel_draw_ne_iff hcx hcy).mpr ((mem_hits_iff hcx hcy).mp hc), hlit⟩

theorem v_draw_flag (m : Machine) (x y height : Nibble) :
    (m.draw x y height).v 0xF =
      if (m.plane.paint (m.v x) (m.v y) (m.sprite height)).2 then 1 else 0 :=
  m.registers.get_set_self 0xF _

theorem v_draw_of_ne {r : Nibble} (hr : r ≠ 0xF) : (m.draw x y height).v r = m.v r := by
  show (m.registers.setFlag _).get r = m.registers.get r
  rw [Registers.setFlag, Registers.get_set, if_neg fun e => hr e.symm]

/-- VF tells whether one of the pixels that are switched was lit. -/
theorem flagOf_draw (m : Machine) (x y height : Nibble) :
    FlagOf ((m.draw x y height).v 0xF) (m.plane.Switches (m.draw x y height).plane true) := by
  rw [v_draw_flag]
  exact flagOf_of_iff ((Plane.flag_paint (m.length_sprite height)).trans switches_draw_iff.symm)

/-! ## 3. The same sprite drawn again -/

section Again

variable (hplane : later.plane = (m.draw x y height).plane) (hmemory : later.memory = m.memory)
  (hindex : later.index = m.index) (hx : later.v x = m.v x) (hy : later.v y = m.v y)

include hplane hmemory hindex hx hy

/-- **The same sprite at the same place** takes back what was drawn. -/
theorem plane_draw_again : (later.draw x y height).plane = m.plane := by
  show (later.plane.paint (later.v x) (later.v y)
    (later.memory.read later.index height.val)).1 = m.plane
  rw [hplane, hmemory, hindex, hx, hy]
  exact m.plane.paint_paint (m.v x) (m.v y) (m.sprite height)

/-- VF tells whether one of the pixels that are switched was not lit at first. -/
theorem flagOf_draw_again :
    FlagOf ((later.draw x y height).v 0xF)
      (m.plane.Switches (m.draw x y height).plane false) := by
  have hsprite : later.sprite height = m.sprite height := by
    rw [sprite, sprite, hmemory, hindex]
  have hlit : ∀ c : Cell, c ∈ m.hits x y height →
      ((m.draw x y height).plane.lit c = true ↔ m.plane.lit c = false) := by
    intro c hc
    rw [lit_draw]
    simp [hc]
  rw [v_draw_flag, hplane, hsprite, hx, hy]
  refine flagOf_of_iff ((Plane.flag_paint (m.length_sprite height)).trans ?_)
  refine Iff.trans ?_ switches_draw_iff.symm
  exact exists_congr fun c => and_congr_right fun hc => hlit c hc

end Again

/-! ## 4. The whole instruction -/

/-- **`DXYN` draws a sprite, and once more erases it.** Exactly the pixels change that the sprite
    toggles; VF tells whether one of them was lit, the draw flag is raised, the program counter
    goes on, and nothing else changes, whichever registers hold the coordinates. A step that
    fetches the word does just this, and notes the word. With I, the memory and the coordinates as
    they were, the same word takes back what was drawn. -/
theorem sprite_drawn_and_erased (m : Machine) (x y height : Nibble) :
    ∃ done : Machine,
      m.execute (.decode (Word.ofNibbles 0xD x y height)) = .ok done ∧
      (∀ cx cy, cx < 64 → cy < 32 →
        (done.plane.pixel cx cy ≠ m.plane.pixel cx cy ↔ m.Toggles x y height cx cy)) ∧
      FlagOf (done.v 0xF) (m.plane.Switches done.plane true) ∧
      done.drawFlag = true ∧
      done.pc = m.pc + 2 ∧
      (∀ r, r ≠ 0xF → done.v r = m.v r) ∧
      done = { m with
        plane := done.plane
        registers := done.registers
        drawFlag := done.drawFlag
        pc := done.pc } ∧
      (m.memory.fetch? m.pc = some (Word.ofNibbles 0xD x y height) →
        m.step = ({ done with opcode := Word.ofNibbles 0xD x y height }, none)) ∧
      ∀ later : Machine, later.plane = done.plane → later.memory = m.memory →
        later.index = m.index → later.v x = m.v x → later.v y = m.v y →
        ∃ again : Machine,
          later.execute (.decode (Word.ofNibbles 0xD x y height)) = .ok again ∧
          again.plane = m.plane ∧
          FlagOf (again.v 0xF) (m.plane.Switches done.plane false) := by
  refine ⟨_, m.execute_draw x y height, fun cx cy => pixel_draw_ne_iff,
    m.flagOf_draw x y height, rfl, rfl, fun r => v_draw_of_ne, rfl, fun hfetch => ?_,
    fun later hplane hmemory hindex hx hy => ?_⟩
  · exact step_of_execute hfetch (execute_draw _ x y height)
  · exact ⟨_, later.execute_draw x y height, plane_draw_again hplane hmemory hindex hx hy,
      flagOf_draw_again hplane hmemory hindex hx hy⟩

/-- A machine about to draw a sprite of two rows over the right edge, with VF as a coordinate. -/
def atTheEdge : Machine :=
  { withBytes [(0x300, 0xF0), (0x301, 0x90)] with
    index := 0x300
    registers := (Registers.zero.set 0xF 62).set 1 30 }

theorem drawn_and_erased_atTheEdge :
    ∃ done again : Machine,
      atTheEdge.execute (.decode 0xDF12) = .ok done ∧
      done.plane.pixel 0 30 ≠ atTheEdge.plane.pixel 0 30 ∧
      done.plane.pixel 0 31 = atTheEdge.plane.pixel 0 31 ∧
      (done.setV 0xF 62).execute (.decode 0xDF12) = .ok again ∧
      again.plane = atTheEdge.plane := by
  obtain ⟨done, hdone, hpixels, -, -, -, hothers, hframe, -, hagain⟩ :=
    sprite_drawn_and_erased atTheEdge 0xF 1 2
  have hmemory : done.memory = atTheEdge.memory := by
    rw [hframe]
  have hindex : done.index = atTheEdge.index := by
    rw [hframe]
  have hx : (done.setV 0xF 62).v 0xF = atTheEdge.v 0xF := done.registers.get_set_self 0xF 62
  have hy : (done.setV 0xF 62).v 1 = atTheEdge.v 1 :=
    (done.registers.get_set 0xF 1 62).trans (hothers 1 (by decide))
  obtain ⟨again, hexecute, hplane, -⟩ := hagain (done.setV 0xF 62) rfl hmemory hindex hx hy
  have hon : atTheEdge.Toggles 0xF 1 2 0 30 := by decide +kernel
  have hoff : ¬ atTheEdge.Toggles 0xF 1 2 0 31 := by decide +kernel
  have hsame := mt (hpixels 0 31 (by decide) (by decide)).mp hoff
  exact ⟨done, again, hdone, (hpixels 0 30 (by decide) (by decide)).mpr hon,
    Decidable.not_not.mp hsame, hexecute, hplane⟩

end Machine

end Chip8
