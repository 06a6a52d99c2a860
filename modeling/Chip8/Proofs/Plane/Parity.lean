/-
  File:      Chip8/Proofs/Plane/Parity.lean
  Subject:   any number of sprites painted, each of any height

  * `Stroke`: a sprite and the place it is painted at; `paintAll`: strokes one after the other;
  * `landings`: how many set bits of strokes land on a pixel, over all their rows and columns;
  * `count_targets`: as many as there are hits on it, even where a sprite overlaps itself;
  * `pixel_paintAll`: so a pixel changes if an odd number of bits land on it;
  * `collides_iff`: a stroke switches a lit pixel off if a bit lands on a lit one, or two on one
    that is not;
  * `painted_by_parity`: this together, whence strokes may come in any order, and come twice for
    nothing.
-/
import Chip8.Proofs.Plane.Paint

namespace Chip8

/-! ## 1. Strokes and their bits -/

/-- A sprite and the place that it is painted at. -/
structure Stroke where
  x : UInt8
  y : UInt8
  sprite : List UInt8

/-- A bit of a sprite and the place it falls on, which may lie beyond the edges of the plane. -/
structure Bit where
  column : Nat
  row : Nat
  isSet : Bool

/-- A set bit lands on the pixel in column `cx` and row `cy`, all of them counted around the
    edges. -/
def Bit.Lands (cx cy : Nat) (bit : Bit) : Prop :=
  bit.isSet = true ∧ bit.column % 64 = cx % 64 ∧ bit.row % 32 = cy % 32

instance (cx cy : Nat) : DecidablePred (Bit.Lands cx cy) :=
  fun _ => inferInstanceAs (Decidable (_ ∧ _ ∧ _))

namespace Plane

variable {p : Plane} {x y : Nat} {sprite : List UInt8} {strokes others : List Stroke} {c : Cell}
  {cx cy : Nat}

/-- The bits of a sprite at a place, row by row. A row has eight columns, the most significant bit
    in the first of them. -/
def bitsAt (x y : Nat) (sprite : List UInt8) : List Bit :=
  (sprite.zipIdx y).flatMap fun row =>
    (List.range 8).map fun column => ⟨x + column, row.2, row.1.toNat.testBit (7 - column)⟩

def bits (s : Stroke) : List Bit := bitsAt s.x.toNat s.y.toNat s.sprite

/-- **How many set bits land on a pixel**, over all strokes, rows and columns. -/
def landings (strokes : List Stroke) (cx cy : Nat) : Nat :=
  (strokes.flatMap bits).countP (Bit.Lands cx cy)

/-- The plane after strokes, the first one first. -/
def paintAll (p : Plane) (strokes : List Stroke) : Plane :=
  strokes.foldl (fun plane s => (plane.paint s.x s.y s.sprite).1) p

/-- Whether a stroke switches a lit pixel off. -/
def collides (p : Plane) (s : Stroke) : Bool := (p.paint s.x s.y s.sprite).2

/-! ## 2. Hits are landings -/

theorem bitsAt_cons (x y : Nat) (row : UInt8) (rest : List UInt8) :
    bitsAt x y (row :: rest) =
      ((List.range 8).map fun column => ⟨x + column, y, row.toNat.testBit (7 - column)⟩) ++
        bitsAt x (y + 1) rest := by
  rw [bitsAt, List.zipIdx_cons, List.flatMap_cons]
  rfl

/-- **What a sprite hits are the pixels of its set bits.** -/
theorem targets_eq (x y : Nat) (sprite : List UInt8) :
    targets x y sprite =
      ((bitsAt x y sprite).filter Bit.isSet).map fun bit => cellAt bit.column bit.row := by
  induction sprite generalizing y with
  | nil => rfl
  | cons row rest ih =>
    rw [targets, ih, bitsAt_cons, List.filter_append, List.map_append, List.filter_map,
      List.map_map, bitColumns]
    rfl

theorem count_targets (x y : Nat) (sprite : List UInt8) (cx cy : Nat) :
    (targets x y sprite).count (cellAt cx cy) = (bitsAt x y sprite).countP (Bit.Lands cx cy) := by
  rw [targets_eq, List.count, List.countP_map, List.countP_filter]
  refine List.countP_congr fun bit _ => ?_
  simp [Bit.Lands, cellAt_eq_iff, and_comm]

/-- The pixels that strokes hit, one stroke behind the other. -/
def targetsAll (strokes : List Stroke) : List Cell :=
  strokes.flatMap fun s => targets s.x.toNat s.y.toNat s.sprite

theorem count_targetsAll (strokes : List Stroke) (cx cy : Nat) :
    (targetsAll strokes).count (cellAt cx cy) = landings strokes cx cy := by
  induction strokes with
  | nil => rfl
  | cons s rest ih =>
    rw [targetsAll, List.flatMap_cons, List.count_append, count_targets, landings,
      List.flatMap_cons, List.countP_append]
    exact congrArg _ ih

/-- Whether a hit is noted makes no difference to the plane. -/
theorem plane_foldl_hit (cells : List Cell) (p : Plane) (seen : Bool) :
    (cells.foldl hit (p, seen)).1 = (cells.foldl hit (p, false)).1 :=
  ext_lit fun c => by rw [lit_foldl_hit, lit_foldl_hit]

/-- **Strokes are one long run of hits.** -/
theorem paintAll_eq (p : Plane) (strokes : List Stroke) :
    p.paintAll strokes = ((targetsAll strokes).foldl hit (p, false)).1 := by
  induction strokes generalizing p with
  | nil => rfl
  | cons s rest ih =>
    rw [targetsAll, List.flatMap_cons, List.foldl_append]
    exact (ih _).trans (plane_foldl_hit (targetsAll rest) _ _).symm

/-! ## 3. Planes and landings -/

/-- **A pixel changes** if an odd number of bits land on it. -/
theorem pixel_paintAll (p : Plane) (strokes : List Stroke) (cx cy : Nat) :
    (p.paintAll strokes).pixel cx cy =
      (p.pixel cx cy ^^ decide (landings strokes cx cy % 2 = 1)) := by
  rw [pixel_eq, pixel_eq, paintAll_eq, lit_foldl_hit, count_targetsAll]

/-- Planes with the same pixels are the same. -/
theorem ext_pixel {q : Plane} (h : ∀ cx cy, p.pixel cx cy = q.pixel cx cy) : p = q := by
  refine ext_lit fun c => ?_
  obtain ⟨cx, cy, -, -, rfl⟩ := exists_cellAt c
  exact h cx cy

theorem landings_of_perm (h : others.Perm strokes) (cx cy : Nat) :
    landings others cx cy = landings strokes cx cy :=
  (h.flatMap_right bits).countP_eq _

/-- **A stroke switches a lit pixel off** if enough bits land on some pixel for that. -/
theorem collides_iff (p : Plane) (s : Stroke) :
    p.collides s = true ↔
      ∃ cx cy, cx < 64 ∧ cy < 32 ∧ needed (p.pixel cx cy) ≤ landings [s] cx cy := by
  have hcount : ∀ cx cy, (targets s.x.toNat s.y.toNat s.sprite).count (cellAt cx cy) =
      landings [s] cx cy := by
    intro cx cy
    rw [← count_targetsAll, targetsAll, List.flatMap_singleton]
  rw [collides, paint, flag_foldl_hit]
  constructor
  · intro h
    rcases h with hseen | ⟨c, hc⟩
    · cases hseen
    · obtain ⟨cx, cy, hcx, hcy, rfl⟩ := exists_cellAt c
      exact ⟨cx, cy, hcx, hcy, hcount cx cy ▸ hc⟩
  · intro h
    obtain ⟨cx, cy, -, -, h⟩ := h
    exact .inr ⟨cellAt cx cy, (hcount cx cy).symm ▸ h⟩

theorem needed_le_iff (lit : Bool) (count : Nat) :
    needed lit ≤ count ↔ lit = true ∧ 1 ≤ count ∨ lit = false ∧ 2 ≤ count := by
  cases lit <;> simp [needed]

/-- **Painting is told by parities**, wherever the sprites and however high they are. After strokes
    a pixel has changed if an odd number of set bits landed on it. So strokes may be reordered, and
    all of them made twice change nothing. A stroke tells that it switched a lit pixel off if a bit
    landed on one that was lit, or two on one that was not. -/
theorem painted_by_parity (p : Plane) (strokes : List Stroke) :
    (∀ cx cy, (p.paintAll strokes).pixel cx cy =
      (p.pixel cx cy ^^ decide (landings strokes cx cy % 2 = 1))) ∧
    (∀ others, others.Perm strokes → p.paintAll others = p.paintAll strokes) ∧
    (p.paintAll strokes).paintAll strokes = p ∧
    ∀ s, p.collides s = true ↔ ∃ cx cy, cx < 64 ∧ cy < 32 ∧
      (p.pixel cx cy = true ∧ 1 ≤ landings [s] cx cy ∨
        p.pixel cx cy = false ∧ 2 ≤ landings [s] cx cy) := by
  refine ⟨p.pixel_paintAll strokes, fun others hperm => ?_, ?_, fun s => ?_⟩
  · refine ext_pixel fun cx cy => ?_
    rw [pixel_paintAll, pixel_paintAll, landings_of_perm hperm]
  · refine ext_pixel fun cx cy => ?_
    rw [pixel_paintAll, pixel_paintAll, Bool.xor_assoc, Bool.xor_self, Bool.xor_false]
  · simp only [collides_iff, needed_le_iff]

/-- A sprite one row higher than the plane, painted over the right edge. -/
def tower : Stroke := ⟨60, 0, List.replicate 33 0x81⟩

/-- Its last row falls on its first one. So it switches pixels off that it has lit itself, and
    leaves the row dark, before another sprite or behind it. -/
theorem painted_with_tower :
    [⟨3, 0, [0x80]⟩, tower].Perm [tower, ⟨3, 0, [0x80]⟩] ∧
      blank.paintAll [⟨3, 0, [0x80]⟩, tower] = blank.paintAll [tower, ⟨3, 0, [0x80]⟩] ∧
      blank.collides tower = true ∧
      (blank.paintAll [tower]).pixel 60 0 = false ∧ (blank.paintAll [tower]).pixel 60 1 = true := by
  have hperm : [⟨3, 0, [0x80]⟩, tower].Perm [tower, ⟨3, 0, [0x80]⟩] := List.Perm.swap _ _ _
  obtain ⟨-, horder, -, -⟩ := painted_by_parity blank [tower, ⟨3, 0, [0x80]⟩]
  obtain ⟨hpixels, -, -, hcollides⟩ := painted_by_parity blank [tower]
  have htwo : landings [tower] 60 0 = 2 := by decide +kernel
  have hone : landings [tower] 60 1 = 1 := by decide +kernel
  refine ⟨hperm, horder _ hperm, (hcollides tower).mpr ⟨60, 0, by decide, by decide, .inr ?_⟩, ?_, ?_⟩
  · exact ⟨pixel_blank 60 0, Nat.le_of_eq htwo.symm⟩
  · rw [hpixels, pixel_blank, htwo]
    rfl
  · rw [hpixels, pixel_blank, hone]
    rfl

end Plane

end Chip8
