/-
  File:      Chip8/Proofs/Plane/Paint.lean
  Subject:   what painting does to each pixel

  * `lit_foldl_hit`: a pixel changes if it is hit an odd number of times;
  * `flag_foldl_hit`: a lit pixel is switched off if one is hit that was lit, or one that was not
    is hit twice;
  * `mem_targets_iff`, `nodup_targets`: where the set bits of a sprite land. As long as it is no
    higher than the plane, each lands on a pixel of its own;
  * `lit_paint`, `flag_paint`: so such a sprite switches the pixels that its bits land on, and
    tells whether one of them was lit;
  * `paint_paint`: whatever was painted twice is gone.
-/
import Chip8.Plane

namespace Chip8.Plane

variable {p : Plane} {state : Plane × Bool} {cells : List Cell} {c cell : Cell}
  {sprite : List UInt8}

/-! ## 1. Hits -/

/-- Whether a pixel is lit. -/
def lit (p : Plane) (c : Cell) : Bool := p.cells.get c

theorem pixel_eq (p : Plane) (x y : Nat) : p.pixel x y = p.lit (cellAt x y) := rfl

theorem lit_toggle (p : Plane) (a b : Cell) : (p.toggle a).lit b = (p.lit b ^^ decide (a = b)) :=
  p.cells_toggle a b

/-- Planes with the same pixels lit are the same. -/
theorem ext_lit {q : Plane} (h : ∀ c, p.lit c = q.lit c) : p = q := by
  apply Plane.ext
  apply Vector.ext
  intro i hi
  exact h ⟨i, hi⟩

theorem hit_eq (state : Plane × Bool) (cell : Cell) :
    hit state cell = (state.1.toggle cell, state.2 || state.1.lit cell) := by
  show (if state.1.lit cell then (state.1.toggle cell, true) else (state.1.toggle cell, state.2)) =
    (state.1.toggle cell, state.2 || state.1.lit cell)
  cases state.1.lit cell <;> simp

/-- **A pixel changes** if it is hit an odd number of times. -/
theorem lit_foldl_hit (cells : List Cell) (state : Plane × Bool) (c : Cell) :
    (cells.foldl hit state).1.lit c =
      (state.1.lit c ^^ decide (cells.count c % 2 = 1)) := by
  induction cells generalizing state with
  | nil => simp
  | cons cell cells ih =>
    rw [List.foldl_cons, ih, hit_eq, lit_toggle, List.count_cons]
    by_cases h : cell = c
    · subst h
      rcases Nat.mod_two_eq_zero_or_one (cells.count cell) with heven | hodd
      · have hnext : (cells.count cell + 1) % 2 = 1 := by omega
        simp [heven, hnext]
      · have hnext : (cells.count cell + 1) % 2 = 0 := by omega
        simp [hodd, hnext]
    · simp [h]

/-- How often a pixel must be hit until a lit one is switched off. -/
def needed (lit : Bool) : Nat := if lit then 1 else 2

theorem needed_ne_zero (lit : Bool) : needed lit ≠ 0 := by
  cases lit <;> decide

/-- One of the hits that are needed is made, unless it was the last. -/
theorem needed_le_succ_iff (lit : Bool) (count : Nat) :
    needed lit ≤ count + 1 ↔ lit = true ∨ needed (! lit) ≤ count := by
  cases lit <;> simp [needed]

/-- **A lit pixel is switched off** if some pixel is hit often enough for that. -/
theorem flag_foldl_hit (cells : List Cell) (state : Plane × Bool) :
    (cells.foldl hit state).2 = true ↔
      state.2 = true ∨ ∃ c : Cell, needed (state.1.lit c) ≤ cells.count c := by
  induction cells generalizing state with
  | nil => simp [needed_ne_zero]
  | cons cell cells ih =>
    -- the first hit decides at its own pixel only: there it may be the last one that is needed
    have hself : needed (state.1.lit cell) ≤ (cell :: cells).count cell ↔
        state.1.lit cell = true ∨
          needed ((state.1.toggle cell).lit cell) ≤ cells.count cell := by
      rw [List.count_cons_self, needed_le_succ_iff, lit_toggle]
      simp
    have hother : ∀ c : Cell, cell ≠ c →
        (needed (state.1.lit c) ≤ (cell :: cells).count c ↔
          needed ((state.1.toggle cell).lit c) ≤ cells.count c) := by
      intro c hne
      rw [List.count_cons_of_ne hne, lit_toggle]
      simp [hne]
    rw [List.foldl_cons, ih, hit_eq, Bool.or_eq_true]
    constructor
    · rintro ((hseen | hlit) | ⟨c, hc⟩)
      · exact .inl hseen
      · exact .inr ⟨cell, hself.mpr (.inl hlit)⟩
      · by_cases h : cell = c
        · subst h
          exact .inr ⟨cell, hself.mpr (.inr hc)⟩
        · exact .inr ⟨c, (hother c h).mpr hc⟩
    · rintro (hseen | ⟨c, hc⟩)
      · exact .inl (.inl hseen)
      · by_cases h : cell = c
        · subst h
          rcases hself.mp hc with hlit | hrest
          · exact .inl (.inr hlit)
          · exact .inr ⟨cell, hrest⟩
        · exact .inr ⟨c, (hother c h).mp hc⟩

/-! ## 2. Where a sprite lands -/

section Landing

variable {x y : Nat}

theorem row_cellAt (x y : Nat) : (cellAt x y).val / 64 = y % 32 := by
  show (y % 32 * 64 + x % 64) / 64 = y % 32
  omega

theorem column_cellAt (x y : Nat) : (cellAt x y).val % 64 = x % 64 := by
  show (y % 32 * 64 + x % 64) % 64 = x % 64
  omega

/-- Two places are one pixel if they agree around the edges. -/
theorem cellAt_eq_iff {x y cx cy : Nat} :
    cellAt x y = cellAt cx cy ↔ x % 64 = cx % 64 ∧ y % 32 = cy % 32 := by
  constructor
  · intro h
    exact ⟨by rw [← column_cellAt x y, h, column_cellAt],
      by rw [← row_cellAt x y, h, row_cellAt]⟩
  · rintro ⟨hcolumn, hrow⟩
    apply Fin.ext
    show y % 32 * 64 + x % 64 = cy % 32 * 64 + cx % 64
    rw [hcolumn, hrow]

/-- Every pixel lies in one of 64 columns and one of 32 rows. -/
theorem exists_cellAt (c : Cell) : ∃ cx cy, cx < 64 ∧ cy < 32 ∧ cellAt cx cy = c := by
  have hc := c.isLt
  refine ⟨c.val % 64, c.val / 64, by omega, by omega, Fin.ext ?_⟩
  show c.val / 64 % 32 * 64 + c.val % 64 % 64 = c.val
  omega

theorem mem_bitColumns_iff {row : UInt8} {column : Nat} :
    column ∈ bitColumns row ↔ column < 8 ∧ row.toNat.testBit (7 - column) = true := by
  simp [bitColumns]

/-- **Where the set bits of a sprite land.** -/
theorem mem_targets_iff :
    c ∈ targets x y sprite ↔
      ∃ (row : Nat) (column : Nat) (h : row < sprite.length), column < 8 ∧
        sprite[row].toNat.testBit (7 - column) = true ∧ cellAt (x + column) (y + row) = c := by
  induction sprite generalizing y with
  | nil => simp [targets]
  | cons first rest ih =>
    rw [targets, List.mem_append, ih, List.mem_map]
    constructor
    · rintro (⟨column, hcolumn, rfl⟩ | ⟨row, column, h, hcolumn, hbit, rfl⟩)
      · obtain ⟨hlt, hbit⟩ := mem_bitColumns_iff.mp hcolumn
        exact ⟨0, column, Nat.succ_pos _, hlt, hbit, rfl⟩
      · refine ⟨row + 1, column, Nat.succ_lt_succ h, hcolumn, hbit, ?_⟩
        rw [Nat.add_right_comm, Nat.add_assoc]
    · rintro ⟨row, column, h, hcolumn, hbit, rfl⟩
      cases row with
      | zero => exact .inl ⟨column, mem_bitColumns_iff.mpr ⟨hcolumn, hbit⟩, rfl⟩
      | succ row =>
        refine .inr ⟨row, column, Nat.lt_of_succ_lt_succ h, hcolumn, hbit, ?_⟩
        rw [Nat.add_right_comm, Nat.add_assoc]

/-- The bits of one row land in different columns. -/
theorem nodup_row (x y : Nat) (row : UInt8) :
    ((bitColumns row).map fun column => cellAt (x + column) y).Nodup := by
  refine List.pairwise_map.mpr ?_
  have hcolumns : (bitColumns row).Pairwise (· ≠ ·) :=
    List.Pairwise.filter _ List.nodup_range
  refine hcolumns.imp_of_mem fun {i j} hi hj hne h => hne ?_
  have hi := (mem_bitColumns_iff.mp hi).1
  have hj := (mem_bitColumns_iff.mp hj).1
  have hsame := (cellAt_eq_iff.mp h).1
  omega

/-- **No two set bits land on one pixel**, as long as the sprite is no higher than the plane. -/
theorem nodup_targets (h : sprite.length ≤ 32) : (targets x y sprite).Nodup := by
  induction sprite generalizing y with
  | nil => exact List.nodup_nil
  | cons first rest ih =>
    have hlength : rest.length + 1 ≤ 32 := h
    refine List.nodup_append.mpr ⟨nodup_row x y first, ih (by omega), ?_⟩
    intro a ha b hb hab
    obtain ⟨column, -, rfl⟩ := List.mem_map.mp ha
    obtain ⟨row, other, hrow, -, -, rfl⟩ := mem_targets_iff.mp hb
    have hsame := (cellAt_eq_iff.mp hab).2
    omega

end Landing

/-! ## 3. Painting -/

section Painting

variable {x y : UInt8}

/-- **A sprite no higher than the plane** switches the pixels that its set bits land on. -/
theorem lit_paint (h : sprite.length ≤ 32) (c : Cell) :
    (p.paint x y sprite).1.lit c =
      (p.lit c ^^ (targets x.toNat y.toNat sprite).contains c) := by
  rw [paint, lit_foldl_hit, (nodup_targets h).count]
  by_cases hc : c ∈ targets x.toNat y.toNat sprite <;> simp [hc]

/-- **It tells** whether one of them was lit. -/
theorem flag_paint (h : sprite.length ≤ 32) :
    (p.paint x y sprite).2 = true ↔
      ∃ c : Cell, c ∈ targets x.toNat y.toNat sprite ∧ p.lit c = true := by
  have hneeded : ∀ c : Cell,
      needed (p.lit c) ≤ (targets x.toNat y.toNat sprite).count c ↔
        c ∈ targets x.toNat y.toNat sprite ∧ p.lit c = true := by
    intro c
    rw [(nodup_targets h).count]
    by_cases hc : c ∈ targets x.toNat y.toNat sprite <;>
      cases hlit : p.lit c <;> simp [hc, needed]
  simp only [paint, flag_foldl_hit, hneeded, Bool.false_eq_true, false_or]

/-- **Whatever was painted twice is gone**, at any height. -/
theorem paint_paint (p : Plane) (x y : UInt8) (sprite : List UInt8) :
    ((p.paint x y sprite).1.paint x y sprite).1 = p := by
  refine ext_lit fun c => ?_
  rw [paint, lit_foldl_hit, paint, lit_foldl_hit]
  simp

end Painting

end Chip8.Plane
