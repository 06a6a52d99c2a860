/-
  File:      Chip8/Plane.lean
  Subject:   the plane of 64 by 32 pixels and its colours

  * `paint`: flips a sprite onto the plane and tells whether a lit pixel was switched off;
    coordinates wrap on both axes;
  * `render`: the plane in two colours, row by row.
-/
namespace Chip8

/-! ## 1. Colours -/

/-- A colour `0RGB`: eight bits each of red, green and blue, the top eight zero. -/
abbrev Colour := UInt32

def Colour.ofChannels (red green blue : UInt8) : Colour :=
  UInt32.ofNat (red.toNat * 65536 + green.toNat * 256 + blue.toNat)

/-- The colours of lit and unlit pixels. -/
structure Palette where
  foreground : Colour
  background : Colour
  deriving DecidableEq

def Palette.default : Palette := ⟨Colour.ofChannels 255 255 255, Colour.ofChannels 0 0 0⟩

/-! ## 2. The plane -/

/-- The number of a pixel, row by row from the top left. -/
abbrev Cell := Fin 2048

/-- Which pixels are lit. -/
@[ext] structure Plane where
  cells : Vector Bool 2048

namespace Plane

def width : Nat := 64

def height : Nat := 32

/-- The pixel in column `x` and row `y`, both counted around the edges. -/
def cellAt (x y : Nat) : Cell := ⟨y % 32 * 64 + x % 64, by omega⟩

def blank : Plane := ⟨Vector.replicate 2048 false⟩

/-- Whether the pixel in column `x` and row `y` is lit. -/
def pixel (p : Plane) (x y : Nat) : Bool := p.cells[cellAt x y]

def isBlank (p : Plane) : Bool := p.cells.all (! ·)

def toggle (p : Plane) (cell : Cell) : Plane := ⟨p.cells.set cell (! p.cells[cell])⟩

/-! ## 3. Sprites -/

/-- The columns of the bits set in a byte, the most significant bit being column 0. -/
def bitColumns (row : UInt8) : List Nat :=
  (List.range 8).filter fun column => row.toNat.testBit (7 - column)

/-- The pixels that the set bits of a sprite land on, row by row; a pixel is listed once for each
    bit. The sprite has one byte for a row. -/
def targets (x y : Nat) : List UInt8 → List Cell
  | [] => []
  | row :: rest =>
    (bitColumns row).map (fun column => cellAt (x + column) y) ++ targets x (y + 1) rest

/-- Flips a pixel and remembers whether it was lit. -/
def hit (state : Plane × Bool) (cell : Cell) : Plane × Bool :=
  if state.1.cells[cell] then (state.1.toggle cell, true) else (state.1.toggle cell, state.2)

/-- **A sprite flipped onto the plane at column `x` and row `y`.** The second part tells whether a
    lit pixel was switched off on the way. -/
def paint (p : Plane) (x y : UInt8) (sprite : List UInt8) : Plane × Bool :=
  (targets x.toNat y.toNat sprite).foldl hit (p, false)

/-! ## 4. Pictures -/

/-- The plane in colours, row by row. -/
def render (p : Plane) (palette : Palette) : Vector Colour 2048 :=
  p.cells.map fun lit => if lit then palette.foreground else palette.background

@[simp] theorem pixel_blank (x y : Nat) : blank.pixel x y = false := by simp [pixel, blank]

theorem cells_toggle (p : Plane) (a b : Cell) :
    (p.toggle a).cells[b] = (p.cells[b] ^^ decide (a = b)) := by
  by_cases h : a = b
  · subst h; simp [toggle]
  · have h' : a.val ≠ b.val := fun e => h (Fin.ext e)
    simp [toggle, h, h']

end Plane

end Chip8
