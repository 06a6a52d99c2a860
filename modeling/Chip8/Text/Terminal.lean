/-
  File:      Chip8/Text/Terminal.lean
  Subject:   text for a terminal and what is left of it elsewhere

  An escape character begins a sequence that a terminal obeys and does not show. Where a sequence
  ends depends on its kind: after one more character, after the final character of a control
  sequence, or at the end of a string that is sent to the terminal.

  * `Place.next`: how a character moves a reader that shows nothing;
  * `plain`: the characters that are shown, control characters left out unless they lay out text;
  * `coloured`, `bold`: a text between the sequences that set it off.

  `plainFrom_visible` says that visible text stays as it is, and `plainFrom_escape` that a sequence
  ends any other, however unfinished that was.
-/
namespace Chip8.Terminal

/-! ## 1. Characters -/

def escape : Char := '\x1b'

/-- Whether a character is a control character that lays out text. -/
def isLayout (c : Char) : Bool := c == '\t' || c == '\n' || c == '\x0c' || c == '\r'

def isControl (c : Char) : Bool := c < ' ' || c == '\x7f'

/-- Whether a character shows in running text: layout, and all but the control characters. -/
def isVisible (c : Char) : Bool := isLayout c || !isControl c

/-- Whether a character is one of those from `first` to `last`. -/
def isWithin (first last c : Char) : Bool := first ≤ c && c ≤ last

/-- Whether the encoding of a character holds the byte that ends a string. -/
def holdsTerminator (c : Char) : Bool := (String.utf8EncodeChar c).contains 0x9c

/-! ## 2. Where a reader is -/

/-- Where a reader of a text is. -/
inductive Place where
  /-- In running text. -/
  | text
  /-- Behind an escape character. -/
  | escape
  /-- Behind an escape character and some characters that announce more. -/
  | announced
  /-- In a control sequence, before its final character. -/
  | control
  /-- At the head of a device string. -/
  | deviceHead
  /-- Behind parameters of a device string. -/
  | deviceParameters
  /-- Behind characters of a device string that announce more. -/
  | deviceAnnounced
  /-- In a string whose end is a terminator. -/
  | string
  /-- In a command string, whose end is a bell as well. -/
  | command
  deriving DecidableEq

namespace Place

/-- Whether a character shows at a place. Layout shows through a sequence, but not through a
    string. -/
def shows (place : Place) (c : Char) : Bool :=
  match place with
  | .text => isVisible c
  | .escape | .announced | .control => isLayout c
  | _ => false

/-- The place behind an escape character and one character more. -/
def behindEscape (c : Char) : Place :=
  if isWithin ' ' '/' c then .announced
  else if c = '[' then .control
  else if c = ']' then .command
  else if c = 'P' then .deviceHead
  else if c = 'X' ∨ c = '^' ∨ c = '_' then .string
  else if isWithin '0' '~' c then .text
  else .escape

/-- The place in the head of a device string behind one character more. Parameters of the second
    kind are read only at the very head. -/
def inDevice (place : Place) (c : Char) : Place :=
  if isWithin '@' '~' c then .string
  else if isWithin ' ' '/' c then .deviceAnnounced
  else if isWithin '0' ';' c then
    if place = .deviceAnnounced then .string else .deviceParameters
  else if isWithin '<' '?' c then
    if place = .deviceHead then .deviceParameters else .string
  else place

/-- **The place behind a character that does not show.** An escape character begins anew wherever
    it stands, and a cancel or substitute character ends everything. -/
def next (place : Place) (c : Char) : Place :=
  if c = Terminal.escape then .escape
  else if c = '\x18' ∨ c = '\x1a' then .text
  else
    match place with
    | .text => .text
    | .escape => behindEscape c
    | .announced => if isWithin '0' '~' c then .text else .announced
    | .control => if isWithin '@' '~' c then .text else .control
    | .string => if holdsTerminator c then .text else .string
    | .command => if c = '\x07' then .text else .command
    | device => device.inDevice c

end Place

/-! ## 3. Plain text -/

/-- What shows of a text, read from a place on. After a character that shows, the reader is in
    running text. -/
def plainFrom : Place → List Char → List Char
  | _, [] => []
  | place, c :: rest =>
    if place.shows c then c :: plainFrom .text rest else plainFrom (place.next c) rest

/-- **What shows of a text.** -/
def plain (text : String) : String := String.ofList (plainFrom .text text.toList)

/-! ## 4. Text that is set off -/

def coloured (text : String) : String := "\x1b[33m" ++ text ++ "\x1b[0m"

def bold (text : String) : String := "\x1b[1m" ++ text ++ "\x1b[0m"

/-! ## 5. Laws -/

/-- Visible text stays as it is. -/
theorem plainFrom_visible (text rest : List Char) (h : ∀ c ∈ text, isVisible c) :
    plainFrom .text (text ++ rest) = text ++ plainFrom .text rest := by
  induction text with
  | nil => rfl
  | cons c text ih =>
    have hc : Place.shows .text c = true := h c (by simp)
    simp [plainFrom, hc, ih fun d hd => h d (by simp [hd])]

/-- An escape character begins a sequence wherever it stands. -/
theorem plainFrom_escape (place : Place) (rest : List Char) :
    plainFrom place (escape :: rest) = plainFrom .escape rest := by
  have h : place.shows escape = false := by cases place <;> rfl
  simp [plainFrom, h, Place.next]

/-- What shows of a text is part of it. -/
theorem plainFrom_sublist (place : Place) (text : List Char) :
    (plainFrom place text).Sublist text := by
  induction text generalizing place with
  | nil => exact .slnil
  | cons c rest ih =>
    rw [plainFrom]
    split
    · exact (ih _).cons_cons c
    · exact (ih _).cons c

end Chip8.Terminal
