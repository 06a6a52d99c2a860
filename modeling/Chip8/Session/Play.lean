/-
  File:      Chip8/Session/Play.lean
  Subject:   a session without a window

  Time is counted in instructions: each one is a cycle of the clock. The session ends when the
  thread comes to rest, or after so many turns.
-/
import Chip8.Scheduler.Thread

namespace Chip8.Session

/-- The instructions of one turn. -/
def turnLength : Nat := 1000

/-- Turns of the thread, at most so many, and what could be seen of them. -/
def play (s : Scheduler) : Nat → Scheduler × List Signal
  | 0 => (s, [])
  | turns + 1 =>
    if s.isAtRest then (s, [])
    else
      let (after, signals) := s.turn turnLength (Numeric.Binary.ofNat turnLength)
      let (last, more) := play after turns
      (last, signals ++ more)

/-- What a line of the log shows of a signal, if it is shown at all. -/
def shownLine? : Signal → Option String
  | .host r | .cpu r | .audio (.record r) => if r.level.isShown then some r.line else none
  | .audio (.tone t) => some t.text

/-- A row of the plane as text, two characters for a pixel. -/
def rowText (p : Plane) (y : Nat) : String :=
  String.join ((List.range Plane.width).map fun x => if p.pixel x y then "##" else "  ")

def planeText (p : Plane) : String :=
  "\n".intercalate ((List.range Plane.height).map (rowText p))

end Chip8.Session
