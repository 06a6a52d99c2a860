/-
  File:      Chip8/Session.lean
  Subject:   the start of a session

  A session reads its program, loads it, and pauses if it was asked to. What goes wrong is told
  from the outside in: what was attempted, what failed, and why.
-/
import Chip8.Scheduler

namespace Chip8.Session

/-- The bytes of a program file, or the error that it cannot be read for the system's reason. -/
def readProgram (path : String) (contents : Except String Program) : Except Error Program :=
  match contents with
  | .ok program => .ok program
  | .error reason => .error (.unreadable path reason)

def missingFile : String := "No such file or directory (os error 2)"

/-- Why a session did not start. -/
structure Failure where
  /-- What was attempted, if that tells more than the error does. -/
  attempt : Option String
  error : Error
  deriving DecidableEq

/-- The messages of a failure, from the outside in. -/
def Failure.chain (f : Failure) : List String :=
  f.attempt.toList ++ [f.error.message] ++ f.error.cause?.toList

/-- The sink that the settings ask for. -/
def sinkOf (settings : Settings) : Sink := if settings.mute then .mute else .handOn

/-- **The scheduler of a session**, over a loaded machine and not started yet. -/
def prepare (settings : Settings) (contents : Except String Program) (generator : Generator) :
    Except Failure (Scheduler × List Signal) :=
  match readProgram settings.rom contents with
  | .error e => .error ⟨none, e⟩
  | .ok program =>
    let fresh := Scheduler.ofMachine (.switchedOn generator) settings.clock (sinkOf settings)
    match fresh.load program with
    | (_, some e, _) => .error ⟨some ("unable to load " ++ settings.rom), e⟩
    | (loaded, none, signals) =>
      if settings.startPaused then
        let (paused, more) := loaded.pause
        .ok (paused, signals ++ more)
      else .ok (loaded, signals)

end Chip8.Session
