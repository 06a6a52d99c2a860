/-
  File:      Chip8/Log.lean
  Subject:   log records
-/
namespace Chip8.Log

/-- How much a record matters. -/
inductive Level where
  | trace
  | debug
  | info
  | warn
  | error
  deriving DecidableEq

def Level.name : Level → String
  | .trace => "TRACE"
  | .debug => "DEBUG"
  | .info => "INFO"
  | .warn => "WARN"
  | .error => "ERROR"

/-- Whether a level is shown unless more is asked for. -/
def Level.isShown : Level → Bool
  | .trace => false
  | .debug => false
  | _ => true

/-- A record of something that happened. -/
structure Record where
  level : Level
  text : String
  deriving DecidableEq

def Record.line (r : Record) : String := r.level.name ++ " " ++ r.text

end Chip8.Log
