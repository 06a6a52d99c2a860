/-
  File:      Chip8/CommandLine.lean
  Subject:   the settings a command line asks for

  The arguments are read from the left. A value is looked at late: it stays pending until the
  next option, flag or program, or the end, so an argument nobody knows is reported before it.
  A value written with `=` is looked at on the spot.

  * `UsageError.message`: the first line of what is written about an error, as it shows outside a
    terminal;
  * `Token.ofArgument`: what kind of argument a text is;
  * `Reader.read`: one argument more;
  * `parse`: the settings, or why there are none.
-/
import Chip8.CommandLine.Slot
import Chip8.Text.Terminal

namespace Chip8.CommandLine

/-! ## 1. Why there are no settings -/

/-- What is wrong with a command line. -/
inductive UsageError where
  /-- An option nobody knows, or a second program. -/
  | unknownArgument (shown : String)
  /-- A value that does not denote what its slot needs. -/
  | invalidValue (value : String) (slot : Slot) (reason : Settings.ValueRefusal)
  /-- A slot without a value. -/
  | missingValue (slot : Slot)
  /-- A slot or a flag that comes twice, as messages show it. -/
  | repeated (shown : String)
  /-- A value for something that takes none, as messages show it. -/
  | unexpectedValue (value shown : String)
  | missingRom
  deriving DecidableEq

def UsageError.text : UsageError → String
  | .unknownArgument shown => "unexpected argument '" ++ Terminal.coloured shown ++ "' found"
  | .invalidValue value slot reason =>
    "invalid value '" ++ Terminal.coloured value ++ "' for '" ++ Terminal.bold slot.shown ++ "': " ++
      reason.message
  | .missingValue slot =>
    "a value is required for '" ++ Terminal.coloured slot.shown ++ "' but none was supplied"
  | .repeated shown =>
    "the argument '" ++ Terminal.coloured shown ++ "' cannot be used multiple times"
  | .unexpectedValue value shown =>
    "unexpected value '" ++ Terminal.coloured value ++ "' for '" ++ Terminal.bold shown ++
      "' found; no more were expected"
  | .missingRom => "the following required arguments were not provided:\n  <ROM>"

/-- Whether the shape of a command line is told with an error: the arguments, not a value, are at
    fault. -/
def UsageError.tellsUsage : UsageError → Bool
  | .invalidValue .. => false
  | .missingValue _ => false
  | _ => true

def usageLine : String := "Usage: chip8 [OPTIONS] <ROM>"

/-- What is written about an error. The reason of a refused value is not set off, so a sequence in
    it may run on into what follows. -/
def UsageError.report (e : UsageError) : String :=
  Terminal.plain ("error: " ++ e.text ++ (if e.tellsUsage then "\n\n" ++ usageLine else "") ++
    "\n\nFor more information, try '" ++ Terminal.bold "--help" ++ "'.\n")

/-- The first line of a text, without the line break, which is a line feed or a carriage return
    and a line feed. -/
def firstLine : List Char → List Char
  | [] => []
  | '\n' :: _ => []
  | '\r' :: '\n' :: _ => []
  | c :: rest => c :: firstLine rest

/-- The first line of what is written about an error. -/
def UsageError.message (e : UsageError) : String := String.ofList (firstLine e.report.toList)

/-- Why a command line gives no settings. -/
inductive Stop where
  | help
  | version
  | usage (error : UsageError)
  deriving DecidableEq

/-! ## 2. Arguments -/

/-- A kind of argument. -/
inductive Token where
  /-- `--`, which ends the options. -/
  | terminator
  /-- `--name` or `--name=value`. -/
  | long (name : String) (value : Option String)
  /-- `-x`, with anything behind it. -/
  | short (letter : Char)
  | plain (text : String)
  deriving DecidableEq

/-- What is behind the first `=`, if there is one. -/
def behindEquals : List Char → Option String
  | [] => none
  | '=' :: rest => some (String.ofList rest)
  | _ :: rest => behindEquals rest

def Token.ofArgument (argument : String) : Token :=
  match argument.toList with
  | ['-', '-'] => .terminator
  | '-' :: '-' :: rest => .long (String.ofList (rest.takeWhile (· != '='))) (behindEquals rest)
  | '-' :: letter :: _ => .short letter
  | _ => .plain argument

/-- What a long name means. -/
inductive Meaning where
  | slot (slot : Slot)
  | flag (flag : Flag)
  | help
  | version

def meaning? : String → Option Meaning
  | "clock-hz" => some (.slot .clock)
  | "scale" => some (.slot .scale)
  | "foreground" => some (.slot .foreground)
  | "background" => some (.slot .background)
  | "mute" => some (.flag .mute)
  | "paused" => some (.flag .paused)
  | "help" => some .help
  | "version" => some .version
  | _ => none

/-! ## 3. Reading -/

/-- How far a command line has been read. -/
structure Reader where
  draft : Draft
  /-- The slot last named, with its value once that is known. -/
  pending : Option (Slot × Option String)
  /-- Whether a program has been named. -/
  romSeen : Bool
  /-- Whether the options have ended. -/
  optionsEnded : Bool

namespace Reader

def start : Reader := ⟨.blank, none, false, false⟩

/-- A slot takes a value. A slot that has one already is refused first; a program needs a name. -/
def give (d : Draft) (slot : Slot) (value : String) : Except Stop Draft :=
  if d.has slot then .error (.usage (.repeated slot.shown))
  else if slot = .rom ∧ value = "" then .error (.usage (.missingValue .rom))
  else
    match d.fill value slot with
    | .ok filled => .ok filled
    | .error reason => .error (.usage (.invalidValue value slot reason))

/-- The pending value is looked at. -/
def settle (r : Reader) : Except Stop Reader :=
  match r.pending with
  | none => .ok r
  | some (slot, none) => .error (.usage (.missingValue slot))
  | some (slot, some value) => do
    return { r with draft := ← give r.draft slot value, pending := none }

def readName (r : Reader) : Meaning → Except Stop Reader
  | .slot slot => do
    return { ← r.settle with pending := some (slot, none) }
  | .flag flag => do
    let r ← r.settle
    if r.draft.isOn flag then .error (.usage (.repeated flag.shown))
    else return { r with draft := r.draft.switchOn flag }
  | .help => do
    let _ ← r.settle
    .error .help
  | .version => do
    let _ ← r.settle
    .error .version

/-- A long name with a value behind `=`. -/
def readNameWithValue (r : Reader) (value : String) : Meaning → Except Stop Reader
  | .slot slot => do
    let r ← r.settle
    return { r with draft := ← give r.draft slot value }
  | .flag flag => .error (.usage (.unexpectedValue value flag.shown))
  | .help => .error (.usage (.unexpectedValue value "--help"))
  | .version => .error (.usage (.unexpectedValue value "--version"))

def readRom (r : Reader) (text : String) : Except Stop Reader :=
  if r.romSeen then .error (.usage (.unknownArgument text))
  else do
    return { ← r.settle with pending := some (.rom, some text), romSeen := true }

/-- A text that is no option: the value a slot waits for, or the program. -/
def readPlain (r : Reader) (text : String) : Except Stop Reader :=
  match r.pending with
  | some (slot, none) => .ok { r with pending := some (slot, some text) }
  | _ => r.readRom text

/-- An argument while there may be options. -/
def readToken (r : Reader) : Token → Except Stop Reader
  | .terminator => .ok { r with optionsEnded := true }
  | .long name value =>
    match meaning? name, value with
    | none, _ => .error (.usage (.unknownArgument ("--" ++ name)))
    | some meaning, none => r.readName meaning
    | some meaning, some value => r.readNameWithValue value meaning
  | .short 'h' => r.readName .help
  | .short 'V' => r.readName .version
  | .short letter => .error (.usage (.unknownArgument ("-" ++ letter.toString)))
  | .plain text => r.readPlain text

/-- **One argument more.** -/
def read (r : Reader) (argument : String) : Except Stop Reader :=
  if r.optionsEnded then r.readRom argument else r.readToken (.ofArgument argument)

end Reader

/-- **The settings a command line asks for, or why there are none.** -/
def parse (arguments : List String) : Except Stop Settings := do
  let last ← arguments.foldlM Reader.read Reader.start
  let done ← last.settle
  match done.draft.settings? with
  | none => .error (.usage .missingRom)
  | some settings => .ok settings

end Chip8.CommandLine
