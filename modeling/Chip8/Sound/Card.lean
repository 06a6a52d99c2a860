/-
  File:      Chip8/Sound/Card.lean
  Subject:   a sound card, and playing tones on it

  A card is described by what it does when it is asked: whether there is a device, what
  configurations the device has, whether a stream can be built and started on it, which buffers it
  then asks for, and which errors it reports meanwhile.

  * `openOutput`: the output of the device that is there;
  * `beep`: one tone, played in full or refused;
  * `Player`: tones handed to a thread that plays them one after the other.
-/
import Chip8.Error
import Chip8.Log
import Chip8.Sound.Oscillator
import Chip8.Sound.Sample
import Chip8.Sound.Tone

namespace Chip8.Sound

/-! ## 1. What a card can refuse -/

def deviceGoneText : String :=
  "The requested device is no longer available. For example, it has been unplugged."

def otherText (reason : String) : String := "A backend-specific error has occurred: " ++ reason

/-- Why a device does not tell its configurations. -/
inductive QueryRefusal where
  | deviceGone
  | invalidArgument
  | other (reason : String)
  deriving DecidableEq

def QueryRefusal.text : QueryRefusal → String
  | .deviceGone => deviceGoneText
  | .invalidArgument =>
    "Invalid argument passed to the backend. For example, this happens when trying to read " ++
    "capture capabilities when the device does not support it."
  | .other reason => otherText reason

/-- Why a stream cannot be built. -/
inductive BuildRefusal where
  | deviceGone
  | unsupported
  | invalidArgument
  | other (reason : String)
  deriving DecidableEq

def BuildRefusal.text : BuildRefusal → String
  | .deviceGone => deviceGoneText
  | .unsupported => "The requested stream configuration is not supported by the device."
  | .invalidArgument =>
    "The requested device does not support this capability (invalid argument)"
  | .other reason => otherText reason

/-- Why a stream cannot be started. -/
inductive StartRefusal where
  | deviceGone
  | other (reason : String)
  deriving DecidableEq

def StartRefusal.text : StartRefusal → String
  | .deviceGone => "the device associated with the stream is no longer available"
  | .other reason => otherText reason

/-- What can go wrong while a stream plays. -/
inductive StreamTrouble where
  | deviceGone
  | other (reason : String)
  deriving DecidableEq

def StreamTrouble.text : StreamTrouble → String
  | .deviceGone => deviceGoneText
  | .other reason => otherText reason

def StreamTrouble.record (t : StreamTrouble) : Log.Record :=
  ⟨.warn, "an error occurred on stream: " ++ t.text⟩

/-! ## 2. Cards -/

/-- A configuration that a device offers. -/
structure Configuration where
  channels : Nat
  maxRate : Nat
  format : SampleFormat

/-- What a card does when it is asked. -/
structure Card where
  /-- The device, if there is one, with its configurations. -/
  device : Option (Except QueryRefusal (List Configuration))
  build : Option BuildRefusal
  start : Option StartRefusal
  /-- The numbers of samples of the buffers a started stream is asked for. -/
  buffers : List Nat
  troubles : List StreamTrouble

/-- The output of a card: the first configuration of its device, at its highest rate. -/
def openOutput (card : Card) : Except Error Configuration :=
  match card.device with
  | none => .error .noAudioDevice
  | some (.error refusal) => .error (.audio refusal.text)
  | some (.ok []) => .error (.audio "no supported output config")
  | some (.ok (first :: _)) => .ok first

/-- Buffers filled one after the other from an oscillator. -/
def fill (output : Configuration) : Oscillator → List Nat → List (List Sample)
  | _, [] => []
  | o, samples :: rest =>
    let (values, next) := o.generate (frameCount output.channels samples)
    interleave output.format output.channels samples values :: fill output next rest

/-- A tone that was played: the output it was played on and the buffers. -/
structure Played where
  output : Configuration
  buffers : List (List Sample)

/-- **A tone played on an output**, or the error that it could not be. -/
def beep (card : Card) (output : Configuration) (tone : Tone) : Except Error Played :=
  match card.build, card.start with
  | some refusal, _ => .error (.audio refusal.text)
  | none, some refusal => .error (.audio refusal.text)
  | none, none =>
    let o := Oscillator.initial output.maxRate tone.frequency.toNat
    .ok ⟨output, fill output o card.buffers⟩

/-- The records a tone leaves: the troubles of its stream, if it was played. -/
def beepRecords (card : Card) : Except Error Played → List Log.Record
  | .ok _ => card.troubles.map (·.record)
  | .error _ => []

/-! ## 3. The player -/

def skippedRecord (e : Error) : Log.Record := ⟨.warn, e.message ++ ", tone skipped"⟩

def disabledRecord (e : Error) : Log.Record := ⟨.warn, e.message ++ ", sound disabled"⟩

/-- The record of a tone when there is no output. -/
def unheardRecord (tone : Tone) : Log.Record := ⟨.debug, "tone skipped: " ++ tone.text⟩

/-- The record of a tone when there is no player any more. -/
def goneRecord : Log.Record := ⟨.warn, "audio thread gone, tone skipped"⟩

/-- What became of some tones. -/
structure Performance where
  played : List Played
  records : List Log.Record

/-- One tone on the player's output; an error skips it. -/
def playTone (card : Card) (output : Configuration) (tone : Tone) : Performance :=
  let result := beep card output tone
  match result with
  | .ok played => ⟨[played], beepRecords card result⟩
  | .error e => ⟨[], [skippedRecord e]⟩

/-- Two performances one after the other. -/
def Performance.append (a b : Performance) : Performance :=
  ⟨a.played ++ b.played, a.records ++ b.records⟩

/-- **What the player makes of the tones handed to it.** Without an output every tone is reported
    and skipped. -/
def perform (card : Card) (tones : List Tone) : Performance :=
  match openOutput card with
  | .error e => ⟨[], disabledRecord e :: tones.map unheardRecord⟩
  | .ok output =>
    (tones.map (playTone card output)).foldl Performance.append ⟨[], []⟩

/-- A player seen from where tones are handed to it. -/
inductive Player where
  | listening
  | gone

/-- The tones that arrive at a player, and the records of those that do not. -/
def Player.receive (tones : List Tone) : Player → List Tone × List Log.Record
  | .listening => (tones, [])
  | .gone => ([], tones.map fun _ => goneRecord)

end Chip8.Sound
