/-
  File:      Chip8/Sound/Tone.lean
  Subject:   tones and where they go

  * `Tone.beep`: the tone a machine makes when its sound timer runs out;
  * `Sink`: where tones go. What a sink makes of a tone may depend on all those it was given before:
    it may show something of it, or die of it.
-/
import Chip8.Log

namespace Chip8

structure Tone where
  /-- Oscillations a second. -/
  frequency : UInt32
  /-- Milliseconds. -/
  duration : UInt32
  deriving DecidableEq

namespace Tone

/-- The tone of the machine. -/
def beep : Tone := ⟨1000, 50⟩

def text (t : Tone) : String :=
  "Tone \x7b frequency_hz: " ++ toString t.frequency.toNat ++ ", duration_ms: " ++
    toString t.duration.toNat ++ " \x7d"

def mutedRecord (t : Tone) : Log.Record :=
  ⟨.debug, "muted tone " ++ toString t.frequency.toNat ++ " Hz / " ++
    toString t.duration.toNat ++ " ms"⟩

end Tone

/-! ## 1. What can be seen -/

/-- What a sink shows of a tone. -/
inductive Audio where
  | record (record : Log.Record)
  /-- The tone, handed on. -/
  | tone (tone : Tone)
  deriving DecidableEq

/-- Something that can be seen from outside while the machine runs. -/
inductive Signal where
  /-- A record of the host. -/
  | host (record : Log.Record)
  /-- A record of the thread that runs the machine. -/
  | cpu (record : Log.Record)
  /-- What the sink shows, on the same thread. -/
  | audio (audio : Audio)
  deriving DecidableEq

/-! ## 2. Sinks -/

/-- Where tones go. -/
structure Sink where
  /-- The tones it was given so far, in their order. -/
  heard : List Tone
  /-- What it shows of a tone behind such a past; none if it dies of it. -/
  reaction : List Tone → Tone → Option (List Audio)

namespace Sink

/-- Tones are dropped, and a record tells of each. -/
def mute : Sink := ⟨[], fun _ tone => some [.record tone.mutedRecord]⟩

/-- Tones are handed on. -/
def handOn : Sink := ⟨[], fun _ tone => some [.tone tone]⟩

/-- Any tone is the end of it. -/
def broken : Sink := ⟨[], fun _ _ => none⟩

/-- What the sink shows of the next tone; none if it dies. -/
def play (sink : Sink) (tone : Tone) : Option (List Audio) := sink.reaction sink.heard tone

/-- The sink behind more tones. -/
def given (sink : Sink) (tones : List Tone) : Sink := { sink with heard := sink.heard ++ tones }

end Sink

end Chip8
