/-
  File:      Chip8/Error.lean
  Subject:   everything that can go wrong in a session

  Faults of the running program apart, these are problems of the host: a program that does not
  fit or cannot be read, and sound that cannot be made.
-/
import Chip8.Fault

namespace Chip8

/-- Something that went wrong. -/
inductive Error where
  /-- A program of `size` bytes where at most `limit` fit. -/
  | programTooLarge (size limit : Nat)
  /-- A file that could not be read, and the reason the system gave. -/
  | unreadable (path reason : String)
  | fault (fault : Fault)
  | noAudioDevice
  /-- A device that refused, and its reason. -/
  | audio (reason : String)
  deriving DecidableEq

namespace Error

def message : Error → String
  | .programTooLarge size limit =>
    "ROM is too large (" ++ toString size ++ " bytes), at most " ++ toString limit ++
      " bytes fit in memory"
  | .unreadable path reason => "unable to read ROM " ++ path ++ ": " ++ reason
  | .fault f => f.message
  | .noAudioDevice => "no audio output device available"
  | .audio reason => "audio output error: " ++ reason

/-- Whether the running program is to blame. -/
def isFault : Error → Bool
  | .fault _ => true
  | _ => false

/-- The error under an error, if there is one: the system's reason for an unreadable file. -/
def cause? : Error → Option String
  | .unreadable _ reason => some reason
  | _ => none

end Error

end Chip8
