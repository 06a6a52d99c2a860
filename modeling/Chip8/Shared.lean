/-
  File:      Chip8/Shared.lean
  Subject:   a value behind a lock that threads share

  A thread that dies while it holds the lock leaves it poisoned. Whoever asks for the value from
  then on gets a warning, and the value with it.

  * `lock?`: the value, or the warning;
  * `lock`: the value in either case, for those who go on with what a dead thread has left;
  * `giveBack`: what a holder leaves, alive or dead.
-/
namespace Chip8

/-- A value behind a lock. -/
structure Shared (α : Type) where
  value : α
  /-- Whether a thread has died while it held the lock. -/
  poisoned : Bool

/-- The warning that a thread has died while it held the lock, and the value it has left. -/
structure Poison (α : Type) where
  value : α

namespace Shared

variable {α : Type}

/-- A value no thread has died over. -/
def ofValue (value : α) : Shared α := ⟨value, false⟩

/-- The value, or the warning. -/
def lock? (s : Shared α) : Except (Poison α) α :=
  if s.poisoned then .error ⟨s.value⟩ else .ok s.value

/-- The value, with or without the warning. -/
def lock (s : Shared α) : α :=
  match s.lock? with
  | .ok value => value
  | .error poison => poison.value

/-- The holder of the lock gives it back, or dies over it. Poison is never taken back. -/
def giveBack (s : Shared α) (value : α) (died : Bool) : Shared α := ⟨value, died || s.poisoned⟩

/-- **Poison keeps nobody from the value.** -/
theorem lock_eq (s : Shared α) : s.lock = s.value := by
  unfold lock lock?
  cases s.poisoned with
  | false => rfl
  | true => rfl

end Shared

end Chip8
