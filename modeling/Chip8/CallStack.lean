/-
  File:      Chip8/CallStack.lean
  Subject:   the stack of calls: sixteen slots and a pointer

  * `push?` and `pop?`: the stack takes an address unless sixteen are held, and gives the latest
    one back unless none is;
  * `toList`: the addresses held, the oldest first.

  A popped slot keeps its address until it is used again; `slots` shows it.
-/
namespace Chip8

/-- Sixteen slots for addresses, the first `pointer` of them in use. -/
@[ext] structure CallStack where
  slots : Vector UInt16 16
  pointer : Nat

namespace CallStack

/-- How many calls may be open. -/
def depth : Nat := 16

/-- No call open, every slot zero. -/
def empty : CallStack := ⟨Vector.replicate 16 0, 0⟩

/-- The stack with an address on top; none if all slots are in use. -/
def push? (s : CallStack) (address : UInt16) : Option CallStack :=
  if h : s.pointer < 16 then some ⟨s.slots.set s.pointer address, s.pointer + 1⟩ else none

/-- The top address and the stack without it; none if no slot is in use. -/
def pop? (s : CallStack) : Option (UInt16 × CallStack) :=
  match s.pointer with
  | 0 => none
  | below + 1 => some (s.slots.toList.getD below 0, { s with pointer := below })

/-- The addresses held, the oldest first. -/
def toList (s : CallStack) : List UInt16 := s.slots.toList.take s.pointer

@[simp] theorem toList_empty : empty.toList = [] := rfl

theorem push?_eq_none_iff (s : CallStack) (address : UInt16) :
    s.push? address = none ↔ 16 ≤ s.pointer := by
  unfold push?
  split <;> simp <;> omega

theorem pop?_eq_none_iff (s : CallStack) : s.pop? = none ↔ s.pointer = 0 := by
  unfold pop?
  split <;> simp_all

theorem push?_eq_some_iff {s longer : CallStack} {address : UInt16} :
    s.push? address = some longer ↔
      ∃ h : s.pointer < 16, longer = ⟨s.slots.set s.pointer address, s.pointer + 1⟩ := by
  unfold push?
  split
  · rename_i h
    constructor
    · intro e
      cases e
      exact ⟨h, rfl⟩
    · rintro ⟨_, rfl⟩
      rfl
  · rename_i h
    constructor
    · intro e
      cases e
    · rintro ⟨h', _⟩
      exact absurd h' h

/-- What a pop that finds an address does: the slots stay. -/
theorem pop?_eq_some_iff {s rest : CallStack} {address : UInt16} :
    s.pop? = some (address, rest) ↔
      s.pointer = rest.pointer + 1 ∧ rest.slots = s.slots ∧
        address = s.slots.toList.getD rest.pointer 0 := by
  unfold pop?
  split
  · rename_i h
    constructor
    · intro e
      cases e
    · rintro ⟨h', _⟩
      omega
  · rename_i below h
    constructor
    · intro e
      cases e
      exact ⟨h, rfl, rfl⟩
    · rintro ⟨hpointer, hslots, rfl⟩
      obtain ⟨slots, pointer⟩ := rest
      have hbelow : below = pointer := by
        simp only at hpointer
        omega
      subst hbelow hslots
      rfl

theorem getD_slots (s : CallStack) {i : Nat} (h : i < 16) : s.slots.toList.getD i 0 = s.slots[i] := by
  simp [List.getD_eq_getElem?_getD, h]

theorem length_toList {s : CallStack} (h : s.pointer ≤ 16) : s.toList.length = s.pointer := by
  rw [toList, List.length_take, Vector.length_toList]
  exact Nat.min_eq_left h

/-- A push puts the address behind those held. -/
theorem toList_of_push {s longer : CallStack} {address : UInt16}
    (h : s.push? address = some longer) : longer.toList = s.toList ++ [address] := by
  obtain ⟨hroom, rfl⟩ := push?_eq_some_iff.mp h
  rw [toList, toList, Vector.toList_set, List.take_add_one, List.take_set_of_le (Nat.le_refl _)]
  simp [hroom]

/-- A pop takes the address held last. -/
theorem toList_of_pop {s rest : CallStack} {address : UInt16} (hs : s.pointer ≤ 16)
    (h : s.pop? = some (address, rest)) : s.toList = rest.toList ++ [address] := by
  obtain ⟨hpointer, hslots, rfl⟩ := pop?_eq_some_iff.mp h
  have hbelow : rest.pointer < 16 := by omega
  rw [toList, toList, hpointer, hslots, List.take_add_one]
  simp [List.getD_eq_getElem?_getD, hbelow]

/-- A pop gives the address held last. -/
theorem getLast?_toList {s : CallStack} (h : s.pointer ≤ 16) :
    s.toList.getLast? = s.pop?.map Prod.fst := by
  cases hpop : s.pop? with
  | none =>
    rw [toList, (pop?_eq_none_iff s).mp hpop]
    rfl
  | some top => simp [toList_of_pop h hpop]

end CallStack

end Chip8
