/-
  File:      Chip8/Proofs/CallStack/Order.lean
  Subject:   the stack of calls as a list of at most sixteen addresses

  * `Use`: a push, a pop or a reset; `afterUse`: the stack after it, the same one where there is no
    room or nothing to pop;
  * `heldAfter`: the same on a plain list, the oldest address first; `toList_afterUses`: a stack
    that was used in any way holds the list that was used in the same way;
  * `Overwrites`: the uses that a slot does not outlive; `get_slots_afterUses`: it keeps its
    address through all others, popped or not;
  * `PushedLast`: the address that a history pushed last and has not popped since;
    `pushedLast_of_lt`: what a slot in use holds;
  * `bounded_list`: all of this together.
-/
import Chip8.CallStack
import Chip8.Proofs.History
import Mathlib.Data.List.Induction

namespace Chip8.CallStack

variable {s : CallStack} {i : Fin 16}

/-! ## 1. Uses of a stack -/

/-- What is done to a stack. -/
inductive Use where
  | push (address : UInt16)
  | pop
  | reset
  deriving DecidableEq

/-- The stack after a use; a push without room and a pop without an address leave it alone. -/
def afterUse (s : CallStack) : Use → CallStack
  | .push address => (s.push? address).getD s
  | .pop => (s.pop?.map Prod.snd).getD s
  | .reset => empty

/-- The stack after any number of uses, the first one first. -/
def afterUses (s : CallStack) (history : List Use) : CallStack := history.foldl afterUse s

/-- The same use of a list that may hold sixteen addresses, the oldest one first. -/
def heldAfter (held : List UInt16) : Use → List UInt16
  | .push address => if held.length < 16 then held ++ [address] else held
  | .pop => held.dropLast
  | .reset => []

theorem afterUses_append (s : CallStack) (earlier later : List Use) :
    s.afterUses (earlier ++ later) = (s.afterUses earlier).afterUses later := List.foldl_append

theorem afterUses_concat (s : CallStack) (history : List Use) (use : Use) :
    s.afterUses (history ++ [use]) = (s.afterUses history).afterUse use := s.afterUses_append _ _

/-! ## 2. One use -/

theorem afterUse_push_of_full (h : 16 ≤ s.pointer) (address : UInt16) :
    s.afterUse (.push address) = s := by
  rw [afterUse, (s.push?_eq_none_iff address).mpr h]
  rfl

theorem afterUse_pop_of_empty (h : s.pointer = 0) : s.afterUse .pop = s := by
  rw [afterUse, s.pop?_eq_none_iff.mpr h]
  rfl

theorem afterUse_of_push {longer : CallStack} {address : UInt16}
    (h : s.push? address = some longer) : s.afterUse (.push address) = longer := by
  rw [afterUse, h]
  rfl

theorem afterUse_of_pop {rest : CallStack} {address : UInt16}
    (h : s.pop? = some (address, rest)) : s.afterUse .pop = rest := by
  rw [afterUse, h]
  rfl

theorem pointer_afterUse (s : CallStack) (use : Use) :
    (s.afterUse use).pointer =
      match use with
      | .push _ => if s.pointer < 16 then s.pointer + 1 else s.pointer
      | .pop => s.pointer - 1
      | .reset => 0 := by
  cases use with
  | push address =>
    cases hpush : s.push? address with
    | none =>
      have hfull := (s.push?_eq_none_iff address).mp hpush
      rw [afterUse_push_of_full hfull]
      exact (if_neg (Nat.not_lt.mpr hfull)).symm
    | some longer =>
      obtain ⟨hroom, rfl⟩ := push?_eq_some_iff.mp hpush
      rw [afterUse_of_push hpush]
      exact (if_pos hroom).symm
  | pop =>
    cases hpop : s.pop? with
    | none =>
      have hempty := s.pop?_eq_none_iff.mp hpop
      rw [afterUse_pop_of_empty hempty, hempty]
    | some top =>
      obtain ⟨hpointer, -, -⟩ := pop?_eq_some_iff.mp hpop
      rw [afterUse_of_pop hpop, hpointer]
      rfl
  | reset => rfl

theorem pointer_afterUse_le (h : s.pointer ≤ 16) (use : Use) : (s.afterUse use).pointer ≤ 16 := by
  rw [pointer_afterUse]
  cases use with
  | push address =>
    show (if s.pointer < 16 then s.pointer + 1 else s.pointer) ≤ 16
    split <;> omega
  | pop => exact Nat.le_trans (Nat.sub_le s.pointer 1) h
  | reset => exact Nat.zero_le 16

/-- **A use of the stack is that use of the list it holds.** -/
theorem toList_afterUse (h : s.pointer ≤ 16) (use : Use) :
    (s.afterUse use).toList = heldAfter s.toList use := by
  have hlength := length_toList h
  cases use with
  | push address =>
    cases hpush : s.push? address with
    | none =>
      have hfull := (s.push?_eq_none_iff address).mp hpush
      rw [afterUse_push_of_full hfull, heldAfter, hlength, if_neg (Nat.not_lt.mpr hfull)]
    | some longer =>
      obtain ⟨hroom, -⟩ := push?_eq_some_iff.mp hpush
      rw [afterUse_of_push hpush, toList_of_push hpush, heldAfter, hlength, if_pos hroom]
  | pop =>
    cases hpop : s.pop? with
    | none =>
      have hempty := s.pop?_eq_none_iff.mp hpop
      have hnil : s.toList = [] := List.length_eq_zero_iff.mp (hlength.trans hempty)
      rw [afterUse_pop_of_empty hempty, hnil]
      rfl
    | some top =>
      rw [afterUse_of_pop hpop, toList_of_pop h hpop, heldAfter, List.dropLast_concat]
  | reset => rfl

/-! ## 3. Slots -/

/-- A use that a slot does not outlive: a push that lands on it, or a reset. -/
def Overwrites (i : Fin 16) (s : CallStack) : Use → Prop
  | .push _ => s.pointer = i.val
  | .pop => False
  | .reset => True

theorem get_slots_afterUse {use : Use} (h : ¬ Overwrites i s use) :
    (s.afterUse use).slots.get i = s.slots.get i := by
  cases use with
  | push address =>
    cases hpush : s.push? address with
    | none => rw [afterUse_push_of_full ((s.push?_eq_none_iff address).mp hpush)]
    | some longer =>
      obtain ⟨hroom, rfl⟩ := push?_eq_some_iff.mp hpush
      rw [afterUse_of_push hpush]
      exact Vector.getElem_set_ne hroom i.isLt h
  | pop =>
    cases hpop : s.pop? with
    | none => rw [afterUse_pop_of_empty (s.pop?_eq_none_iff.mp hpop)]
    | some top =>
      obtain ⟨-, hslots, -⟩ := pop?_eq_some_iff.mp hpop
      rw [afterUse_of_pop hpop, hslots]
  | reset => exact absurd trivial h

/-- The slot that a push lands on. -/
theorem get_slots_push (h : s.pointer = i.val) (address : UInt16) :
    (s.afterUse (.push address)).slots.get i = address := by
  have hroom : s.pointer < 16 := by omega
  rw [afterUse_of_push (push?_eq_some_iff.mpr ⟨hroom, rfl⟩)]
  obtain ⟨k, hk⟩ := i
  subst h
  exact Vector.getElem_set_self hroom

/-- **A slot keeps its address** until a push lands on it or the stack is reset, whether the address
    is popped or not. -/
theorem get_slots_afterUses {later : List Use} (h : Never afterUse (Overwrites i) s later) :
    (s.afterUses later).slots.get i = s.slots.get i := by
  induction later generalizing s with
  | nil => rfl
  | cons use rest ih =>
    obtain ⟨huse, hrest⟩ := h
    exact (ih hrest).trans (get_slots_afterUse huse)

/-! ## 4. Histories -/

theorem pointer_afterUses_le (h : s.pointer ≤ 16) (history : List Use) :
    (s.afterUses history).pointer ≤ 16 := by
  induction history generalizing s with
  | nil => exact h
  | cons use rest ih => exact ih (pointer_afterUse_le h use)

theorem toList_afterUses (h : s.pointer ≤ 16) (history : List Use) :
    (s.afterUses history).toList = history.foldl heldAfter s.toList := by
  induction history generalizing s with
  | nil => rfl
  | cons use rest ih =>
    rw [List.foldl_cons, ← toList_afterUse h use]
    exact ih (pointer_afterUse_le h use)

/-- **The address pushed last onto `depth` others and not popped since.** Behind that push no use
    of the stack found only `depth` addresses or fewer. -/
def PushedLast (history : List Use) (depth : Nat) (address : UInt16) : Prop :=
  ∃ earlier between, history = earlier ++ .push address :: between ∧
    (empty.afterUses earlier).pointer = depth ∧
    Never afterUse (fun t _ => t.pointer ≤ depth)
      (empty.afterUses (earlier ++ [.push address])) between

/-- A slot that comes into use does so by a push. -/
theorem push_of_deeper {use : Use} (hs : ¬ i.val < s.pointer)
    (h : i.val < (s.afterUse use).pointer) :
    ∃ address, use = .push address ∧ s.pointer = i.val := by
  rw [pointer_afterUse] at h
  cases use with
  | push address =>
    have hroom : s.pointer < 16 := by omega
    have hnew : i.val < s.pointer + 1 := by simpa only [if_pos hroom] using h
    exact ⟨address, rfl, by omega⟩
  | pop => exact absurd (Nat.lt_of_lt_of_le h (Nat.sub_le s.pointer 1)) hs
  | reset => exact absurd h (Nat.not_lt_zero i.val)

theorem PushedLast.concat {history : List Use} {depth : Nat} {address : UInt16}
    (h : PushedLast history depth address) (hdeep : depth < (empty.afterUses history).pointer)
    (use : Use) : PushedLast (history ++ [use]) depth address := by
  obtain ⟨earlier, between, rfl, hdepth, hnever⟩ := h
  refine ⟨earlier, between ++ [use], by simp, hdepth, never_append.mpr ⟨hnever, ?_, trivial⟩⟩
  rw [List.append_cons, afterUses_append] at hdeep
  exact Nat.not_le.mpr hdeep

/-- **Every slot in use holds the address pushed last at its depth.** -/
theorem pushedLast_of_lt (history : List Use) (h : i.val < (empty.afterUses history).pointer) :
    PushedLast history i.val ((empty.afterUses history).slots.get i) := by
  induction history using List.reverseRecOn with
  | nil => exact absurd h (Nat.not_lt_zero _)
  | append_singleton history use ih =>
    rw [afterUses_concat] at h ⊢
    by_cases hdeep : i.val < (empty.afterUses history).pointer
    · have hkept : ¬ Overwrites i (empty.afterUses history) use := by
        cases use with
        | push address => exact Nat.ne_of_gt hdeep
        | pop => exact id
        | reset => exact absurd h (Nat.not_lt_zero _)
      rw [get_slots_afterUse hkept]
      exact (ih hdeep).concat hdeep use
    · -- the slot has come into use just now: a push landed on it
      obtain ⟨address, rfl, hplace⟩ := push_of_deeper hdeep h
      rw [get_slots_push hplace]
      exact ⟨history, [], rfl, hplace, trivial⟩

/-! ## 5. The stack as a list -/

/-- **The stack of calls is a list of at most sixteen addresses.** However a new stack is used, its
    pointer counts the addresses that the list used in the same way holds, and the slots below the
    pointer show them in the order of their pushes. A push finds no room exactly if sixteen are
    held, a pop finds nothing exactly if none is, and then nothing changes. Otherwise a pop gives
    the last address of the list, the one pushed last and not popped since. Every slot, in use or
    popped, keeps what it holds until a push lands on it or the stack is reset. -/
theorem bounded_list (history : List Use) :
    let s := empty.afterUses history
    let held := history.foldl heldAfter []
    (held.length ≤ 16 ∧ s.pointer = held.length ∧ s.slots.toList.take s.pointer = held) ∧
    (∀ address, (s.push? address = none ↔ held.length = 16) ∧
      (held.length = 16 → s.afterUse (.push address) = s)) ∧
    ((s.pop? = none ↔ held = []) ∧ (held = [] → s.afterUse .pop = s)) ∧
    (∀ address rest, s.pop? = some (address, rest) →
      held = rest.toList ++ [address] ∧ PushedLast history rest.pointer address) ∧
    ∀ (i : Fin 16) (later : List Use), Never afterUse (Overwrites i) s later →
      (s.afterUses later).slots.get i = s.slots.get i := by
  intro s held
  have hbound : s.pointer ≤ 16 := pointer_afterUses_le (Nat.zero_le 16) history
  have hheld : s.toList = held := toList_afterUses (Nat.zero_le 16) history
  have hlength : s.pointer = held.length := by rw [← hheld, length_toList hbound]
  have hnil : s.pointer = 0 ↔ held = [] := by rw [hlength, List.length_eq_zero_iff]
  have hfull : 16 ≤ s.pointer ↔ held.length = 16 := by omega
  refine ⟨⟨hlength ▸ hbound, hlength, hheld⟩, ?_, ⟨?_, ?_⟩, ?_, ?_⟩
  · intro address
    rw [push?_eq_none_iff, hfull]
    exact ⟨Iff.rfl, fun h => afterUse_push_of_full (hfull.mpr h) address⟩
  · rw [pop?_eq_none_iff, hnil]
  · intro h
    exact afterUse_pop_of_empty (hnil.mpr h)
  · intro address rest hpop
    obtain ⟨hpointer, -, haddress⟩ := pop?_eq_some_iff.mp hpop
    have hslot : rest.pointer < 16 := by omega
    have hdeep : rest.pointer < s.pointer := by omega
    have htop : address = s.slots.get ⟨rest.pointer, hslot⟩ := haddress.trans (s.getD_slots hslot)
    refine ⟨hheld.symm.trans (toList_of_pop hbound hpop), ?_⟩
    rw [htop]
    exact pushedLast_of_lt (i := ⟨rest.pointer, hslot⟩) history hdeep
  · intro i later h
    exact get_slots_afterUses h

/-- Two calls, and the inner one has returned. -/
def innerDone : List Use := [.push 0x202, .push 0x304, .pop]

/-- The slot of the inner call keeps its address while the outer one returns and is called again. -/
theorem list_innerDone :
    Never afterUse (Overwrites 1) (empty.afterUses innerDone) [.pop, .push 0x206] ∧
      ((empty.afterUses innerDone).afterUses [.pop, .push 0x206]).slots.get 1 = 0x304 := by
  have hnever : Never afterUse (Overwrites 1) (empty.afterUses innerDone) [.pop, .push 0x206] :=
    ⟨id, Nat.zero_ne_one, trivial⟩
  exact ⟨hnever, ((bounded_list innerDone).2.2.2.2 1 _ hnever).trans rfl⟩

end Chip8.CallStack
