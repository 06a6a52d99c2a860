/-
  File:      Chip8/Proofs/Machine/Calls.lean
  Subject:   a call returns behind itself

  * `Inside`: a run of moves behind a call that has not come back yet;
  * `KeepsReturn`: what such a run keeps, whatever the called code does. The slots in use at the
    call are as they were, and the one above them holds the place of the call;
  * `keepsReturn_of_inside`: it keeps it, move by move;
  * `pc_behind_call`: so the step that comes back goes on right behind the call.

  A call writes the slot at the pointer and no route writes one below it. Stores of the program go
  to the memory and cannot reach a slot.
-/
import Chip8.Proofs.Instruction.Encode
import Chip8.Proofs.Machine.Event
import Chip8.Proofs.Machine.Route

namespace Chip8.Machine

variable {m n done : Machine} {i : Instruction}

/-! ## 1. The slots below the pointer -/

/-- **No route writes a slot that is in use.** -/
theorem Route.slots_below (hr : Route n i done) {k : Nat} (h : k < 16)
    (hk : k < n.stack.pointer) : done.stack.slots[k] = n.stack.slots[k] := by
  cases hr with
  | next _ _ stack _ | skip _ _ stack _ | stay _ stack _ | jump _ stack _ | jumpBeyond _ stack _ =>
    rw [stack]
  | call target stack pc =>
    obtain ⟨hroom, e⟩ := CallStack.push?_eq_some_iff.mp stack
    rw [e]
    exact Vector.getElem_set_ne hroom h (by omega)
  | ret caller stack pc =>
    obtain ⟨-, hslots, -⟩ := CallStack.pop?_eq_some_iff.mp stack
    rw [hslots]

/-- **Only a return lowers the pointer**, by one, and it goes on behind the address in the slot it
    frees. -/
theorem Route.of_lowers (hr : Route n i done) (hlower : done.stack.pointer < n.stack.pointer) :
    n.stack.pointer = done.stack.pointer + 1 ∧
      ∀ h : done.stack.pointer < 16, done.pc = n.stack.slots[done.stack.pointer] + 2 := by
  cases hr with
  | next _ _ stack _ | skip _ _ stack _ | stay _ stack _ | jump _ stack _ | jumpBeyond _ stack _ =>
    rw [stack] at hlower
    exact absurd hlower (Nat.lt_irrefl _)
  | call target stack pc =>
    obtain ⟨hroom, e⟩ := CallStack.push?_eq_some_iff.mp stack
    rw [e] at hlower
    exact absurd hlower (Nat.not_lt.mpr (Nat.le_succ _))
  | ret caller stack pc =>
    obtain ⟨hpointer, -, rfl⟩ := CallStack.pop?_eq_some_iff.mp stack
    refine ⟨hpointer, fun h => ?_⟩
    rw [pc, CallStack.getD_slots _ h]

/-! ## 2. Inside a call -/

theorem step_eq_of_succeeds (h : m.step.2 = none) : m.step = (m.step.1, none) := by
  rw [← h]

/-- **Moves inside a call**: steps without a fault and touches lead on from `first`, and behind
    every step more than `depth` calls are open. -/
inductive Inside (depth : Nat) (first : Machine) : Machine → Prop where
  | start : Inside depth first first
  | step {last done : Machine} (inside : Inside depth first last) (hstep : last.step = (done, none))
      (hdepth : depth < done.stack.pointer) : Inside depth first done
  | touch {last : Machine} (inside : Inside depth first last) (t : Touch) :
      Inside depth first (last.afterTouch t)

/-- **What a run inside a call that `m` makes keeps.** -/
structure KeepsReturn (m n : Machine) : Prop where
  deeper : m.stack.pointer < n.stack.pointer
  place : ∀ h : m.stack.pointer < 16, n.stack.slots[m.stack.pointer] = m.pc
  below : ∀ k (h : k < 16), k < m.stack.pointer → n.stack.slots[k] = m.stack.slots[k]

/-- A call that finds room leaves its own place in the slot it takes. -/
theorem step_call {word : UInt16} (hfetch : m.memory.fetch? m.pc = some word)
    (hcall : word.toNat / 4096 = 0x2) (hroom : m.stack.pointer < 16) :
    m.step.2 = none ∧ KeepsReturn m m.step.1 := by
  obtain ⟨target, hdecode⟩ := Instruction.decode_eq_call_iff.mpr hcall
  have hexecute := execute_call (m := m.noting word) target hroom
  rw [← hdecode] at hexecute
  rw [step_of_execute hfetch hexecute]
  refine ⟨rfl, Nat.lt_succ_self _, fun h => ?_, fun k h hk => ?_⟩
  · exact Vector.getElem_set_self _
  · exact Vector.getElem_set_ne hroom h (by omega)

theorem KeepsReturn.step (hn : KeepsReturn m n) (hstep : n.step = (done, none))
    (hdepth : m.stack.pointer < done.stack.pointer) : KeepsReturn m done := by
  obtain ⟨word, -, hroute⟩ := route_of_step hstep
  have hdeeper := hn.deeper
  refine ⟨hdepth, fun h => ?_, fun k h hk => ?_⟩
  · rw [hroute.slots_below h hdeeper]
    exact hn.place h
  · rw [hroute.slots_below h (by omega)]
    exact hn.below k h hk

theorem KeepsReturn.touch (hn : KeepsReturn m n) (t : Touch) : KeepsReturn m (n.afterTouch t) := by
  obtain ⟨hdeeper, hplace, hbelow⟩ := hn
  rw [← afterTouch_stack n t] at hdeeper
  refine ⟨hdeeper, fun h => ?_, fun k h hk => ?_⟩
  · rw [← hplace h, afterTouch_stack]
  · rw [← hbelow k h hk, afterTouch_stack]

/-- **The way back is kept all the way through a call.** -/
theorem keepsReturn_of_inside {first : Machine} (hfirst : KeepsReturn m first)
    (hinside : Inside m.stack.pointer first n) : KeepsReturn m n := by
  induction hinside with
  | start => exact hfirst
  | step _ hstep hdepth ih => exact ih.step hstep hdepth
  | touch _ t ih => exact ih.touch t

/-! ## 3. The return -/

/-- **A call returns behind itself.** A machine `m` makes a call, moves inside it lead to `last`,
    and a step from there comes back to as many open calls as there were: it goes on right behind
    the call, and the slots in use at the call are as they were. -/
theorem pc_behind_call {last back : Machine} {word : UInt16} (hroom : m.stack.pointer < 16)
    (hfetch : m.memory.fetch? m.pc = some word) (hcall : word.toNat / 4096 = 0x2)
    (hinside : Inside m.stack.pointer m.step.1 last) (hback : last.step = (back, none))
    (hpointer : back.stack.pointer = m.stack.pointer) :
    back.pc.toNat = m.pc.toNat + 2 ∧
      ∀ k (h : k < 16), k < m.stack.pointer → back.stack.slots[k] = m.stack.slots[k] := by
  have hkeeps := keepsReturn_of_inside (step_call hfetch hcall hroom).2 hinside
  have hdeeper := hkeeps.deeper
  obtain ⟨word', -, hroute⟩ := route_of_step hback
  constructor
  · have hpc := (hroute.of_lowers (by omega)).2 (by omega)
    simp only [hpointer, hkeeps.place hroom] at hpc
    have hplace := pc_le_of_fetch hfetch
    rw [hpc, UInt16.toNat_add]
    show (m.pc.toNat + 2) % 65536 = _
    omega
  · intro k h hk
    rw [hroute.slots_below h (by omega)]
    exact hkeeps.below k h hk

/-- A call at 0x200 of code that makes a call itself and then returns. -/
def nestedCall : Machine :=
  withBytes [(0x200, 0x22), (0x201, 0x04), (0x204, 0x22), (0x205, 0x08), (0x207, 0xEE),
    (0x209, 0xEE)]

/-- The machine in front of the return from the outer call, behind a tick and the inner call. -/
def nestedCallInside : Machine := (nestedCall.step.1.afterTouch .tick).step.1.step.1

theorem inside_nestedCall :
    Inside nestedCall.stack.pointer nestedCall.step.1 nestedCallInside := by
  have htick := (@Inside.start nestedCall.stack.pointer nestedCall.step.1).touch .tick
  have hcall := htick.step (step_eq_of_succeeds (by decide +kernel)) (by decide +kernel)
  exact hcall.step (step_eq_of_succeeds (by decide +kernel)) (by decide +kernel)

theorem pc_behind_nestedCall :
    nestedCall.memory.fetch? nestedCall.pc = some 0x2204 ∧
      nestedCallInside.step.1.stack.pointer = nestedCall.stack.pointer ∧
      nestedCallInside.step.1.pc.toNat = nestedCall.pc.toNat + 2 := by
  have hroom : nestedCall.stack.pointer < 16 := by decide +kernel
  have hfetch : nestedCall.memory.fetch? nestedCall.pc = some 0x2204 := by decide +kernel
  have hback : nestedCallInside.step.2 = none := by decide +kernel
  have hpointer : nestedCallInside.step.1.stack.pointer = nestedCall.stack.pointer := by
    decide +kernel
  have h := pc_behind_call hroom hfetch (by decide) inside_nestedCall (step_eq_of_succeeds hback)
    hpointer
  exact ⟨hfetch, hpointer, h.1⟩

end Chip8.Machine
