/-
  File:      Chip8/Proofs/Machine/Wait.lean
  Subject:   a program waiting for a key

  * `AwaitsKey`: the next word is `FX0A`; `Still`: a machine that differs from another at most in
    what the host touches and in the word noted last;
  * `step_of_unheld`: a step with no key held notes the word and does nothing else;
  * `still_afterMoves`: so the machine stays still over any run of moves whose steps find no key
    held, however long;
  * `step_of_held`: a step with a key held takes the lowest one and goes on;
  * `waits_then_takes`: the whole wait and its end.

  Only the keypad at the moment of a step counts. A key may be pressed and released between two
  steps, or held before the program came to the instruction.
-/
import Chip8.Proofs.Instruction.Kind
import Chip8.Proofs.Machine.Event
import Chip8.Proofs.Machine.Periphery

namespace Chip8.Machine

variable {m n : Machine} {x : Nibble}

/-! ## 1. Waiting machines -/

/-- The next word is `FX0A`, the wait for a key that is to go to VX. -/
def AwaitsKey (m : Machine) (x : Nibble) : Prop :=
  m.memory.fetch? m.pc = some (Word.ofConstant 0xF x 0x0A)

/-- **The second machine is as the first one was**, but for the timers, the keypad, the draw flag
    and the word noted last. -/
structure Still (m n : Machine) : Prop where
  pc : n.pc = m.pc
  registers : n.registers = m.registers
  memory : n.memory = m.memory
  index : n.index = m.index
  stack : n.stack = m.stack
  plane : n.plane = m.plane
  generator : n.generator = m.generator

theorem still_refl (m : Machine) : Still m m := ⟨rfl, rfl, rfl, rfl, rfl, rfl, rfl⟩

theorem Still.awaitsKey (h : Still m n) (hm : m.AwaitsKey x) : n.AwaitsKey x := by
  rw [AwaitsKey, h.memory, h.pc]
  exact hm

theorem Still.noting (h : Still m n) (word : UInt16) : Still m (n.noting word) :=
  ⟨h.pc, h.registers, h.memory, h.index, h.stack, h.plane, h.generator⟩

theorem Still.touch (h : Still m n) (t : Touch) : Still m (n.afterTouch t) := by
  rw [afterTouch_eq]
  exact ⟨h.pc, h.registers, h.memory, h.index, h.stack, h.plane, h.generator⟩

/-! ## 2. One step -/

theorem execute_awaitKey (m : Machine) (x : Nibble) :
    m.execute (.awaitKey x) =
      match m.keypad.lowestHeld? with
      | none => .ok m
      | some key => .ok (m.setV x key.toByte).next := rfl

/-- **A step with no key held** waits. -/
theorem step_of_unheld (hm : m.AwaitsKey x) (hkeys : m.keypad.heldKeys = []) :
    m.step = (m.noting (Word.ofConstant 0xF x 0x0A), none) := by
  have hnone := m.keypad.lowestHeld?_eq_none_iff.mpr hkeys
  have hexecute : m.execute (.awaitKey x) = .ok m := by
    rw [execute_awaitKey, hnone]
  exact (carriesOut_of_execute (Instruction.decode_encode (i := .awaitKey x) rfl) hexecute).step hm

/-- **A step with a key held** takes the lowest one. -/
theorem step_of_held (hm : m.AwaitsKey x) (hkeys : m.keypad.heldKeys ≠ []) :
    ∃ key ∈ m.keypad.heldKeys, (∀ other ∈ m.keypad.heldKeys, key ≤ other) ∧
      m.step = ((m.setV x key.toByte).next.noting (Word.ofConstant 0xF x 0x0A), none) := by
  cases hlowest : m.keypad.lowestHeld? with
  | none => exact absurd (m.keypad.lowestHeld?_eq_none_iff.mp hlowest) hkeys
  | some key =>
    obtain ⟨hheld, hleast⟩ := Keypad.least_of_lowestHeld? hlowest
    have hexecute : m.execute (.awaitKey x) = .ok (m.setV x key.toByte).next := by
      rw [execute_awaitKey, hlowest]
    have hdecode := Instruction.decode_encode (i := .awaitKey x) rfl
    exact ⟨key, hheld, hleast, (carriesOut_of_execute hdecode hexecute).step hm⟩

/-! ## 3. The whole wait -/

/-- None of the steps among these moves finds a key held. -/
def StepsUnheld (m : Machine) (moves : List Move) : Prop :=
  Never afterMove (fun n move => move = .step ∧ n.keypad.heldKeys ≠ []) m moves

/-- **A waiting machine stays still** while no step finds a key held. -/
theorem still_afterMoves (hm : m.AwaitsKey x) (hn : Still m n) {moves : List Move}
    (hmoves : n.StepsUnheld moves) : Still m (n.afterMoves moves) := by
  induction moves generalizing n with
  | nil => exact hn
  | cons move rest ih =>
    obtain ⟨hfirst, hrest⟩ := hmoves
    cases move with
    | touch t => exact ih (hn.touch t) hrest
    | step =>
      have hunheld : n.keypad.heldKeys = [] :=
        Decidable.not_not.mp fun hheld => hfirst ⟨rfl, hheld⟩
      have hstep := step_of_unheld (hn.awaitsKey hm) hunheld
      refine ih ?_ hrest
      show Still m n.step.1
      rw [hstep]
      exact hn.noting _

/-- The machine with other keys held. -/
def withKeypad (m : Machine) (pad : Keypad) : Machine := { m with keypad := pad }

/-- **A program waits for a key and takes it once.** Let steps, ticks, key events and polls come in
    any order, as long as no step finds a key held. Then every step succeeds and only notes its
    word, and the machine stays still. Whichever keys are held at last, if there are any, the next
    step puts the number of the lowest one in VX, changes no other register and goes on behind the
    instruction. -/
theorem waits_then_takes (m : Machine) (x : Nibble) (moves : List Move)
    (hm : m.AwaitsKey x) (hmoves : m.StepsUnheld moves) :
    (∀ earlier later, moves = earlier ++ later → Still m (m.afterMoves earlier)) ∧
    (∀ earlier later, moves = earlier ++ .step :: later →
      (m.afterMoves earlier).step =
        ((m.afterMoves earlier).noting (Word.ofConstant 0xF x 0x0A), none)) ∧
    ∀ pad : Keypad, pad.heldKeys ≠ [] →
      ∃ key ∈ pad.heldKeys, (∀ other ∈ pad.heldKeys, key ≤ other) ∧
        ∃ done, ((m.afterMoves moves).withKeypad pad).step = (done, none) ∧
          done.v x = key.toByte ∧ (∀ r, r ≠ x → done.v r = m.v r) ∧ done.pc = m.pc + 2 ∧
          done = { (m.afterMoves moves).withKeypad pad with
            registers := done.registers
            pc := done.pc
            opcode := Word.ofConstant 0xF x 0x0A } := by
  have hstill : ∀ earlier later, moves = earlier ++ later → Still m (m.afterMoves earlier) := by
    intro earlier later e
    rw [e] at hmoves
    exact still_afterMoves hm (still_refl m) (never_append.mp hmoves).1
  refine ⟨hstill, fun earlier later e => ?_, fun pad hpad => ?_⟩
  · have hwaiting := hstill earlier (.step :: later) e
    rw [e] at hmoves
    have hunheld := (never_append.mp hmoves).2.1
    refine step_of_unheld (hwaiting.awaitsKey hm) (Decidable.not_not.mp fun hheld => ?_)
    exact hunheld ⟨rfl, hheld⟩
  · have hwaiting := hstill moves [] (List.append_nil moves).symm
    have hawaits : ((m.afterMoves moves).withKeypad pad).AwaitsKey x := hwaiting.awaitsKey hm
    obtain ⟨key, hheld, hleast, hstep⟩ := step_of_held hawaits hpad
    refine ⟨key, hheld, hleast, _, hstep, v_setV_self _ x _, fun r hr => ?_, ?_, rfl⟩
    · refine (v_setV_of_ne hr _ _).trans ?_
      exact congrArg (fun registers => registers.get r) hwaiting.registers
    · exact congrArg (· + 2) hwaiting.pc

/-- A machine that waits for a key in VA, with the sound timer running. -/
def prompting : Machine :=
  { withBytes [(0x200, 0xFA), (0x201, 0x0A)] with sound := ⟨3⟩ }

/-- A key pressed and released between two steps is not noticed; of two keys held at a step, the
    lower one is taken. -/
theorem prompting_waits_then_takes :
    let moves := [.step, .touch (.press 9), .touch .tick, .touch (.release 9), .step]
    prompting.AwaitsKey 0xA ∧ prompting.StepsUnheld moves ∧
      ∃ done, ((prompting.afterMoves moves).withKeypad
          ((Keypad.released.press 0xC).press 5)).step = (done, none) ∧
        done.v 0xA = 5 ∧ done.pc = 0x202 := by
  intro moves
  have hawaits : prompting.AwaitsKey 0xA := by
    show prompting.memory.fetch? prompting.pc = some 0xFA0A
    decide +kernel
  have hunheld : prompting.StepsUnheld moves := by
    refine ⟨fun h => h.2 (by decide +kernel), fun h => ?_, fun h => ?_, fun h => ?_,
      fun h => h.2 (by decide +kernel), trivial⟩
    all_goals cases h.1
  have hkeys : ((Keypad.released.press 0xC).press 5).heldKeys = [5, 0xC] := by decide +kernel
  obtain ⟨-, -, htakes⟩ := waits_then_takes prompting 0xA moves hawaits hunheld
  obtain ⟨key, hheld, hleast, done, hstep, hkey, -, hpc, -⟩ :=
    htakes ((Keypad.released.press 0xC).press 5) (by rw [hkeys]; exact List.cons_ne_nil _ _)
  rw [hkeys] at hheld hleast
  have hfive : key = 5 := by
    have hle := hleast 5 (by decide)
    rcases List.mem_cons.mp hheld with h | h
    · exact h
    · rw [List.mem_singleton.mp h] at hle
      exact absurd hle (by decide)
  subst hfive
  exact ⟨hawaits, hunheld, done, hstep, hkey, hpc⟩

end Chip8.Machine
