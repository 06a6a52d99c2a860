/-
  File:      Chip8/Proofs/Machine/Faults.lean
  Subject:   when a step faults, what it leaves behind, and what comes after it

  * `Faulty`: the three faults and the states they happen in;
  * `step_fault_iff`: a step faults exactly there;
  * `step_of_faulty`: it leaves the machine as it was, but for the word it noted;
  * `Stuck`: a machine that has faulted. No move sets it free (`stuck_afterMoves`), and every
    step from it is the same fault again and changes nothing (`Stuck.step`);
  * `faults_exact_atomic_stable`: all of this together.
-/
import Chip8.Error
import Chip8.Proofs.Instruction.Encode
import Chip8.Proofs.Machine.Event
import Chip8.Proofs.Machine.Route

namespace Chip8.Machine

variable {m n : Machine} {fault : Fault}

/-! ## 1. Where a step faults -/

/-- **The faults of a step**: no word at the program counter, a return with no call open, and a
    call with sixteen open. -/
inductive Faulty (m : Machine) : Fault → Prop where
  | outOfBounds (hpc : 0xFFF ≤ m.pc.toNat) : Faulty m (.outOfBounds m.pc)
  | stackUnderflow (hword : m.memory.fetch? m.pc = some 0x00EE) (hpointer : m.stack.pointer = 0) :
      Faulty m (.stackUnderflow m.pc)
  | stackOverflow {word : UInt16} (hword : m.memory.fetch? m.pc = some word)
      (hcall : word.toNat / 4096 = 0x2) (hpointer : m.stack.pointer = 16) :
      Faulty m (.stackOverflow m.pc)

/-- Whether a step faults depends on memory, program counter and stack. -/
theorem Faulty.of_eq (h : Faulty m fault) (hmemory : n.memory = m.memory) (hpc : n.pc = m.pc)
    (hstack : n.stack = m.stack) : Faulty n fault := by
  cases h with
  | outOfBounds hbound =>
    rw [← hpc] at hbound ⊢
    exact .outOfBounds hbound
  | stackUnderflow hword hpointer =>
    rw [← hmemory, ← hpc] at hword
    rw [← hstack] at hpointer
    rw [← hpc]
    exact .stackUnderflow hword hpointer
  | stackOverflow hword hcall hpointer =>
    rw [← hmemory, ← hpc] at hword
    rw [← hstack] at hpointer
    rw [← hpc]
    exact .stackOverflow hword hcall hpointer

theorem Faulty.pc_eq (h : Faulty m fault) : fault.pc = m.pc := by
  cases h <;> rfl

/-- The machine that has noted the word at its program counter, if there is one. -/
def notingNext (m : Machine) : Machine :=
  { m with opcode := (m.memory.fetch? m.pc).getD m.opcode }

theorem notingNext_eq {word : UInt16} (h : m.memory.fetch? m.pc = some word) :
    m.notingNext = m.noting word := by
  rw [notingNext, h]
  rfl

/-- **A fault leaves the machine as it was**, but for the word it noted. -/
theorem step_of_faulty (h : Faulty m fault) : m.step = (m.notingNext, some fault) := by
  cases h with
  | outOfBounds hpc =>
    have hfetch : m.memory.fetch? m.pc = none := (m.memory.fetch?_eq_none_iff m.pc).mpr hpc
    rw [step_of_fetch_none hfetch, notingNext, hfetch, Option.getD_none]
  | stackUnderflow hword hpointer =>
    rw [notingNext_eq hword]
    refine step_of_execute_error hword (execute_eq_error_iff.mpr (.inl ⟨?_, hpointer, rfl⟩))
    exact Instruction.decode_eq_ret_iff.mpr rfl
  | stackOverflow hword hcall hpointer =>
    rw [notingNext_eq hword]
    refine step_of_execute_error hword (execute_eq_error_iff.mpr (.inr ⟨?_, ?_, rfl⟩))
    · exact Instruction.decode_eq_call_iff.mpr hcall
    · exact Nat.le_of_eq hpointer.symm

/-- **A step faults exactly where it is said to.** -/
theorem step_fault_iff (hpointer : m.stack.pointer ≤ 16) :
    m.step.2 = some fault ↔ Faulty m fault := by
  constructor
  · intro h
    rcases m.step_cases with ⟨hfetch, hstep⟩ | ⟨word, fault', hfetch, hexecute, hstep⟩ |
      ⟨word, done, -, -, hstep⟩
    · rw [hstep] at h
      cases h
      exact .outOfBounds ((m.memory.fetch?_eq_none_iff m.pc).mp hfetch)
    · rw [hstep] at h
      cases h
      rcases execute_eq_error_iff.mp hexecute with ⟨hret, hzero, rfl⟩ | ⟨hcall, hfull, rfl⟩
      · rw [Instruction.decode_eq_ret_iff.mp hret] at hfetch
        exact .stackUnderflow hfetch hzero
      · exact .stackOverflow hfetch (Instruction.decode_eq_call_iff.mp hcall)
          (Nat.le_antisymm hpointer hfull)
    · rw [hstep] at h
      cases h
  · intro h
    rw [step_of_faulty h]

/-! ## 2. Behind a fault -/

/-- **A machine that has faulted**: it would fault in the same way again, and it has noted the word
    at its program counter already. -/
structure Stuck (m : Machine) (fault : Fault) : Prop where
  faulty : Faulty m fault
  noted : (m.memory.fetch? m.pc).getD m.opcode = m.opcode

theorem stuck_of_faulty (h : Faulty m fault) : Stuck m.notingNext fault where
  faulty := h.of_eq rfl rfl rfl
  noted := by
    cases hfetch : m.memory.fetch? m.pc with
    | none => simp only [notingNext, hfetch, Option.getD_none]
    | some word => simp only [notingNext, hfetch, Option.getD_some]

/-- **Every step from a machine that has faulted is the same fault and changes nothing.** -/
theorem Stuck.step (h : Stuck m fault) : m.step = (m, some fault) := by
  rw [step_of_faulty h.faulty, notingNext, h.noted]

theorem Stuck.touch (h : Stuck m fault) (t : Touch) : Stuck (m.afterTouch t) fault where
  faulty := h.faulty.of_eq (afterTouch_memory m t) (afterTouch_pc m t) (afterTouch_stack m t)
  noted := by
    rw [afterTouch_memory, afterTouch_pc, afterTouch_opcode]
    exact h.noted

/-- **No move sets a machine that has faulted free.** -/
theorem stuck_afterMoves (h : Stuck m fault) (moves : List Move) :
    Stuck (m.afterMoves moves) fault := by
  refine afterMoves_induction (P := fun n => Stuck n fault) h (fun n move hn => ?_) moves
  cases move with
  | step =>
    show Stuck n.step.1 fault
    rw [hn.step]
    exact hn
  | touch t => exact hn.touch t

/-! ## 3. Faults -/

/-- **Faults are exact, change nothing and stay.** A step faults exactly where `Faulty` says. Then
    the fault names the place, the program is to blame, and the machine is as it was but for the
    word it noted, if there was one; and whatever moves follow, every further step ends in the same
    fault and leaves everything as it is. -/
theorem faults_exact_atomic_stable (m : Machine) (hpointer : m.stack.pointer ≤ 16) :
    (∀ fault, m.step.2 = some fault ↔ Faulty m fault) ∧
    ∀ fault, m.step.2 = some fault →
      fault.pc = m.pc ∧ (Error.fault fault).isFault = true ∧
      m.step.1 = { m with opcode := (m.memory.fetch? m.pc).getD m.opcode } ∧
      ∀ moves, (m.step.1.afterMoves moves).step = (m.step.1.afterMoves moves, some fault) := by
  refine ⟨fun fault => step_fault_iff hpointer, fun fault h => ?_⟩
  have hfaulty := (step_fault_iff hpointer).mp h
  have hmachine : m.step.1 = m.notingNext := by rw [step_of_faulty hfaulty]
  refine ⟨hfaulty.pc_eq, rfl, hmachine, fun moves => ?_⟩
  rw [hmachine]
  exact (stuck_afterMoves (stuck_of_faulty hfaulty) moves).step

/-- A machine with sixteen calls open in front of another one. -/
def fullStack : Machine :=
  { withBytes [(0x200, 0x22)] with stack := ⟨Vector.replicate 16 0x200, 16⟩ }

theorem faults_fullStack :
    fullStack.stack.pointer ≤ 16 ∧ fullStack.step.2 = some (.stackOverflow 0x200) ∧
      (fullStack.step.1.afterMoves [.touch .tick, .step, .touch (.press 3), .touch .poll]).step.2 =
        some (.stackOverflow 0x200) := by
  have hpointer : fullStack.stack.pointer ≤ 16 := by decide
  have hfault : fullStack.step.2 = some (.stackOverflow 0x200) := by decide +kernel
  obtain ⟨-, -, -, hstays⟩ := (faults_exact_atomic_stable fullStack hpointer).2 _ hfault
  exact ⟨hpointer, hfault, congrArg Prod.snd (hstays _)⟩

end Chip8.Machine
