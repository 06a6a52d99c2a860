/-
  File:      Chip8/Proofs/Machine/Steps.lean
  Subject:   steps one after the other

  * `afterSteps`: the machine after so many steps. `run` takes as many of them as it notes places
    (`machine_run`), and none of its records is an error (`level_of_mem_run`);
  * `FaultsBehind`: plain stepping succeeds so many times without a look at the delay timer and then
    faults;
  * `run_of_faultsBehind`: a run from such a machine is plain stepping up to the fault, whatever has
    become of the timers;
  * `step_moved`: behind a fault every step is the same fault, whatever the host does.
-/
import Chip8.Proofs.Machine.Faults
import Chip8.Proofs.Machine.Periphery

namespace Chip8.Machine

variable {m n : Machine} {fault : Fault} {count k : Nat}

/-! ## 1. Runs -/

/-- The machine after so many steps; one that ends in a fault counts. -/
def afterSteps (m : Machine) (count : Nat) : Machine := m.afterMoves (List.replicate count .step)

theorem afterSteps_zero (m : Machine) : m.afterSteps 0 = m := rfl

theorem afterSteps_succ (m : Machine) (count : Nat) :
    m.afterSteps (count + 1) = m.step.1.afterSteps count := rfl

theorem afterSteps_add (m : Machine) (earlier later : Nat) :
    m.afterSteps (earlier + later) = (m.afterSteps earlier).afterSteps later := by
  unfold afterSteps
  rw [← List.replicate_append_replicate, afterMoves_append]

theorem run_of_fault (h : m.step.2 = some fault) (count : Nat) :
    m.run (count + 1) = ⟨m.step.1, [m.pc], some fault, m.stepRecords⟩ := by
  rw [run]
  split
  · rename_i hstep
    rw [hstep] at h ⊢
    cases h
    rfl
  · rename_i hstep
    rw [hstep] at h
    cases h

theorem run_of_success (h : m.step.2 = none) (count : Nat) :
    m.run (count + 1) =
      ⟨(m.step.1.run count).machine, m.pc :: (m.step.1.run count).places,
        (m.step.1.run count).fault, m.stepRecords ++ (m.step.1.run count).records⟩ := by
  rw [run]
  split
  · rename_i hstep
    rw [hstep] at h
    cases h
  · rename_i hstep
    rw [hstep]

/-- **A run is as many steps as it notes places**, and no more than it may take. -/
theorem machine_run (m : Machine) (count : Nat) :
    (m.run count).machine = m.afterSteps (m.run count).places.length ∧
      (m.run count).places.length ≤ count := by
  induction count generalizing m with
  | zero => exact ⟨rfl, Nat.le_refl 0⟩
  | succ count ih =>
    obtain ⟨hmachine, hlength⟩ := ih m.step.1
    cases hstep : m.step.2 with
    | some fault =>
      rw [run_of_fault hstep]
      exact ⟨rfl, Nat.succ_le_succ (Nat.zero_le count)⟩
    | none =>
      rw [run_of_success hstep]
      exact ⟨hmachine, Nat.succ_le_succ hlength⟩

/-- No record of a step is an error. -/
theorem level_of_mem_stepRecords {record : Log.Record} (h : record ∈ m.stepRecords) :
    record.level ≠ .error := by
  unfold stepRecords at h
  split at h
  · cases h
  · rcases List.mem_cons.mp h with rfl | hexecute
    · exact Log.Level.noConfusion
    · unfold executeRecords at hexecute
      split at hexecute
      · rw [List.mem_singleton.mp hexecute]
        exact Log.Level.noConfusion
      · rw [List.mem_singleton.mp hexecute]
        exact Log.Level.noConfusion
      · cases hexecute

theorem level_of_mem_run {record : Log.Record} (h : record ∈ (m.run count).records) :
    record.level ≠ .error := by
  induction count generalizing m with
  | zero => cases h
  | succ count ih =>
    cases hstep : m.step.2 with
    | some fault =>
      rw [run_of_fault hstep] at h
      exact level_of_mem_stepRecords h
    | none =>
      rw [run_of_success hstep] at h
      rcases List.mem_append.mp h with hnow | hlater
      · exact level_of_mem_stepRecords hnow
      · exact ih hlater

/-! ## 2. Runs up to a fault -/

/-- **Plain stepping succeeds so many times without a look at the delay timer, and then faults.** -/
structure FaultsBehind (m : Machine) (count : Nat) (fault : Fault) : Prop where
  succeeds : ∀ k < count, (m.afterSteps k).step.2 = none
  blind : ∀ k < count, ¬ (m.afterSteps k).Executes Word.ReadsDelay
  faults : (m.afterSteps count).step.2 = some fault

theorem FaultsBehind.behind (h : m.FaultsBehind count fault) (hk : k ≤ count) :
    (m.afterSteps k).FaultsBehind (count - k) fault where
  succeeds j hj := by
    rw [← afterSteps_add]
    exact h.succeeds (k + j) (by omega)
  blind j hj := by
    rw [← afterSteps_add]
    exact h.blind (k + j) (by omega)
  faults := by
    rw [← afterSteps_add, Nat.add_sub_cancel' hk]
    exact h.faults

/-- An instruction that reads the delay timer does not fault. -/
theorem not_readsDelay_of_fault (h : m.step.2 = some fault) : ¬ m.Executes Word.ReadsDelay := by
  rintro ⟨word, hfetch, hreads⟩
  obtain ⟨x, hdecode⟩ := Instruction.decode_eq_readDelay_iff.mpr hreads
  have hexecute : (m.noting word).execute (.decode word) =
      .ok ((m.noting word).setV x (m.noting word).delay.count).next := by
    rw [hdecode]
    rfl
  rw [step_of_execute hfetch hexecute] at h
  cases h

/-- **A run up to a fault does not depend on the timers**: with whatever is left on them, it is
    plain stepping up to the fault. -/
theorem run_of_faultsBehind (h : m.FaultsBehind count fault) (hsame : m.SameButTimers n)
    (steps : Nat) :
    (n.run steps).fault = (if count < steps then some fault else none) ∧
      (m.afterSteps (min steps (count + 1))).SameButTimers (n.run steps).machine := by
  induction steps generalizing m n count with
  | zero =>
    rw [if_neg (Nat.not_lt_zero count), Nat.zero_min]
    exact ⟨rfl, hsame⟩
  | succ steps ih =>
    rw [Nat.succ_min_succ, afterSteps_succ]
    cases count with
    | zero =>
      have hfault : m.step.2 = some fault := h.faults
      obtain ⟨hsame', hend⟩ := step_sameButTimers hsame (not_readsDelay_of_fault hfault)
      rw [run_of_fault (hend.trans hfault), if_pos (Nat.succ_pos steps), Nat.min_zero]
      exact ⟨rfl, hsame'⟩
    | succ count =>
      have hsuccess : m.step.2 = none := h.succeeds 0 (Nat.succ_pos count)
      obtain ⟨hsame', hend⟩ := step_sameButTimers hsame (h.blind 0 (Nat.succ_pos count))
      have hrest : m.step.1.FaultsBehind count fault := h.behind (Nat.succ_pos count)
      rw [run_of_success (hend.trans hsuccess)]
      simp only [Nat.succ_lt_succ_iff]
      exact ih hrest hsame'

/-! ## 3. Behind a fault -/

theorem notingNext_notingNext (m : Machine) : m.notingNext.notingNext = m.notingNext := by
  unfold notingNext
  cases m.memory.fetch? m.pc with
  | none => rfl
  | some word => rfl

/-- **Whether a step faults depends on memory, program counter and stack**, however many calls the
    stack claims to hold. -/
theorem step_of_same_place (h : m.step.2 = some fault) (hmemory : n.memory = m.memory)
    (hpc : n.pc = m.pc) (hstack : n.stack = m.stack) : n.step = (n.notingNext, some fault) := by
  rcases m.step_cases with ⟨hfetch, hstep⟩ | ⟨word, fault', hfetch, hexecute, hstep⟩ |
    ⟨word, done, -, -, hstep⟩
  · rw [hstep] at h
    cases h
    rw [← hmemory, ← hpc] at hfetch
    rw [step_of_fetch_none hfetch, notingNext, hfetch, Option.getD_none, ← hpc]
  · rw [hstep] at h
    cases h
    rw [← hmemory, ← hpc] at hfetch
    rw [notingNext_eq hfetch]
    refine step_of_execute_error hfetch ?_
    rw [execute_eq_error_iff] at hexecute ⊢
    show (_ ∧ n.stack.pointer = 0 ∧ fault = .stackUnderflow n.pc) ∨
      (_ ∧ 16 ≤ n.stack.pointer ∧ fault = .stackOverflow n.pc)
    rw [hstack, hpc]
    exact hexecute
  · rw [hstep] at h
    cases h

/-- **The step behind a fault is the same fault and changes nothing.** -/
theorem step_again (h : m.step.2 = some fault) : m.step.1.step = (m.step.1, some fault) := by
  rw [step_of_same_place (n := m) h rfl rfl rfl]
  show m.notingNext.step = (m.notingNext, some fault)
  rw [step_of_same_place (n := m.notingNext) h rfl rfl rfl, notingNext_notingNext]

/-- **A machine at the place of a fault, its word noted**, steps into the same fault and is not
    changed by it. -/
theorem step_of_same_noted (h : m.step = (m, some fault)) (hmemory : n.memory = m.memory)
    (hpc : n.pc = m.pc) (hstack : n.stack = m.stack) (hopcode : n.opcode = m.opcode) :
    n.step = (n, some fault) := by
  have hfault : m.step.2 = some fault := by rw [h]
  have hnoted : m.notingNext = m := by
    have hstep : m.step = (m.notingNext, some fault) := step_of_same_place hfault rfl rfl rfl
    rw [h] at hstep
    exact (congrArg Prod.fst hstep).symm
  have hword : (n.memory.fetch? n.pc).getD n.opcode = n.opcode := by
    rw [hmemory, hpc, hopcode]
    exact congrArg opcode hnoted
  rw [step_of_same_place hfault hmemory hpc hstack, notingNext, hword]

/-- **Behind a fault every step is the same fault**, whatever moves there are. -/
theorem step_moved (h : m.step = (m, some fault)) (moves : List Move) :
    (m.afterMoves moves).step = (m.afterMoves moves, some fault) := by
  refine afterMoves_induction (P := fun n => n.step = (n, some fault)) h (fun n move hn => ?_) moves
  cases move with
  | step =>
    show n.step.1.step = (n.step.1, some fault)
    rw [hn, hn]
  | touch t =>
    exact step_of_same_noted hn (afterTouch_memory n t) (afterTouch_pc n t) (afterTouch_stack n t)
      (afterTouch_opcode n t)

end Chip8.Machine
