/-
  File:      Chip8/Proofs/Machine/Route.lean
  Subject:   what an instruction and a step can do to the program counter, the stack, the index
             register and the plane

  * `Route`: the ways in which an instruction moves the program counter and the stack;
    `route_of_execute`: there are no others;
  * `execute_index`, `execute_plane`: who writes the index register and the plane;
  * `execute_eq_error_iff`: the instructions that fault, and when;
  * `step_cases`: a step is a fetch that fails, or an instruction that faults, or one that is
    carried out; `route_of_step`: one without a fault takes a route.
-/
import Chip8.Machine.Step

namespace Chip8

/-- Whether an instruction goes on at a place of its own. -/
def Instruction.branches : Instruction → Bool
  | .ret => true
  | .jump _ => true
  | .call _ => true
  | .jumpBeyond _ => true
  | _ => false

/-- Whether an instruction writes the plane. -/
def Instruction.paints : Instruction → Bool
  | .clear => true
  | .draw _ _ _ => true
  | _ => false

namespace Machine

variable {m done : Machine} {i : Instruction}

/-! ## 1. Routes -/

/-- **How an instruction that is carried out moves the program counter and the stack.** -/
inductive Route (m : Machine) : Instruction → Machine → Prop where
  | next (i : Instruction) {done : Machine} (straight : i.branches = false)
      (stack : done.stack = m.stack) (pc : done.pc = m.pc + 2) : Route m i done
  | skip (i : Instruction) {done : Machine} (straight : i.branches = false)
      (stack : done.stack = m.stack) (pc : done.pc = m.pc + 4) : Route m i done
  | stay (x : Nibble) {done : Machine} (stack : done.stack = m.stack) (pc : done.pc = m.pc) :
      Route m (.awaitKey x) done
  | jump (target : Address) {done : Machine} (stack : done.stack = m.stack)
      (pc : done.pc = target.toWord) : Route m (.jump target) done
  | jumpBeyond (target : Address) {done : Machine} (stack : done.stack = m.stack)
      (pc : done.pc = target.toWord + (m.v 0).toUInt16) : Route m (.jumpBeyond target) done
  | call (target : Address) {done : Machine} (stack : m.stack.push? m.pc = some done.stack)
      (pc : done.pc = target.toWord) : Route m (.call target) done
  | ret (caller : UInt16) {done : Machine} (stack : m.stack.pop? = some (caller, done.stack))
      (pc : done.pc = caller + 2) : Route m .ret done

theorem route_skipIf (hi : i.branches = false) (condition : Bool) :
    Route m i (m.skipIf condition) := by
  cases condition with
  | false => exact .next i hi rfl rfl
  | true => exact .skip i hi rfl rfl

/-- **Every instruction that is carried out takes one of the routes.** -/
theorem route_of_execute (h : m.execute i = .ok done) : Route m i done := by
  cases i with
  | ret =>
    rw [execute] at h
    split at h
    · cases h
    · rename_i caller rest hpop
      cases h
      exact .ret caller hpop rfl
  | call target =>
    rw [execute] at h
    split at h
    · cases h
    · rename_i longer hpush
      cases h
      exact .call target hpush rfl
  | jump target =>
    cases h
    exact .jump target rfl rfl
  | jumpBeyond target =>
    cases h
    exact .jumpBeyond target rfl rfl
  | awaitKey x =>
    rw [execute] at h
    split at h
    · cases h
      exact .stay x rfl rfl
    · cases h
      exact .next _ rfl rfl rfl
  | skipIfIs | skipIfIsNot | skipIfSame | skipIfDifferent | skipIfHeld | skipIfFree =>
    cases h
    exact route_skipIf rfl _
  | _ =>
    cases h
    exact .next _ rfl rfl rfl

/-! ## 2. The index register and the plane -/

/-- The index register keeps its value or takes one of twelve bits. -/
theorem execute_index (h : m.execute i = .ok done) :
    done.index = m.index ∨ ∃ address : UInt16, done.index = address % 4096 := by
  cases i with
  | setIndex | addToIndex | pointToGlyph =>
    cases h
    exact .inr ⟨_, rfl⟩
  | ret | call | awaitKey =>
    rw [execute] at h
    split at h <;> cases h <;> exact .inl rfl
  | _ =>
    cases h
    exact .inl rfl

/-- An instruction that does not paint leaves plane and draw flag alone. -/
theorem execute_plane (h : m.execute i = .ok done) (hi : i.paints = false) :
    done.plane = m.plane ∧ done.drawFlag = m.drawFlag := by
  cases i with
  | clear | draw => cases hi
  | ret | call | awaitKey =>
    rw [execute] at h
    split at h <;> cases h <;> exact ⟨rfl, rfl⟩
  | _ =>
    cases h
    exact ⟨rfl, rfl⟩

/-- An instruction that paints is carried out and raises the draw flag. -/
theorem execute_of_paints (hi : i.paints = true) :
    ∃ done, m.execute i = .ok done ∧ done.drawFlag = true := by
  cases i with
  | clear | draw => exact ⟨_, rfl, rfl⟩
  | _ => cases hi

/-! ## 3. Faults -/

/-- **The faults of instructions**: a return with no call open, and a call with all slots in
    use. -/
theorem execute_eq_error_iff {fault : Fault} :
    m.execute i = .error fault ↔
      (i = .ret ∧ m.stack.pointer = 0 ∧ fault = .stackUnderflow m.pc) ∨
      ((∃ target, i = .call target) ∧ 16 ≤ m.stack.pointer ∧ fault = .stackOverflow m.pc) := by
  constructor
  · intro h
    cases i with
    | ret =>
      rw [execute] at h
      split at h
      · rename_i hpop
        cases h
        exact .inl ⟨rfl, (CallStack.pop?_eq_none_iff _).mp hpop, rfl⟩
      · cases h
    | call target =>
      rw [execute] at h
      split at h
      · rename_i hpush
        cases h
        exact .inr ⟨⟨target, rfl⟩, (CallStack.push?_eq_none_iff _ _).mp hpush, rfl⟩
      · cases h
    | awaitKey =>
      rw [execute] at h
      split at h <;> cases h
    | _ => cases h
  · rintro (⟨rfl, hpointer, rfl⟩ | ⟨⟨target, rfl⟩, hpointer, rfl⟩)
    · rw [execute, (CallStack.pop?_eq_none_iff _).mpr hpointer]
    · rw [execute, (CallStack.push?_eq_none_iff _ _).mpr hpointer]

/-- A call that finds room is carried out. -/
theorem execute_call (target : Address) (hroom : m.stack.pointer < 16) :
    m.execute (.call target) = .ok { m with
      stack := ⟨m.stack.slots.set m.stack.pointer m.pc, m.stack.pointer + 1⟩
      pc := target.toWord } := by
  rw [execute, CallStack.push?_eq_some_iff.mpr ⟨hroom, rfl⟩]
  rfl

/-! ## 4. Steps -/

theorem pc_le_of_fetch {word : UInt16} (h : m.memory.fetch? m.pc = some word) :
    m.pc.toNat ≤ 0xFFE := by
  have hne : m.memory.fetch? m.pc ≠ none := by
    rw [h]
    exact Option.some_ne_none word
  rw [Ne, Memory.fetch?_eq_none_iff] at hne
  omega

/-- The machine that has noted a word as its latest. -/
def noting (m : Machine) (word : UInt16) : Machine := { m with opcode := word }

theorem step_of_fetch_none (hfetch : m.memory.fetch? m.pc = none) :
    m.step = (m, some (.outOfBounds m.pc)) := by
  simp only [step, fetch, hfetch]

theorem step_of_execute {word : UInt16} (hfetch : m.memory.fetch? m.pc = some word)
    (hexecute : (m.noting word).execute (.decode word) = .ok done) : m.step = (done, none) := by
  simp only [noting] at hexecute
  simp only [step, fetch, instruction, hfetch, hexecute]

theorem step_of_execute_error {word : UInt16} {fault : Fault}
    (hfetch : m.memory.fetch? m.pc = some word)
    (hexecute : (m.noting word).execute (.decode word) = .error fault) :
    m.step = (m.noting word, some fault) := by
  simp only [noting] at hexecute
  simp only [step, fetch, instruction, hfetch, hexecute, noting]

/-- **A step**: the fetch fails, or the instruction faults, or it is carried out. -/
theorem step_cases (m : Machine) :
    (m.memory.fetch? m.pc = none ∧ m.step = (m, some (.outOfBounds m.pc))) ∨
    (∃ word fault, m.memory.fetch? m.pc = some word ∧
      (m.noting word).execute (.decode word) = .error fault ∧
      m.step = (m.noting word, some fault)) ∨
    (∃ word done, m.memory.fetch? m.pc = some word ∧
      (m.noting word).execute (.decode word) = .ok done ∧ m.step = (done, none)) := by
  cases hfetch : m.memory.fetch? m.pc with
  | none => exact .inl ⟨rfl, step_of_fetch_none hfetch⟩
  | some word =>
    right
    cases hexecute : (m.noting word).execute (.decode word) with
    | error fault => exact .inl ⟨word, fault, rfl, hexecute, step_of_execute_error hfetch hexecute⟩
    | ok done => exact .inr ⟨word, done, rfl, hexecute, step_of_execute hfetch hexecute⟩

theorem execute_of_step (h : m.step = (done, none)) :
    ∃ word, m.memory.fetch? m.pc = some word ∧
      (m.noting word).execute (.decode word) = .ok done := by
  rcases m.step_cases with ⟨-, hstep⟩ | ⟨word, fault, -, -, hstep⟩ |
    ⟨word, after, hfetch, hexecute, hstep⟩
  · rw [hstep] at h
    cases h
  · rw [hstep] at h
    cases h
  · rw [hstep] at h
    cases h
    exact ⟨word, hfetch, hexecute⟩

theorem Route.of_noting {word : UInt16} (hr : Route (m.noting word) i done) : Route m i done := by
  cases hr with
  | next i straight stack pc => exact .next i straight stack pc
  | skip i straight stack pc => exact .skip i straight stack pc
  | stay x stack pc => exact .stay x stack pc
  | jump target stack pc => exact .jump target stack pc
  | jumpBeyond target stack pc => exact .jumpBeyond target stack pc
  | call target stack pc => exact .call target stack pc
  | ret caller stack pc => exact .ret caller stack pc

/-- **Every step without a fault takes the route of an instruction at its place.** -/
theorem route_of_step (h : m.step = (done, none)) :
    ∃ word, m.memory.fetch? m.pc = some word ∧ Route m (.decode word) done := by
  obtain ⟨word, hfetch, hexecute⟩ := execute_of_step h
  exact ⟨word, hfetch, (route_of_execute hexecute).of_noting⟩

end Machine

end Chip8
