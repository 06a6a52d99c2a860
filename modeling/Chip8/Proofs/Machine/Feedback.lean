/-
  File:      Chip8/Proofs/Machine/Feedback.lean
  Subject:   what is only shown to the host does not come back into the program

  * `CallStack.HoldsSame`: two stacks with the same open calls, whatever lies in their popped slots;
  * `SameButShown`: two machines that differ in nothing but what is only shown: the word noted last,
    the draw flag, the sound timer and the slots not in use;
  * `step_sameButShown`, `afterEvent_sameButShown`: they go on to do so, and end every step in the
    same way;
  * `told?`, `told`: the fault a step ends in, or the error of a load that is refused;
  * `shown_never_fed_back`: what an event tells is the same in both, whatever came before.
-/
import Chip8.Proofs.Machine.Load

namespace Chip8

/-! ## 1. Stacks with the same open calls -/

namespace CallStack

/-- **Two stacks hold the same addresses**; what lies in the slots not in use does not count. -/
structure HoldsSame (s t : CallStack) : Prop where
  pointer : t.pointer = s.pointer
  slots : ∀ k (h : k < 16), k < s.pointer → t.slots[k] = s.slots[k]

variable {s t rest longer : CallStack} {address : UInt16}

theorem holdsSame_refl (s : CallStack) : s.HoldsSame s := ⟨rfl, fun _ _ _ => rfl⟩

/-- Stacks hold the same addresses if their lists of them are the same. -/
theorem holdsSame_iff (hs : s.pointer ≤ 16) (ht : t.pointer ≤ 16) :
    s.HoldsSame t ↔ s.toList = t.toList := by
  constructor
  · rintro ⟨hpointer, hslots⟩
    refine List.ext_getElem (by rw [length_toList hs, length_toList ht, hpointer]) fun k hk _ => ?_
    rw [length_toList hs] at hk
    simp only [toList, List.getElem_take, Vector.getElem_toList]
    exact (hslots k (by omega) hk).symm
  · intro h
    have hpointer : t.pointer = s.pointer := by
      rw [← length_toList hs, ← length_toList ht, h]
    refine ⟨hpointer, fun k hk hlive => ?_⟩
    have hslot : s.toList[k]? = t.toList[k]? := by rw [h]
    simpa [toList, hlive, hpointer, hk] using hslot.symm

theorem HoldsSame.getD (h : s.HoldsSame t) {k : Nat} (hk : k < s.pointer) :
    t.slots.toList.getD k 0 = s.slots.toList.getD k 0 := by
  by_cases hslot : k < 16
  · rw [getD_slots t hslot, getD_slots s hslot, h.slots k hslot hk]
  · have houtside (u : CallStack) : u.slots.toList.length ≤ k := by
      rw [Vector.length_toList]
      omega
    rw [List.getD_eq_getElem?_getD, List.getD_eq_getElem?_getD,
      List.getElem?_eq_none (houtside t), List.getElem?_eq_none (houtside s)]

/-- A pop reads a slot in use. -/
theorem HoldsSame.pop (h : s.HoldsSame t) (hpop : s.pop? = some (address, rest)) :
    ∃ rest', t.pop? = some (address, rest') ∧ rest.HoldsSame rest' := by
  obtain ⟨hpointer, hslots, rfl⟩ := pop?_eq_some_iff.mp hpop
  have hlast : rest.pointer < s.pointer := by omega
  refine ⟨⟨t.slots, rest.pointer⟩, pop?_eq_some_iff.mpr ⟨?_, rfl, ?_⟩, rfl, fun k hk hlive => ?_⟩
  · exact h.pointer.trans hpointer
  · exact (h.getD hlast).symm
  · rw [hslots]
    exact h.slots k hk (by omega)

/-- A push writes the first slot not in use, whatever lay in it. -/
theorem HoldsSame.push (h : s.HoldsSame t) (hpush : s.push? address = some longer) :
    ∃ longer', t.push? address = some longer' ∧ longer.HoldsSame longer' := by
  obtain ⟨hroom, rfl⟩ := push?_eq_some_iff.mp hpush
  have hroom' : t.pointer < 16 := h.pointer ▸ hroom
  refine ⟨_, push?_eq_some_iff.mpr ⟨hroom', rfl⟩, ?_, fun k hk hlive => ?_⟩
  · exact congrArg (· + 1) h.pointer
  · show (t.slots.set t.pointer address)[k] = (s.slots.set s.pointer address)[k]
    have hpointer := h.pointer
    have hlive' : k < s.pointer + 1 := hlive
    rw [Vector.getElem_set, Vector.getElem_set]
    by_cases htop : k = s.pointer
    · rw [if_pos (by omega), if_pos htop.symm]
    · rw [if_neg (by omega), if_neg (Ne.symm htop)]
      exact h.slots k hk (by omega)

end CallStack

namespace Machine

variable {m n done : Machine} {i : Instruction} {s : CallStack}

/-! ## 2. Machines with another stack -/

def withStack (m : Machine) (s : CallStack) : Machine := { m with stack := s }

/-- **An instruction does the same over a stack with the same open calls**, and leaves such a
    stack. -/
theorem execute_withStack (h : m.stack.HoldsSame s) (hexecute : m.execute i = .ok done) :
    ∃ s', (m.withStack s).execute i = .ok (done.withStack s') ∧ done.stack.HoldsSame s' := by
  cases i with
  | ret =>
    rw [execute] at hexecute
    split at hexecute
    · cases hexecute
    · rename_i caller rest hpop
      cases hexecute
      obtain ⟨rest', hpop', hrest⟩ := h.pop hpop
      have hpopped : (m.withStack s).stack.pop? = some (caller, rest') := hpop'
      refine ⟨rest', ?_, hrest⟩
      rw [execute, hpopped]
      rfl
  | call target =>
    rw [execute] at hexecute
    split at hexecute
    · cases hexecute
    · rename_i longer hpush
      cases hexecute
      obtain ⟨longer', hpush', hlonger⟩ := h.push hpush
      have hpushed : (m.withStack s).stack.push? (m.withStack s).pc = some longer' := hpush'
      refine ⟨longer', ?_, hlonger⟩
      rw [execute, hpushed]
      rfl
  | awaitKey x =>
    have hkeypad : (m.withStack s).keypad = m.keypad := rfl
    rw [execute] at hexecute ⊢
    rw [hkeypad]
    split at hexecute <;> cases hexecute <;> exact ⟨s, rfl, h⟩
  | _ =>
    cases hexecute
    exact ⟨s, rfl, h⟩

theorem execute_withStack_error {fault : Fault} (h : m.stack.HoldsSame s)
    (hexecute : m.execute i = .error fault) : (m.withStack s).execute i = .error fault := by
  rw [execute_eq_error_iff] at hexecute ⊢
  show (_ ∧ s.pointer = 0 ∧ _) ∨ (_ ∧ 16 ≤ s.pointer ∧ _)
  rw [h.pointer]
  exact hexecute

/-- **A step does the same over a stack with the same open calls.** -/
theorem step_withStack (h : m.stack.HoldsSame s) :
    ∃ s', (m.withStack s).step = (m.step.1.withStack s', m.step.2) ∧
      m.step.1.stack.HoldsSame s' := by
  rcases m.step_cases with ⟨hfetch, hstep⟩ | ⟨word, fault, hfetch, hexecute, hstep⟩ |
    ⟨word, done, hfetch, hexecute, hstep⟩
  · have hfetch' : (m.withStack s).memory.fetch? (m.withStack s).pc = none := hfetch
    rw [hstep, step_of_fetch_none hfetch']
    exact ⟨s, rfl, h⟩
  · have hfetch' : (m.withStack s).memory.fetch? (m.withStack s).pc = some word := hfetch
    have hexecute' := execute_withStack_error (m := m.noting word) h hexecute
    rw [hstep, step_of_execute_error hfetch' hexecute']
    exact ⟨s, rfl, h⟩
  · have hfetch' : (m.withStack s).memory.fetch? (m.withStack s).pc = some word := hfetch
    obtain ⟨s', hexecute', hs'⟩ := execute_withStack (m := m.noting word) h hexecute
    rw [hstep, step_of_execute hfetch' hexecute']
    exact ⟨s', rfl, hs'⟩

/-! ## 3. Machines that differ in what is only shown -/

/-- **The second machine is the first one, but for what is only shown**: the word noted last, the
    draw flag, the sound timer and the slots of the stack not in use. -/
structure SameButShown (m n : Machine) : Prop where
  rest : n = { m with
    stack := n.stack
    opcode := n.opcode
    drawFlag := n.drawFlag
    sound := n.sound }
  stack : m.stack.HoldsSame n.stack

theorem sameButShown_refl (m : Machine) : m.SameButShown m := ⟨rfl, m.stack.holdsSame_refl⟩

/-- Keypad, delay timer and random source behind a step depend on nothing that is only shown. -/
theorem peripheryAfterStep_shown (m : Machine) (p : Periphery) (sound : Timer) (opcode : UInt16)
    (drawFlag : Bool) :
    ∃ sound' opcode' drawFlag', m.peripheryAfterStep { p with sound, opcode, drawFlag } =
      { m.peripheryAfterStep p with
        sound := sound', opcode := opcode', drawFlag := drawFlag' } := by
  refine peripheryAfterStep_cases
    (P := fun q r => ∃ sound' opcode' drawFlag',
      q = { r with sound := sound', opcode := opcode', drawFlag := drawFlag' })
    ⟨sound, opcode, drawFlag, rfl⟩ fun word _ => ?_
  cases Instruction.decode word <;> exact ⟨_, _, _, rfl⟩

/-- **What is only shown does not decide what a step does.** -/
theorem step_sameButShown (h : m.SameButShown n) :
    m.step.1.SameButShown n.step.1 ∧ n.step.2 = m.step.2 := by
  have hn : n = (m.withStack n.stack).withPeriphery
      { m.periphery with sound := n.sound, opcode := n.opcode, drawFlag := n.drawFlag } := h.rest
  have hsees : ∀ word, (m.withStack n.stack).memory.fetch? (m.withStack n.stack).pc = some word →
      (Instruction.decode word).SeesSame (m.withStack n.stack).periphery
        { m.periphery with sound := n.sound, opcode := n.opcode, drawFlag := n.drawFlag } := by
    intro word _
    cases Instruction.decode word with
    | skipIfHeld | skipIfFree | awaitKey | readDelay | random => rfl
    | _ => trivial
  obtain ⟨s', hstep, hs'⟩ := step_withStack h.stack
  obtain ⟨sound, opcode, drawFlag, hafter⟩ :=
    m.peripheryAfterStep_shown m.periphery n.sound n.opcode n.drawFlag
  have hafter' : (m.withStack n.stack).peripheryAfterStep
      { m.periphery with sound := n.sound, opcode := n.opcode, drawFlag := n.drawFlag } =
      { m.step.1.periphery with sound, opcode, drawFlag } := by
    rw [periphery_step]
    exact hafter
  rw [hn, step_withPeriphery hsees, hstep, hafter']
  exact ⟨⟨rfl, hs'⟩, rfl⟩

theorem afterTouch_sameButShown (h : m.SameButShown n) (t : Touch) :
    (m.afterTouch t).SameButShown (n.afterTouch t) := by
  obtain ⟨hrest, hstack⟩ := h
  refine ⟨?_, ?_⟩
  · rw [hrest]
    cases t <;> rfl
  · rw [afterTouch_stack, afterTouch_stack]
    exact hstack

/-- Behind a reset nothing is left of what was shown. -/
theorem reset_sameButShown (h : m.SameButShown n) : n.reset = m.reset := by
  rw [h.rest]
  rfl

theorem afterLoad_sameButShown (h : m.SameButShown n) (program : Program) :
    (m.afterLoad program).SameButShown (n.afterLoad program) := by
  by_cases hfits : program.size ≤ Memory.programLimit
  · rw [afterLoad_of_fits hfits, afterLoad_of_fits hfits, reset_sameButShown h]
    exact sameButShown_refl _
  · rw [afterLoad_of_too_large (by omega), afterLoad_of_too_large (by omega)]
    exact h

theorem afterEvent_sameButShown (h : m.SameButShown n) (event : Event) :
    (m.afterEvent event).SameButShown (n.afterEvent event) := by
  cases event with
  | move move =>
    cases move with
    | step => exact (step_sameButShown h).1
    | touch t => exact afterTouch_sameButShown h t
  | reset =>
    show m.reset.SameButShown n.reset
    rw [reset_sameButShown h]
    exact sameButShown_refl _
  | load program => exact afterLoad_sameButShown h program

/-! ## 4. What steps and loads tell -/

/-- The fault that an event ends in, if it is a step, or the error of a load that is refused. -/
def told? (m : Machine) : Event → Option Error
  | .move .step => m.step.2.map .fault
  | .move (.touch _) => none
  | .reset => none
  | .load program =>
    match m.load program with
    | .ok _ => none
    | .error error => some error

/-- What the events of a run tell, one after the other. -/
def told (m : Machine) : List Event → List (Option Error)
  | [] => []
  | event :: rest => m.told? event :: (m.afterEvent event).told rest

theorem told?_sameButShown (h : m.SameButShown n) (event : Event) :
    n.told? event = m.told? event := by
  cases event with
  | move move =>
    cases move with
    | step => exact congrArg (Option.map Error.fault) (step_sameButShown h).2
    | touch t => rfl
  | reset => rfl
  | load program =>
    rw [told?, told?]
    by_cases hfits : program.size ≤ Memory.programLimit
    · rw [load_of_fits n hfits, load_of_fits m hfits]
    · rw [load_of_too_large n (by omega), load_of_too_large m (by omega)]

/-- **What is only shown to the host never comes back into the program.** Two machines that differ
    in nothing else, given the same events, end every step in the same fault or in none and refuse
    the same loads, and still differ in nothing else. -/
theorem shown_never_fed_back (h : m.SameButShown n) (events : List Event) :
    n.told events = m.told events ∧ (m.afterEvents events).SameButShown (n.afterEvents events) := by
  induction events generalizing m n with
  | nil => exact ⟨rfl, h⟩
  | cons event rest ih =>
    obtain ⟨htold, hsame⟩ := ih (afterEvent_sameButShown h event)
    refine ⟨?_, hsame⟩
    rw [told, told, told?_sameButShown h event, htold]

/-- A machine in front of a call of code that returns, and of a jump to the same code. -/
def calling : Machine :=
  withBytes [(0x200, 0x22), (0x201, 0x04), (0x202, 0x12), (0x203, 0x04), (0x205, 0xEE)]

/-- The same machine with something else in all that is only shown. -/
def callingElsewhere : Machine :=
  { calling with
    stack := ⟨Vector.replicate 16 0xABC, 0⟩
    opcode := 0x1234
    drawFlag := true
    sound := ⟨9⟩ }

/-- The call, the return, the jump, and a return with no call open. -/
def callingEvents : List Event :=
  [.move .step, .move (.touch .tick), .move .step, .move (.touch .poll), .move .step, .move .step]

theorem calling_tells_the_same :
    calling.SameButShown callingElsewhere ∧
      callingElsewhere.told callingEvents =
        [none, none, none, none, none, some (.fault (.stackUnderflow 0x204))] := by
  have hsame : calling.SameButShown callingElsewhere := by
    refine ⟨rfl, rfl, fun k _ hlive => ?_⟩
    have hempty : calling.stack.pointer = 0 := rfl
    omega
  have htold : calling.told callingEvents =
      [none, none, none, none, none, some (.fault (.stackUnderflow 0x204))] := by decide +kernel
  exact ⟨hsame, (shown_never_fed_back hsame callingEvents).1.trans htold⟩

end Machine

end Chip8
