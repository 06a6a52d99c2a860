/-
  File:      Chip8/Proofs/Machine/Periphery.lean
  Subject:   what an instruction has to do with the parts around the registers and the memory

  * `Periphery`: keypad, timers, the word noted last, draw flag and random source, and a machine
    with another one in its place;
  * `Instruction.SeesSame`: two peripheries between which an instruction sees no difference;
    `Instruction.peripheryAfter`: what it makes of one;
  * `execute_withPeriphery`: an instruction does the same with either of two peripheries between
    which it sees no difference, but for the periphery itself; `step_withPeriphery` for a step;
  * `CarriesOut`: what a word makes of a machine, executed or stepped;
  * `step_sameButTimers`, `step_sameButGenerator`: so machines that differ in their timers only
    stay so until one of them reads its delay timer, and machines that differ in their random
    source only until one of them draws a byte.
-/
import Chip8.Proofs.Instruction.Encode
import Chip8.Proofs.Machine.Event
import Chip8.Proofs.Machine.Route

namespace Chip8

/-! ## 1. Peripheries -/

/-- The parts of a machine around its registers and its memory. -/
structure Periphery where
  keypad : Keypad
  delay : Timer
  sound : Timer
  opcode : UInt16
  drawFlag : Bool
  generator : Generator

namespace Machine

def periphery (m : Machine) : Periphery :=
  ⟨m.keypad, m.delay, m.sound, m.opcode, m.drawFlag, m.generator⟩

/-- The machine with another periphery. -/
def withPeriphery (m : Machine) (p : Periphery) : Machine :=
  { m with
    keypad := p.keypad
    delay := p.delay
    sound := p.sound
    opcode := p.opcode
    drawFlag := p.drawFlag
    generator := p.generator }

@[simp] theorem withPeriphery_periphery (m : Machine) : m.withPeriphery m.periphery = m := rfl

end Machine

namespace Instruction

/-- **An instruction sees no difference between two peripheries**: three kinds look at the keypad,
    one at the delay timer, one at the random source, and no other at any of it. -/
def SeesSame (p q : Periphery) : Instruction → Prop
  | .skipIfHeld _ => p.keypad = q.keypad
  | .skipIfFree _ => p.keypad = q.keypad
  | .awaitKey _ => p.keypad = q.keypad
  | .readDelay _ => p.delay = q.delay
  | .random _ _ => p.generator = q.generator
  | _ => True

/-- What an instruction makes of a periphery, with these registers. -/
def peripheryAfter (v : Registers) (p : Periphery) : Instruction → Periphery
  | .clear => { p with drawFlag := true }
  | .draw _ _ _ => { p with drawFlag := true }
  | .setDelay x => { p with delay := ⟨v.get x⟩ }
  | .setSound x => { p with sound := ⟨v.get x⟩ }
  | .random _ _ => { p with generator := p.generator.afterByte }
  | _ => p

theorem seesSame_refl (p : Periphery) (i : Instruction) : i.SeesSame p p := by
  cases i with
  | skipIfHeld | skipIfFree | awaitKey | readDelay | random => rfl
  | _ => trivial

end Instruction

namespace Machine

variable {m n done : Machine} {i : Instruction} {p : Periphery}

/-! ## 2. Instructions and steps -/

/-- **An instruction does the same with a periphery it cannot tell from the machine's own.** -/
theorem execute_withPeriphery (h : i.SeesSame m.periphery p) :
    (m.withPeriphery p).execute i = (m.execute i).map fun done =>
      done.withPeriphery (i.peripheryAfter m.registers p) := by
  cases i with
  | ret =>
    have hstack : (m.withPeriphery p).stack = m.stack := rfl
    rw [execute, execute, hstack]
    cases m.stack.pop? with
    | none => rfl
    | some popped => rfl
  | call target =>
    have hstack : (m.withPeriphery p).stack = m.stack := rfl
    have hpc : (m.withPeriphery p).pc = m.pc := rfl
    rw [execute, execute, hstack, hpc]
    cases m.stack.push? m.pc with
    | none => rfl
    | some longer => rfl
  | awaitKey x =>
    have hkeypad : (m.withPeriphery p).keypad = m.keypad := h.symm
    rw [execute, execute, hkeypad]
    cases m.keypad.lowestHeld? with
    | none => rfl
    | some key => rfl
  | skipIfHeld x | skipIfFree x =>
    have hkeypad : (m.withPeriphery p).keypad = m.keypad := h.symm
    rw [execute, execute, hkeypad]
    rfl
  | readDelay x =>
    have hdelay : (m.withPeriphery p).delay = m.delay := h.symm
    rw [execute, execute, hdelay]
    rfl
  | random x mask =>
    have hgenerator : m.generator = p.generator := h
    rw [execute, execute, hgenerator]
    rfl
  | _ => rfl

/-- An instruction that is carried out makes of the periphery what it makes of any. -/
theorem periphery_of_execute (h : m.execute i = .ok done) :
    done.periphery = i.peripheryAfter m.registers m.periphery := by
  have hsame := execute_withPeriphery (Instruction.seesSame_refl m.periphery i)
  rw [withPeriphery_periphery, h] at hsame
  exact congrArg periphery (Except.ok.inj hsame)

/-- No instruction sees the word noted last. -/
theorem seesSame_opcode (p : Periphery) (word : UInt16) (i : Instruction) :
    i.SeesSame p { p with opcode := word } := by
  cases i with
  | skipIfHeld | skipIfFree | awaitKey | readDelay | random => rfl
  | _ => trivial

/-- **An instruction takes no notice of the word noted last**, and leaves it alone. -/
theorem execute_noting (h : m.execute i = .ok done) (word : UInt16) :
    (m.noting word).execute i = .ok (done.noting word) := by
  have hopcode : i.peripheryAfter m.registers { m.periphery with opcode := word } =
      { done.periphery with opcode := word } := by
    rw [periphery_of_execute h]
    cases i <;> rfl
  have hsame := execute_withPeriphery (seesSame_opcode m.periphery word i)
  rw [h, hopcode] at hsame
  exact hsame

/-- **A word is carried out.** Executing it makes `done` of the machine, and so does a step that
    fetches it, which besides notes the word. -/
structure CarriesOut (m : Machine) (word : UInt16) (done : Machine) : Prop where
  execute : m.execute (.decode word) = .ok done
  step : m.memory.fetch? m.pc = some word → m.step = (done.noting word, none)

theorem carriesOut_of_execute {word : UInt16} (hdecode : Instruction.decode word = i)
    (h : m.execute i = .ok done) : m.CarriesOut word done where
  execute := hdecode.symm ▸ h
  step hfetch := step_of_execute hfetch (execute_noting (hdecode.symm ▸ h) word)

theorem seesSame_noting (word : UInt16) (h : i.SeesSame m.periphery p) :
    i.SeesSame (m.noting word).periphery { p with opcode := word } := by
  cases i with
  | skipIfHeld | skipIfFree | awaitKey | readDelay | random => exact h
  | _ => trivial

/-- What the next step makes of a periphery. -/
def peripheryAfterStep (m : Machine) (p : Periphery) : Periphery :=
  match m.memory.fetch? m.pc with
  | none => p
  | some word => (Instruction.decode word).peripheryAfter m.registers { p with opcode := word }

theorem peripheryAfterStep_of_fetch_none (h : m.memory.fetch? m.pc = none) :
    m.peripheryAfterStep p = p := by
  rw [peripheryAfterStep, h]

theorem peripheryAfterStep_of_fetch {word : UInt16} (h : m.memory.fetch? m.pc = some word) :
    m.peripheryAfterStep p =
      (Instruction.decode word).peripheryAfter m.registers { p with opcode := word } := by
  rw [peripheryAfterStep, h]

/-- **What a step makes of two peripheries** is told by what its instruction makes of them. -/
theorem peripheryAfterStep_cases {P : Periphery → Periphery → Prop} {p q : Periphery}
    (hnone : P p q) (hsome : ∀ word, m.memory.fetch? m.pc = some word →
      P ((Instruction.decode word).peripheryAfter m.registers { p with opcode := word })
        ((Instruction.decode word).peripheryAfter m.registers { q with opcode := word })) :
    P (m.peripheryAfterStep p) (m.peripheryAfterStep q) := by
  cases hfetch : m.memory.fetch? m.pc with
  | none =>
    rw [peripheryAfterStep_of_fetch_none hfetch, peripheryAfterStep_of_fetch_none hfetch]
    exact hnone
  | some word =>
    rw [peripheryAfterStep_of_fetch hfetch, peripheryAfterStep_of_fetch hfetch]
    exact hsome word hfetch

/-- **A step does the same with a periphery that its instruction cannot tell from the machine's
    own.** -/
theorem step_withPeriphery (h : ∀ word, m.memory.fetch? m.pc = some word →
      (Instruction.decode word).SeesSame m.periphery p) :
    (m.withPeriphery p).step = (m.step.1.withPeriphery (m.peripheryAfterStep p), m.step.2) := by
  rcases m.step_cases with ⟨hfetch, hstep⟩ | ⟨word, fault, hfetch, hexecute, hstep⟩ |
    ⟨word, done, hfetch, hexecute, hstep⟩
  · have hfetch' : (m.withPeriphery p).memory.fetch? (m.withPeriphery p).pc = none := hfetch
    rw [hstep, step_of_fetch_none hfetch', peripheryAfterStep_of_fetch_none hfetch]
    rfl
  · have hfetch' : (m.withPeriphery p).memory.fetch? (m.withPeriphery p).pc = some word := hfetch
    have hexecute' := execute_withPeriphery (seesSame_noting word (h word hfetch))
    rw [hexecute] at hexecute'
    rw [hstep, step_of_execute_error hfetch' hexecute', peripheryAfterStep_of_fetch hfetch]
    -- the instructions that fault leave the periphery alone
    rcases execute_eq_error_iff.mp hexecute with ⟨hret, -, -⟩ | ⟨⟨target, hcall⟩, -, -⟩
    · rw [hret]
      rfl
    · rw [hcall]
      rfl
  · have hfetch' : (m.withPeriphery p).memory.fetch? (m.withPeriphery p).pc = some word := hfetch
    have hexecute' := execute_withPeriphery (seesSame_noting word (h word hfetch))
    rw [hexecute] at hexecute'
    rw [hstep, step_of_execute hfetch' hexecute', peripheryAfterStep_of_fetch hfetch]
    rfl

/-- **What a step makes of the machine's own periphery.** -/
theorem periphery_step (m : Machine) : m.step.1.periphery = m.peripheryAfterStep m.periphery := by
  have h := step_withPeriphery (m := m) fun word _ => Instruction.seesSame_refl m.periphery _
  rw [withPeriphery_periphery] at h
  exact congrArg (fun done => done.1.periphery) h

/-! ## 3. Machines that differ in one part -/

/-- The second machine is the first one, but for the timers. -/
def SameButTimers (m n : Machine) : Prop := n = { m with delay := n.delay, sound := n.sound }

/-- The second machine is the first one, but for the random source. -/
def SameButGenerator (m n : Machine) : Prop := n = { m with generator := n.generator }

theorem sameButTimers_refl (m : Machine) : m.SameButTimers m := rfl

/-- What a step makes of the other parts of a periphery does not depend on its timers. -/
theorem peripheryAfterStep_timers (m : Machine) (p : Periphery) (delay sound : Timer) :
    ∃ delay' sound', m.peripheryAfterStep { p with delay, sound } =
      { m.peripheryAfterStep p with delay := delay', sound := sound' } := by
  refine peripheryAfterStep_cases
    (P := fun q r => ∃ delay' sound', q = { r with delay := delay', sound := sound' })
    ⟨delay, sound, rfl⟩ fun word _ => ?_
  cases Instruction.decode word <;> exact ⟨_, _, rfl⟩

theorem peripheryAfterStep_generator (m : Machine) (p : Periphery) (generator : Generator) :
    ∃ generator', m.peripheryAfterStep { p with generator } =
      { m.peripheryAfterStep p with generator := generator' } := by
  refine peripheryAfterStep_cases
    (P := fun q r => ∃ generator', q = { r with generator := generator' })
    ⟨generator, rfl⟩ fun word _ => ?_
  cases Instruction.decode word <;> exact ⟨_, rfl⟩

/-- **Machines that differ in their timers only** do so behind a step that does not read the delay
    timer, and end it in the same way. -/
theorem step_sameButTimers (h : m.SameButTimers n) (hblind : ¬ m.Executes Word.ReadsDelay) :
    m.step.1.SameButTimers n.step.1 ∧ n.step.2 = m.step.2 := by
  have hn : n = m.withPeriphery { m.periphery with delay := n.delay, sound := n.sound } := h
  have hsees : ∀ word, m.memory.fetch? m.pc = some word →
      (Instruction.decode word).SeesSame m.periphery
        { m.periphery with delay := n.delay, sound := n.sound } := by
    intro word hfetch
    cases hdecode : Instruction.decode word with
    | readDelay x =>
      exact absurd ⟨word, hfetch, Instruction.decode_eq_readDelay_iff.mp ⟨x, hdecode⟩⟩ hblind
    | skipIfHeld | skipIfFree | awaitKey | random => rfl
    | _ => trivial
  obtain ⟨delay, sound, hafter⟩ := m.peripheryAfterStep_timers m.periphery n.delay n.sound
  rw [hn, step_withPeriphery hsees, hafter, ← periphery_step]
  exact ⟨rfl, rfl⟩

/-- **Machines that differ in their random source only** do so behind a step that does not draw from
    it, and end it in the same way. -/
theorem step_sameButGenerator (h : m.SameButGenerator n) (hdraws : ¬ m.Executes Word.Draws) :
    m.step.1.SameButGenerator n.step.1 ∧ n.step.2 = m.step.2 := by
  have hn : n = m.withPeriphery { m.periphery with generator := n.generator } := h
  have hsees : ∀ word, m.memory.fetch? m.pc = some word →
      (Instruction.decode word).SeesSame m.periphery
        { m.periphery with generator := n.generator } := by
    intro word hfetch
    cases hdecode : Instruction.decode word with
    | random x mask =>
      exact absurd ⟨word, hfetch, Instruction.decode_eq_random_iff.mp ⟨x, mask, hdecode⟩⟩ hdraws
    | skipIfHeld | skipIfFree | awaitKey | readDelay => rfl
    | _ => trivial
  obtain ⟨generator, hafter⟩ := m.peripheryAfterStep_generator m.periphery n.generator
  rw [hn, step_withPeriphery hsees, hafter, ← periphery_step]
  exact ⟨rfl, rfl⟩

theorem afterTouch_sameButGenerator (h : m.SameButGenerator n) (t : Touch) :
    (m.afterTouch t).SameButGenerator (n.afterTouch t) := by
  rw [h]
  cases t <;> rfl

end Machine

end Chip8
