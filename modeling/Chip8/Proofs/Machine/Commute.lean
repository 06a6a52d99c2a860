/-
  File:      Chip8/Proofs/Machine/Commute.lean
  Subject:   in which order the host's part and the steps come does not matter

  * `Answer`, `answer`: what the host is told by a touch;
  * `Touch.Disturbs`: the words that a touch must not be exchanged with;
    `step_afterTouch`, `answer_step`: with all others it may;
  * `Touch.Undoes`, `Touch.Forestalls`: the touches that must not be exchanged with each other;
    `afterTouch_comm`, `answer_afterTouch`: all others may;
  * `touches_commute`: this together.

  A touch changes the periphery of a machine and nothing else. So a step does the same before and
  behind it if its instruction sees no difference between the two peripheries, and the touch does
  the same before and behind the step if the instruction leaves what the touch changes alone.
-/
import Chip8.Proofs.Machine.Footprint
import Chip8.Snapshot

namespace Chip8

/-! ## 1. What must keep its order -/

/-- What the host is told by a touch. -/
inductive Answer where
  | nothing
  /-- Whether the sound timer ran out. -/
  | tone (due : Bool)
  /-- The picture not seen yet, if there is one. -/
  | picture (frame : Option (Vector Colour 2048))
  | state (snapshot : Snapshot)

namespace Touch

/-- **The words whose step must not be exchanged with a touch**: a tick with `FX07`, `FX15` and
    `FX18`, a key with `EX9E`, `EXA1` and `FX0A`, a poll with `00E0` and `DXYN`. A look at the state
    must not be exchanged with any. -/
def Disturbs (word : UInt16) : Touch → Prop
  | .tick => Word.ReadsDelay word ∨ Word.EndsIn 0xF 0x15 word ∨ Word.EndsIn 0xF 0x18 word
  | .press _ => Word.EndsIn 0xE 0x9E word ∨ Word.EndsIn 0xE 0xA1 word ∨ Word.EndsIn 0xF 0x0A word
  | .release _ => Word.EndsIn 0xE 0x9E word ∨ Word.EndsIn 0xE 0xA1 word ∨ Word.EndsIn 0xF 0x0A word
  | .poll => Word.Paints word
  | .inspect _ => True

/-- Two touches press and release the same key. -/
def Undoes : Touch → Touch → Prop
  | .press a, .release b => Nibble.ofByte a = Nibble.ofByte b
  | .release a, .press b => Nibble.ofByte a = Nibble.ofByte b
  | _, _ => False

/-- The first touch takes away what the second one would have told: a tick may be the one that ends
    the tone, a poll takes the picture, and the state shows the timers. -/
def Forestalls : Touch → Touch → Prop
  | .tick, .tick => True
  | .poll, .poll => True
  | .tick, .inspect _ => True
  | _, _ => False

end Touch

/-! ## 2. Touches and peripheries -/

/-- The periphery after a touch. -/
def Periphery.afterTouch (p : Periphery) : Touch → Periphery
  | .tick => { p with delay := p.delay.tick, sound := p.sound.tick }
  | .press key => { p with keypad := p.keypad.press key }
  | .release key => { p with keypad := p.keypad.release key }
  | .poll => { p with drawFlag := false }
  | .inspect _ => p

namespace Instruction

variable {word : UInt16} {t : Touch} {v : Registers} {p : Periphery}

/-- An instruction sees no difference that a touch makes, unless the touch disturbs it. -/
theorem seesSame_afterTouch (h : ¬ t.Disturbs word) :
    (decode word).SeesSame p (p.afterTouch t) := by
  cases t with
  | tick =>
    cases hdecode : decode word with
    | readDelay x => exact absurd (.inl (decode_eq_readDelay_iff.mp ⟨x, hdecode⟩)) h
    | skipIfHeld | skipIfFree | awaitKey | random => rfl
    | _ => trivial
  | press key | release key =>
    cases hdecode : decode word with
    | skipIfHeld x => exact absurd (.inl (fields_of_decode hdecode rfl).1) h
    | skipIfFree x => exact absurd (.inr (.inl (fields_of_decode hdecode rfl).1)) h
    | awaitKey x => exact absurd (.inr (.inr (fields_of_decode hdecode rfl).1)) h
    | readDelay | random => rfl
    | _ => trivial
  | poll =>
    cases decode word with
    | skipIfHeld | skipIfFree | awaitKey | readDelay | random => rfl
    | _ => trivial
  | inspect clock => exact absurd trivial h

/-- An instruction leaves alone what a touch changes, unless the touch disturbs it. -/
theorem peripheryAfter_afterTouch (h : ¬ t.Disturbs word) :
    (decode word).peripheryAfter v (p.afterTouch t) =
      ((decode word).peripheryAfter v p).afterTouch t := by
  cases t with
  | tick =>
    cases hdecode : decode word with
    | setDelay x => exact absurd (.inr (.inl (fields_of_decode hdecode rfl).1)) h
    | setSound x => exact absurd (.inr (.inr (fields_of_decode hdecode rfl).1)) h
    | _ => rfl
  | press key | release key => cases decode word <;> rfl
  | poll =>
    cases hdecode : decode word with
    | clear => exact absurd (.inl (decode_eq_clear_iff.mp hdecode)) h
    | draw x y height => exact absurd (.inr (decode_eq_draw_iff.mp ⟨x, y, height, hdecode⟩)) h
    | _ => rfl
  | inspect clock => exact absurd trivial h

end Instruction

namespace Machine

variable {m : Machine} {palette : Palette} {t u : Touch}

theorem afterTouch_eq_withPeriphery (m : Machine) (t : Touch) :
    m.afterTouch t = m.withPeriphery (m.periphery.afterTouch t) := by
  cases t <;> rfl

/-- What the host is told by a touch, if it shows pictures in these colours. -/
def answer (m : Machine) (palette : Palette) : Touch → Answer
  | .tick => .tone m.toneDue
  | .press _ => .nothing
  | .release _ => .nothing
  | .poll => .picture (m.frame? palette)
  | .inspect clock => .state (m.snapshot clock)

/-! ## 3. Touches and steps -/

theorem peripheryAfterStep_afterTouch (h : ¬ m.Executes (t.Disturbs ·)) (p : Periphery) :
    m.peripheryAfterStep (p.afterTouch t) = (m.peripheryAfterStep p).afterTouch t := by
  refine peripheryAfterStep_cases (P := fun q r => q = r.afterTouch t) rfl fun word hfetch => ?_
  have hword : ¬ t.Disturbs word := fun hdisturbs => h ⟨word, hfetch, hdisturbs⟩
  rw [← Instruction.peripheryAfter_afterTouch hword]
  cases t <;> rfl

/-- **A step and a touch that does not disturb it may be exchanged**, also if the step faults. -/
theorem step_afterTouch (h : ¬ m.Executes (t.Disturbs ·)) :
    (m.afterTouch t).step = (m.step.1.afterTouch t, m.step.2) := by
  have hsees : ∀ word, m.memory.fetch? m.pc = some word →
      (Instruction.decode word).SeesSame m.periphery (m.periphery.afterTouch t) :=
    fun word hfetch => Instruction.seesSame_afterTouch fun hword => h ⟨word, hfetch, hword⟩
  rw [afterTouch_eq_withPeriphery, step_withPeriphery hsees, peripheryAfterStep_afterTouch h,
    ← periphery_step, afterTouch_eq_withPeriphery]

/-- **A step does not change what a touch tells**, unless the touch disturbs it. -/
theorem answer_step (h : ¬ m.Executes (t.Disturbs ·)) :
    m.step.1.answer palette t = m.answer palette t := by
  cases t with
  | press key | release key => rfl
  | tick =>
    have hsound : Part.Same m m.step.1 .sound := by
      refine step_same nofun fun word hfetch howns => ?_
      cases howns with
      | sound hkind => exact h ⟨word, hfetch, .inr (.inr hkind)⟩
    exact congrArg (fun sound => Answer.tone sound.expires) hsound
  | poll =>
    have hplane : Part.Same m m.step.1 .plane := by
      refine step_same nofun fun word hfetch howns => ?_
      cases howns with
      | plane hpaints => exact h ⟨word, hfetch, hpaints⟩
    have hflag : Part.Same m m.step.1 .drawFlag := by
      refine step_same nofun fun word hfetch howns => ?_
      cases howns with
      | drawFlag hpaints => exact h ⟨word, hfetch, hpaints⟩
    simp only [Part.Same] at hplane hflag
    rw [answer, answer, frame?, frame?, render, render, hplane, hflag]
  | inspect clock =>
    have hnone : m.memory.fetch? m.pc = none := by
      cases hfetch : m.memory.fetch? m.pc with
      | none => rfl
      | some word => exact absurd ⟨word, hfetch, trivial⟩ h
    rw [step_of_fetch_none hnone]

/-! ## 4. Touches and touches -/

/-- **Two touches may be exchanged**, unless one presses the key that the other releases. -/
theorem afterTouch_comm (m : Machine) (h : ¬ t.Undoes u) :
    (m.afterTouch t).afterTouch u = (m.afterTouch u).afterTouch t := by
  cases t with
  | press a =>
    cases u with
    | press b => exact congrArg (fun pad => { m with keypad := pad }) (m.keypad.press_press a b)
    | release b => exact congrArg (fun pad => { m with keypad := pad }) (m.keypad.press_release h)
    | _ => rfl
  | release a =>
    cases u with
    | press b =>
      have hne : Nibble.ofByte b ≠ Nibble.ofByte a := fun e => h e.symm
      exact congrArg (fun pad => { m with keypad := pad }) (m.keypad.press_release hne).symm
    | release b =>
      exact congrArg (fun pad => { m with keypad := pad }) (m.keypad.release_release a b)
    | _ => rfl
  | _ => cases u <;> rfl

/-- **A touch does not change what another one tells**, unless it forestalls it. -/
theorem answer_afterTouch (h : ¬ t.Forestalls u) :
    (m.afterTouch t).answer palette u = m.answer palette u := by
  cases t with
  | tick =>
    cases u with
    | tick | inspect => exact absurd trivial h
    | _ => rfl
  | poll =>
    cases u with
    | poll => exact absurd trivial h
    | _ => rfl
  | press | release | inspect => cases u <;> rfl

/-- **Operations that have nothing to do with each other may be exchanged.** A touch and a step, if
    the touch does not disturb the word of the step: the machine is the same behind both, the step
    ends in the same fault or in none, and the touch tells the same. And two touches, unless they
    press and release one key: the machine is the same behind both, and each tells the same unless
    the other forestalls it. -/
theorem touches_commute (m : Machine) (palette : Palette) (t u : Touch) :
    (¬ m.Executes (t.Disturbs ·) →
      (m.afterTouch t).step = (m.step.1.afterTouch t, m.step.2) ∧
      m.step.1.answer palette t = m.answer palette t) ∧
    (¬ t.Undoes u → (m.afterTouch t).afterTouch u = (m.afterTouch u).afterTouch t) ∧
    (¬ t.Forestalls u → (m.afterTouch t).answer palette u = m.answer palette u) := by
  refine ⟨fun h => ⟨step_afterTouch h, answer_step h⟩, m.afterTouch_comm, answer_afterTouch⟩

/-- A machine in front of a return with no call open, its tone about to end. -/
def ringing : Machine := { withBytes [(0x201, 0xEE)] with sound := ⟨1⟩ }

/-- Its step is the same fault before and behind a tick, and the tick calls for the tone before and
    behind the step. -/
theorem ringing_either_order :
    ¬ ringing.Executes (Touch.tick.Disturbs ·) ∧
      (ringing.afterTouch .tick).step =
        (ringing.step.1.afterTouch .tick, some (.stackUnderflow 0x200)) ∧
      ringing.step.1.answer .default .tick = .tone true := by
  have hfetch : ringing.memory.fetch? ringing.pc = some 0x00EE := by decide +kernel
  have hfault : ringing.step.2 = some (.stackUnderflow 0x200) := by decide +kernel
  have hexecutes : ¬ ringing.Executes (Touch.tick.Disturbs ·) := by
    rintro ⟨word, hword, hdisturbs⟩
    rw [hfetch] at hword
    cases hword
    rcases hdisturbs with hreads | hsets | hsets
    · exact absurd hreads.1 (by decide)
    · exact absurd hsets (by decide)
    · exact absurd hsets (by decide)
  obtain ⟨hstep, hanswer⟩ := (touches_commute ringing .default .tick .tick).1 hexecutes
  rw [hfault] at hstep
  exact ⟨hexecutes, hstep, hanswer⟩

end Machine

end Chip8
