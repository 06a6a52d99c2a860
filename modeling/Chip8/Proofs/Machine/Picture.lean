/-
  File:      Chip8/Proofs/Machine/Picture.lean
  Subject:   the picture a host shows is never out of date

  * `Command`: what a host may do with a machine, an instruction put in by hand included;
  * `Command.Paints`: the commands that may change the plane, told by the word they execute;
  * `drawFlag_afterCommands_iff`: the draw flag is up exactly if one of them came after the latest
    poll, or was up before and no poll came;
  * `Viewer`: a machine and the picture its host shows. A poll that hands over a picture replaces
    it;
  * `upToDate_afterAll`: while the flag is down the picture shown is the plane;
  * `picture_never_stale`: right behind a poll it is the plane, whatever happened.
-/
import Chip8.Proofs.Instruction.Encode
import Chip8.Proofs.Machine.Event
import Chip8.Proofs.Machine.Route

namespace Chip8

/-- What a host may do with a machine. -/
inductive Command where
  | event (event : Event)
  /-- The instruction of a word is executed without being fetched. -/
  | execute (word : UInt16)

/-- The host asks for a picture. -/
@[match_pattern] def Command.poll : Command := .event (.move (.touch .poll))

/-- The words of the two instructions that write the plane, `00E0` and `DXYN`. -/
def Word.Paints (word : UInt16) : Prop := word = 0x00E0 ∨ word.toNat / 4096 = 0xD

theorem Word.paints_iff (word : UInt16) :
    Word.Paints word ↔ (Instruction.decode word).paints = true := by
  rw [Word.Paints, ← Instruction.decode_eq_clear_iff, ← Instruction.decode_eq_draw_iff]
  constructor
  · rintro (h | ⟨x, y, height, h⟩)
    · rw [h]
      rfl
    · rw [h]
      rfl
  · intro h
    cases hdecode : Instruction.decode word with
    | clear => exact .inl rfl
    | draw x y height => exact .inr ⟨x, y, height, rfl⟩
    | _ =>
      rw [hdecode] at h
      cases h

/-- **The commands that paint**: `00E0` and `DXYN`, a reset, and a load that is not refused. -/
def Command.Paints (m : Machine) : Command → Prop
  | .event (.move .step) => ∃ word, m.memory.fetch? m.pc = some word ∧ Word.Paints word
  | .event (.move (.touch _)) => False
  | .event .reset => True
  | .event (.load program) => program.size ≤ Memory.programLimit
  | .execute word => Word.Paints word

namespace Machine

variable {m : Machine}

/-! ## 1. The plane and the draw flag -/

/-- The machine after the instruction of a word; one that faults leaves it as it was. -/
def afterExecute (m : Machine) (word : UInt16) : Machine :=
  match m.execute (.decode word) with
  | .ok done => done
  | .error _ => m

def afterCommand (m : Machine) : Command → Machine
  | .event event => m.afterEvent event
  | .execute word => m.afterExecute word

def afterCommands (m : Machine) (commands : List Command) : Machine :=
  commands.foldl afterCommand m

theorem afterExecute_of_paints {word : UInt16} (h : Word.Paints word) :
    (m.afterExecute word).drawFlag = true := by
  obtain ⟨done, hexecute, hflag⟩ :=
    execute_of_paints (m := m) ((Word.paints_iff word).mp h)
  rw [afterExecute, hexecute]
  exact hflag

theorem afterExecute_of_not_paints {word : UInt16} (h : ¬ Word.Paints word) :
    (m.afterExecute word).plane = m.plane ∧ (m.afterExecute word).drawFlag = m.drawFlag := by
  have hpaints : (Instruction.decode word).paints = false := by
    rw [Word.paints_iff] at h
    exact Bool.eq_false_iff.mpr h
  rw [afterExecute]
  cases hexecute : m.execute (.decode word) with
  | error fault => exact ⟨rfl, rfl⟩
  | ok done => exact execute_plane hexecute hpaints

/-- A step that fetches a word does what the word does. -/
theorem step_eq_afterExecute {word : UInt16} (hfetch : m.memory.fetch? m.pc = some word) :
    m.step.1 = (m.noting word).afterExecute word := by
  rw [afterExecute]
  cases hexecute : (m.noting word).execute (.decode word) with
  | error fault => rw [step_of_execute_error hfetch hexecute]
  | ok done => rw [step_of_execute hfetch hexecute]

/-- **A command that paints raises the draw flag.** -/
theorem afterCommand_of_paints {c : Command} (h : c.Paints m) :
    (m.afterCommand c).drawFlag = true := by
  match c, h with
  | .event (.move .step), ⟨word, hfetch, hword⟩ =>
    show m.step.1.drawFlag = true
    rw [step_eq_afterExecute hfetch]
    exact afterExecute_of_paints hword
  | .event .reset, _ => rfl
  | .event (.load program), h =>
    show (m.afterLoad program).drawFlag = true
    rw [afterLoad_of_fits h]
    rfl
  | .execute word, h => exact afterExecute_of_paints h

/-- **A command that does not paint leaves the plane alone**, and the draw flag unless it is a
    poll. -/
theorem afterCommand_of_not_paints {c : Command} (h : ¬ c.Paints m) :
    (m.afterCommand c).plane = m.plane ∧
      (c ≠ .poll → (m.afterCommand c).drawFlag = m.drawFlag) := by
  match c, h with
  | .event (.move .step), h =>
    show m.step.1.plane = m.plane ∧ (_ → m.step.1.drawFlag = m.drawFlag)
    cases hfetch : m.memory.fetch? m.pc with
    | none =>
      rw [step_of_fetch_none hfetch]
      exact ⟨rfl, fun _ => rfl⟩
    | some word =>
      have hword : ¬ Word.Paints word := fun hword => h ⟨word, hfetch, hword⟩
      obtain ⟨hplane, hflag⟩ := afterExecute_of_not_paints (m := m.noting word) hword
      rw [step_eq_afterExecute hfetch]
      exact ⟨hplane, fun _ => hflag⟩
  | .event (.move (.touch .poll)), _ => exact ⟨rfl, fun hne => absurd rfl hne⟩
  | .event (.move (.touch .tick)), _ => exact ⟨rfl, fun _ => rfl⟩
  | .event (.move (.touch (.press _))), _ => exact ⟨rfl, fun _ => rfl⟩
  | .event (.move (.touch (.release _))), _ => exact ⟨rfl, fun _ => rfl⟩
  | .event (.move (.touch (.inspect _))), _ => exact ⟨rfl, fun _ => rfl⟩
  | .event .reset, h => exact absurd trivial h
  | .event (.load program), h =>
    show (m.afterLoad program).plane = m.plane ∧ (_ → (m.afterLoad program).drawFlag = m.drawFlag)
    rw [afterLoad_of_too_large (Nat.lt_of_not_le h)]
    exact ⟨rfl, fun _ => rfl⟩
  | .execute word, h =>
    obtain ⟨hplane, hflag⟩ := afterExecute_of_not_paints (m := m) h
    exact ⟨hplane, fun _ => hflag⟩

theorem drawFlag_poll (m : Machine) : (m.afterCommand .poll).drawFlag = false := rfl

theorem drawFlag_afterCommand_iff (m : Machine) (c : Command) :
    (m.afterCommand c).drawFlag = true ↔ c.Paints m ∨ (m.drawFlag = true ∧ c ≠ .poll) := by
  by_cases hpaints : c.Paints m
  · simp only [hpaints, true_or, iff_true]
    exact afterCommand_of_paints hpaints
  · simp only [hpaints, false_or]
    by_cases hpoll : c = .poll
    · rw [hpoll, drawFlag_poll]
      simp
    · rw [(afterCommand_of_not_paints hpaints).2 hpoll]
      exact ⟨fun h => ⟨h, hpoll⟩, fun h => h.1⟩

/-- **The draw flag remembers**: it is up exactly if a command painted and no poll came behind it,
    or if it was up before and no poll came at all. -/
theorem drawFlag_afterCommands_iff (m : Machine) (commands : List Command) :
    (m.afterCommands commands).drawFlag = true ↔
      (m.drawFlag = true ∧ .poll ∉ commands) ∨
      ∃ earlier c later, commands = earlier ++ c :: later ∧ c.Paints (m.afterCommands earlier) ∧
        .poll ∉ later := by
  have h := foldl_raised_iff (fun _ => True) (fun n : Machine => n.drawFlag = true)
    (fun _ _ _ => trivial) (fun n c _ => drawFlag_afterCommand_iff n c) (s := m) trivial commands
  simp only [never_iff_not_mem] at h
  exact h

end Machine

/-! ## 2. The picture of a plane -/

namespace Plane

theorem render_blank (palette : Palette) :
    blank.render palette = Vector.replicate 2048 palette.background := by
  simp [blank, render]

/-- The cell of a picture that shows a pixel. -/
theorem getElem_render (p : Plane) (palette : Palette) (x : Fin 64) (y : Fin 32) :
    (p.render palette)[y.val * 64 + x.val] =
      if p.pixel x y then palette.foreground else palette.background := by
  have hcell : (cellAt x y).val = y.val * 64 + x.val := by
    show y.val % 32 * 64 + x.val % 64 = _
    omega
  simp only [render, Vector.getElem_map, pixel, Fin.getElem_fin, hcell]

end Plane

/-! ## 3. The picture of a host -/

/-- A machine and the picture its host shows. -/
structure Viewer where
  machine : Machine
  picture : Vector Colour 2048

namespace Viewer

variable (palette : Palette)

/-- A host in front of a new machine shows background. -/
def start (generator : Generator) : Viewer where
  machine := .switchedOn generator
  picture := Vector.replicate 2048 palette.background

/-- The picture shown after a command: a poll takes the one it is handed, if there is one. -/
def shown (v : Viewer) : Command → Vector Colour 2048
  | .poll => (v.machine.frame? palette).getD v.picture
  | _ => v.picture

def after (v : Viewer) (c : Command) : Viewer where
  machine := v.machine.afterCommand c
  picture := v.shown palette c

def afterAll (v : Viewer) (commands : List Command) : Viewer := commands.foldl (after palette) v

theorem machine_afterAll (v : Viewer) (commands : List Command) :
    (v.afterAll palette commands).machine = v.machine.afterCommands commands := by
  induction commands generalizing v with
  | nil => rfl
  | cons c rest ih => exact ih (v.after palette c)

/-- While no new picture is waiting, the one shown is the plane. -/
def UpToDate (v : Viewer) : Prop :=
  v.machine.drawFlag = false → v.picture = v.machine.render palette

variable {palette}

theorem shown_of_ne_poll {v : Viewer} {c : Command} (h : c ≠ .poll) :
    v.shown palette c = v.picture := by
  unfold shown
  split
  · exact absurd rfl h
  · rfl

theorem picture_after_poll {v : Viewer} (h : v.UpToDate palette) :
    (v.after palette .poll).picture = (v.after palette .poll).machine.render palette := by
  show (v.machine.frame? palette).getD v.picture = v.machine.render palette
  rw [Machine.frame?]
  cases hflag : v.machine.drawFlag with
  | true => rfl
  | false => exact h hflag

/-- **A command keeps the picture up to date.** -/
theorem upToDate_after {v : Viewer} (h : v.UpToDate palette) (c : Command) :
    (v.after palette c).UpToDate palette := by
  intro hdown
  by_cases hpoll : c = .poll
  · rw [hpoll]
    exact picture_after_poll h
  · -- the flag is down behind the command, so it did not paint and the flag was down before
    have hpaints : ¬ c.Paints v.machine := by
      intro hpaints
      have hup := Machine.afterCommand_of_paints hpaints
      have hdown' : (v.machine.afterCommand c).drawFlag = false := hdown
      rw [hup] at hdown'
      cases hdown'
    obtain ⟨hplane, hflag⟩ := Machine.afterCommand_of_not_paints hpaints
    show v.shown palette c = (v.machine.afterCommand c).plane.render palette
    rw [shown_of_ne_poll hpoll, hplane]
    exact h ((hflag hpoll).symm.trans hdown)

theorem upToDate_start (generator : Generator) : (start palette generator).UpToDate palette :=
  fun _ => (Plane.render_blank palette).symm

theorem upToDate_afterAll {v : Viewer} (h : v.UpToDate palette) (commands : List Command) :
    (v.afterAll palette commands).UpToDate palette := by
  induction commands generalizing v with
  | nil => exact h
  | cons c rest ih => exact ih (upToDate_after h c)

/-- **The host never shows a stale picture.** A host starts with a new machine and gives it any
    commands. Right behind a poll it shows the plane: every cell has the colour of its pixel. And a
    poll hands over a picture exactly if a command painted since the poll before it. -/
theorem picture_never_stale (palette : Palette) (generator : Generator)
    (commands : List Command) :
    let before := (start palette generator).afterAll palette commands
    let behind := before.after palette .poll
    behind.picture = behind.machine.render palette ∧
    (∀ (x : Fin 64) (y : Fin 32), behind.picture[y.val * 64 + x.val] =
      if behind.machine.plane.pixel x y then palette.foreground else palette.background) ∧
    ((before.machine.frame? palette).isSome ↔
      ∃ earlier c later, commands = earlier ++ c :: later ∧
        c.Paints ((start palette generator).afterAll palette earlier).machine ∧
        .poll ∉ later) := by
  intro before behind
  have hpicture : behind.picture = behind.machine.render palette :=
    picture_after_poll (upToDate_afterAll (upToDate_start generator) commands)
  refine ⟨hpicture, fun x y => ?_, ?_⟩
  · rw [hpicture]
    exact Plane.getElem_render behind.machine.plane palette x y
  · have hframe : (before.machine.frame? palette).isSome ↔ before.machine.drawFlag = true := by
      rw [Machine.frame?]
      cases before.machine.drawFlag <;> simp
    have hflag := Machine.drawFlag_afterCommands_iff (Machine.switchedOn generator) commands
    rw [hframe, machine_afterAll]
    simp only [machine_afterAll]
    refine hflag.trans ⟨fun h => h.resolve_left fun hup => ?_, .inr⟩
    exact Bool.false_ne_true hup.1

end Viewer

end Chip8
