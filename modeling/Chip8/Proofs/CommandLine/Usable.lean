/-
  File:      Chip8/Proofs/CommandLine/Usable.lean
  Subject:   every command line that is accepted gives settings a session can use

  * `Draft.Usable`: whatever a draft holds lies within its bounds;
  * `usable_of_fill`, `usable_of_read`: a value that is looked at keeps this, and so does every
    argument; `usable_of_foldlM` for a whole command line;
  * `usable_of_parse`: so clock, scale and colours of the settings are such that scheduler and
    window take them as they are.
-/
import Chip8.CommandLine
import Chip8.Proofs.Scheduler.Load
import Chip8.Proofs.Settings.Value

namespace Chip8.CommandLine

/-! ## 1. Computations that may stop -/

section Stopping

variable {ε α β : Type}

theorem bind_eq_ok_iff {x : Except ε α} {f : α → Except ε β} {b : β} :
    (x >>= f) = .ok b ↔ ∃ a, x = .ok a ∧ f a = .ok b := by
  cases x with
  | error e => exact ⟨nofun, nofun⟩
  | ok a => exact ⟨fun h => ⟨a, rfl, h⟩, fun ⟨_, e, h⟩ => Except.ok.inj e ▸ h⟩

theorem map_eq_ok_iff {x : Except ε α} {f : α → β} {b : β} :
    x.map f = .ok b ↔ ∃ a, x = .ok a ∧ f a = b := by
  cases x with
  | error e => exact ⟨nofun, nofun⟩
  | ok a => exact ⟨fun h => ⟨a, rfl, Except.ok.inj h⟩, fun ⟨_, e, h⟩ => Except.ok.inj e ▸ h ▸ rfl⟩

end Stopping

/-! ## 2. Drafts -/

/-- **Whatever a draft holds lies within its bounds.** -/
structure Draft.Usable (d : Draft) : Prop where
  clock : ∀ hz, d.clock = some hz → 1 ≤ hz.toNat ∧ hz.toNat ≤ 1000000000
  scale : ∀ scale, d.scale = some scale → scale ∈ scales
  foreground : ∀ colour, d.foreground = some colour → colour.toNat ≤ 0xFFFFFF
  background : ∀ colour, d.background = some colour → colour.toNat ≤ 0xFFFFFF

namespace Draft

variable {d filled : Draft} {text : String} {slot : Slot} {settings : Settings}

theorem usable_blank : blank.Usable := ⟨nofun, nofun, nofun, nofun⟩

/-- **A slot that is filled** holds what was read for it. -/
theorem usable_of_fill (hd : d.Usable) (h : d.fill text slot = .ok filled) : filled.Usable := by
  cases slot with
  | rom =>
    cases h
    exact ⟨hd.clock, hd.scale, hd.foreground, hd.background⟩
  | clock =>
    obtain ⟨hz, hread, rfl⟩ := map_eq_ok_iff.mp h
    refine ⟨fun other hother => ?_, hd.scale, hd.foreground, hd.background⟩
    cases hother
    exact Settings.bounds_of_readClock hread
  | scale =>
    obtain ⟨scale, hread, rfl⟩ := map_eq_ok_iff.mp h
    refine ⟨hd.clock, fun other hother => ?_, hd.foreground, hd.background⟩
    cases hother
    exact Settings.mem_of_readScale hread
  | foreground =>
    obtain ⟨colour, hread, rfl⟩ := map_eq_ok_iff.mp h
    refine ⟨hd.clock, hd.scale, fun other hother => ?_, hd.background⟩
    cases hother
    exact Settings.le_of_readColour hread
  | background =>
    obtain ⟨colour, hread, rfl⟩ := map_eq_ok_iff.mp h
    refine ⟨hd.clock, hd.scale, hd.foreground, fun other hother => ?_⟩
    cases hother
    exact Settings.le_of_readColour hread

theorem usable_switchOn (hd : d.Usable) (flag : Flag) : (d.switchOn flag).Usable := by
  cases flag <;> exact ⟨hd.clock, hd.scale, hd.foreground, hd.background⟩

end Draft

/-! ## 3. Arguments -/

namespace Reader

variable {r s : Reader} {d given : Draft} {text : String} {slot : Slot}

theorem usable_of_give (hd : d.Usable) (h : give d slot text = .ok given) : given.Usable := by
  unfold give at h
  split at h
  · cases h
  · split at h
    · cases h
    · split at h
      · rename_i hfill
        cases h
        exact Draft.usable_of_fill hd hfill
      · cases h

theorem usable_of_settle (hr : r.draft.Usable) (h : r.settle = .ok s) : s.draft.Usable := by
  unfold settle at h
  split at h
  · cases h
    exact hr
  · cases h
  · obtain ⟨given, hgive, h⟩ := bind_eq_ok_iff.mp h
    cases h
    exact usable_of_give hr hgive

theorem usable_of_readName (hr : r.draft.Usable) {meaning : Meaning}
    (h : r.readName meaning = .ok s) : s.draft.Usable := by
  cases meaning with
  | slot slot =>
    obtain ⟨settled, hsettle, h⟩ := bind_eq_ok_iff.mp h
    have hsettled : settled.draft.Usable := usable_of_settle hr hsettle
    cases h
    exact hsettled
  | flag flag =>
    obtain ⟨settled, hsettle, h⟩ := bind_eq_ok_iff.mp h
    split at h
    · cases h
    · cases h
      exact Draft.usable_switchOn (usable_of_settle hr hsettle) flag
  | help | version =>
    obtain ⟨settled, -, h⟩ := bind_eq_ok_iff.mp h
    cases h

theorem usable_of_readNameWithValue (hr : r.draft.Usable) {meaning : Meaning}
    (h : r.readNameWithValue text meaning = .ok s) : s.draft.Usable := by
  cases meaning with
  | slot slot =>
    obtain ⟨settled, hsettle, h⟩ := bind_eq_ok_iff.mp h
    obtain ⟨given, hgive, h⟩ := bind_eq_ok_iff.mp h
    cases h
    exact usable_of_give (usable_of_settle hr hsettle) hgive
  | flag | help | version => cases h

theorem usable_of_readRom (hr : r.draft.Usable) (h : r.readRom text = .ok s) :
    s.draft.Usable := by
  unfold readRom at h
  split at h
  · cases h
  · obtain ⟨settled, hsettle, h⟩ := bind_eq_ok_iff.mp h
    have hsettled : settled.draft.Usable := usable_of_settle hr hsettle
    cases h
    exact hsettled

theorem usable_of_readToken (hr : r.draft.Usable) {token : Token}
    (h : r.readToken token = .ok s) : s.draft.Usable := by
  unfold readToken at h
  split at h
  · cases h
    exact hr
  · split at h
    · cases h
    · exact usable_of_readName hr h
    · exact usable_of_readNameWithValue hr h
  · exact usable_of_readName hr h
  · exact usable_of_readName hr h
  · cases h
  · unfold readPlain at h
    split at h
    · cases h
      exact hr
    · exact usable_of_readRom hr h

/-- **An argument keeps a draft usable.** -/
theorem usable_of_read (hr : r.draft.Usable) (h : r.read text = .ok s) : s.draft.Usable := by
  unfold read at h
  split at h
  · exact usable_of_readRom hr h
  · exact usable_of_readToken hr h

/-- **So does a command line.** -/
theorem usable_of_foldlM (hr : r.draft.Usable) {arguments : List String}
    (h : arguments.foldlM read r = .ok s) : s.draft.Usable := by
  induction arguments generalizing r with
  | nil =>
    cases h
    exact hr
  | cons first rest ih =>
    obtain ⟨next, hfirst, hrest⟩ := bind_eq_ok_iff.mp h
    exact ih (usable_of_read hr hfirst) hrest

end Reader

/-! ## 4. Settings -/

theorem factor_ofFactor {scale : Nat} (h : scale ∈ scales) :
    (WindowScale.ofFactor scale).factor = scale := by
  simp only [scales, List.mem_cons, List.not_mem_nil, or_false] at h
  rcases h with rfl | rfl | rfl | rfl | rfl | rfl <;> rfl

/-- A value that may be missing has a property if it has it when it is there and its stand-in has
    it. -/
theorem getD_of_all {α : Type} {P : α → Prop} {given : Option α} {standard : α}
    (hgiven : ∀ a, given = some a → P a) (hstandard : P standard) : P (given.getD standard) := by
  cases given with
  | none => exact hstandard
  | some a => exact hgiven a rfl

/-- The settings of a command line come from a draft that its arguments have left usable. -/
theorem draft_of_parse {arguments : List String} {settings : Settings}
    (h : parse arguments = .ok settings) :
    ∃ d : Draft, d.Usable ∧ d.settings? = some settings := by
  obtain ⟨last, hlast, h⟩ := bind_eq_ok_iff.mp h
  obtain ⟨done, hdone, h⟩ := bind_eq_ok_iff.mp h
  have husable := Reader.usable_of_foldlM (r := .start) Draft.usable_blank hlast
  refine ⟨done.draft, Reader.usable_of_settle husable hdone, ?_⟩
  split at h
  · cases h
  · rename_i hsettings
    cases h
    exact hsettings

/-- **Every command line that is accepted gives settings a session can use.** The clock is one that
    the scheduler takes as it is, the scale one of six that a window has, the window's being that
    very one, and the colours have their top eight bits zero. -/
theorem usable_of_parse {arguments : List String} {settings : Settings}
    (h : parse arguments = .ok settings) :
    (1 ≤ settings.clock.toNat ∧ settings.clock.toNat ≤ 1000000000) ∧
    (∀ machine sink,
      (Scheduler.ofMachine machine settings.clock sink).controls.clock = settings.clock) ∧
    settings.scale ∈ [1, 2, 4, 8, 16, 32] ∧
    (WindowScale.ofFactor settings.scale).factor = settings.scale ∧
    (WindowScale.ofFactor settings.scale = .x16 ↔ settings.scale = 16) ∧
    settings.palette.foreground.toNat ≤ 0xFFFFFF ∧
    settings.palette.background.toNat ≤ 0xFFFFFF := by
  obtain ⟨d, husable, hsettings⟩ := draft_of_parse h
  obtain ⟨rom, -, rfl⟩ := Option.map_eq_some_iff.mp hsettings
  have hclock : 1 ≤ (d.clock.getD defaultClock).toNat ∧
      (d.clock.getD defaultClock).toNat ≤ 1000000000 :=
    getD_of_all (P := fun hz : UInt32 => 1 ≤ hz.toNat ∧ hz.toNat ≤ 1000000000) husable.clock
      (by decide)
  have hscale : d.scale.getD defaultScale ∈ scales := getD_of_all husable.scale (by decide)
  have hforeground : (d.foreground.getD Palette.default.foreground).toNat ≤ 0xFFFFFF :=
    getD_of_all (P := fun colour : Colour => colour.toNat ≤ 0xFFFFFF) husable.foreground
      (by decide)
  have hbackground : (d.background.getD Palette.default.background).toNat ≤ 0xFFFFFF :=
    getD_of_all (P := fun colour : Colour => colour.toNat ≤ 0xFFFFFF) husable.background
      (by decide)
  have hfactor := factor_ofFactor hscale
  refine ⟨hclock, fun machine sink => ?_, hscale, hfactor, ⟨fun hwindow => ?_, fun hsixteen => ?_⟩,
    hforeground, hbackground⟩
  · exact clampClock_eq (UInt32.le_iff_toNat_le.mpr hclock.1) (UInt32.le_iff_toNat_le.mpr hclock.2)
  · exact hfactor.symm.trans (congrArg WindowScale.factor hwindow)
  · exact congrArg WindowScale.ofFactor hsixteen

/-- A command line with every kind of option. -/
def everyOption : List String :=
  ["--clock-hz", "500", "--scale=8", "pong.ch8", "--foreground", "#33FF66", "--mute"]

theorem parse_everyOption :
    parse everyOption = .ok ⟨"pong.ch8", 500, 8, ⟨0x33FF66, 0⟩, true, false⟩ := by
  cbv

theorem usable_everyOption :
    parse everyOption = .ok ⟨"pong.ch8", 500, 8, ⟨0x33FF66, 0⟩, true, false⟩ ∧
    (∀ machine sink, (Scheduler.ofMachine machine 500 sink).controls.clock = 500) ∧
    (WindowScale.ofFactor 8).factor = 8 := by
  obtain ⟨-, hclock, -, hfactor, -⟩ := usable_of_parse parse_everyOption
  exact ⟨parse_everyOption, hclock, hfactor⟩

end Chip8.CommandLine
