/-
  File:      Chip8/Proofs/Machine/Randomness.lean
  Subject:   what a machine does with the words of its random source

  * `Demand`, `Event.demand?`: what an event asks of the random source, a byte or a new key;
  * `generator_afterEvent`, `generator_afterEvents`: the random source changes by what it is asked
    for, and by nothing else;
  * `demands`, `drawn`: what a run asks for, and the bytes it draws; `drawn_eq`: the second is told
    by the first;
  * `Renewed`, `exists_renewed`: runs up to a key, and every run has a latest one;
  * `random_words_accounted`: since the latest key, byte after byte is the low byte of word after
    word.
-/
import Chip8.Proofs.Machine.Footprint
import Chip8.Proofs.Machine.Load

namespace Chip8

/-! ## 1. Demands -/

/-- What may be asked of a random source. -/
inductive Demand where
  /-- One word, of which the low byte is used. -/
  | byte
  /-- Eight words as a new key. -/
  | key
  deriving DecidableEq

/-- **What an event asks of the random source.** `CXNN` asks for a byte, a reset and a load that is
    not refused for a key, and nothing else for anything. -/
def Event.demand? (m : Machine) : Event → Option Demand
  | .move .step =>
    match m.memory.fetch? m.pc with
    | some word => if Word.Draws word then some .byte else none
    | none => none
  | .move (.touch _) => none
  | .reset => some .key
  | .load program => if program.size ≤ Memory.programLimit then some .key else none

namespace Generator

variable {g : Generator} {demands : List Demand}

/-- The random source behind a demand. -/
def after (g : Generator) : Demand → Generator
  | .byte => g.afterByte
  | .key => g.rekeyed

def afterAll (g : Generator) (demands : List Demand) : Generator := demands.foldl after g

/-- The bytes that demands get. -/
def bytes (g : Generator) : List Demand → List UInt8
  | [] => []
  | .byte :: rest => g.nextByte :: g.afterByte.bytes rest
  | .key :: rest => g.rekeyed.bytes rest

/-- **Demands for bytes use up one word each.** -/
theorem afterAll_of_bytes (h : .key ∉ demands) :
    g.afterAll demands = ⟨g.key, g.used + demands.length⟩ := by
  induction demands generalizing g with
  | nil => rfl
  | cons demand rest ih =>
    rw [List.mem_cons, not_or] at h
    obtain ⟨hfirst, hrest⟩ := h
    cases demand with
    | key => exact absurd rfl hfirst
    | byte =>
      show g.afterByte.afterAll rest = _
      rw [ih hrest, List.length_cons, afterByte, Nat.add_assoc, Nat.add_comm 1]

/-- **Bytes are the low bytes of the words that follow.** -/
theorem bytes_of_bytes (h : .key ∉ demands) :
    g.bytes demands = (List.range demands.length).map fun k => (g.wordAhead k).toUInt8 := by
  induction demands generalizing g with
  | nil => rfl
  | cons demand rest ih =>
    rw [List.mem_cons, not_or] at h
    obtain ⟨hfirst, hrest⟩ := h
    cases demand with
    | key => exact absurd rfl hfirst
    | byte =>
      have hahead (k : Nat) : g.afterByte.wordAhead k = g.wordAhead (k + 1) := by
        rw [wordAhead, wordAhead, afterByte, Nat.add_assoc, Nat.add_comm 1]
      rw [bytes, ih hrest, List.length_cons, List.range_succ_eq_map, List.map_cons, List.map_map]
      simp only [hahead]
      rfl

end Generator

namespace Machine

variable {m : Machine} {word : UInt16}

/-! ## 2. Runs -/

/-- What the events of a run ask of the random source, one after the other. -/
def demands (m : Machine) : List Event → List Demand
  | [] => []
  | event :: rest => (event.demand? m).toList ++ (m.afterEvent event).demands rest

/-- The bytes that the steps of a run draw, one after the other. -/
def drawn (m : Machine) : List Event → List UInt8
  | [] => []
  | event :: rest =>
    if event.demand? m = some .byte then m.generator.nextByte :: (m.afterEvent event).drawn rest
    else (m.afterEvent event).drawn rest

/-- A step of `CXNN` puts the next byte in VX, as far as its mask goes. -/
theorem step_of_draws (hfetch : m.memory.fetch? m.pc = some word) (hdraws : Word.Draws word) :
    m.step =
      ({ (m.noting word).setV (Word.x word) (Word.constant word &&& m.generator.nextByte) with
        generator := m.generator.afterByte }.next, none) := by
  have hgroup : word.toNat / 4096 = 0xC := hdraws
  have hdecode : Instruction.decode word = .random (Word.x word) (Word.constant word) := by
    simp only [Instruction.decode, Word.val_group, hgroup]
  refine step_of_execute hfetch ?_
  rw [hdecode]
  rfl

theorem generator_step (m : Machine) :
    m.step.1.generator =
      (((Event.move .step).demand? m).map m.generator.after).getD m.generator := by
  rw [Event.demand?]
  cases hfetch : m.memory.fetch? m.pc with
  | none =>
    rw [step_of_fetch_none hfetch]
    rfl
  | some word =>
    by_cases hdraws : Word.Draws word
    · rw [step_of_draws hfetch hdraws]
      simp only [hdraws, if_true]
      rfl
    · have hsame : Part.Same m m.step.1 .generator := by
        refine step_same nofun fun other hother howns => ?_
        rw [hfetch] at hother
        cases hother
        cases howns with
        | generator hkind => exact hdraws hkind
      simp only [hdraws, if_false]
      exact hsame

/-- **An event changes the random source by what it asks for.** -/
theorem generator_afterEvent (m : Machine) (event : Event) :
    (m.afterEvent event).generator =
      ((event.demand? m).map m.generator.after).getD m.generator := by
  cases event with
  | move move =>
    cases move with
    | step => exact m.generator_step
    | touch t => cases t <;> rfl
  | reset => rfl
  | load program =>
    show (m.afterLoad program).generator = _
    rw [Event.demand?]
    by_cases hfits : program.size ≤ Memory.programLimit
    · rw [afterLoad_of_fits hfits, if_pos hfits]
      rfl
    · rw [afterLoad_of_too_large (by omega), if_neg hfits]
      rfl

/-- **So does a run.** -/
theorem generator_afterEvents (m : Machine) (events : List Event) :
    (m.afterEvents events).generator = m.generator.afterAll (m.demands events) := by
  induction events generalizing m with
  | nil => rfl
  | cons event rest ih =>
    rw [afterEvents_cons, ih, generator_afterEvent, demands]
    cases event.demand? m with
    | none => rfl
    | some demand => rfl

/-- **The bytes a run draws** are told by the random source and by what is asked of it. -/
theorem drawn_eq (m : Machine) (events : List Event) :
    m.drawn events = m.generator.bytes (m.demands events) := by
  induction events generalizing m with
  | nil => rfl
  | cons event rest ih =>
    rw [drawn, demands, ih, generator_afterEvent]
    cases event.demand? m with
    | none => rfl
    | some demand =>
      cases demand with
      | byte => rfl
      | key => rfl

/-! ## 3. The words since the latest key -/

/-- Nothing has happened yet, or the latest event has given the random source a new key. -/
def Renewed (m : Machine) (events : List Event) : Prop :=
  events = [] ∨ ∃ before event, events = before ++ [event] ∧
    event.demand? (m.afterEvents before) = some .key

/-- **In every run there is a latest key**, be it the first one. -/
theorem exists_renewed (m : Machine) (events : List Event) :
    ∃ earlier later, events = earlier ++ later ∧ m.Renewed earlier ∧
      .key ∉ (m.afterEvents earlier).demands later := by
  induction events generalizing m with
  | nil => exact ⟨[], [], rfl, .inl rfl, List.not_mem_nil⟩
  | cons event rest ih =>
    obtain ⟨earlier, later, rfl, hrenewed, hnone⟩ := ih (m.afterEvent event)
    rcases hrenewed with rfl | ⟨before, last, rfl, hkey⟩
    · -- none in the rest: the latest key is that of this event, if it gets one
      by_cases hkey : event.demand? m = some .key
      · exact ⟨[event], later, rfl, .inr ⟨[], event, rfl, hkey⟩, hnone⟩
      · refine ⟨[], event :: later, rfl, .inl rfl, fun hmem => ?_⟩
        rcases List.mem_append.mp hmem with hnow | hlater
        · exact hkey (Option.mem_toList.mp hnow)
        · exact hnone hlater
    · have hlater : m.Renewed (event :: (before ++ [last])) :=
        .inr ⟨event :: before, last, rfl, hkey⟩
      exact ⟨_, later, rfl, hlater, hnone⟩

theorem used_of_renewed {events : List Event} (hstart : m.generator.used = 0)
    (h : m.Renewed events) : (m.afterEvents events).generator.used = 0 := by
  rcases h with rfl | ⟨before, event, rfl, hkey⟩
  · exact hstart
  · have hlast : m.afterEvents (before ++ [event]) = (m.afterEvents before).afterEvent event :=
      List.foldl_append
    rw [hlast, generator_afterEvent, hkey]
    rfl

/-- **Every random word is accounted for.** A machine made from a seed has been given its latest key
    by `earlier`, or has had none but its first, and gets no other by `later`. Then the bytes drawn
    by `later` are the low bytes of the first words of that key's stream; a `CXNN` that follows puts
    the low byte of the next word in VX, as far as its mask goes; a new key that follows is made of
    the next eight words; and whatever asks for nothing leaves the random source alone. Two runs
    from one seed that ask for the same draw the same bytes, whatever else they do. -/
theorem random_words_accounted (seed : UInt64) :
    (∀ earlier later, (ofSeed seed).Renewed earlier →
      let base := (ofSeed seed).afterEvents earlier
      let last := base.afterEvents later
      let words := ChaCha.word base.generator.key
      let count := (base.demands later).length
      .key ∉ base.demands later →
        base.drawn later = (List.range count).map (fun k => (words k).toUInt8) ∧
        (∀ word, last.memory.fetch? last.pc = some word → Word.Draws word →
          last.step.2 = none ∧
          last.step.1.v (Word.x word) = Word.constant word &&& (words count).toUInt8) ∧
        (∀ event, event.demand? last = some .key →
          (last.afterEvent event).generator =
            ⟨Vector.ofFn fun i => words (count + i.val), 0⟩) ∧
        (∀ event, event.demand? last = none →
          (last.afterEvent event).generator = last.generator)) ∧
    (∀ events others, (ofSeed seed).demands events = (ofSeed seed).demands others →
      (ofSeed seed).drawn events = (ofSeed seed).drawn others) ∧
    (∀ events, ∃ earlier later, events = earlier ++ later ∧ (ofSeed seed).Renewed earlier ∧
      .key ∉ ((ofSeed seed).afterEvents earlier).demands later) := by
  refine ⟨fun earlier later hrenewed => ?_, fun events others hsame => ?_,
    (ofSeed seed).exists_renewed⟩
  · intro base last words count hbytes
    have hused : base.generator.used = 0 := used_of_renewed rfl hrenewed
    have hlast : last.generator = ⟨base.generator.key, count⟩ := by
      rw [generator_afterEvents, Generator.afterAll_of_bytes hbytes, hused, Nat.zero_add]
    have hahead (k : Nat) : last.generator.wordAhead k = words (count + k) := by
      rw [hlast]
      rfl
    refine ⟨?_, fun word hfetch hdraws => ?_, fun event hkey => ?_, fun event hnone => ?_⟩
    · have hfirst (k : Nat) : base.generator.wordAhead k = words k := by
        rw [Generator.wordAhead, hused, Nat.zero_add]
      rw [drawn_eq, Generator.bytes_of_bytes hbytes]
      exact List.map_congr_left fun k _ => congrArg UInt32.toUInt8 (hfirst k)
    · rw [step_of_draws hfetch hdraws]
      refine ⟨rfl, (Registers.get_set_self _ _ _).trans ?_⟩
      rw [Generator.nextByte, hahead, Nat.add_zero]
    · rw [generator_afterEvent, hkey]
      show last.generator.rekeyed = _
      rw [Generator.rekeyed]
      simp only [hahead]
    · rw [generator_afterEvent, hnone]
      rfl
  · rw [drawn_eq, drawn_eq, hsame]

/-- A program that draws half a byte, and another. -/
def die : Program := #[0xC1, 0x0F, 0xC2, 0x0F]

/-- Behind a load the second byte drawn is the low byte of the second word of the new key. -/
theorem random_words_of_die :
    let base := (ofSeed 7).afterEvents [.load die]
    let later := [Event.move .step, .move (.touch .tick)]
    let last := base.afterEvents later
    base.demands later = [.byte] ∧
      base.drawn later = [(ChaCha.word base.generator.key 0).toUInt8] ∧
      last.memory.fetch? last.pc = some 0xC20F ∧
      last.step.1.v 2 = 0x0F &&& (ChaCha.word base.generator.key 1).toUInt8 := by
  have hrenewed : (ofSeed 7).Renewed [.load die] := .inr ⟨[], .load die, rfl, rfl⟩
  have hbase : (ofSeed 7).afterEvents [.load die] =
      loadedWith (ofSeed 7).generator.rekeyed die := by
    have hload := @load_of_fits die (ofSeed 7) (by decide)
    show (ofSeed 7).afterLoad die = _
    rw [afterLoad, hload]
  have hmemory : ((ofSeed 7).afterEvents [.load die]).memory = Memory.powerOn.withProgram die := by
    rw [hbase, loadedWith]
  have hpc : ((ofSeed 7).afterEvents [.load die]).pc = 0x200 := by
    rw [hbase, loadedWith]
    rfl
  have haccount := (random_words_accounted 7).1 [.load die] [.move .step, .move (.touch .tick)]
    hrenewed
  -- from here on the seed is of no account
  generalize (ofSeed 7).afterEvents [.load die] = base at hmemory hpc haccount ⊢
  intro _ later last
  have hfirst : base.memory.fetch? base.pc = some 0xC10F := by
    rw [hmemory, hpc, Memory.powerOn.fetch?_withProgram_of_inside (k := 0) (by decide) rfl
      (by decide)]
    decide
  have hrun (m : Machine) :
      m.afterEvents [.move .step, .move (.touch .tick)] = m.step.1.afterTouch .tick := rfl
  have hlast : last = base.step.1.afterTouch .tick := hrun base
  have hstep := congrArg Prod.fst (step_of_draws hfirst (by decide))
  have hsecond : last.memory.fetch? last.pc = some 0xC20F := by
    have hmemory' : last.memory = base.memory := by
      rw [hlast, hstep]
      rfl
    have hpc' : last.pc = base.pc + 2 := by
      rw [hlast, hstep]
      rfl
    rw [hmemory', hpc', hmemory, hpc,
      Memory.powerOn.fetch?_withProgram_of_inside (k := 2) (by decide) rfl (by decide)]
    decide
  have hdemands : base.demands later = [.byte] := by
    have hbyte : (Event.move .step).demand? base = some .byte := by
      rw [Event.demand?, hfirst]
      rfl
    show ((Event.move .step).demand? base).toList ++ [] = _
    rw [hbyte]
    rfl
  obtain ⟨hdrawn, hdraws, -⟩ := haccount (by
    rw [hdemands]
    decide)
  rw [hdemands, List.length_singleton] at hdrawn hdraws
  rw [List.range_one, List.map_singleton] at hdrawn
  exact ⟨hdemands, hdrawn, hsecond, (hdraws 0xC20F hsecond (by decide)).2⟩

end Machine

end Chip8
