/-
  File:      Chip8/Proofs/Machine/Boundary.lean
  Subject:   a program that jumps to even places stays on even places

  * `OnBoundary`: the program counter is even, and so are the places that the open calls return to;
  * `LeadsOff`: the words that leave the even places, for a given V0: `1NNN` and `2NNN` with NNN
    odd, and `BNNN` with NNN + V0 odd;
  * `onBoundary_step`: a step keeps to the boundaries unless it carries out such a word;
  * `onBoundary_of_load`: so does every run behind a load, and the program counter can run out of
    the memory at 0x1000 or beyond only.

  Nothing in the machine enforces this. The calls belong to the invariant because a return goes on
  behind the place that a call has left in its slot.
-/
import Chip8.Proofs.Instruction.Kind
import Chip8.Proofs.Machine.Bounds
import Chip8.Proofs.Machine.Faults
import Chip8.Proofs.Machine.Load

namespace Chip8.Machine

variable {m n done loaded : Machine} {word : UInt16} {program : Program}

/-! ## 1. Even places -/

/-- **A machine on the boundaries of instructions.** -/
structure OnBoundary (m : Machine) : Prop where
  pc : m.pc.toNat % 2 = 0
  /-- The places of the open calls; slots that were popped do not count. -/
  calls : ∀ place ∈ m.stack.toList, place.toNat % 2 = 0

/-- The words that lead this machine off the boundaries. -/
def LeadsOff (m : Machine) (word : UInt16) : Prop :=
  ((Word.InGroup 0x1 word ∨ Word.InGroup 0x2 word) ∧ (Word.address word).val % 2 = 1) ∨
    (Word.InGroup 0xB word ∧ ((Word.address word).val + (m.v 0).toNat) % 2 = 1)

instance (m : Machine) (word : UInt16) : Decidable (m.LeadsOff word) :=
  inferInstanceAs (Decidable (_ ∨ _))

/-- None of the steps among these moves that succeed executes a word that leads off the
    boundaries. -/
def KeepsToBoundaries (m : Machine) (moves : List Move) : Prop :=
  Never afterMove (fun n move => move = .step ∧ n.step.2 = none ∧ n.Executes n.LeadsOff) m moves

theorem keepsToBoundaries_step {moves : List Move} (hfetch : m.memory.fetch? m.pc = some word)
    (hword : ¬ m.LeadsOff word) (hstep : m.step = (done, none))
    (hmoves : done.KeepsToBoundaries moves) : m.KeepsToBoundaries (.step :: moves) := by
  refine ⟨fun h => hword ((executes_iff hfetch).mp h.2.2), ?_⟩
  show m.step.1.KeepsToBoundaries moves
  rw [hstep]
  exact hmoves

theorem keepsToBoundaries_touch {t : Touch} {moves : List Move}
    (hmoves : (m.afterTouch t).KeepsToBoundaries moves) :
    m.KeepsToBoundaries (.touch t :: moves) := by
  refine ⟨fun h => ?_, hmoves⟩
  cases h.1

theorem toNat_add_two_mod (place : UInt16) : (place + 2).toNat % 2 = place.toNat % 2 := by
  rw [UInt16.toNat_add]
  show (place.toNat + 2) % 65536 % 2 = _
  omega

theorem toNat_add_four_mod (place : UInt16) : (place + 4).toNat % 2 = place.toNat % 2 := by
  rw [UInt16.toNat_add]
  show (place.toNat + 4) % 65536 % 2 = _
  omega

/-! ## 2. One step -/

/-- Among the words of a group with an address, these lead off the boundaries. -/
theorem leadsOff_ofAddress_iff (m : Machine) (group : Nibble) (target : Address) :
    m.LeadsOff (Word.ofAddress group target) ↔
      ((group.val = 0x1 ∨ group.val = 0x2) ∧ target.val % 2 = 1) ∨
        (group.val = 0xB ∧ (target.val + (m.v 0).toNat) % 2 = 1) := by
  have hgroup (g : Nat) : Word.InGroup g (Word.ofAddress group target) ↔ group.val = g := by
    rw [Word.InGroup, Word.inGroup_ofAddress group target]
  rw [LeadsOff, hgroup, hgroup, hgroup, Word.address_ofAddress]

/-- With the same calls open only the program counter matters. -/
theorem OnBoundary.of_stack (hm : m.OnBoundary) (hstack : done.stack = m.stack)
    (hpc : done.pc.toNat % 2 = 0) : done.OnBoundary where
  pc := hpc
  calls := by
    rw [hstack]
    exact hm.calls

/-- **A route keeps to the boundaries** unless its word leads off them. -/
theorem Route.onBoundary (hm : m.OnBoundary) (hpointer : m.stack.pointer ≤ 16)
    (hr : Route m (.decode word) done) (hword : ¬ m.LeadsOff word) : done.OnBoundary := by
  generalize hi : Instruction.decode word = i at hr
  rw [← Instruction.encode_of_decode hi] at hword
  cases hr with
  | next i straight stack pc =>
    refine hm.of_stack stack ?_
    rw [pc, toNat_add_two_mod]
    exact hm.pc
  | skip i straight stack pc =>
    refine hm.of_stack stack ?_
    rw [pc, toNat_add_four_mod]
    exact hm.pc
  | stay x stack pc =>
    refine hm.of_stack stack ?_
    rw [pc]
    exact hm.pc
  | jump target stack pc =>
    refine hm.of_stack stack ?_
    rw [Instruction.encode, leadsOff_ofAddress_iff] at hword
    rw [pc, Address.toNat_toWord]
    exact (Nat.mod_two_eq_zero_or_one _).resolve_right fun h => hword (.inl ⟨.inl rfl, h⟩)
  | jumpBeyond target stack pc =>
    refine hm.of_stack stack ?_
    rw [Instruction.encode, leadsOff_ofAddress_iff] at hword
    rw [pc, toNat_jumpBeyond]
    exact (Nat.mod_two_eq_zero_or_one _).resolve_right fun h => hword (.inr ⟨rfl, h⟩)
  | call target stack pc =>
    refine ⟨?_, fun place hplace => ?_⟩
    · rw [Instruction.encode, leadsOff_ofAddress_iff] at hword
      rw [pc, Address.toNat_toWord]
      exact (Nat.mod_two_eq_zero_or_one _).resolve_right fun h => hword (.inl ⟨.inr rfl, h⟩)
    · -- the call adds the place it stands at
      rw [CallStack.toList_of_push stack, List.mem_append, List.mem_singleton] at hplace
      rcases hplace with hheld | rfl
      · exact hm.calls place hheld
      · exact hm.pc
  | ret caller stack pc =>
    have hcalls := hm.calls
    rw [CallStack.toList_of_pop hpointer stack] at hcalls
    refine ⟨?_, fun place hplace => hcalls place (List.mem_append_left _ hplace)⟩
    rw [pc, toNat_add_two_mod]
    exact hcalls caller (List.mem_append_right _ (List.mem_singleton_self caller))

/-- **A step keeps to the boundaries**, unless it succeeds with a word that leads off them. -/
theorem onBoundary_step (hm : m.OnBoundary) (hpointer : m.stack.pointer ≤ 16)
    (hword : ¬ (m.step.2 = none ∧ m.Executes m.LeadsOff)) : m.step.1.OnBoundary := by
  rcases m.step_cases with ⟨-, hstep⟩ | ⟨word, fault, -, -, hstep⟩ |
    ⟨word, done, hfetch, hexecute, hstep⟩
  · rw [hstep]
    exact hm
  · rw [hstep]
    exact ⟨hm.pc, hm.calls⟩
  · have hstays : ¬ m.LeadsOff word := fun hleads =>
      hword ⟨by rw [hstep], (executes_iff hfetch).mpr hleads⟩
    rw [hstep]
    exact (route_of_execute hexecute).of_noting.onBoundary hm hpointer hstays

theorem onBoundary_afterTouch (hm : m.OnBoundary) (t : Touch) : (m.afterTouch t).OnBoundary := by
  rw [afterTouch_eq]
  exact ⟨hm.pc, hm.calls⟩

/-! ## 3. Every run -/

theorem onBoundary_loadedWith (generator : Generator) (program : Program) :
    (loadedWith generator program).OnBoundary where
  pc := by
    show 0x200 % 2 = 0
    rfl
  calls place hplace := absurd hplace List.not_mem_nil

/-- **Moves keep to the boundaries** as long as no step leads off them. -/
theorem onBoundary_afterMoves (hm : m.OnBoundary) (hrange : m.InRange) {moves : List Move}
    (hmoves : m.KeepsToBoundaries moves) : (m.afterMoves moves).OnBoundary := by
  induction moves generalizing m with
  | nil => exact hm
  | cons move rest ih =>
    obtain ⟨hfirst, hrest⟩ := hmoves
    have hrange' : (m.afterMove move).InRange := inRange_afterMoves hrange [move]
    refine ih ?_ hrange' hrest
    cases move with
    | step => exact onBoundary_step hm hrange.pointer fun hleads => hfirst ⟨rfl, hleads⟩
    | touch t => exact onBoundary_afterTouch hm t

/-- **Out of the memory from a boundary** is 0x1000 or beyond: 0xFFF is odd. -/
theorem beyond_of_outOfBounds (hm : m.OnBoundary) (hpointer : m.stack.pointer ≤ 16)
    {place : UInt16} (h : m.step.2 = some (.outOfBounds place)) :
    place = m.pc ∧ 0x1000 ≤ m.pc.toNat := by
  cases (step_fault_iff hpointer).mp h with
  | outOfBounds hpc =>
    have heven := hm.pc
    exact ⟨rfl, by omega⟩

/-- **A program stays on the boundaries of instructions.** Behind a load that was accepted let
    steps, ticks, key events and polls come in any order, as long as every step that succeeds with
    `1NNN` or `2NNN` finds NNN even and every one with `BNNN` finds NNN + V0 even. Then the program
    counter is even and so is the place of every open call; a word is fetched from an even place
    with both its bytes in memory; and no step runs out of the memory short of 0x1000. -/
theorem onBoundary_of_load {moves : List Move} (hload : m.load program = .ok loaded)
    (hmoves : loaded.KeepsToBoundaries moves) :
    let last := loaded.afterMoves moves
    last.OnBoundary ∧
      (∀ word, last.memory.fetch? last.pc = some word →
        last.pc.toNat % 2 = 0 ∧ last.pc.toNat + 1 < 4096) ∧
      ∀ place, last.step.2 = some (.outOfBounds place) →
        place = last.pc ∧ 0x1000 ≤ last.pc.toNat := by
  intro last
  obtain ⟨-, rfl⟩ := eq_loadedWith_of_load hload
  have hstart := onBoundary_loadedWith m.generator.rekeyed program
  have hrange : (loadedWith m.generator.rekeyed program).InRange := ⟨Nat.zero_le _, Nat.zero_le _⟩
  have hlast : last.OnBoundary := onBoundary_afterMoves hstart hrange hmoves
  have hlastRange : last.InRange := inRange_afterMoves hrange moves
  refine ⟨hlast, fun word hfetch => ⟨hlast.pc, ?_⟩, fun place => ?_⟩
  · have hplace := pc_le_of_fetch hfetch
    omega
  · exact beyond_of_outOfBounds hlast hlastRange.pointer

/-- A program that calls a routine at its end and then jumps, with V0 odd, to an odd place and V0
    beyond. -/
def leaping : Program := #[0x22, 0x06, 0x60, 0x03, 0xB3, 0x01, 0x00, 0xEE]

/-- The machine behind its load, and behind each of its steps. -/
def leapingLoaded : Machine := loadedWith (ofSeed 7).generator.rekeyed leaping

def leapingCalled : Machine :=
  { leapingLoaded.noting 0x2206 with stack := ⟨CallStack.empty.slots.set 0 0x200, 1⟩, pc := 0x206 }

def leapingReturned : Machine :=
  { (leapingCalled.afterTouch .tick).noting 0x00EE with
    stack := ⟨CallStack.empty.slots.set 0 0x200, 0⟩, pc := 0x202 }

def leapingSet : Machine :=
  { leapingReturned.noting 0x6003 with registers := Registers.zero.set 0 3, pc := 0x204 }

def leapingLeapt : Machine := { leapingSet.noting 0xB301 with pc := 0x304 }

/-- The call, a tick, the return, the instruction that sets V0 and the jump. -/
theorem onBoundary_leaping :
    let moves : List Move := [.step, .touch .tick, .step, .step, .step]
    (ofSeed 7).load leaping = .ok leapingLoaded ∧ leapingLoaded.KeepsToBoundaries moves ∧
      (leapingLoaded.afterMoves moves).pc = 0x304 ∧
      (leapingLoaded.afterMoves moves).OnBoundary := by
  intro moves
  have hload : (ofSeed 7).load leaping = .ok leapingLoaded := load_of_fits _ (by decide)
  have hfetch {place word : UInt16} (k : Nat) (hinside : k + 1 < leaping.size)
      (hplace : place.toNat = 0x200 + k) (hword : Word.ofBytes leaping[k] leaping[k + 1] = word) :
      (Memory.powerOn.withProgram leaping).fetch? place = some word := by
    rw [Memory.powerOn.fetch?_withProgram_of_inside (by decide) hplace hinside, hword]
  have hfirst : leapingLoaded.memory.fetch? leapingLoaded.pc = some 0x2206 :=
    hfetch 0 (by decide) rfl (by decide)
  have hcalled : leapingLoaded.step = (leapingCalled, none) := step_of_execute hfirst rfl
  have hsecond : (leapingCalled.afterTouch .tick).memory.fetch? 0x206 = some 0x00EE :=
    hfetch 6 (by decide) rfl (by decide)
  have hreturned : (leapingCalled.afterTouch .tick).step = (leapingReturned, none) :=
    step_of_execute hsecond rfl
  have hthird : leapingReturned.memory.fetch? leapingReturned.pc = some 0x6003 :=
    hfetch 2 (by decide) rfl (by decide)
  have hset : leapingReturned.step = (leapingSet, none) := step_of_execute hthird rfl
  have hfourth : leapingSet.memory.fetch? leapingSet.pc = some 0xB301 :=
    hfetch 4 (by decide) rfl (by decide)
  have hleapt : leapingSet.step = (leapingLeapt, none) := step_of_execute hfourth rfl
  have hmoves : leapingLoaded.KeepsToBoundaries moves :=
    keepsToBoundaries_step hfirst (by decide) hcalled
      (keepsToBoundaries_touch (keepsToBoundaries_step hsecond (by decide) hreturned
        (keepsToBoundaries_step hthird (by decide) hset
          (keepsToBoundaries_step hfourth (by decide) hleapt trivial))))
  have hlast : leapingLoaded.afterMoves moves = leapingLeapt := by
    rw [afterMoves_step hcalled, afterMoves_cons]
    exact (afterMoves_step hreturned _).trans ((afterMoves_step hset _).trans
      (afterMoves_step hleapt _))
  have hpc : leapingLeapt.pc = 0x304 := rfl
  rw [hlast]
  exact ⟨hload, hmoves, hpc, hlast ▸ (onBoundary_of_load hload hmoves).1⟩

end Chip8.Machine
