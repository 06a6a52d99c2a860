/-
  File:      Chip8/Proofs/Machine/Bounds.lean
  Subject:   the bounds that a machine keeps from the moment it is switched on

  * `Bounded`: twelve bits of index register, sixteen slots of stack, and in every slot, popped or
    not, the place of an instruction. The program counter may run out of the memory, but only as
    far as the farthest jump of `BNNN` reaches;
  * `bounded_afterEvent`: every event keeps the bounds; `InRange`: those of the index register and
    the stack are kept for themselves;
  * `Exact`: the sums a step makes are the sums of the numbers, and what a step or a snapshot
    reads is there;
  * `bounded_exact_of_session`: both hold in every session.

  The bound on the program counter behind a return comes from the slots: a call stores the place it
  stands at, and it was fetched from there.
-/
import Chip8.Proofs.Machine.Event
import Chip8.Proofs.Machine.Route
import Chip8.Snapshot

namespace Chip8.Machine

variable {m done : Machine} {i : Instruction}

/-! ## 1. The bounds -/

/-- **The bounds of a machine.** -/
structure Bounded (m : Machine) : Prop where
  index : m.index.toNat ≤ 0xFFF
  pointer : m.stack.pointer ≤ 16
  /-- Slots that were popped count as well. -/
  slots : ∀ k (h : k < 16), m.stack.slots[k].toNat ≤ 0xFFE
  pc : m.pc.toNat ≤ 0x10FE

theorem Bounded.noting (hm : m.Bounded) (word : UInt16) : (m.noting word).Bounded :=
  ⟨hm.index, hm.pointer, hm.slots, hm.pc⟩

theorem bounded_switchedOn (generator : Generator) : (switchedOn generator).Bounded where
  index := Nat.zero_le _
  pointer := Nat.zero_le _
  slots k h := by
    simp [switchedOn, CallStack.empty]
  pc := by
    show 0x200 ≤ 0x10FE
    decide

/-! ## 2. Routes inside the bounds -/

theorem toNat_add_of_le {pc distance : UInt16} (hpc : pc.toNat ≤ 0x10FE)
    (hdistance : distance.toNat ≤ 4) : (pc + distance).toNat = pc.toNat + distance.toNat := by
  rw [UInt16.toNat_add]
  omega

theorem toNat_jumpBeyond (target : Address) (offset : UInt8) :
    (target.toWord + offset.toUInt16).toNat = target.val + offset.toNat := by
  have h1 := target.isLt
  have h2 := offset.toNat_lt
  rw [UInt16.toNat_add, Address.toNat_toWord, UInt8.toNat_toUInt16]
  omega

/-- A pop gives what lies in the slot below the pointer. -/
theorem caller_of_pop {s rest : CallStack} {caller : UInt16} (hs : s.pointer ≤ 16)
    (hpop : s.pop? = some (caller, rest)) :
    ∃ h : rest.pointer < 16, caller = s.slots[rest.pointer] := by
  obtain ⟨hpointer, -, rfl⟩ := CallStack.pop?_eq_some_iff.mp hpop
  have h : rest.pointer < 16 := by omega
  exact ⟨h, s.getD_slots h⟩

/-- **A route from a place in memory ends inside the bounds of the program counter.** -/
theorem Route.pc_le (hm : m.Bounded) (hplace : m.pc.toNat ≤ 0xFFE) (hr : Route m i done) :
    done.pc.toNat ≤ 0x10FE := by
  cases hr with
  | next i straight stack pc =>
    rw [pc, toNat_add_of_le hm.pc (by decide)]
    show m.pc.toNat + 2 ≤ _
    omega
  | skip i straight stack pc =>
    rw [pc, toNat_add_of_le hm.pc (by decide)]
    show m.pc.toNat + 4 ≤ _
    omega
  | stay x stack pc =>
    rw [pc]
    exact hm.pc
  | jump target stack pc =>
    have h := target.isLt
    rw [pc, Address.toNat_toWord]
    omega
  | jumpBeyond target stack pc =>
    have h1 := target.isLt
    have h2 := (m.v 0).toNat_lt
    rw [pc, toNat_jumpBeyond]
    omega
  | call target stack pc =>
    have h := target.isLt
    rw [pc, Address.toNat_toWord]
    omega
  | ret caller stack pc =>
    obtain ⟨h, rfl⟩ := caller_of_pop hm.pointer stack
    have hslot := hm.slots _ h
    rw [pc, toNat_add_of_le (by omega) (by decide)]
    show _ + 2 ≤ _
    omega

/-- **A route leaves no more than sixteen calls open.** -/
theorem Route.pointer_le (hpointer : m.stack.pointer ≤ 16) (hr : Route m i done) :
    done.stack.pointer ≤ 16 := by
  cases hr with
  | next _ _ stack _ | skip _ _ stack _ | stay _ stack _ | jump _ stack _ | jumpBeyond _ stack _ =>
    rw [stack]
    exact hpointer
  | call target stack pc =>
    obtain ⟨hroom, e⟩ := CallStack.push?_eq_some_iff.mp stack
    rw [e]
    exact hroom
  | ret caller stack pc =>
    obtain ⟨hcaller, -, -⟩ := CallStack.pop?_eq_some_iff.mp stack
    omega

/-- **A route from a place in memory leaves such places in the slots.** -/
theorem Route.slots_le (hslots : ∀ k (h : k < 16), m.stack.slots[k].toNat ≤ 0xFFE)
    (hplace : m.pc.toNat ≤ 0xFFE) (hr : Route m i done) :
    ∀ k (h : k < 16), done.stack.slots[k].toNat ≤ 0xFFE := by
  cases hr with
  | next _ _ stack _ | skip _ _ stack _ | stay _ stack _ | jump _ stack _ | jumpBeyond _ stack _ =>
    rw [stack]
    exact hslots
  | call target stack pc =>
    obtain ⟨hroom, e⟩ := CallStack.push?_eq_some_iff.mp stack
    rw [e]
    intro k h
    rw [Vector.getElem_set]
    split
    · exact hplace
    · exact hslots k h
  | ret caller stack pc =>
    obtain ⟨-, hsame, -⟩ := CallStack.pop?_eq_some_iff.mp stack
    rw [hsame]
    exact hslots

/-! ## 3. Events inside the bounds -/

theorem index_le_of_execute (hm : m.index.toNat ≤ 0xFFF) (h : m.execute i = .ok done) :
    done.index.toNat ≤ 0xFFF := by
  rcases execute_index h with e | ⟨address, e⟩
  · rw [e]
    exact hm
  · rw [e, UInt16.toNat_mod]
    show address.toNat % 4096 ≤ _
    omega

/-- **A step keeps the bounds**, whether it ends in a fault or not. -/
theorem bounded_step (hm : m.Bounded) : m.step.1.Bounded := by
  rcases m.step_cases with ⟨-, hstep⟩ | ⟨word, fault, -, -, hstep⟩ |
    ⟨word, done, hfetch, hexecute, hstep⟩
  · rw [hstep]
    exact hm
  · rw [hstep]
    exact hm.noting word
  · rw [hstep]
    have hroute := (route_of_execute hexecute).of_noting
    have hplace := pc_le_of_fetch hfetch
    exact ⟨index_le_of_execute (m := m.noting word) hm.index hexecute,
      hroute.pointer_le hm.pointer, hroute.slots_le hm.slots hplace, hroute.pc_le hm hplace⟩

theorem bounded_afterTouch (hm : m.Bounded) (t : Touch) : (m.afterTouch t).Bounded := by
  rw [afterTouch_eq]
  exact ⟨hm.index, hm.pointer, hm.slots, hm.pc⟩

theorem bounded_reset (m : Machine) : m.reset.Bounded := by
  have h := bounded_switchedOn m.generator.rekeyed
  exact ⟨h.index, h.pointer, h.slots, h.pc⟩

theorem bounded_afterLoad (hm : m.Bounded) (program : Program) : (m.afterLoad program).Bounded := by
  by_cases hsize : program.size ≤ Memory.programLimit
  · have h := m.bounded_reset
    rw [afterLoad_of_fits hsize]
    exact ⟨h.index, h.pointer, h.slots, h.pc⟩
  · rw [afterLoad_of_too_large (by omega)]
    exact hm

/-- **Every event keeps the bounds.** -/
theorem bounded_afterEvent (hm : m.Bounded) (event : Event) : (m.afterEvent event).Bounded := by
  cases event with
  | move move =>
    cases move with
    | step => exact bounded_step hm
    | touch t => exact bounded_afterTouch hm t
  | reset => exact m.bounded_reset
  | load program => exact bounded_afterLoad hm program

/-! ## 4. Index register and stack alone -/

/-- **Index register and stack inside their bounds**, wherever the program counter may be. -/
structure InRange (m : Machine) : Prop where
  index : m.index.toNat ≤ 0xFFF
  pointer : m.stack.pointer ≤ 16

theorem inRange_step (hm : m.InRange) : m.step.1.InRange := by
  rcases m.step_cases with ⟨-, hstep⟩ | ⟨word, fault, -, -, hstep⟩ |
    ⟨word, done, -, hexecute, hstep⟩
  · rw [hstep]
    exact hm
  · rw [hstep]
    exact ⟨hm.index, hm.pointer⟩
  · rw [hstep]
    exact ⟨index_le_of_execute (m := m.noting word) hm.index hexecute,
      (route_of_execute hexecute).pointer_le (m := m.noting word) hm.pointer⟩

theorem inRange_afterMoves (hm : m.InRange) (moves : List Move) : (m.afterMoves moves).InRange := by
  refine afterMoves_induction hm (fun n move hn => ?_) moves
  cases move with
  | step => exact inRange_step hn
  | touch t =>
    show (n.afterTouch t).InRange
    rw [afterTouch_eq]
    exact ⟨hn.index, hn.pointer⟩

/-- **The next step makes its sums without wrapping and reads what is there**, and so does a
    snapshot. -/
structure Exact (m : Machine) : Prop where
  /-- A word that is fetched lies in memory with both its bytes. -/
  fetch : ∀ word, m.memory.fetch? m.pc = some word → ∃ h : m.pc.toNat + 1 < 4096,
    word.toNat = m.memory.bytes[m.pc.toNat].toNat * 256 + m.memory.bytes[m.pc.toNat + 1].toNat
  next : m.next.pc.toNat = m.pc.toNat + 2
  skipIf : ∀ condition, (m.skipIf condition).pc.toNat = m.pc.toNat + if condition then 4 else 2
  jumpBeyond : ∀ target done, m.execute (.jumpBeyond target) = .ok done →
    done.pc.toNat = target.val + (m.v 0).toNat
  /-- The sum of I and VX, its low twelve bits in I and the rest in VF. -/
  addToIndex : ∀ x done, m.execute (.addToIndex x) = .ok done →
    (done.v Registers.flag).toNat * 4096 + done.index.toNat = m.index.toNat + (m.v x).toNat
  /-- The addresses of a sprite, of three digits and of a block of registers. -/
  addresses : ∀ offset < 16, (m.index + UInt16.ofNat offset).toNat = m.index.toNat + offset
  /-- A call writes a slot that exists, or none. -/
  call : ∀ target done, m.execute (.call target) = .ok done → ∃ h : m.stack.pointer < 16,
    done.stack.slots = m.stack.slots.set m.stack.pointer m.pc
  /-- A return reads a slot that exists and goes two bytes beyond the address in it. -/
  ret : ∀ done, m.execute .ret = .ok done → ∃ h : done.stack.pointer < 16,
    done.pc.toNat = m.stack.slots[done.stack.pointer].toNat + 2
  /-- The open calls of a snapshot are as many as its pointer says. -/
  snapshot : ∀ clock, (m.snapshot clock).stack.toList.length = (m.snapshot clock).stack.pointer

theorem toNat_flag (report : Bool) (v : Registers) :
    ((v.setFlag report).get Registers.flag).toNat = if report then 1 else 0 := by
  rw [Registers.setFlag, Registers.get_set_self]
  cases report <;> rfl

theorem addToIndex_exact (hm : m.index.toNat ≤ 0xFFF) {x : Nibble}
    (h : m.execute (.addToIndex x) = .ok done) :
    (done.v Registers.flag).toNat * 4096 + done.index.toNat = m.index.toNat + (m.v x).toNat := by
  cases h
  have hx := (m.v x).toNat_lt
  have hsum : (m.index + (m.v x).toUInt16).toNat = m.index.toNat + (m.v x).toNat := by
    rw [UInt16.toNat_add, UInt8.toNat_toUInt16]
    omega
  show ((m.registers.setFlag _).get Registers.flag).toNat * 4096 +
    ((m.index + (m.v x).toUInt16) % 4096).toNat = _
  rw [toNat_flag, UInt16.toNat_mod, hsum]
  show _ + (_ % 4096) = _
  by_cases hbig : 4096 ≤ m.index.toNat + (m.v x).toNat
  · have hlt : 4095 < m.index + (m.v x).toUInt16 := by
      rw [UInt16.lt_iff_toNat_lt, hsum]
      exact hbig
    simp only [hlt, decide_true, if_true]
    omega
  · have hlt : ¬ 4095 < m.index + (m.v x).toUInt16 := by
      rw [UInt16.lt_iff_toNat_lt, hsum]
      exact fun h => hbig h
    simp only [hlt, decide_false, Bool.false_eq_true, if_false]
    omega

/-- **A machine inside its bounds steps exactly.** -/
theorem exact_of_bounded (hm : m.Bounded) : m.Exact where
  fetch word h := by
    have hplace := pc_le_of_fetch h
    have hinside : m.pc.toNat + 1 < 4096 := by omega
    rw [Memory.fetch?, dif_pos hinside] at h
    cases h
    exact ⟨hinside, Word.toNat_ofBytes _ _⟩
  next := toNat_add_of_le hm.pc (by decide)
  skipIf condition := by
    cases condition with
    | false => exact toNat_add_of_le hm.pc (by decide)
    | true => exact toNat_add_of_le hm.pc (by decide)
  jumpBeyond target done h := by
    cases h
    exact toNat_jumpBeyond target _
  addToIndex x done h := addToIndex_exact hm.index h
  addresses offset h := by
    have hindex := hm.index
    rw [UInt16.toNat_add, UInt16.toNat_ofNat']
    omega
  call target done h := by
    cases route_of_execute h with
    | next i straight stack pc | skip i straight stack pc => cases straight
    | call target stack pc =>
      obtain ⟨hroom, e⟩ := CallStack.push?_eq_some_iff.mp stack
      rw [e]
      exact ⟨hroom, rfl⟩
  ret done h := by
    cases route_of_execute h with
    | next i straight stack pc | skip i straight stack pc => cases straight
    | ret caller stack pc =>
      obtain ⟨hslot, rfl⟩ := caller_of_pop hm.pointer stack
      have hplace := hm.slots _ hslot
      rw [pc]
      exact ⟨hslot, toNat_add_of_le (by omega) (by decide)⟩
  snapshot clock := by
    have h := hm.pointer
    show (m.stack.slots.toList.take m.stack.pointer).length = m.stack.pointer
    rw [List.length_take, Vector.length_toList]
    omega

/-- **In every session**, from the moment a machine is switched on and whatever happens to it, it
    stays inside its bounds and steps exactly. -/
theorem bounded_exact_of_session (generator : Generator) (events : List Event) :
    ((switchedOn generator).afterEvents events).Bounded ∧
      ((switchedOn generator).afterEvents events).Exact := by
  have h := afterEvents_induction (bounded_switchedOn generator)
    (fun n event hn => bounded_afterEvent hn event) events
  exact ⟨h, exact_of_bounded h⟩

end Chip8.Machine
