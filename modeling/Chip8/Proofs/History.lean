/-
  File:      Chip8/Proofs/History.lean
  Subject:   what a history of events tells about the state behind it

  * `Never`: none of the events of a history, each at the state it finds, is one of a kind;
  * `foldl_raised_iff`: a flag that some events raise and others lower, told from the history;
    `exists_raised`: a flag that is down and later up was raised in between;
  * `occurrences`: how many of the events are of a kind; `occurrences_add_le`: if every event of one
    kind uses up what another kind stores, there are no more of the first than of the second.
-/
namespace Chip8

section Flag

variable {State Event : Type} (after : State → Event → State)

/-- None of the events, each at the state it finds, is one of `those`. -/
def Never (those : State → Event → Prop) (s : State) : List Event → Prop
  | [] => True
  | event :: rest => ¬ those s event ∧ Never those (after s event) rest

variable {after}

theorem never_iff_not_mem {event : Event} {s : State} {history : List Event} :
    Never after (fun _ e => e = event) s history ↔ event ∉ history := by
  induction history generalizing s with
  | nil => simp [Never]
  | cons first rest ih =>
    rw [Never, ih, List.mem_cons, not_or]
    exact and_congr_left fun _ => not_congr eq_comm

theorem never_append {those : State → Event → Prop} {s : State} {earlier later : List Event} :
    Never after those s (earlier ++ later) ↔
      Never after those s earlier ∧ Never after those (earlier.foldl after s) later := by
  induction earlier generalizing s with
  | nil => simp [Never]
  | cons event rest ih => simp [Never, ih, and_assoc]

/-- **A flag that some events raise and others lower** is up exactly if an event raised it and none
    behind it lowered it, or if it was up before and none lowered it at all. The events need to do
    so only in states with an invariant that they keep. -/
theorem foldl_raised_iff (inv up : State → Prop) {raises lowers : State → Event → Prop}
    (keep : ∀ s event, inv s → inv (after s event))
    (law : ∀ s event, inv s → (up (after s event) ↔ raises s event ∨ (up s ∧ ¬ lowers s event)))
    {s : State} (hs : inv s) (history : List Event) :
    up (history.foldl after s) ↔ (up s ∧ Never after lowers s history) ∨
      ∃ earlier event later, history = earlier ++ event :: later ∧
        raises (earlier.foldl after s) event ∧
        Never after lowers (after (earlier.foldl after s) event) later := by
  induction history generalizing s with
  | nil => simp [Never]
  | cons first rest ih =>
    rw [List.foldl_cons, ih (keep s first hs), law s first hs]
    constructor
    · rintro (⟨hraises | ⟨hup, hlowers⟩, hrest⟩ | ⟨earlier, event, later, rfl, hraises, hlater⟩)
      · exact .inr ⟨[], first, rest, rfl, hraises, hrest⟩
      · exact .inl ⟨hup, hlowers, hrest⟩
      · exact .inr ⟨first :: earlier, event, later, rfl, hraises, hlater⟩
    · rintro (⟨hup, hlowers, hrest⟩ | ⟨earlier, event, later, e, hraises, hlater⟩)
      · exact .inl ⟨.inr ⟨hup, hlowers⟩, hrest⟩
      · cases earlier with
        | nil =>
          cases e
          exact .inl ⟨.inl hraises, hlater⟩
        | cons first' more =>
          cases e
          exact .inr ⟨more, event, later, rfl, hraises, hlater⟩

/-- **A flag that is down and later up was raised in between.** -/
theorem exists_raised {up : State → Prop} {raises : State → Event → Prop}
    (law : ∀ s event, up (after s event) → up s ∨ raises s event) {s : State} (hs : ¬ up s)
    {history : List Event} (h : up (history.foldl after s)) :
    ∃ earlier event later, history = earlier ++ event :: later ∧
      raises (earlier.foldl after s) event := by
  induction history generalizing s with
  | nil => exact absurd h hs
  | cons first rest ih =>
    by_cases hup : up (after s first)
    · exact ⟨[], first, rest, rfl, (law s first hup).resolve_left hs⟩
    · obtain ⟨earlier, event, later, rfl, hraises⟩ := ih hup h
      exact ⟨first :: earlier, event, later, rfl, hraises⟩

end Flag

section Count

variable {State Event : Type} (after : State → Event → State)

/-- How many of the events of a history, each at the state it finds, are one of `those`. -/
def occurrences (those : State → Event → Bool) (s : State) : List Event → Nat
  | [] => 0
  | event :: rest => (those s event).toNat + occurrences those (after s event) rest

variable {after}

theorem occurrences_append {those : State → Event → Bool} {s : State} (earlier later : List Event) :
    occurrences after those s (earlier ++ later) =
      occurrences after those s earlier +
        occurrences after those (earlier.foldl after s) later := by
  induction earlier generalizing s with
  | nil => exact (Nat.zero_add _).symm
  | cons event rest ih =>
    rw [List.cons_append, occurrences, occurrences, ih, Nat.add_assoc, List.foldl_cons]

/-- **What is used up was stored before.** If every event of one kind takes from a store that only
    events of another kind fill, the first kind is paid for by the second and by what was in store
    at the start. -/
theorem occurrences_add_le {takes fills : State → Event → Bool} (store : State → Nat)
    (law : ∀ s event,
      (takes s event).toNat + store (after s event) ≤ (fills s event).toNat + store s)
    (s : State) (history : List Event) :
    occurrences after takes s history + store (history.foldl after s) ≤
      occurrences after fills s history + store s := by
  induction history generalizing s with
  | nil => simp [occurrences]
  | cons event rest ih =>
    have hfirst := law s event
    have hrest := ih (after s event)
    rw [occurrences, occurrences, List.foldl_cons]
    omega

end Count

end Chip8
