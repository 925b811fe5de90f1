import CellScheme.Proofs.Continuation

/-!
Places in a text. The machine that reads only remembers places: those of quote marks and of the
token that has begun, for the faults to report. It never looks at one. So when a map sends the
places of one text to those of another, and moves the places yet to come by one distance, then the
machine does the same from the state with the places that are mapped (`State.run_relocate`). In
the same way it never looks at the data that are complete, unless it expects just one datum.
-/
namespace CellScheme.Reader

variable {α β : Type} {place : Nat → Nat} {offset : Nat} {earlier complete : List Value}
  {datum : Value}

/-- The same opening, with its place mapped. -/
def Opening.relocate (place : Nat → Nat) : Opening → Opening
  | .list items => .list items
  | .quote start => .quote (place start)

/-- The same token, with its place mapped. -/
def Token.relocate (place : Nat → Nat) : Token → Token
  | .between => .between
  | .atom start run => .atom (place start) run
  | .string chars => .string chars
  | .escape start chars => .escape (place start) chars

/-- The same fault, with its place mapped. -/
def Fault.relocate (place : Nat → Nat) (fault : Fault) : Fault :=
  { fault with offset := place fault.offset }

/-- The same state with all places mapped, and with earlier data complete. -/
def State.relocate (place : Nat → Nat) (earlier : List Value) (state : State) : State where
  offset := place state.offset
  openings := state.openings.map (Opening.relocate place)
  token := state.token.relocate place
  complete := state.complete ++ earlier

/-- The same outcome, elsewhere. -/
def relocated (place : Nat → Nat) (move : α → β) : Except Fault α → Except Fault β
  | .ok result => .ok (move result)
  | .error fault => .error (fault.relocate place)

/-- From a place on, a map moves all places by one distance. -/
def Slides (place : Nat → Nat) (offset : Nat) : Prop :=
  ∀ further, place (offset + further) = place offset + further

theorem Slides.later (slides : Slides place offset) (further : Nat) :
    Slides place (offset + further) := by
  intro more
  rw [slides further, Nat.add_assoc, slides, Nat.add_assoc]

theorem slides_add (bytes offset : Nat) : Slides (bytes + ·) offset :=
  fun further => (Nat.add_assoc bytes offset further).symm

theorem relocated_bind {γ δ : Type} {first : Except Fault α} {move : α → β} {move' : γ → δ}
    {next : α → Except Fault γ} {next' : β → Except Fault δ}
    (same : ∀ result, first = .ok result →
      next' (move result) = relocated place move' (next result)) :
    (relocated place move first >>= next') = relocated place move' (first >>= next) := by
  cases first with
  | ok result => exact same result rfl
  | error fault => rfl

theorem settle_relocate (openings : List Opening) :
    settle datum (complete ++ earlier) (openings.map (Opening.relocate place))
      = ((settle datum complete openings).1.map (Opening.relocate place),
          (settle datum complete openings).2 ++ earlier) := by
  induction openings generalizing datum with
  | nil => rfl
  | cons opening outer ih =>
    cases opening with
    | list items => rfl
    | quote start => exact ih

theorem missing_relocate (openings : List Opening) :
    missing (place offset) (openings.map (Opening.relocate place))
      = (missing offset openings).relocate place := by
  induction openings generalizing offset with
  | nil => rfl
  | cons opening outer ih =>
    cases opening with
    | list items => rfl
    | quote start => exact ih

namespace State

variable {extent : Extent} {state : State} {c : Char} {text : List Char}

theorem token_relocate : (state.relocate place earlier).token = state.token.relocate place := rfl

theorem deliver_relocate : (state.relocate place earlier).deliver datum
    = (state.deliver datum).relocate place earlier := by
  simp only [deliver, relocate, settle_relocate]
  rfl

theorem enter_relocate (slides : Slides place state.offset) (opening : Opening) :
    (state.relocate place earlier).enter (opening.relocate place)
      = relocated place (relocate place earlier) (state.enter opening) := by
  unfold enter relocate
  simp only [List.length_map]
  split
  · rw [← slides 1]
    rfl
  · rfl

theorem endAtom_relocate (start : Nat) (run : List Char) :
    (state.relocate place earlier).endAtom (place start) run
      = relocated place (relocate place earlier) (state.endAtom start run) := by
  unfold endAtom
  cases atom? run.reverse with
  | some datum => exact congrArg Except.ok deliver_relocate
  | none => exact congrArg Except.error (missing_relocate state.openings)

theorem skips_relocate : (state.relocate place earlier).skips extent c = state.skips extent c := by
  simp only [skips, relocate, List.isEmpty_map]

/-- What is complete already plays no part, unless there may be just one datum. -/
theorem start_relocate (slides : Slides place state.offset)
    (apart : extent = .program ∨ earlier = []) :
    (state.relocate place earlier).start extent c
      = relocated place (relocate place earlier) (state.start extent c) := by
  have trailing : (extent = .datum ∧ (!(state.complete ++ earlier).isEmpty) = true)
      ↔ (extent = .datum ∧ (!state.complete.isEmpty) = true) := by
    rcases apart with rfl | rfl
    · simp only [reduceCtorEq, false_and]
    · rw [List.append_nil]
  have stray : throw (missing (place state.offset) (state.openings.map (Opening.relocate place)))
      = relocated place (relocate place earlier) (throw (missing state.offset state.openings)) :=
    congrArg Except.error (missing_relocate state.openings)
  have complete' : (state.relocate place earlier).complete = state.complete ++ earlier := rfl
  unfold start
  rw [skips_relocate]
  simp only [complete', trailing]
  split_ifs with skipped more quote opening closing
  · rfl
  · rfl
  · exact enter_relocate slides (.quote state.offset)
  · exact enter_relocate slides (.list [])
  · match openings : state.openings with
    | .list items :: outer =>
      have relocated : (state.relocate place earlier).openings
          = .list items :: outer.map (Opening.relocate place) := by
        rw [relocate, openings]
        rfl
      simp only [relocated]
      exact congrArg Except.ok
        (@deliver_relocate place earlier _ { state with openings := outer })
    | [] | .quote _ :: _ => simpa [relocate, openings, Opening.relocate] using stray
  · rfl
  · rfl
  · exact stray

theorem pause_relocate : (state.relocate place earlier).pause
    = relocated place (relocate place earlier) state.pause := by
  unfold pause
  rw [token_relocate]
  match state.token with
  | .between | .string _ | .escape .. => rfl
  | .atom start run => exact endAtom_relocate start run

theorem take_relocate (slides : Slides place state.offset)
    (apart : extent = .program ∨ earlier = []) : (state.relocate place earlier).take extent c
      = relocated place (relocate place earlier) (state.take extent c) := by
  unfold take
  rw [token_relocate]
  match state.token with
  | .between => exact start_relocate slides apart
  | .atom start run =>
    simp only [Token.relocate]
    split
    · rfl
    · rw [endAtom_relocate]
      refine relocated_bind fun ended atEnd => ?_
      obtain ⟨datum, -, rfl⟩ := endAtom_eq_ok atEnd
      exact start_relocate slides apart
  | .string chars =>
    simp only [Token.relocate]
    split_ifs
    · exact congrArg Except.ok deliver_relocate
    · rfl
    · rfl
  | .escape start chars =>
    simp only [Token.relocate]
    cases Text.unescape? c <;> rfl

theorem finish_relocate : (state.relocate place earlier).finish
    = relocated place (earlier.reverse ++ ·) state.finish := by
  rw [finish_eq_pause, finish_eq_pause, pause_relocate]
  refine relocated_bind fun ended _ => ?_
  simp only [relocate, List.isEmpty_map]
  split
  · exact congrArg Except.ok List.reverse_append
  · exact congrArg Except.error (missing_relocate ended.openings)

/-- A text is read alike wherever it stands, and behind whatever was complete before it. -/
theorem run_relocate (slides : Slides place state.offset)
    (apart : extent = .program ∨ earlier = []) : (state.relocate place earlier).run extent text
      = relocated place (earlier.reverse ++ ·) (state.run extent text) := by
  induction text generalizing state with
  | nil => exact finish_relocate
  | cons c text ih =>
    rw [run_cons, run_cons, take_relocate slides apart]
    refine relocated_bind fun next _ => ?_
    have moved : (next.relocate place earlier).moveTo
          ((state.relocate place earlier).offset + c.utf8Size)
        = (next.moveTo (state.offset + c.utf8Size)).relocate place earlier := by
      simp only [relocate, moveTo, slides c.utf8Size]
    rw [moved]
    exact ih (slides.later c.utf8Size)

end State

end CellScheme.Reader
