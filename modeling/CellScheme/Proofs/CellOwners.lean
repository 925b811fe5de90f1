import CellScheme.Proofs.TextDriven

/-!
Cells and variable instances of a session match one to one, at every moment. The frames that a `let`
or an application makes get cells that nobody else has, and an assignment changes the cell of one
variable instance and of no other.
-/
namespace CellScheme

/-- Ownership at one moment: before and after the evaluation that begins there, and in each step
that it takes itself. -/
structure Point.Owned (limit : Nat) (point : Point) : Prop where
  before : point.memory.Partitioned
  after : (point.outcome limit).2.Partitioned
  recorded : point.memory.Recorded point.env
  /-- A body runs in a frame that is newer than all frames so far, with cells that are newer than
  all cells so far. -/
  fresh : ∀ turn next body, Calls limit point turn next → next.task = .body body →
    ∃ frame outer, next.env = frame :: outer ∧ next.memory.frames[frame.serial]? = some frame ∧
      point.memory.frames.size ≤ frame.serial ∧
      ∀ slot ∈ frame.slots, point.memory.store.size ≤ slot.2
  /-- An assignment writes the cell of one owner, and all other owners keep the content of theirs. -/
  alone : ∀ result name value rest address content left,
    point.task = .rest result (.assign name value :: rest) →
    Environment.find? point.memory.globals point.env name = some address →
    Point.outcome limit ⟨point.budget, point.env, .expr value, point.memory⟩ = (.ok content, left) →
    ∃ owner, left.address? owner = some address ∧
      (left.write address content).store.read? address = some content ∧
      ∀ other address', other ≠ owner → left.address? other = some address' →
        (left.write address content).store.read? address' = left.store.read? address'

namespace Session

variable {session : Session} {programs : List Program} {program : Program}

/-- Every moment of every run of a known program is one of orderly ownership. -/
theorem TextDriven.owned (driven : session.TextDriven programs) (known : program ∈ programs)
    {point : Point} (reached : Reaches session.limit (session.start program) point) :
    point.Owned session.limit := by
  have holds := driven.holds known reached
  refine ⟨holds.memory.partitioned, (driven.ends known reached).memory.partitioned,
    holds.place.recorded, ?_, ?_⟩
  · intro turn next body call task
    have entered := (Discipline.calls holds call).1.place.recorded
    obtain ⟨left, names, values, outer, _, moved, _, env, memory⟩ :=
      Discipline.calls_body holds call task
    refine ⟨_, outer, env, entered _ (by simp [env]), moved.frames_size, ?_⟩
    intro slot member
    obtain ⟨_, address⟩ := List.of_mem_zip (show (slot.1, slot.2) ∈ _ from member)
    rw [List.mem_range'_1] at address
    exact Nat.le_trans moved.store address.1
  · intro result name value rest address content left task found ended
    obtain ⟨budget, env, _, memory⟩ := point
    obtain rfl := task
    have call : Calls session.limit ⟨budget, env, .rest result (.assign name value :: rest), memory⟩
        (.part 0) ⟨budget, env, .expr value, memory⟩ := .assigned found
    have ends := driven.ends known (reached.tail ⟨_, call⟩)
    have sound := ends.memory
    have grows := ends.moves
    rw [ended] at sound grows
    have inside : address < left.store.size :=
      Nat.lt_of_lt_of_le (holds.memory.find?_lt holds.place.recorded found) grows.store
    obtain ⟨owner, owned⟩ := sound.partitioned.owned inside
    refine ⟨owner, owned, Store.read?_write_same _ _ _ inside, ?_⟩
    intro other address' distinct owned'
    refine Store.read?_write_other _ _ _ _ ?_
    rintro rfl
    exact distinct (sound.partitioned.alone owned' owned)

/-- Every cell of a text-driven session has exactly one owner among all global entries and all slots
of all frames ever made, at every moment of every run and after every end of it. -/
theorem cells_have_one_owner (driven : session.TextDriven programs) :
    session.memory.Partitioned ∧
      (∀ program ∈ programs, ∀ point, Reaches session.limit (session.start program) point →
        point.Owned session.limit) ∧
      (∀ program ∈ programs, (session.evaluateProgram program).2.memory.Partitioned) ∧
      ∀ comments text, (session.evaluateText comments text).2.memory.Partitioned := by
  refine ⟨driven.sound.memory.partitioned, ?_, ?_, ?_⟩
  · intro program known point reached
    exact driven.owned known reached
  · intro program known
    exact (driven.owned known .refl).after
  · intro comments text
    cases converted : Program.ofText comments text with
    | error fault => exact (TextDriven.faultyText driven converted).sound.memory.partitioned
    | ok program => exact (TextDriven.text driven converted).sound.memory.partitioned

theorem cells_have_one_owner_counter :
    counterSession.TextDriven [counterStamped] ∧
      counterSession.memory.address? (.entry 0) = some 1 ∧
      counterSession.memory.address? (.slot 0 0) = some 0 ∧
      counterSession.memory.store.size = 2 ∧ counterSession.memory.Partitioned :=
  ⟨counterSession_textDriven, rfl, rfl, rfl, (cells_have_one_owner counterSession_textDriven).1⟩

end Session

end CellScheme
