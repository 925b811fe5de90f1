import CellScheme.Proofs.Flow

/-!
Where the values of a run come from. An origin is a kind of value that a run starts with and makes
nothing else than; then all of its values are of that kind, at every moment (`Origin.reaches`) and at
every end (`Origin.run`).
-/
namespace CellScheme

variable {limit : Nat} {start point next : Point} {turn : Turn} {left : Memory} {moment : Nat}

/-- All cells hold values of a kind. -/
def Memory.AllCells (good : Value → Prop) (memory : Memory) : Prop :=
  ∀ (address : Address) (v : Value), memory.store.read? address = some v → good v

theorem Memory.AllCells.mono {good wider : Value → Prop} {memory : Memory}
    (cells : memory.AllCells good) (weaker : ∀ v, good v → wider v) : memory.AllCells wider :=
  fun address v found => weaker v (cells address v found)

/-- A point begins with values of a kind only: in cells and as the result so far. -/
structure Point.Stocked (good : Value → Prop) (point : Point) : Prop where
  cells : point.memory.AllCells good
  result : ∀ v forms, point.task = .rest v forms → good v

/-- A point ends with values of a kind only: in cells and as the result. -/
structure Point.Leaves (limit : Nat) (good : Value → Prop) (point : Point) : Prop where
  cells : (point.final limit).AllCells good
  value : ∀ v, (point.outcome limit).1 = .ok v → good v

/-- A kind of value that literals have, and what is assembled from values of that kind; and that is
had by all that the code of a run quotes, and by the closures that its `lambda` places make. -/
structure Origin (limit : Nat) (start : Point) (good : Value → Prop) : Prop where
  literal : ∀ {v}, v.isLiteral = true → good v
  assembled : ∀ {arguments v}, (∀ argument ∈ arguments, good argument) → v.IsAssembled arguments →
    good v
  quoted : ∀ {point datum}, Reaches limit start point → point.task = .expr (.quoted datum) →
    good datum
  lambda : ∀ {point stamp params body}, Reaches limit start point →
    point.task = .expr (.lambda stamp params body) → good (.closure stamp params body point.env)

/-- What a nested evaluation begins with when memory and all answers so far are of a kind. -/
theorem Begins.stocked {good : Value → Prop} (begins : Begins limit point moment left next)
    (literal : ∀ {v}, v.isLiteral = true → good v) (cells : left.AllCells good)
    (answers : ∀ v, Answered limit point moment v → good v) : next.Stocked good := by
  cases begins with
  | kept _ _ result =>
    refine ⟨cells, fun v forms task => ?_⟩
    rcases result v forms task with rfl | answered
    · exact literal rfl
    · exact answers v answered
  | define _ answered =>
    constructor
    · intro address v found
      rcases Memory.read?_define found with rfl | old
      · exact answers _ answered
      · exact cells address v old
    · rintro _ _ ⟨⟩
      exact literal rfl
  | assign _ _ answered =>
    constructor
    · intro address v found
      rcases Memory.read?_write found with rfl | old
      · exact answers _ answered
      · exact cells address v old
    · rintro _ _ ⟨⟩
      exact literal rfl
  | enter _ answered _ =>
    constructor
    · intro address v found
      rcases Memory.read?_enter found with new | old
      · exact answers _ (answered _ new)
      · exact cells address v old
    · rintro _ _ ⟨⟩

/-- Wherever memory stands, its values are of a kind, and nested evaluations before that moment begin
with values of the kind only, if they all leave such values when they begin with them. -/
theorem Point.Stocked.course {good : Value → Prop} (stocked : point.Stocked good)
    (literal : ∀ {v}, v.isLiteral = true → good v)
    (nested : ∀ turn next, Calls limit point turn next → next.Stocked good →
      next.Leaves limit good) (moment : Nat) :
    (∀ left, Stands limit point moment left → left.AllCells good) ∧
      ∀ turn next, Calls limit point turn next → turn.moment point.task < moment →
        next.Stocked good := by
  induction moment with
  | zero =>
    constructor
    · intro left stands
      generalize none : 0 = moment at stands
      cases stands with
      | start => exact stocked.cells
      | after => cases none
    · intro _ _ _ before
      cases before
  | succ moment ih =>
    have begun : ∀ turn next, Calls limit point turn next → turn.moment point.task < moment + 1 →
        next.Stocked good := by
      intro turn next call before
      rcases Nat.lt_or_eq_of_le (Nat.le_of_lt_succ before) with less | rfl
      · exact ih.2 turn next call less
      obtain ⟨left, stands, begins⟩ := call.begins
      refine begins.stocked literal (ih.1 left stands) ?_
      rintro v ⟨turn', next', after, call', earlier, ended⟩
      exact (nested _ _ call' (ih.2 _ _ call' earlier)).value v (by rw [ended])
    refine ⟨?_, begun⟩
    intro left stands
    generalize same : moment + 1 = moment' at stands
    cases stands with
    | start => cases same
    | after call ended =>
      have leaves := nested _ _ call (begun _ _ call (by omega))
      have cells := leaves.cells
      rwa [Point.final, ended] at cells

namespace Origin

variable {good : Value → Prop} (origin : Origin limit start good)
include origin

/-- An evaluation that begins with values of the kind leaves values of the kind. -/
theorem run (reached : Reaches limit start point) (stocked : point.Stocked good) :
    point.Leaves limit good := by
  induction point using Point.nested_induction limit with
  | step point ih =>
    have nested : ∀ turn next, Calls limit point turn next → next.Stocked good →
        next.Leaves limit good := fun _ _ call => ih _ _ call (reached.tail ⟨_, call⟩)
    have beginning : Stands limit point 0 point.memory := .start
    refine beginning.descend (motive := fun _ _ => point.Leaves limit good) ?_ ?_
    · intro moment left stands finishes
      obtain ⟨cells, begun⟩ := stocked.course origin.literal nested moment
      have answers : ∀ v, Answered limit point moment v → good v := by
        rintro v ⟨turn, next, after, call, before, ended⟩
        exact (nested _ _ call (begun _ _ call before)).value v (by rw [ended])
      refine ⟨by rw [finishes.final]; exact cells left stands, fun v ended => ?_⟩
      cases finishes.yields v ended with
      | literal literal => exact origin.literal literal
      | quoted task => exact origin.quoted reached task
      | lambda task => exact origin.lambda reached task
      | fetched read => exact cells left stands _ _ read
      | assembled answered assembled =>
        exact origin.assembled (fun argument member => answers _ (answered argument member)) assembled
      | answered answered => exact answers v answered
      | kept task => exact stocked.result v [] task
    · intro left turn next call stands further
      rcases ended : next.outcome limit with ⟨e | v, after⟩
      · obtain ⟨_, begun⟩ := stocked.course origin.literal nested (turn.moment point.task + 1)
        have leaves := nested _ _ call (begun _ _ call (Nat.lt_succ_self _))
        have failed := call.outcome_error ended
        refine ⟨?_, by simp [failed]⟩
        have cells := leaves.cells
        rwa [Point.final, ended, ← failed] at cells
      · exact further v after ended

/-- A run that begins with values of the kind has no other ones at any moment. -/
theorem reaches (stocked : start.Stocked good) (reached : Reaches limit start point) :
    point.Stocked good := by
  induction reached with
  | refl => exact stocked
  | tail reached call ih =>
    obtain ⟨turn, call⟩ := call
    have nested : ∀ turn next, Calls limit _ turn next → next.Stocked good →
        next.Leaves limit good := fun _ _ call => origin.run (reached.tail ⟨_, call⟩)
    exact (ih.course origin.literal nested _).2 _ _ call (Nat.lt_succ_self _)

end Origin

end CellScheme
