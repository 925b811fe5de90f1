import CellScheme.Proofs.Course
import CellScheme.Proofs.Soundness

/-!
Runs in the order of time. A flow is a way for memory to move that every beginning of a nested
evaluation keeps to; memory then flows from any moment of a run to any later one, up to the end of the
run (`Flow.reaches`, `Flow.ordered`). Growth is such a flow (`grows`).
-/
namespace CellScheme

variable {limit : Nat} {start point next : Point} {turn : Turn} {left : Memory} {moment : Nat}

theorem Calls.begins_from (call : Calls limit point turn next)
    (stands : Stands limit point (turn.moment point.task) left) :
    Begins limit point (turn.moment point.task) left next := by
  obtain ⟨left', stands', begins⟩ := call.begins
  rwa [stands.unique stands']

/-- The rest of an evaluation, from a moment at which memory stands: it finishes there, or a nested
evaluation begins; if that succeeds, memory stands again where it ends. -/
theorem Stands.descend {motive : Nat → Memory → Prop}
    (finish : ∀ {moment left}, Stands limit point moment left →
      Finishes limit point moment left → motive moment left)
    (step : ∀ {left turn next}, Calls limit point turn next →
      Stands limit point (turn.moment point.task) left →
      (∀ v after, next.outcome limit = (.ok v, after) →
        motive (turn.moment point.task + 1) after) →
      motive (turn.moment point.task) left)
    (stands : Stands limit point moment left) : motive moment left := by
  induction further : point.task.width - moment generalizing moment left with
  | zero =>
    rcases stands.goes_on with ⟨turn, next, call, rfl⟩ | finishes
    · have bound := call.moment_lt_width
      omega
    · exact finish stands finishes
  | succ further ih =>
    rcases stands.goes_on with ⟨turn, next, call, rfl⟩ | finishes
    · exact step call stands fun v after ended => ih (.after call ended) (by omega)
    · exact finish stands finishes

/-- Induction over the nested evaluations of a run, the inner ones first. -/
theorem Point.nested_induction (limit : Nat) {motive : Point → Prop}
    (step : ∀ point, (∀ turn next, Calls limit point turn next → motive next) → motive point)
    (point : Point) : motive point := by
  induction ranked : point.rank using
    (Prod.lex Nat.lt_wfRel Nat.lt_wfRel).wf.induction generalizing point with
  | _ rank ih =>
    subst ranked
    exact step point fun turn next call => ih next.rank (Point.rank_lt_of_calls call) next rfl

/-- A discipline that holds where an evaluation begins holds wherever memory stands. -/
theorem Stands.holds {D : Discipline} (holds : D.Holds point)
    (stands : Stands limit point moment left) : D.memory left ∧ D.moves point.memory left := by
  cases stands with
  | start => exact ⟨holds.memory, D.refl _⟩
  | after call ended =>
    obtain ⟨good, moved⟩ := Discipline.calls holds call
    have ends := Discipline.ends limit good
    have memory := ends.memory
    have moves := ends.moves
    rw [ended] at memory moves
    exact ⟨memory, D.trans moved moves⟩

/-- A relation between memories, earlier and later, that holds whenever a nested evaluation of a run
begins. -/
structure Flow (limit : Nat) (start : Point) (moves : Memory → Memory → Prop) : Prop where
  refl : ∀ memory, moves memory memory
  trans : ∀ {memory after last}, moves memory after → moves after last → moves memory last
  begins : ∀ {point turn next left}, Reaches limit start point → Calls limit point turn next →
    Stands limit point (turn.moment point.task) left →
    Begins limit point (turn.moment point.task) left next → moves left next.memory

namespace Flow

variable {moves : Memory → Memory → Prop} (flow : Flow limit start moves)
include flow

theorem call (reached : Reaches limit start point) (call : Calls limit point turn next)
    (stands : Stands limit point (turn.moment point.task) left) : moves left next.memory :=
  flow.begins reached call stands (call.begins_from stands)

/-- Memory flows from where it stands to the end of the evaluation, if it does so throughout the
nested ones. -/
theorem ends_of_nested (reached : Reaches limit start point)
    (nested : ∀ turn next, Calls limit point turn next → moves next.memory (next.final limit))
    (stands : Stands limit point moment left) : moves left (point.final limit) := by
  refine Stands.descend (motive := fun _ left => moves left (point.final limit)) ?_ ?_ stands
  · intro moment left _ finishes
    rw [finishes.final]
    exact flow.refl left
  · intro left turn next call stands further
    have inner := flow.trans (flow.call reached call stands) (nested _ _ call)
    rcases ended : next.outcome limit with ⟨e | v, after⟩
    · rw [Point.final, call.outcome_error ended, ← ended]
      exact inner
    · refine flow.trans ?_ (further v after ended)
      rwa [Point.final, ended] at inner

/-- Memory flows from the beginning of an evaluation to its end. -/
theorem run (reached : Reaches limit start point) : moves point.memory (point.final limit) := by
  induction point using Point.nested_induction limit with
  | step point ih =>
    exact flow.ends_of_nested reached (fun _ _ call => ih _ _ call (reached.tail ⟨_, call⟩)) .start

theorem ends (reached : Reaches limit start point) (stands : Stands limit point moment left) :
    moves left (point.final limit) :=
  flow.ends_of_nested reached (fun _ _ call => flow.run (reached.tail ⟨_, call⟩)) stands

/-- Memory flows from the end of a nested evaluation to wherever it stands later. -/
theorem ordered (reached : Reaches limit start point) (call : Calls limit point turn next)
    (later : turn.moment point.task < moment) (stands : Stands limit point moment left) :
    moves (next.final limit) left := by
  induction moment using Nat.strong_induction_on generalizing left with
  | _ moment ih =>
    cases stands with
    | start => cases later
    | after call' ended =>
      rcases Nat.lt_or_eq_of_le (Nat.le_of_lt_succ later) with less | same
      · obtain ⟨before, stands', _⟩ := call'.begins
        have last := flow.run (reached.tail ⟨_, call'⟩)
        rw [Point.final, ended] at last
        exact flow.trans (ih _ (Nat.lt_succ_self _) less stands')
          (flow.trans (flow.call reached call' stands') last)
      · obtain rfl := call.unique call' same
        rw [Point.final, ended]
        exact flow.refl left

/-- Memory flows from the beginning of an evaluation to wherever it stands. -/
theorem stands (reached : Reaches limit start point) (stands : Stands limit point moment left) :
    moves point.memory left := by
  induction moment using Nat.strong_induction_on generalizing left with
  | _ moment ih =>
    cases stands with
    | start => exact flow.refl _
    | after call ended =>
      obtain ⟨before, stands', _⟩ := call.begins
      have last := flow.run (reached.tail ⟨_, call⟩)
      rw [Point.final, ended] at last
      exact flow.trans (ih _ (Nat.lt_succ_self _) stands')
        (flow.trans (flow.call reached call stands') last)

/-- Memory flows from the end of a nested evaluation to the end of the evaluation around it. -/
theorem tail (reached : Reaches limit start point) (call : Calls limit point turn next) :
    moves (next.final limit) (point.final limit) := by
  rcases ended : next.outcome limit with ⟨e | v, after⟩
  · rw [Point.final, Point.final, call.outcome_error ended, ended]
    exact flow.refl after
  · have further := flow.ends reached (.after call ended)
    rwa [Point.final, ended]

/-- Memory flows from the beginning of a run to any of its moments, and from the end of what begins
there to the end of the run. -/
theorem reaches (reached : Reaches limit start point) :
    moves start.memory point.memory ∧ moves (point.final limit) (start.final limit) := by
  induction reached with
  | refl => exact ⟨flow.refl _, flow.refl _⟩
  | tail reached call ih =>
    obtain ⟨_, call⟩ := call
    obtain ⟨before, stands, _⟩ := call.begins
    refine ⟨?_, flow.trans (flow.tail reached call) ih.2⟩
    exact flow.trans ih.1 (flow.trans (flow.stands reached stands) (flow.call reached call stands))

/-- Memory flows from any moment of a run to its end. -/
theorem onwards (reached : Reaches limit start point) :
    moves point.memory (start.final limit) :=
  flow.trans (flow.run reached) (flow.reaches reached).2

end Flow

theorem Begins.grows (begins : Begins limit point moment left next) : left.Grows next.memory := by
  cases begins with
  | kept _ _ _ => exact .refl left
  | define _ _ => exact .define left _ _
  | assign _ _ _ => exact .write left _ _
  | enter _ _ _ => exact .enter left _ _

/-- Memory grows along every run. -/
theorem grows (limit : Nat) (start : Point) : Flow limit start Memory.Grows where
  refl := Memory.Grows.refl
  trans := Memory.Grows.trans
  begins _ _ _ begins := begins.grows

end CellScheme
