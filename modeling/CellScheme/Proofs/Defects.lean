import CellScheme.Proofs.StaticErrors

/-!
Promises between the parts of the interpreter, each kept by a check that stands in another part. The
names and addresses of a frame line up (`extendAll_error_iff`), and an operation that reads its
first argument is given one (`Primitive.run_defect_iff`); no evaluation breaks either of them. Levels
are counted up from the start of a run, and no count goes beyond the limit (`Counts.add_budget`).
-/
namespace CellScheme

open Evaluation

variable {limit : Nat} {start point next : Point} {memory : Memory} {env : Environment}

theorem Error.ne_defect {error : Error} (dynamic : error.isDynamic = true) (cause : Defect) :
    error ≠ .defect cause := by
  rintro rfl
  cases dynamic

/-- A frame made by hand, of lists of different lengths. -/
def isUneven (frame : List String × List Address) : Bool :=
  frame.1.length != frame.2.length

/-- Making frames by hand stops at the first uneven one, and at no other. -/
theorem extendAll_error_iff {frames : List (List String × List Address)} {error : Error} :
    (outcome (extendAll env frames) memory).1 = .error error ↔
      ∃ frame, frames.find? isUneven = some frame ∧
        error = .defect (.misaligned frame.1.length frame.2.length) := by
  induction frames generalizing env memory with
  | nil =>
    refine iff_of_false (fun failure => ?_) ?_
    · cases failure
    · rintro ⟨frame, found, -⟩
      cases found
  | cons frame rest ih =>
    rw [extendAll, List.foldlM_cons, outcome_bind, extend]
    by_cases aligned : frame.1.length = frame.2.length
    · have even : isUneven frame = false := by simp [isUneven, aligned]
      rw [if_pos aligned, List.find?_cons, even]
      exact ih
    · have uneven : isUneven frame = true := by simp [isUneven, aligned]
      rw [if_neg aligned, outcome_throw, List.find?_cons, uneven]
      simp only [Except.error.injEq, Option.some.injEq, exists_eq_left']
      exact eq_comm

namespace Primitive

/-- An operation meets a missing argument when it is run without any and reads the first one. -/
theorem run_defect_iff {p : Primitive} {arguments : List Value} {cause : Defect} :
    p.run arguments = .error (.defect cause) ↔
      p.readsFirst = true ∧ arguments = [] ∧ cause = .argumentMissing p := by
  constructor
  · intro broken
    by_cases reads : p.readsFirst = true ∧ arguments = []
    · obtain ⟨reads, rfl⟩ := reads
      refine ⟨reads, rfl, ?_⟩
      cases p with
      | car | cdr | isNull | isPair | isProcedure =>
        cases broken
        rfl
      | _ => cases reads
    · cases run_operates (fun first none => reads ⟨first, none⟩) _ broken
  · rintro ⟨reads, rfl, rfl⟩
    cases p with
    | car | cdr | isNull | isPair | isProcedure => rfl
    | _ => cases reads

theorem apply_ne_defect (p : Primitive) (arguments : List Value) (cause : Defect) :
    p.apply arguments ≠ .error (.defect cause) := fun broken =>
  nomatch p.apply_operates arguments _ broken

end Primitive

/-- The levels by which the evaluations that a task begins are deeper. What is left of a sequence is
on the level of its forms. -/
def Task.levels : Task → Nat
  | .expr _ | .body _ => 1
  | .rest _ _ => 0

/-- The depth of a point of a run: levels are counted up from the start, call by call. -/
inductive Counts (limit : Nat) (start : Point) : Point → Nat → Prop
  | start : Counts limit start start 0
  | call {point turn next depth} : Counts limit start point depth → Calls limit point turn next →
    Counts limit start next (depth + point.task.levels)

theorem Calls.levels_add_budget {turn : Turn} (call : Calls limit point turn next) :
    point.task.levels + next.budget = point.budget := by
  cases call <;> simp [Task.levels, Nat.add_comm]

/-- What has been counted and what is left make up what there was. -/
theorem Counts.add_budget {depth : Nat} (counts : Counts limit start point depth) :
    depth + point.budget = start.budget := by
  induction counts with
  | start => exact Nat.zero_add _
  | call _ call ih => rw [Nat.add_assoc, call.levels_add_budget, ih]

theorem Reaches.counts (reached : Reaches limit start point) :
    ∃ depth, Counts limit start point depth := by
  induction reached with
  | refl => exact ⟨0, .start⟩
  | tail _ step ih =>
    obtain ⟨depth, counts⟩ := ih
    obtain ⟨turn, call⟩ := step
    exact ⟨_, counts.call call⟩

namespace Session

variable {session : Session} {cause : Defect}

/-- Under frames made by hand, an evaluation meets the defect of the first uneven one, and no
other. -/
theorem defect_under_iff {frames : List (List String × List Address)}
    {evaluation : Environment → Evaluation Value}
    (dynamic : ∀ env memory error, (outcome (evaluation env) memory).1 = .error error →
      error.isDynamic = true) :
    (session.perform (extendAll .global frames >>= evaluation)).1 = .error (.defect cause) ↔
      ∃ frame, frames.find? isUneven = some frame ∧
        cause = .misaligned frame.1.length frame.2.length := by
  have made : (outcome (extendAll .global frames) session.memory).1 = .error (.defect cause) ↔ _ :=
    extendAll_error_iff
  simp only [Error.defect.injEq] at made
  change (outcome (extendAll .global frames >>= evaluation) session.memory).1 = _ ↔ _
  rw [outcome_bind]
  generalize outcome (extendAll .global frames) session.memory = ended at made ⊢
  rcases ended with ⟨error | env, left⟩
  · simp only [Except.error.injEq] at made ⊢
    exact made
  · refine iff_of_false (fun broken => ?_) fun uneven => ?_
    · exact Error.ne_defect (dynamic env left _ broken) cause rfl
    · cases made.mpr uneven

theorem evaluateText_ne_defect (session : Session) (comments : Bool) (text : String)
    (cause : Defect) : (session.evaluateText comments text).1 ≠ .error (.defect cause) := by
  intro broken
  cases converted : Program.ofText comments text with
  | ok program =>
    rw [evaluateText_of_ok converted] at broken
    exact Error.ne_defect (evaluateBody_error broken) cause rfl
  | error fault =>
    rw [evaluateText_of_error converted] at broken
    cases broken
    cases Program.ofText_eq_error converted

/-- No promise between the parts of the interpreter is broken by an evaluation, whatever the session
and its limit, the code and the environment. Whatever is evaluated, and every evaluation nested in
it, ends in a result or in an error that is no defect; a defect under frames made by hand is that
of the first uneven frame, which could not be made. Applied to arguments, an operation never finds
its first one missing, though those that read it would when run alone. The depth of a point of a run
and the levels left there make up the limit, so a depth never leaves a word that holds the limit,
nor does that of the evaluations that the point begins. -/
theorem evaluation_meets_no_defect (session : Session) :
    (∀ env expr error, (session.evaluate env expr).1 = .error error →
      error.isDynamic = true ∧ ∀ cause, error ≠ .defect cause) ∧
    (∀ env forms error, (session.evaluateBody env forms).1 = .error error →
      error.isDynamic = true ∧ ∀ cause, error ≠ .defect cause) ∧
    (∀ comments text cause, (session.evaluateText comments text).1 ≠ .error (.defect cause)) ∧
    (∀ frames expr cause, (session.evaluateExprIn frames expr).1 = .error (.defect cause) ↔
      ∃ frame, frames.find? isUneven = some frame ∧
        cause = .misaligned frame.1.length frame.2.length) ∧
    (∀ frames forms cause, (session.evaluateFormsIn frames forms).1 = .error (.defect cause) ↔
      ∃ frame, frames.find? isUneven = some frame ∧
        cause = .misaligned frame.1.length frame.2.length) ∧
    (∀ (p : Primitive) arguments cause, p.apply arguments ≠ .error (.defect cause) ∧
      (p.run arguments = .error (.defect cause) ↔
        p.readsFirst = true ∧ arguments = [] ∧ cause = .argumentMissing p)) ∧
    ∀ env task point,
      Reaches session.limit ⟨session.limit, env, task, session.memory⟩ point →
      (∀ cause, (point.outcome session.limit).1 ≠ .error (.defect cause)) ∧
        (∃ depth, Counts session.limit ⟨session.limit, env, task, session.memory⟩ point depth) ∧
        ∀ depth, Counts session.limit ⟨session.limit, env, task, session.memory⟩ point depth →
          depth + point.budget = session.limit ∧
          ∀ turn next, Calls session.limit point turn next →
            depth + point.task.levels ≤ session.limit := by
  refine ⟨?_, ?_, session.evaluateText_ne_defect, ?_, ?_, ?_, ?_⟩
  · intro env expr error ends
    have dynamic := evaluate_error ends
    exact ⟨dynamic, Error.ne_defect dynamic⟩
  · intro env forms error ends
    have dynamic := evaluateBody_error ends
    exact ⟨dynamic, Error.ne_defect dynamic⟩
  · intro frames expr cause
    exact defect_under_iff fun env memory error => evaluate_error
  · intro frames forms cause
    exact defect_under_iff fun env memory error => evaluateBody_error
  · exact fun p arguments cause => ⟨p.apply_ne_defect arguments cause, Primitive.run_defect_iff⟩
  · intro env task point reached
    refine ⟨fun cause broken => Error.ne_defect (Point.outcome_error broken) cause rfl,
      reached.counts, fun depth counts => ⟨counts.add_budget, fun turn next call => ?_⟩⟩
    have total := counts.add_budget
    have levels := call.levels_add_budget
    dsimp only at total
    omega

end Session

end CellScheme
