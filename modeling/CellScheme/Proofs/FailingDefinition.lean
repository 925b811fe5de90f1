import CellScheme.Proofs.Activation
import CellScheme.Session

/-!
What a definition leaves behind whose value cannot be computed. It makes no cell and no global entry
of its own (`outcome_define_error`). But what its value has done before it failed stays done: a `let`
that was entered and a closure that was applied have made cells, and may have defined and assigned.
A value that has entered no body leaves memory as it was, and no other value does
(`Session.failing_definition_keeps_memory_iff`).
-/
namespace CellScheme

open Evaluation

variable {limit : Nat} {start point next : Point} {turn : Turn}

/-- No body is begun in a run, neither of a `let` nor of a closure. -/
def Point.EntersNoBody (limit : Nat) (start : Point) : Prop :=
  ∀ point, Reaches limit start point → ∀ forms, point.task ≠ .body forms

/-- The evaluation of an expression begins with expressions and bodies only. -/
theorem Calls.task_of_expr (call : Calls limit point turn next) {tree : Expr}
    (expr : point.task = .expr tree) :
    (∃ part, next.task = .expr part) ∨ ∃ forms, next.task = .body forms := by
  cases call with
  | test | consequent | alternative | bound | operator | operand => exact .inl ⟨_, rfl⟩
  | letBody | application => exact .inr ⟨_, rfl⟩
  | forms | defined | afterDefine | assigned | afterAssign | element | afterElement => cases expr

namespace Point.EntersNoBody

variable {tree : Expr}

/-- Definitions and assignments stand in bodies, so such a run comes to expressions only. -/
theorem expr (bodiless : start.EntersNoBody limit) (begun : start.task = .expr tree)
    (reached : Reaches limit start point) : ∃ part, point.task = .expr part := by
  induction reached with
  | refl => exact ⟨tree, begun⟩
  | tail before called ih =>
    obtain ⟨part, within⟩ := ih
    obtain ⟨turn, call⟩ := called
    rcases call.task_of_expr within with expr | ⟨forms, body⟩
    · exact expr
    · exact absurd body (bodiless _ (before.tail ⟨turn, call⟩) forms)

/-- Memory stands still along such a run. -/
theorem still (bodiless : start.EntersNoBody limit) (begun : start.task = .expr tree) :
    Flow limit start (· = ·) where
  refl _ := rfl
  trans := Eq.trans
  begins := by
    intro point turn next left reached call _ begins
    obtain ⟨part, within⟩ := bodiless.expr begun reached
    cases begins with
    | kept _ _ _ => rfl
    | define task _ | assign task _ _ => cases within.symm.trans task
    | enter _ _ _ => exact absurd rfl (bodiless _ (reached.tail ⟨turn, call⟩) _)

end Point.EntersNoBody

/-- The evaluation of an expression leaves memory as it was just if it enters no body. With a body it
has made a frame. -/
theorem Point.final_eq_iff {tree : Expr} (begun : start.task = .expr tree) :
    start.final limit = start.memory ↔ start.EntersNoBody limit := by
  constructor
  · intro same point reached forms body
    obtain ⟨moments, at_⟩ := Reaches.exists_at reached
    have later : moments ≠ [] := by
      rintro rfl
      rw [at_.eq_start, begun] at body
      cases body
    have entered := at_.frames_lt later body
    have kept := ((grows limit start).onwards reached).frames_size
    rw [same] at kept
    omega
  · intro bodiless
    exact ((bodiless.still begun).run .refl).symm

variable {budget : Nat} {env : Environment} {memory left : Memory} {name : String} {value : Expr}
  {rest : List Form} {error : Error}

/-- A definition whose value fails ends as its value does, and the forms behind it do not run. -/
theorem outcome_define_error (result : Value)
    (fails : outcome (evaluate limit budget .global value) memory = (.error error, left)) :
    outcome (evaluateForms (evaluate limit budget) env result (.define name value :: rest)) memory
      = (.error error, left) := by
  rw [evaluateForms, outcome_bind, fails]

namespace Session

/-- A definition whose value fails, wherever it stands, leaves what its value has left when it
failed, and nothing of its own. That is the memory from before the definition just if no body was
begun on the way, neither of a `let` nor of a closure. -/
theorem failing_definition_keeps_memory_iff (session : Session) (budget : Nat) (env : Environment)
    (result : Value) (name : String) (value : Expr) (rest : List Form) (error : Error)
    (left : Memory)
    (fails : outcome (CellScheme.evaluate session.limit budget .global value) session.memory
      = (.error error, left)) :
    outcome (evaluateForms (CellScheme.evaluate session.limit budget) env result
        (.define name value :: rest)) session.memory = (.error error, left) ∧
      outcome (CellScheme.evaluateBody session.limit (budget + 1) env (.define name value :: rest))
        session.memory = (.error error, left) ∧
      (left = session.memory ↔
        Point.EntersNoBody session.limit ⟨budget, .global, .expr value, session.memory⟩) := by
  let start : Point := ⟨budget, .global, .expr value, session.memory⟩
  have ended : start.final session.limit = left := congrArg Prod.snd fails
  refine ⟨outcome_define_error result fails, ?_, ?_⟩
  · rw [CellScheme.evaluateBody.eq_def]
    exact outcome_define_error .unspecified fails
  · rw [← ended]
    exact Point.final_eq_iff rfl

/-- The application of `car` to the empty list. -/
def carOfNothing : Expr :=
  .apply (.primitive .car) [.quoted (.list [])]

theorem failing_definition_keeps_memory_iff_car :
    outcome (CellScheme.evaluateBody 256 256 .global [.define "bad" carOfNothing]) {}
        = (.error (.run (.emptyList .car)), {}) ∧
      Point.EntersNoBody 256 ⟨255, .global, .expr carOfNothing, {}⟩ := by
  have fails : outcome (CellScheme.evaluate 256 255 .global carOfNothing) {}
      = (.error (.run (.emptyList .car)), {}) := rfl
  obtain ⟨-, body, kept⟩ := failing_definition_keeps_memory_iff {} 255 .global .unspecified "bad"
    carOfNothing [] (.run (.emptyList .car)) {} fails
  exact ⟨body, kept.mp rfl⟩

/-- The application of a closure that assigns `c` and defines `z` before it fails. -/
def tracingFailure : Expr :=
  .apply (.lambda 0 ["y"] [.assign "c" (.string "new"), .define "z" (.boolean true),
    .expr carOfNothing]) [.boolean false]

/-- A session in which `c` has been defined. -/
def definedSession : Session :=
  { memory := ({} : Memory).define "c" (.string "old") }

/-- A failing definition can leave new cells, new global entries and other contents of old cells. -/
theorem failing_definition_leaves_traces :
    ¬ ∀ (session : Session) (name : String) (value : Expr) (error : Error),
      (session.evaluateProgram [.define name value]).1 = .error error →
        (session.evaluateProgram [.define name value]).2.memory.store = session.memory.store ∧
        (session.evaluateProgram [.define name value]).2.memory.globals
          = session.memory.globals := by
  intro traceless
  obtain ⟨-, globals⟩ :=
    traceless definedSession "x" tracingFailure (.run (.emptyList .car)) rfl
  have left : (definedSession.evaluateProgram [.define "x" tracingFailure]).2.memory.globals.bindings
      = [("c", 0), ("z", 2)] := rfl
  rw [globals] at left
  cases left

end Session

end CellScheme
