import CellScheme.Proofs.Call
import CellScheme.Session

/-!
A `let` is the immediate application of a `lambda` (`Session.let_is_application`). The two take
separate ways: a `let` enters the frame of its body itself, while an application makes a closure
first, checks the number of its arguments, and then enters the frame that the closure asks for.

The operator of an application is evaluated one level down. With a single level left the application
therefore ends at its operator, where a `let` ends at its first binding or at its body. Only a `let`
without bindings has made a frame by then, and a frame by itself is nothing that can be seen.
-/
namespace CellScheme

open Evaluation

/-- A `lambda` whose parameters are the names of some bindings, applied to their values in order. -/
def Expr.appliedLambda (stamp : Nat) (bindings : List (String × Expr)) (body : List Form) : Expr :=
  .apply (.lambda stamp (bindings.map Prod.fst) body) (bindings.map Prod.snd)

/-- What can be seen when an evaluation has ended: its result, the cells and the global entries. -/
def Evaluation.shown (ended : Except Error Value × Memory) :
    Except Error Value × Store × GlobalTable :=
  (ended.1, ended.2.store, ended.2.globals)

variable {limit budget stamp : Nat} {env : Environment} {memory : Memory}
  {bindings : List (String × Expr)} {body : List Form}

/-- Two continuations that agree wherever a computation leaves off agree behind it. -/
theorem Evaluation.outcome_bind_congr {α β : Type} {first : Evaluation α}
    {next next' : α → Evaluation β}
    (agree : ∀ result left, outcome first memory = (.ok result, left) →
      outcome (next result) left = outcome (next' result) left) :
    outcome (first >>= next) memory = outcome (first >>= next') memory := by
  rw [outcome_bind, outcome_bind]
  rcases ended : outcome first memory with ⟨error | result, left⟩
  · rfl
  · exact agree result left ended

/-- The operands of the application are the values of the bindings. -/
theorem mapM_values : (bindings.map Prod.snd).mapM (evaluate limit budget env)
    = bindings.mapM fun binding => evaluate limit budget env binding.2 := by
  rw [List.mapM_map]
  rfl

/-- A closure with one parameter for each argument is entered like the frame of a `let`. -/
theorem applyProcedure_closure {evaluateBody : Environment → List Form → Evaluation Value}
    {params : List String} {arguments : List Value} {captured : Environment}
    (aligned : params.length = arguments.length) :
    applyProcedure evaluateBody (.closure stamp params body captured) arguments
      = enter captured params arguments >>= fun inner => evaluateBody inner body := by
  rw [applyProcedure, if_pos aligned]

/-- As long as the operator has a level of its own, the two ways leave the same memory. -/
theorem outcome_appliedLambda :
    outcome (evaluate limit (budget + 2) env (.appliedLambda stamp bindings body)) memory
      = outcome (evaluate limit (budget + 2) env (.letIn bindings body)) memory := by
  have operator : evaluate limit (budget + 1) env (.lambda stamp (bindings.map Prod.fst) body)
      = pure (.closure stamp (bindings.map Prod.fst) body env) := by
    rw [evaluate]
  rw [Expr.appliedLambda, evaluate, evaluate, operator, pure_bind, mapM_values]
  refine outcome_bind_congr fun values left ended => ?_
  have aligned : (bindings.map Prod.fst).length = values.length := by
    rw [List.length_map, length_of_outcome_mapM ended]
  rw [applyProcedure_closure aligned]

/-- With no level left below it, the application ends at its operator. -/
theorem outcome_appliedLambda_last :
    outcome (evaluate limit 1 env (.appliedLambda stamp bindings body)) memory
      = (.error (.run (.depthLimit limit)), memory) := by
  rw [Expr.appliedLambda, evaluate, outcome_bind, evaluate]
  rfl

/-- With no level left below it, a `let` ends in the same way, though one without bindings makes a
frame first. -/
theorem shown_letIn_last : shown (outcome (evaluate limit 1 env (.letIn bindings body)) memory)
    = (.error (.run (.depthLimit limit)), memory.store, memory.globals) := by
  rw [evaluate]
  cases bindings with
  | nil =>
    have entered : outcome (enter env [] []) memory
        = (.ok (memory.newFrame [] :: env), memory.enter [] []) := outcome_enter_eq rfl
    have cut (inner : Environment) :
        evaluateBody limit 0 inner body = throw (.run (.depthLimit limit)) := by
      rw [evaluateBody.eq_def]
    rw [List.mapM_nil, pure_bind, List.map_nil, outcome_bind, entered]
    simp only [cut]
    simp [shown, Memory.enter, Memory.allocateAll, Memory.recordFrame, Store.allocateAll]
  | cons binding rest =>
    rw [List.mapM_cons, evaluate]
    rfl

/-- A `let` is the immediate application of a `lambda`: in every state, environment and depth, and
under every limit, both have the same result or the same error, and leave the same cells and global
entries. As long as there are levels for the operator and its closure, they leave the same memory. -/
theorem Session.let_is_application (session : Session) (depth : Nat) (env : Environment)
    (bindings : List (String × Expr)) (body : List Form) (stamp : Nat) :
    let ended expr := outcome (CellScheme.evaluate session.limit (session.limit - depth) env expr)
      session.memory
    shown (ended (.letIn bindings body)) = shown (ended (.appliedLambda stamp bindings body)) ∧
      (depth + 2 ≤ session.limit →
        ended (.letIn bindings body) = ended (.appliedLambda stamp bindings body)) := by
  intro ended
  match levels : session.limit - depth with
  | 0 =>
    refine ⟨?_, fun enough => by omega⟩
    simp only [ended, levels]
    rw [CellScheme.evaluate, CellScheme.evaluate]
  | 1 =>
    refine ⟨?_, fun enough => by omega⟩
    simp only [ended, levels]
    rw [shown_letIn_last, outcome_appliedLambda_last]
    rfl
  | budget + 2 =>
    have same : ended (.letIn bindings body) = ended (.appliedLambda stamp bindings body) := by
      simp only [ended, levels]
      exact outcome_appliedLambda.symm
    exact ⟨congrArg shown same, fun _ => same⟩

end CellScheme
