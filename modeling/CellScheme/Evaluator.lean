import CellScheme.Memory
import CellScheme.Primitive.Apply

/-!
Evaluation. Every nested evaluation of an operand, test, branch, bound value or body counts as
one level; the budget is the number of levels that are left below the limit. The limit itself is
passed along only for the error that reports it.

A definition binds globally wherever it stands, its value is computed in the global environment,
and the forms after it in the same sequence are evaluated there too.
-/
namespace CellScheme

open Evaluation

/-- Evaluates the forms of a sequence in order, given how to evaluate an expression. The value of
the last form is the result; definitions and assignments have the unspecified value. -/
@[specialize]
def evaluateForms (evaluate : Environment → Expr → Evaluation Value) (env : Environment)
    (result : Value) : List Form → Evaluation Value
  | [] => return result
  | .define name value :: rest => do
    let content ← evaluate .global value
    modify fun memory => memory.define name content
    evaluateForms evaluate .global .unspecified rest
  | .assign name value :: rest => do
    let address ← resolve env name
    let content ← evaluate env value
    modify fun memory => memory.write address content
    evaluateForms evaluate env .unspecified rest
  | .expr body :: rest => do
    let value ← evaluate env body
    evaluateForms evaluate env value rest

/-- Applies a value to evaluated arguments, given how to evaluate a body. The number of arguments
is checked before any cell is allocated for them. -/
@[specialize]
def applyProcedure (evaluateBody : Environment → List Form → Evaluation Value)
    (procedure : Value) (arguments : List Value) : Evaluation Value :=
  match procedure with
  | .primitive p => liftM (p.apply arguments)
  | .closure _ params body captured =>
    if params.length = arguments.length then do
      evaluateBody (← enter captured params arguments) body
    else throw (.arity params.length arguments.length none)
  | other => throw (.badProcedure other.display)

mutual

def evaluate (limit : Nat) : Nat → Environment → Expr → Evaluation Value
  | 0, _, _ => throw (.run (.depthLimit limit))
  | budget + 1, env, expr =>
    match expr with
    | .number n => return .number n
    | .boolean truth => return .boolean truth
    | .string text => return .string text
    | .primitive p => return .primitive p
    | .quoted datum => return datum
    | .variable name => do fetch (← resolve env name)
    | .conditional test consequent alternative => do
      if (← evaluate limit budget env test).isTrue then evaluate limit budget env consequent
      else evaluate limit budget env alternative
    | .lambda stamp params body => return .closure stamp params body env
    | .letIn bindings body => do
      let values ← bindings.mapM fun binding => evaluate limit budget env binding.2
      let inner ← enter env (bindings.map Prod.fst) values
      evaluateBody limit budget inner body
    | .apply operator operands => do
      let procedure ← evaluate limit budget env operator
      let arguments ← operands.mapM (evaluate limit budget env)
      applyProcedure (evaluateBody limit budget) procedure arguments

def evaluateBody (limit : Nat) : Nat → Environment → List Form → Evaluation Value
  | 0, _, _ => throw (.run (.depthLimit limit))
  | _ + 1, _, [] => throw .emptyProgram
  | budget + 1, env, forms => evaluateForms (evaluate limit budget) env .unspecified forms

end

end CellScheme
