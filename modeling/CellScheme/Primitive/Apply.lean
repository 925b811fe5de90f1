import CellScheme.Primitive.Arithmetic
import CellScheme.Value.Equality
import CellScheme.Value.Print

/-!
What each primitive computes. `Primitive.apply` checks the number of arguments and then runs the
operation, so `Primitive.run` never meets a count that its arity rules out.
-/
namespace CellScheme

namespace Value

def toFixnum (value : Value) : Except Error Fixnum :=
  match value with
  | .number n => pure n
  | other => throw (.type (.notANumber other.display))

end Value

namespace Primitive

/-- One argument as a number, on behalf of a primitive. -/
def numberArgument (p : Primitive) (argument : Value) : Except Error Fixnum :=
  match argument with
  | .number n => pure n
  | other => throw (.type (.numbersRequired p other.display))

def stringArgument (p : Primitive) (argument : Value) : Except Error String :=
  match argument with
  | .string text => pure text
  | other => throw (.type (.stringsRequired p other.display))

def listArgument (p : Primitive) (argument : Value) : Except Error (List Value) :=
  match argument with
  | .list items => pure items
  | other => throw (.type (.listRequired p other.display))

def soleArgument (p : Primitive) : List Value → Except Error Value
  | argument :: _ => pure argument
  | [] => throw (.defect (.argumentMissing p))

/-- A relation holds along a chain when it holds between neighbours. -/
def chained {α : Type} (relation : α → α → Bool) : List α → Bool
  | left :: right :: rest => relation left right && chained relation (right :: rest)
  | _ => true

/-- Compares numbers along the argument list; every argument must be a number. -/
def compare (p : Primitive) (relation : Int → Int → Bool) (arguments : List Value) :
    Except Error Value := do
  let numbers ← arguments.mapM p.numberArgument
  return .boolean (chained relation (numbers.map Fixnum.val))

/-- The first false argument, or else the last argument; `#t` for none. -/
def conjunction (arguments : List Value) : Value :=
  match arguments.find? fun argument => !argument.isTrue with
  | some falsy => falsy
  | none => arguments.getLast?.getD (.boolean true)

/-- The first true argument; `#f` for none. -/
def disjunction (arguments : List Value) : Value :=
  (arguments.find? Value.isTrue).getD (.boolean false)

/-- How an argument appears in a raised message: strings as they are, all else in printed form. -/
def messagePart : Value → String
  | .string text => text
  | other => other.display

def raisedText : List Value → String
  | [] => "Error"
  | parts => " ".intercalate (parts.map messagePart)

/-- Tests the only argument of a predicate; any other number of arguments fails the test. -/
def test (holds : Value → Bool) : List Value → Except Error Value
  | [argument] => pure (.boolean (holds argument))
  | _ => pure (.boolean false)

/-- Tests the first argument, which must be there. -/
def testFirst (p : Primitive) (holds : Value → Bool) (arguments : List Value) :
    Except Error Value := do
  return .boolean (holds (← p.soleArgument arguments))

def compareTwo (relation : Value → Value → Bool) : List Value → Except Error Value
  | [left, right] => pure (.boolean (relation left right))
  | arguments => throw (.arity 2 arguments.length none)

/-- Runs the operation itself, without the check on the number of arguments. -/
def run (p : Primitive) (arguments : List Value) : Except Error Value :=
  match p with
  | .add => do return .number (← Arithmetic.sum (← arguments.mapM p.numberArgument))
  | .subtract => do return .number (← Arithmetic.difference (← arguments.mapM p.numberArgument))
  | .multiply => do return .number (← Arithmetic.product (← arguments.mapM p.numberArgument))
  | .divide => do return .number (← Arithmetic.quotient (← arguments.mapM p.numberArgument))
  | .equals => p.compare (fun left right => left == right) arguments
  | .less => p.compare (fun left right => left < right) arguments
  | .greater => p.compare (fun left right => left > right) arguments
  | .atMost => p.compare (fun left right => left ≤ right) arguments
  | .atLeast => p.compare (fun left right => left ≥ right) arguments
  | .not => test (fun argument => !argument.isTrue) arguments
  | .and => pure (conjunction arguments)
  | .or => pure (disjunction arguments)
  | .isIdentical => compareTwo Value.identical arguments
  | .isEqual => compareTwo Value.equal arguments
  | .isSameString => do
    return .boolean (chained (fun left right => left == right) (← arguments.mapM p.stringArgument))
  | .cons =>
    match arguments with
    | [first, .list rest] => pure (.list (first :: rest))
    | [_, other] => throw (.type (.listTailRequired other.display))
    | _ => throw (.arity 2 arguments.length none)
  | .car => do
    match ← p.listArgument (← p.soleArgument arguments) with
    | first :: _ => pure first
    | [] => throw (.run (.emptyList p))
  | .cdr => do
    match ← p.listArgument (← p.soleArgument arguments) with
    | _ :: rest => pure (.list rest)
    | [] => throw (.run (.emptyList p))
  | .list => pure (.list arguments)
  | .isNull => p.testFirst Value.isNull arguments
  | .isPair => p.testFirst (fun | .list (_ :: _) => true | _ => false) arguments
  | .isList => test (fun | .list _ => true | _ => false) arguments
  | .isNumber => test (fun | .number _ => true | _ => false) arguments
  | .isBoolean => test (fun | .boolean _ => true | _ => false) arguments
  | .isString => test (fun | .string _ => true | _ => false) arguments
  | .isSymbol => test (fun | .symbol _ => true | _ => false) arguments
  | .isProcedure => p.testFirst Value.isProcedure arguments
  | .appendStrings => do
    return .string (String.join (← arguments.mapM p.stringArgument))
  | .raise => throw (.run (.raised (raisedText arguments)))

def apply (p : Primitive) (arguments : List Value) : Except Error Value := do
  p.arity.check arguments.length
  p.run arguments

end Primitive

end CellScheme
