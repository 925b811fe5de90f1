import CellScheme.Environment
import CellScheme.Primitive
import CellScheme.SourceError

/-!
Every way in which reading or running a program can fail, by cause, and the one function that
words each of them. A value that a message shows is kept in its printed form.
-/
namespace CellScheme

inductive TypeFault where
  | notANumber (shown : String)
  | numbersRequired (p : Primitive) (shown : String)
  | stringsRequired (p : Primitive) (shown : String)
  | listRequired (p : Primitive) (shown : String)
  | listTailRequired (shown : String)
  | described (text : String)
  deriving DecidableEq, Repr

namespace TypeFault

def message : TypeFault → String
  | .notANumber shown => "expected number, got " ++ shown
  | .numbersRequired p shown => p.name ++ " requires numbers, got " ++ shown
  | .stringsRequired p shown => p.name ++ " requires strings, got " ++ shown
  | .listRequired p shown => p.name ++ " requires a list, got " ++ shown
  | .listTailRequired shown => "cons requires a list as second argument, got " ++ shown
  | .described text => text

end TypeFault

/-- A single arithmetic step. -/
inductive Operation where
  | addition
  | negation
  | subtraction
  | multiplication
  | division
  deriving DecidableEq, Repr

def Operation.name : Operation → String
  | .addition => "addition"
  | .negation => "negation"
  | .subtraction => "subtraction"
  | .multiplication => "multiplication"
  | .division => "division"

inductive RunFault where
  | overflow (step : Operation)
  | divisionByZero
  | emptyList (p : Primitive)
  | depthLimit (limit : Nat)
  | raised (text : String)
  deriving DecidableEq, Repr

namespace RunFault

def message : RunFault → String
  | .overflow step => "Integer overflow in " ++ step.name
  | .divisionByZero => "Division by zero"
  | .emptyList p => p.name ++ " of empty list"
  | .depthLimit limit => "Evaluation depth limit exceeded (max: " ++ toString limit ++ ")"
  | .raised text => text

end RunFault

/-- A broken promise between the parts of the interpreter. No evaluation leads to one; building
a frame by hand can. -/
inductive Defect where
  | misaligned (names addresses : Nat)
  | argumentMissing (p : Primitive)
  deriving DecidableEq, Repr

def Defect.message : Defect → String
  | .misaligned names addresses =>
    "assertion `left == right` failed: frame names and addresses must line up\n  left: "
      ++ toString names ++ "\n right: " ++ toString addresses
  | .argumentMissing p => p.name ++ " was run without its argument"

inductive Error where
  | source (fault : SourceError)
  | unboundVariable (name : String)
  | illegalAddress (address : Address)
  | badProcedure (shown : String)
  | emptyProgram
  | type (fault : TypeFault)
  | run (fault : RunFault)
  | arity (expected got : Nat) (expression : Option String)
  | defect (cause : Defect)
  deriving DecidableEq, Repr

namespace Error

/-- The wording of an error, with its class in front. -/
def message : Error → String
  | .source fault => "ParseError: " ++ fault.display
  | .unboundVariable name => "Unbound variable: " ++ name
  | .illegalAddress address => "Illegal address: " ++ toString address
  | .badProcedure shown => "Bad procedure: " ++ shown
  | .emptyProgram => "Empty program"
  | .type fault => "Type error: " ++ fault.message
  | .run fault => "EvaluationError: " ++ fault.message
  | .arity expected got (some expression) =>
    "ArityError: expression " ++ expression ++ ": expected " ++ toString expected
      ++ " arguments, got " ++ toString got
  | .arity expected got none =>
    "ArityError: function expected " ++ toString expected ++ " arguments but got " ++ toString got
  | .defect cause => cause.message

end Error

/-- Succeeds when an operation accepts a number of arguments. -/
def Arity.check (arity : Arity) (given : Nat) : Except Error Unit :=
  match arity.unmet? given with
  | some expected => throw (.arity expected given none)
  | none => pure ()

end CellScheme
