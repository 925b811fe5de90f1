import CellScheme.Environment
import CellScheme.Fixnum
import CellScheme.Primitive

/-!
Values and program trees. The two belong together: a tree may quote any value, and a closure is
the body of a `lambda` with the environment it was made in. Values made only of numbers,
symbols, strings, booleans and lists double as the data that the reader produces.

A `lambda` carries a stamp, which tells its occurrence from every other one. Trees come from the
syntax layer with stamp zero; `CellScheme.Syntax.Stamp` numbers them before they run.
-/
namespace CellScheme

mutual

/-- A runtime value, or a datum. -/
inductive Value where
  | number (n : Fixnum)
  | symbol (name : String)
  | string (text : String)
  | boolean (truth : Bool)
  | list (items : List Value)
  | primitive (p : Primitive)
  | closure (stamp : Nat) (params : List String) (body : List Form) (env : Environment)
  | unspecified

/-- A compound expression: anything that has a value in an environment. -/
inductive Expr where
  | number (n : Fixnum)
  | boolean (truth : Bool)
  | string (text : String)
  | primitive (p : Primitive)
  | variable (name : String)
  | quoted (datum : Value)
  | conditional (test consequent alternative : Expr)
  | lambda (stamp : Nat) (params : List String) (body : List Form)
  | letIn (bindings : List (String × Expr)) (body : List Form)
  | apply (operator : Expr) (operands : List Expr)

/-- An element of a body or program. Only here may names be defined or assigned. -/
inductive Form where
  | define (name : String) (value : Expr)
  | assign (name : String) (value : Expr)
  | expr (body : Expr)

end

instance : Inhabited Value := ⟨.unspecified⟩

/-- A program is a sequence of forms, evaluated in the global environment. -/
abbrev Program := List Form

namespace Value

/-- Every value except `#f` counts as true. -/
def isTrue : Value → Bool
  | .boolean false => false
  | _ => true

def isNull : Value → Bool
  | .list [] => true
  | _ => false

def isProcedure : Value → Bool
  | .primitive _ | .closure .. => true
  | _ => false

mutual

/-- A value is free of unspecified parts when no list inside it holds one; the body and the
environment of a closure are not looked into. -/
def isSpecified : Value → Bool
  | .unspecified => false
  | .list items => allSpecified items
  | _ => true

def allSpecified : List Value → Bool
  | [] => true
  | item :: rest => item.isSpecified && allSpecified rest

end

end Value

end CellScheme
