import CellScheme.Error
import CellScheme.Fixnum

/-!
Arithmetic on argument lists. Every operation goes from left to right and checks each step: the
first step whose exact result is out of range, or that divides by zero, decides the error.
-/
namespace CellScheme.Arithmetic

/-- The exact result of a step, or the overflow of that step. -/
def inRange (step : Operation) (exact : Int) : Except Error Fixnum :=
  match Fixnum.ofInt? exact with
  | some n => pure n
  | none => throw (.run (.overflow step))

def addStep (left right : Fixnum) : Except Error Fixnum :=
  inRange .addition (left.val + right.val)

def subtractStep (left right : Fixnum) : Except Error Fixnum :=
  inRange .subtraction (left.val - right.val)

def multiplyStep (left right : Fixnum) : Except Error Fixnum :=
  inRange .multiplication (left.val * right.val)

/-- Division truncates toward zero. A zero divisor is reported before anything else. -/
def divideStep (left right : Fixnum) : Except Error Fixnum :=
  if right.val = 0 then throw (.run .divisionByZero)
  else inRange .division (left.val.tdiv right.val)

def sum (arguments : List Fixnum) : Except Error Fixnum :=
  arguments.foldlM addStep .zero

def product (arguments : List Fixnum) : Except Error Fixnum :=
  arguments.foldlM multiplyStep .one

/-- The first argument less all others; a lone argument is negated. -/
def difference : List Fixnum → Except Error Fixnum
  | [] => throw (.arity 1 0 none)
  | [only] => inRange .negation (-only.val)
  | first :: rest => rest.foldlM subtractStep first

/-- The first argument divided by each of the others in turn. -/
def quotient : List Fixnum → Except Error Fixnum
  | [] => throw (.arity 2 0 none)
  | first :: rest => rest.foldlM divideStep first

theorem inRange_of_mem (step : Operation) (n : Fixnum) : inRange step n.val = .ok n := by
  simp [inRange, Fixnum.ofInt?_val]
  rfl

end CellScheme.Arithmetic
