/-!
The primitive operations of the language: their names, their order in listings, and how many
arguments each accepts. What they compute is in `CellScheme.Primitive.Apply`.
-/
namespace CellScheme

inductive Arity where
  | exactly (count : Nat)
  | atLeast (count : Nat)
  | any
  deriving DecidableEq, Repr

namespace Arity

/-- The count that an operation asks for when it does not accept `given` arguments. -/
def unmet? (arity : Arity) (given : Nat) : Option Nat :=
  match arity with
  | .exactly count => if given = count then none else some count
  | .atLeast count => if given < count then some count else none
  | .any => none

def inspect : Arity → String
  | .exactly count => "Exact(" ++ toString count ++ ")"
  | .atLeast count => "AtLeast(" ++ toString count ++ ")"
  | .any => "Any"

end Arity

/-- A primitive operation. Primitives see evaluated arguments only, never the store. -/
inductive Primitive where
  | add
  | subtract
  | multiply
  | divide
  | equals
  | less
  | greater
  | atMost
  | atLeast
  | not
  | and
  | or
  | isIdentical
  | isEqual
  | isSameString
  | cons
  | car
  | cdr
  | list
  | isNull
  | isPair
  | isList
  | isNumber
  | isBoolean
  | isString
  | isSymbol
  | isProcedure
  | appendStrings
  | raise
  deriving DecidableEq, Repr

namespace Primitive

def all : List Primitive :=
  [.add, .subtract, .multiply, .divide, .equals, .less, .greater, .atMost, .atLeast,
    .not, .and, .or, .isIdentical, .isEqual, .isSameString, .cons, .car, .cdr, .list,
    .isNull, .isPair, .isList, .isNumber, .isBoolean, .isString, .isSymbol, .isProcedure,
    .appendStrings, .raise]

theorem mem_all (p : Primitive) : p ∈ all := by
  cases p <;> decide

/-- The name that denotes the primitive in every program. -/
def name : Primitive → String
  | .add => "+"
  | .subtract => "-"
  | .multiply => "*"
  | .divide => "/"
  | .equals => "="
  | .less => "<"
  | .greater => ">"
  | .atMost => "<="
  | .atLeast => ">="
  | .not => "not"
  | .and => "and"
  | .or => "or"
  | .isIdentical => "eq?"
  | .isEqual => "equal?"
  | .isSameString => "string=?"
  | .cons => "cons"
  | .car => "car"
  | .cdr => "cdr"
  | .list => "list"
  | .isNull => "null?"
  | .isPair => "pair?"
  | .isList => "list?"
  | .isNumber => "number?"
  | .isBoolean => "boolean?"
  | .isString => "string?"
  | .isSymbol => "symbol?"
  | .isProcedure => "procedure?"
  | .appendStrings => "string-append"
  | .raise => "error"

def ofName? (name : String) : Option Primitive :=
  all.find? fun p => p.name == name

theorem ofName?_name (p : Primitive) : ofName? p.name = some p := by
  cases p <;> decide

theorem name_of_ofName? {name : String} {p : Primitive} (found : ofName? name = some p) :
    p.name = name := by
  simpa using List.find?_some found

def arity : Primitive → Arity
  | .add | .multiply | .and | .or | .list | .appendStrings | .raise => .any
  | .subtract => .atLeast 1
  | .divide | .equals | .less | .greater | .atMost | .atLeast | .isSameString => .atLeast 2
  | .isIdentical | .isEqual | .cons => .exactly 2
  | .not | .car | .cdr | .isNull | .isPair | .isList | .isNumber | .isBoolean | .isString
  | .isSymbol | .isProcedure => .exactly 1

def inspect (p : Primitive) : String :=
  "BuiltinOp(" ++ p.name ++ ", " ++ p.arity.inspect ++ ")"

end Primitive

end CellScheme
