import CellScheme.Syntax.Fault

/-!
Turning data into program trees. Definitions and assignments exist only as elements of a body or
program, so they cannot stand in an operand, a test or a bound value. Names of primitives always
denote the primitive, and neither they nor keywords can be bound.
-/
namespace CellScheme

/-- The keyword that a datum is, if it is one. -/
def Value.keyword? : Value → Option Keyword
  | .symbol name => Keyword.ofName? name
  | _ => none

/-- A name can be bound when it is neither a keyword nor the name of a primitive. -/
def checkBindable (name : String) : Except FormFault Unit :=
  match Keyword.ofName? name, Primitive.ofName? name with
  | some keyword, _ => throw (.bindsKeyword keyword)
  | none, some p => throw (.bindsPrimitive p)
  | none, none => pure ()

/-- A name that is used as an expression. -/
def Expr.ofName (name : String) : Except FormFault Expr :=
  match Keyword.ofName? name, Primitive.ofName? name with
  | some keyword, _ => throw (.keywordAsVariable keyword)
  | none, some p => pure (.primitive p)
  | none, none => pure (.variable name)

def Expr.ofAtom : Value → Except FormFault Expr
  | .number n => pure (.number n)
  | .boolean truth => pure (.boolean truth)
  | .string text => pure (.string text)
  | .symbol name => Expr.ofName name
  | .primitive p => pure (.primitive p)
  | datum => throw (.notCode datum)

/-- The parameter names of a `lambda` form, in order. Names already seen may not come again. -/
def paramNames (form : Value) (seen : List String) : List Value → Except FormFault (List String)
  | [] => pure []
  | .symbol name :: rest => do
    checkBindable name
    if seen.contains name then throw (.repeatedParam name)
    return name :: (← paramNames form (name :: seen) rest)
  | _ :: _ => throw (.paramNotSymbol form)

/-- What is wrong with a definition or assignment that is not a name and a value. -/
def bindingFault (keyword : Keyword) (items : List Value) : FormFault :=
  if items.length = 3 then .targetNotSymbol keyword (.list items)
  else .partCount 2 (items.length - 1) (.list items)

mutual

def Expr.ofDatum : Value → Except FormFault Expr
  | .list items => Expr.ofItems items
  | datum => Expr.ofAtom datum
termination_by structural datum => datum

/-- The expression that the items of a list denote: a special form or an application. -/
def Expr.ofItems : List Value → Except FormFault Expr
  | [] => throw .emptyApplication
  | head :: arguments =>
    let form := Value.list (head :: arguments)
    match head.keyword?, arguments with
    | some .conditional, [test, consequent, alternative] => do
      return .conditional (← Expr.ofDatum test) (← Expr.ofDatum consequent)
        (← Expr.ofDatum alternative)
    | some .conditional, _ => throw (.partCount 3 arguments.length form)
    | some .lambda, .list params :: body => do
      return .lambda 0 (← paramNames form [] params) (← Form.ofData body)
    | some .lambda, [] => throw (.partCount 2 0 form)
    | some .lambda, _ => throw (.paramsNotList form)
    | some .letIn, .list bindings :: body => do
      return .letIn (← Expr.ofBindings [] bindings) (← Form.ofData body)
    | some .letIn, [] => throw (.partCount 2 0 form)
    | some .letIn, _ => throw (.bindingsNotList form)
    | some .quote, [datum] => return .quoted datum
    | some .quote, _ => throw (.partCount 1 arguments.length form)
    | some .define, _ => throw (.misplaced .define form)
    | some .assign, _ => throw (.misplaced .assign form)
    | none, operands => do
      return .apply (← Expr.ofDatum head) (← Expr.ofData operands)
termination_by structural items => items

def Expr.ofData : List Value → Except FormFault (List Expr)
  | [] => pure []
  | datum :: rest => do
    return (← Expr.ofDatum datum) :: (← Expr.ofData rest)
termination_by structural data => data

/-- The bindings of a `let` form, in order. Names already seen may not come again. -/
def Expr.ofBindings (seen : List String) : List Value → Except FormFault (List (String × Expr))
  | [] => pure []
  | .list [.symbol name, datum] :: rest => do
    checkBindable name
    if seen.contains name then throw (.repeatedBinding name)
    let value ← Expr.ofDatum datum
    return (name, value) :: (← Expr.ofBindings (name :: seen) rest)
  | binding :: _ => throw (.malformedBinding binding)
termination_by structural bindings => bindings

def Form.ofDatum : Value → Except FormFault Form
  | .list items =>
    match items.head?.bind Value.keyword?, items with
    | some .define, [_, .symbol name, datum] => do
      checkBindable name
      return .define name (← Expr.ofDatum datum)
    | some .define, _ => throw (bindingFault .define items)
    | some .assign, [_, .symbol name, datum] => do
      checkBindable name
      return .assign name (← Expr.ofDatum datum)
    | some .assign, _ => throw (bindingFault .assign items)
    | _, items => do
      return .expr (← Expr.ofItems items)
  | datum => do
    return .expr (← Expr.ofAtom datum)
termination_by structural datum => datum

def Form.ofData : List Value → Except FormFault (List Form)
  | [] => pure []
  | datum :: rest => do
    return (← Form.ofDatum datum) :: (← Form.ofData rest)
termination_by structural data => data

end

def Program.ofData (data : List Value) : Except FormFault Program :=
  Form.ofData data

end CellScheme
