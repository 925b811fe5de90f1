import CellScheme.Value

/-!
Stamps. Before a tree runs, each of its `lambda` occurrences gets a number of its own, drawn in
order from a supply; so do closures written out inside its literals. Closures made by the same
occurrence share its stamp, all others differ.
-/
namespace CellScheme

/-- Draws the next unused stamp. -/
def drawStamp : StateM Nat Nat :=
  modifyGet fun supply => (supply, supply + 1)

mutual

/-- Numbers the closures inside a value. -/
def Value.stamped : Value → StateM Nat Value
  | .list items => do return .list (← Value.stampedAll items)
  | .closure _ params body env => do
    return .closure (← drawStamp) params (← Form.stampedAll body) env
  | value => return value
termination_by structural value => value

def Value.stampedAll : List Value → StateM Nat (List Value)
  | [] => return []
  | value :: rest => do return (← Value.stamped value) :: (← Value.stampedAll rest)
termination_by structural values => values

/-- Numbers the `lambda` occurrences of an expression. -/
def Expr.stamped : Expr → StateM Nat Expr
  | .quoted datum => do return .quoted (← Value.stamped datum)
  | .conditional test consequent alternative => do
    return .conditional (← Expr.stamped test) (← Expr.stamped consequent)
      (← Expr.stamped alternative)
  | .lambda _ params body => do return .lambda (← drawStamp) params (← Form.stampedAll body)
  | .letIn bindings body => do
    return .letIn (← Expr.stampedBindings bindings) (← Form.stampedAll body)
  | .apply operator operands => do
    return .apply (← Expr.stamped operator) (← Expr.stampedAll operands)
  | expr => return expr
termination_by structural expr => expr

def Expr.stampedAll : List Expr → StateM Nat (List Expr)
  | [] => return []
  | expr :: rest => do return (← Expr.stamped expr) :: (← Expr.stampedAll rest)
termination_by structural exprs => exprs

def Expr.stampedBindings : List (String × Expr) → StateM Nat (List (String × Expr))
  | [] => return []
  | (name, value) :: rest => do
    return (name, ← Expr.stamped value) :: (← Expr.stampedBindings rest)
termination_by structural bindings => bindings

def Form.stamped : Form → StateM Nat Form
  | .define name value => do return .define name (← Expr.stamped value)
  | .assign name value => do return .assign name (← Expr.stamped value)
  | .expr body => do return .expr (← Expr.stamped body)
termination_by structural form => form

def Form.stampedAll : List Form → StateM Nat (List Form)
  | [] => return []
  | form :: rest => do return (← Form.stamped form) :: (← Form.stampedAll rest)
termination_by structural forms => forms

end

/-- Numbers the `lambda` occurrences of a program from a supply. The result comes with the supply
that is left. -/
def Program.stamped (program : Program) (supply : Nat) : Program × Nat :=
  (Form.stampedAll program).run supply

end CellScheme
