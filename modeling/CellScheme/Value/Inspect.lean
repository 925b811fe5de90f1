import CellScheme.Text.Literal
import CellScheme.Value

/-!
A rendering of values and trees that names every constructor. Text inside a value is shown raw,
text inside a tree is shown as a literal; the environment of a closure is left out.
-/
namespace CellScheme

namespace Inspect

/-- How a character is shown inside a literal: as in string literals, but a control character of
ASCII that has no escape there is shown by its code point in hexadecimal, and NUL as zero. -/
def escape (c : Char) : List Char :=
  if c = '\x00' then ['\\', '0']
  else if Text.escape c = [c] ∧ (c.toNat < 32 ∨ c.toNat = 127) then
    ['\\', 'u', '\x7b'] ++ Nat.toDigits 16 c.toNat ++ ['\x7d']
  else Text.escape c

def literal (text : String) : String :=
  String.ofList ('"' :: text.toList.flatMap Inspect.escape ++ ['"'])

/-- Items between brackets, separated by a comma and a space. -/
def sequence (items : List String) : String :=
  "[" ++ ", ".intercalate items ++ "]"

/-- A constructor with one unnamed part. -/
def call (name part : String) : String :=
  name ++ "(" ++ part ++ ")"

def record (name : String) (parts : List (String × String)) : String :=
  name ++ " \x7b " ++ ", ".intercalate (parts.map fun part => part.1 ++ ": " ++ part.2) ++ " \x7d"

end Inspect

open Inspect

mutual

/-- The constructor form of a value. -/
def Value.inspect : Value → String
  | .number n => call "Number" n.display
  | .symbol name => call "Symbol" name
  | .string text => call "String" ("\"" ++ text ++ "\"")
  | .boolean truth => call "Bool" (toString truth)
  | .list items => call "List" (", ".intercalate (Value.inspectAll items))
  | .primitive p => call "Primitive" p.name
  | .closure _ params body _ =>
    "Closure(params=" ++ sequence (params.map literal) ++ ", body="
      ++ sequence (Form.inspectAll body) ++ ")"
  | .unspecified => "Unspecified"

def Value.inspectAll : List Value → List String
  | [] => []
  | item :: rest => item.inspect :: Value.inspectAll rest

def Expr.inspect : Expr → String
  | .number n => call "Num" n.display
  | .boolean truth => call "Bool" (toString truth)
  | .string text => call "Str" (literal text)
  | .primitive p => call "PrimOp" p.inspect
  | .variable name => call "VarRef" (literal name)
  | .quoted datum => call "Lit" datum.inspect
  | .conditional test consequent alternative =>
    record "If" [("test", test.inspect), ("then", consequent.inspect), ("alt", alternative.inspect)]
  | .lambda _ params body =>
    record "Proc" [("params", sequence (params.map literal)),
      ("body", sequence (Form.inspectAll body))]
  | .letIn bindings body =>
    record "Let" [("bindings", sequence (Expr.inspectBindings bindings)),
      ("body", sequence (Form.inspectAll body))]
  | .apply operator operands =>
    record "App" [("rator", operator.inspect), ("rands", sequence (Expr.inspectAll operands))]

def Expr.inspectAll : List Expr → List String
  | [] => []
  | expr :: rest => expr.inspect :: Expr.inspectAll rest

def Expr.inspectBindings : List (String × Expr) → List String
  | [] => []
  | (name, value) :: rest =>
    record "Binding" [("var", literal name), ("val", value.inspect)] :: Expr.inspectBindings rest

def Form.inspect : Form → String
  | .define name value => record "Define" [("var", literal name), ("val", value.inspect)]
  | .assign name value => record "Set" [("var", literal name), ("val", value.inspect)]
  | .expr body => call "Expr" body.inspect

def Form.inspectAll : List Form → List String
  | [] => []
  | form :: rest => form.inspect :: Form.inspectAll rest

end

end CellScheme
