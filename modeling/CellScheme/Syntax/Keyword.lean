/-!
Keywords: the names that begin special forms. A keyword can be neither referenced nor bound.
-/
namespace CellScheme

inductive Keyword where
  | define
  | assign
  | conditional
  | lambda
  | letIn
  | quote
  deriving DecidableEq, Repr

namespace Keyword

def all : List Keyword :=
  [.define, .assign, .conditional, .lambda, .letIn, .quote]

/-- The name that begins the form. -/
def name : Keyword → String
  | .define => "define"
  | .assign => "set!"
  | .conditional => "if"
  | .lambda => "lambda"
  | .letIn => "let"
  | .quote => "quote"

def ofName? (name : String) : Option Keyword :=
  all.find? fun keyword => keyword.name == name

theorem ofName?_name (keyword : Keyword) : ofName? keyword.name = some keyword := by
  cases keyword <;> decide

theorem name_of_ofName? {name : String} {keyword : Keyword}
    (found : ofName? name = some keyword) : keyword.name = name := by
  simpa using List.find?_some found

end Keyword

end CellScheme
