import CellScheme.Error
import CellScheme.Syntax.Keyword
import CellScheme.Value.Print

/-!
Reasons why data do not form a program.
-/
namespace CellScheme

/-- A datum that is no expression, or no element of a body. -/
inductive FormFault where
  | emptyApplication
  | keywordAsVariable (keyword : Keyword)
  | notCode (datum : Value)
  | bindsKeyword (keyword : Keyword)
  | bindsPrimitive (p : Primitive)
  | targetNotSymbol (keyword : Keyword) (form : Value)
  | misplaced (keyword : Keyword) (form : Value)
  | paramsNotList (form : Value)
  | paramNotSymbol (form : Value)
  | repeatedParam (name : String)
  | bindingsNotList (form : Value)
  | malformedBinding (binding : Value)
  | repeatedBinding (name : String)
  /-- A special form with the wrong number of parts after its keyword. -/
  | partCount (expected got : Nat) (form : Value)

namespace FormFault

/-- The wording, or the counts where only a number of parts is wrong. -/
def toError (fault : FormFault) : Error :=
  let invalid message := Error.source { kind := .invalidForm, message := message }
  match fault with
  | .emptyApplication => invalid "Cannot evaluate empty list"
  | .keywordAsVariable keyword =>
    invalid ("Special form '" ++ keyword.name ++ "' cannot be used as a variable")
  | .notCode datum => invalid ("Unexpected datum: " ++ datum.display)
  | .bindsKeyword keyword => invalid ("Cannot bind special form name: " ++ keyword.name)
  | .bindsPrimitive p => invalid ("Cannot rebind primitive: " ++ p.name)
  | .targetNotSymbol keyword form =>
    invalid (keyword.name ++ " requires a symbol: " ++ form.display)
  | .misplaced keyword form =>
    invalid (keyword.name ++ " is only allowed as an element of a body or program: "
      ++ form.display)
  | .paramsNotList form => invalid ("Lambda parameters must be a list: " ++ form.display)
  | .paramNotSymbol form => invalid ("Lambda parameters must be symbols: " ++ form.display)
  | .repeatedParam name => invalid ("Duplicate parameter name: " ++ name)
  | .bindingsNotList form => invalid ("Let bindings must be a list: " ++ form.display)
  | .malformedBinding binding =>
    invalid ("Let binding must be (name value): " ++ binding.display)
  | .repeatedBinding name => invalid ("Duplicate let binding: " ++ name)
  | .partCount expected got form => .arity expected got (some form.display)

end FormFault

end CellScheme
