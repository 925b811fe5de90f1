import CellScheme.Value

/-!
Equality of values, as the language sees it. Lists are compared item by item; closures by
identity, which is the stamp of their code and the innermost frame they captured; unspecified
values equal nothing, not even themselves.
-/
namespace CellScheme.Value

mutual

def equal : Value → Value → Bool
  | .number left, .number right => left == right
  | .symbol left, .symbol right => left == right
  | .string left, .string right => left == right
  | .boolean left, .boolean right => left == right
  | .list left, .list right => equalAll left right
  | .primitive left, .primitive right => left == right
  | .closure leftStamp _ _ leftEnv, .closure rightStamp _ _ rightEnv =>
    leftStamp == rightStamp && leftEnv.same rightEnv
  | _, _ => false

/-- Equality of lists: equal length, and equal items throughout. -/
def equalAll : List Value → List Value → Bool
  | [], [] => true
  | left :: leftRest, right :: rightRest => left.equal right && equalAll leftRest rightRest
  | _, _ => false

end

/-- Identity: two lists are identical only when both are empty, all else compares by `equal`. -/
def identical : Value → Value → Bool
  | .list left, .list right => left.isEmpty && right.isEmpty
  | left, right => left.equal right

end CellScheme.Value
