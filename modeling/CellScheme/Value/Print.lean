import CellScheme.Text.Literal
import CellScheme.Value

/-!
The printed form of values. Data print in a form that reads back, provided that their symbols are
symbol names and their lists nest no deeper than the reader allows. Procedures and unspecified
values print in a form that no text reads as.
-/
namespace CellScheme

namespace Value

mutual

def written : Value → List Char
  | .number n => n.digits
  | .symbol name => name.toList
  | .string text => Text.literal text.toList
  | .boolean true => ['#', 't']
  | .boolean false => ['#', 'f']
  | .list items => '(' :: writtenAll items ++ [')']
  | .primitive p => "#<primitive:".toList ++ p.name.toList ++ ['>']
  | .closure .. => "#<procedure>".toList
  | .unspecified => "#<unspecified>".toList

/-- The printed forms of the items of a list, one space between neighbours. -/
def writtenAll : List Value → List Char
  | [] => []
  | [item] => item.written
  | item :: next :: rest => item.written ++ ' ' :: writtenAll (next :: rest)

end

def display (value : Value) : String :=
  String.ofList value.written

end Value

end CellScheme
