import CellScheme.Text.Alphanumeric

/-!
Spelling of symbols. Symbol characters are alphanumeric or one of eleven signs; a symbol must not
look like the start of a number.
-/
namespace CellScheme.Text

/-- The characters besides letters and digits that a symbol may hold. -/
def symbolSigns : List Char :=
  ['+', '-', '*', '/', '<', '>', '=', '!', '?', '_', '$']

def isSymbolChar (c : Char) : Bool :=
  isAlphanumeric c || symbolSigns.contains c

/-- A text starts like a number when it starts with an ASCII digit, or with a minus sign and then
an ASCII digit. -/
def startsLikeNumber : List Char → Bool
  | '-' :: second :: _ => second.isDigit
  | first :: _ => first.isDigit
  | [] => false

/-- A symbol name is a non-empty run of symbol characters that does not start like a number. -/
def isSymbolName (name : List Char) : Bool :=
  !name.isEmpty && !startsLikeNumber name && name.all isSymbolChar

end CellScheme.Text
