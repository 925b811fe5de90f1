import CellScheme.Text.Symbol
import CellScheme.Value

/-!
Atoms: the data written without parentheses, quotes or string delimiters. An atom is a whole run
of symbol characters, possibly after a number sign, so `123abc` is one atom, and no datum.
-/
namespace CellScheme.Reader

/-- The datum after a number sign: a truth value or a hexadecimal number. -/
def signedAtom? : List Char → Option Value
  | ['t'] => some (.boolean true)
  | ['f'] => some (.boolean false)
  | 'x' :: digits => (Fixnum.ofHex? digits).map .number
  | 'X' :: digits => (Fixnum.ofHex? digits).map .number
  | _ => none

/-- The datum without a number sign: a decimal number or else a symbol. A number that is out of
range starts like a number, so it is no symbol either. -/
def plainAtom? (run : List Char) : Option Value :=
  match Fixnum.ofDecimal? run with
  | some n => some (.number n)
  | none => if Text.isSymbolName run then some (.symbol (String.ofList run)) else none

def atom? : List Char → Option Value
  | '#' :: run => signedAtom? run
  | run => plainAtom? run

end CellScheme.Reader
