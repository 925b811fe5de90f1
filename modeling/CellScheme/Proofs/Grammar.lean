import Mathlib.Data.Nat.Digits.Defs
import CellScheme.Reader

/-!
The grammar of data, as relations between a text, what its front denotes, and what is left of it.
Nothing here mentions the machine that reads: `CellScheme.Proofs.Reading` shows that the machine
accepts these texts, with these data, and no others.

A datum starts behind any layout. Words are taken as long as they go, so a word ends only where
no symbol character follows. Lists and quote marks count as levels, and the depth of a datum is the
number of levels around it.
-/
namespace CellScheme.Grammar

/-- A digit of a base up to sixteen, in either case. -/
def Digit (base : Nat) (c : Char) (digit : Nat) : Prop :=
  digit < base ∧
    ("0123456789abcdef".toList[digit]? = some c ∨ "0123456789ABCDEF".toList[digit]? = some c)

/-- The text is a run of digits, at least one, the most significant first. -/
def Numeral (base : Nat) (text : List Char) (size : Nat) : Prop :=
  ∃ digits, digits ≠ [] ∧ List.Forall₂ (Digit base) text digits ∧
    size = Nat.ofDigits base digits.reverse

/-- The datum that a word denotes. A number is its own proof of being in range, so a numeral that
is out of range denotes nothing. -/
inductive Denotes : List Char → Value → Prop
  | decimal {text size} {n : Fixnum} :
    Numeral 10 text size → n.val = size → Denotes text (.number n)
  | negative {text size} {n : Fixnum} :
    Numeral 10 text size → n.val = -(size : Int) → Denotes ('-' :: text) (.number n)
  | symbol {name} : Text.isSymbolName name = true → Denotes name (.symbol (String.ofList name))
  | true : Denotes ['#', 't'] (.boolean true)
  | false : Denotes ['#', 'f'] (.boolean false)
  | hexadecimal {x text size} {n : Fixnum} : x = 'x' ∨ x = 'X' →
    Numeral 16 text size → n.val = size → Denotes ('#' :: x :: text) (.number n)

/-- A run of symbol characters is over where the text ends or goes on with another character. -/
def RunEnds (rest : List Char) : Prop :=
  ∀ c ∈ rest.head?, Text.isSymbolChar c = false

/-- The front of a text that is a whole run of symbol characters, or a number sign with the whole
run behind it. -/
inductive Word : List Char → List Char → List Char → Prop
  | plain {run rest} : (∀ c ∈ run, Text.isSymbolChar c = true) → RunEnds rest →
    Word (run ++ rest) run rest
  | signed {run rest} : (∀ c ∈ run, Text.isSymbolChar c = true) → RunEnds rest →
    Word ('#' :: (run ++ rest)) ('#' :: run) rest

/-- The letters and signs that may follow a backslash, with the characters they stand for. -/
def escapes : List (Char × Char) :=
  [('n', '\n'), ('t', '\t'), ('r', '\r'), ('\\', '\\'), ('"', '"')]

/-- The front of a text up to the double quote that ends a string literal, and the characters of
the string. -/
inductive StringBody : List Char → List Char → List Char → Prop
  | close {rest} : StringBody ('"' :: rest) [] rest
  | escape {letter c text chars rest} : (letter, c) ∈ escapes → StringBody text chars rest →
    StringBody ('\\' :: letter :: text) (c :: chars) rest
  | plain {c text chars rest} : c ≠ '"' → c ≠ '\\' → StringBody text chars rest →
    StringBody (c :: text) (c :: chars) rest

mutual

/-- The front of a text that is one datum, inside a number of levels. -/
inductive Datum : Nat → List Char → Value → List Char → Prop
  | layout {depth c text datum rest} : Text.isLayout c = true → Datum depth text datum rest →
    Datum depth (c :: text) datum rest
  | quoted {depth text datum rest} : depth ≤ 62 → Datum (depth + 1) text datum rest →
    Datum depth ('\'' :: text) (.list [.symbol "quote", datum]) rest
  | list {depth text items rest} : depth ≤ 62 → Items (depth + 1) text items rest →
    Datum depth ('(' :: text) (.list items) rest
  | string {depth text chars rest} : StringBody text chars rest →
    Datum depth ('"' :: text) (.string (String.ofList chars)) rest
  | word {depth text word datum rest} : Word text word rest → Denotes word datum →
    Datum depth text datum rest

/-- The front of a text up to the parenthesis that closes a list, and the items of the list. -/
inductive Items : Nat → List Char → List Value → List Char → Prop
  | layout {depth c text items rest} : Text.isLayout c = true → Items depth text items rest →
    Items depth (c :: text) items rest
  | close {depth rest} : Items depth (')' :: rest) [] rest
  | item {depth text item middle items rest} : Datum depth text item middle →
    Items depth middle items rest → Items depth text (item :: items) rest

end

/-- A whole text that holds one datum and nothing else but layout around it. -/
def OneDatum (text : List Char) (datum : Value) : Prop :=
  ∃ rest, Datum 0 text datum rest ∧ ∀ c ∈ rest, Text.isLayout c = true

/-- A whole text that is a sequence of data, with any blanks before, between and behind them. -/
inductive Data : List Char → List Value → Prop
  | done : Data [] []
  | blank {c text data} : Text.isBlank c = true → Data text data → Data (c :: text) data
  | datum {text datum rest data} : Datum 0 text datum rest → Data rest data →
    Data text (datum :: data)

end CellScheme.Grammar
