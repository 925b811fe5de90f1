/-!
String literals. Five characters are written as a backslash and a letter or sign; every other
character stands for itself. Main statement: an escape denotes the character it was written for.
-/
namespace CellScheme.Text

/-- How a character is written inside a string literal. -/
def escape (c : Char) : List Char :=
  if c = '"' then ['\\', '"']
  else if c = '\\' then ['\\', '\\']
  else if c = '\n' then ['\\', 'n']
  else if c = '\t' then ['\\', 't']
  else if c = '\r' then ['\\', 'r']
  else [c]

/-- The character that a backslash and the given character denote. -/
def unescape? : Char → Option Char
  | 'n' => some '\n'
  | 't' => some '\t'
  | 'r' => some '\r'
  | '\\' => some '\\'
  | '"' => some '"'
  | _ => none

/-- A string literal: the escaped characters between double quotes. -/
def literal (text : List Char) : List Char :=
  '"' :: text.flatMap escape ++ ['"']

/-- A character is written as an escape that denotes it, or as itself; the latter only when it
neither ends a literal nor starts an escape. -/
theorem escape_cases (c : Char) :
    (∃ letter, escape c = ['\\', letter] ∧ unescape? letter = some c) ∨
      (escape c = [c] ∧ c ≠ '"' ∧ c ≠ '\\') := by
  unfold escape
  by_cases quote : c = '"'
  · exact .inl ⟨'"', by simp [quote], by simp [unescape?, quote]⟩
  by_cases backslash : c = '\\'
  · exact .inl ⟨'\\', by simp [backslash], by simp [unescape?, backslash]⟩
  by_cases feed : c = '\n'
  · exact .inl ⟨'n', by simp [feed], by simp [unescape?, feed]⟩
  by_cases tab : c = '\t'
  · exact .inl ⟨'t', by simp [tab], by simp [unescape?, tab]⟩
  by_cases carriage : c = '\r'
  · exact .inl ⟨'r', by simp [carriage], by simp [unescape?, carriage]⟩
  · exact .inr ⟨by simp [quote, backslash, feed, tab, carriage], quote, backslash⟩

end CellScheme.Text
