import CellScheme.Reader.Comment
import CellScheme.Reader.State
import CellScheme.SourceError

/-!
Reading text: one datum, or the data of a program. Faults are reported against the text that was
read, which is the text after comments were blanked, so byte offsets agree with the source.
-/
namespace CellScheme.Reader

def shownChars : Nat := 10

/-- The first word of a text, cut to a few characters; absent when the text is blank. -/
def firstWord? (rest : List Char) : Option String :=
  match ((Text.trimStart rest).takeWhile fun c => !Text.isBlank c).take shownChars with
  | [] => none
  | word => some (String.ofList word)

/-- The report of a fault. A missing datum or closing character with nothing but blanks behind it
means that the text is incomplete. -/
def report (text : List Char) (fault : Fault) : SourceError :=
  let rest := Text.dropBytes fault.offset text
  let position := toString fault.offset
  let located kind message found := SourceError.located kind message text fault.offset found
  match fault.trouble with
  | .tooDeep =>
    located .tooDeeplyNested
      ("Expression too deeply nested (max depth: " ++ toString nestingLimit ++ ")") none
  | .badEscape =>
    located .invalidSyntax ("Invalid escape sequence at position " ++ position) (firstWord? rest)
  | .trailing =>
    located .trailingContent
      ("Unexpected remaining input: '" ++ String.ofList (Text.trimEnd rest) ++ "'")
      (firstWord? rest)
  | .unclosed =>
    if Text.allBlank rest then located .incomplete "Unexpected end of input" none
    else located .invalidSyntax ("Expected character at position " ++ position) (firstWord? rest)
  | .noDatum =>
    if Text.allBlank rest then located .incomplete "Unexpected end of input" none
    else
      located .invalidSyntax
        ("Invalid syntax near '" ++ String.ofList (rest.take shownChars) ++ "'") (firstWord? rest)

/-- The text that is read: with comments on, the source after blanking. -/
def prepare (comments : Bool) (source : String) : List Char :=
  if comments then blankComments source.toList else source.toList

/-- Reads exactly one datum. -/
def readDatum (comments : Bool) (source : String) : Except SourceError Value :=
  let text := prepare comments source
  match scan .datum text with
  | .ok (datum :: _) => pure datum
  | .ok [] => throw (report text ⟨.noDatum, Text.byteLength text⟩)
  | .error fault => throw (report text fault)

def readProgram (comments : Bool) (source : String) : Except SourceError (List Value) :=
  let text := prepare comments source
  match scan .program text with
  | .ok data => pure data
  | .error fault => throw (report text fault)

end CellScheme.Reader
