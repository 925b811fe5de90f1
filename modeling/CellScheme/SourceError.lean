import CellScheme.Text.Blank
import CellScheme.Text.Bytes

/-!
Faults in program text, as they are reported: a kind, a message and, where the text is at hand,
an excerpt around the fault and the first word found there.
-/
namespace CellScheme

/-- What went wrong with a piece of program text. `incomplete` is the one kind that more text may
cure; `invalidForm` is well-formed data that is no expression. -/
inductive SourceErrorKind where
  | invalidSyntax
  | incomplete
  | tooDeeplyNested
  | trailingContent
  | invalidForm
  deriving DecidableEq, Repr

structure SourceError where
  kind : SourceErrorKind
  message : String
  context : Option String := none
  found : Option String := none
  deriving DecidableEq, Repr

namespace SourceError

/-- Bytes shown before the place of the fault. -/
def leadIn : Nat := 20

def excerptBytes : Nat := 100

/-- A line feed is shown as backslash and n, a carriage return not at all. -/
def oneLine (text : List Char) : List Char :=
  text.flatMap fun c => if c = '\n' then ['\\', 'n'] else if c = '\r' then [] else [c]

/-- The part of a text around a byte offset: what precedes it, what is shown, what follows. -/
def window (text : List Char) (offset : Nat) : List Char × List Char × List Char :=
  let before := Text.takeBytes (offset - leadIn) text
  let rest := Text.dropBytes (offset - leadIn) text
  (before, Text.takeBytes excerptBytes rest, Text.dropBytes excerptBytes rest)

def ellipsis : List Char := ['[', '.', '.', '.', ']']

/-- One line that shows the text around a byte offset, with a mark at each end that was cut. -/
def excerpt (text : List Char) (offset : Nat) : String :=
  let (before, shown, after) := window text offset
  let front := if before.isEmpty then [] else ellipsis
  let back := if after.isEmpty then [] else ellipsis
  String.ofList (oneLine (front ++ shown ++ back))

def located (kind : SourceErrorKind) (message : String) (text : List Char) (offset : Nat)
    (found : Option String) : SourceError :=
  { kind, message, context := some (excerpt text offset), found }

/-- The message, followed by what was found and the excerpt, each on a line of its own. -/
def display (error : SourceError) : String :=
  let found := match error.found with
    | some word => "\nFound: " ++ word
    | none => ""
  let context := match error.context with
    | some shown => "\nContext: " ++ shown
    | none => ""
  error.message ++ found ++ context

end SourceError

end CellScheme
