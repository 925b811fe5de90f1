import CellScheme.Reader.Atom
import CellScheme.Text.Bytes
import CellScheme.Text.Literal

/-!
Reading as a machine that takes one character at a time. Its state after a part of a text is all
that the rest of the text depends on: the lists and quote marks that are still open, the token
that has begun, and the data that are complete.

A quote mark closes as soon as its datum is complete. When no datum can be read behind it, the
fault lies at the quote mark and not behind it, because it is there that no datum begins.
-/
namespace CellScheme.Reader

/-- A list or quote mark that waits for data. -/
inductive Opening where
  /-- An open list, with the items read so far, the newest first. -/
  | list (items : List Value)
  /-- A quote mark, with its byte offset. -/
  | quote (start : Nat)

/-- The token that the next character may belong to. -/
inductive Token where
  | between
  /-- A run of symbol characters from a byte offset, the newest first. -/
  | atom (start : Nat) (run : List Char)
  /-- The characters of an open string literal, the newest first. -/
  | string (chars : List Char)
  /-- An open string literal after a backslash at a byte offset. -/
  | escape (start : Nat) (chars : List Char)

/-- What a text is expected to hold. -/
inductive Extent where
  /-- Exactly one datum, with layout around it. -/
  | datum
  /-- Any number of data, with blanks of any kind between them. -/
  | program
  deriving DecidableEq, Repr

structure State where
  offset : Nat := 0
  openings : List Opening := []
  token : Token := .between
  /-- Complete data outside all openings, the newest first. -/
  complete : List Value := []

inductive Trouble where
  | tooDeep
  | badEscape
  /-- A closing character is missing: of a list, or of a string literal at the end. -/
  | unclosed
  | noDatum
  | trailing
  deriving DecidableEq, Repr

structure Fault where
  trouble : Trouble
  offset : Nat
  deriving DecidableEq, Repr

def nestingLimit : Nat := 64

/-- Hands a complete datum to what encloses it. A quote mark is complete with its datum, so it is
handed on in turn. -/
def settle (datum : Value) (complete : List Value) : List Opening → List Opening × List Value
  | [] => ([], datum :: complete)
  | .list items :: outer => (.list (datum :: items) :: outer, complete)
  | .quote _ :: outer => settle (.list [.symbol "quote", datum]) complete outer

/-- The fault when no datum begins at a byte offset: inside a list its end was expected there, and
behind quote marks the fault lies at the outermost of them. -/
def missing (offset : Nat) : List Opening → Fault
  | [] => ⟨.noDatum, offset⟩
  | .list _ :: _ => ⟨.unclosed, offset⟩
  | .quote start :: outer => missing start outer

namespace State

/-- The state once a datum is complete. -/
def deliver (state : State) (datum : Value) : State :=
  let (openings, complete) := settle datum state.complete state.openings
  { state with openings, complete, token := .between }

/-- Enters a list or quote mark, unless that nests too deep. The fault lies behind the opening
character, where the first datum inside would begin. -/
def enter (state : State) (opening : Opening) : Except Fault State :=
  if nestingLimit ≤ state.openings.length + 1 then throw ⟨.tooDeep, state.offset + 1⟩
  else pure { state with openings := opening :: state.openings, token := .between }

def endAtom (state : State) (start : Nat) (run : List Char) : Except Fault State :=
  match atom? run.reverse with
  | some datum => pure (state.deliver datum)
  | none => throw (missing start state.openings)

/-- Characters that are skipped between tokens: between the data of a program any blank, elsewhere
only layout. -/
def skips (state : State) (extent : Extent) (c : Char) : Bool :=
  if extent = .program ∧ state.openings.isEmpty then Text.isBlank c else Text.isLayout c

/-- Takes a character that belongs to no token so far. -/
def start (state : State) (extent : Extent) (c : Char) : Except Fault State :=
  if state.skips extent c then pure { state with token := .between }
  else if extent = .datum ∧ !state.complete.isEmpty then throw ⟨.trailing, state.offset⟩
  else if c = '\'' then state.enter (.quote state.offset)
  else if c = '(' then state.enter (.list [])
  else if c = ')' then
    match state.openings with
    | .list items :: outer => pure ({ state with openings := outer }.deliver (.list items.reverse))
    | openings => throw (missing state.offset openings)
  else if c = '"' then pure { state with token := .string [] }
  else if c = '#' ∨ Text.isSymbolChar c then pure { state with token := .atom state.offset [c] }
  else throw (missing state.offset state.openings)

/-- Takes a character, without counting it. -/
def take (state : State) (extent : Extent) (c : Char) : Except Fault State :=
  match state.token with
  | .between => state.start extent c
  | .atom start run =>
    if Text.isSymbolChar c then pure { state with token := .atom start (c :: run) }
    else do (← state.endAtom start run).start extent c
  | .string chars =>
    if c = '"' then pure (state.deliver (.string (String.ofList chars.reverse)))
    else if c = '\\' then pure { state with token := .escape state.offset chars }
    else pure { state with token := .string (c :: chars) }
  | .escape start chars =>
    match Text.unescape? c with
    | some denoted => pure { state with token := .string (denoted :: chars) }
    | none => throw ⟨.badEscape, start⟩

def step (extent : Extent) (state : State) (c : Char) : Except Fault State := do
  return { (← state.take extent c) with offset := state.offset + c.utf8Size }

/-- The complete data once the text has ended, in order. -/
def finish (state : State) : Except Fault (List Value) := do
  let ended ← match state.token with
    | .between => pure state
    | .atom start run => state.endAtom start run
    | .string _ | .escape .. => throw ⟨.unclosed, state.offset⟩
  if ended.openings.isEmpty then return ended.complete.reverse
  else throw (missing ended.offset ended.openings)

end State

def scan (extent : Extent) (text : List Char) : Except Fault (List Value) := do
  (← text.foldlM (State.step extent) {}).finish

end CellScheme.Reader
