import CellScheme.Session

/-!
The conversation with a user, line by line. Lines are collected until they hold complete forms;
then they are evaluated and the result is printed. Lines that start with a colon are commands,
but only while no form is pending.
-/
namespace CellScheme

/-- A session together with the lines of a form that is not complete yet. -/
structure Dialogue where
  session : Session := {}
  pending : String := ""

/-- What becomes of a dialogue after a line: it goes on, or it is over. Both print lines. -/
inductive Reply where
  | proceed (next : Dialogue) (printed : List String)
  | leave (printed : List String)

namespace Dialogue

def greeting : List String :=
  ["StoreXP Scheme Interpreter",
    "Environments map names to store addresses; set! writes cells in place",
    "Enter forms like: (define x 5) or (let ((y 2)) (+ x y))",
    "Type :help for more commands, or Ctrl+C to exit.",
    ""]

def farewell : List String :=
  ["Goodbye!"]

def padded (width : Nat) (text : String) : String :=
  text ++ String.ofList (List.replicate (width - text.length) ' ')

def namesPerRow : Nat := 6

def rows : List String → List String
  | [] => []
  | name :: rest =>
    let row := (name :: rest.take (namesPerRow - 1)).map (padded 15)
    ("  " ++ String.join row) :: rows (rest.drop (namesPerRow - 1))
termination_by names => names.length
decreasing_by
  simp only [List.length_drop, List.length_cons]
  omega

def helpLines : List String :=
  ["StoreXP Scheme Interpreter:",
    "  :help      - Show this help message",
    "  :env       - Show global bindings and their addresses",
    "  :store     - Show every store cell",
    "  :quit      - Exit the interpreter",
    "  :exit      - Exit the interpreter",
    "  Ctrl+C     - Abandon an unfinished form, or exit",
    "",
    "Forms:",
    "  Literals: 42, -5, #t, #f, \"text\", 'symbol, '(1 2)",
    "  (if test then else)      - only #f is false",
    "  (lambda (x y) body...)   - closure over the current environment",
    "  (let ((x 1) (y 2)) body...)",
    "  (define name value)      - global; the first definition of a name wins",
    "  (set! name value)        - writes the cell the name resolves to",
    "  ; comment to end of line",
    "",
    "Primitives (" ++ toString Primitive.all.length ++ "):"]
  ++ rows (Primitive.all.map Primitive.name)
  ++ ["",
    "Examples:",
    "  (define x 5)",
    "  (define add-to-x! (lambda (z) (set! x (+ x z)) x))",
    "  (add-to-x! 3)",
    ""]

/-- One line for each global entry, after the names of all entries before it. An entry is marked
when an earlier one has its name. -/
def bindingLines (store : Store) (earlier : List String) : List (String × Address) → List String
  | [] => []
  | (name, address) :: rest =>
    let value := match store.read? address with
      | some value => value.display
      | none => "<" ++ (Error.illegalAddress address).message ++ ">"
    let mark := if earlier.contains name then "   (shadowed)" else ""
    ("  " ++ name ++ " -> @" ++ toString address ++ " = " ++ value ++ mark)
      :: bindingLines store (name :: earlier) rest

def environmentLines (memory : Memory) : List String :=
  if memory.globals.bindings.isEmpty then ["Global environment is empty."]
  else
    ("Global bindings (" ++ toString memory.globals.size ++ " total):")
      :: bindingLines memory.store [] memory.globals.bindings

def storeLines (memory : Memory) : List String :=
  if memory.store.size = 0 then ["Store is empty."]
  else
    ("Store cells (" ++ toString memory.store.size ++ " total):")
      :: memory.store.toList.map fun cell =>
        "  @" ++ padded 5 (toString cell.1) ++ " " ++ cell.2.display

/-- Takes a line as part of a form. An unspecified result is not printed. -/
def submit (dialogue : Dialogue) (line : String) : Reply :=
  let pending := dialogue.pending ++ line ++ "\n"
  match dialogue.session.evaluateText true pending with
  | (.error (.source { kind := .incomplete, .. }), session) => .proceed { session, pending } []
  | (.ok .unspecified, session) => .proceed { session } []
  | (.ok value, session) => .proceed { session } [value.display]
  | (.error error, session) => .proceed { session } ["Error: " ++ error.message]

/-- Takes a line: a command, nothing, or part of a form. -/
def take (dialogue : Dialogue) (line : String) : Reply :=
  if dialogue.pending.isEmpty then
    match String.ofList (Text.trim line.toList) with
    | "" => .proceed dialogue []
    | ":help" => .proceed dialogue helpLines
    | ":env" => .proceed dialogue (environmentLines dialogue.session.memory)
    | ":store" => .proceed dialogue (storeLines dialogue.session.memory)
    | ":quit" | ":exit" => .leave farewell
    | _ => dialogue.submit line
  else dialogue.submit line

/-- The lines printed in answer to all lines of the input; the end of the input ends the dialogue. -/
def converse (dialogue : Dialogue) : List String → List String
  | [] => farewell
  | line :: rest =>
    match dialogue.take line with
    | .proceed next printed => printed ++ next.converse rest
    | .leave printed => printed

/-- The lines of a text. A line ends with a line feed, and one carriage return before it belongs
to the ending; characters after the last line feed are a line too. -/
def lines (text : List Char) : List (List Char) :=
  go [] text
where
  /-- The lines of the rest of a text, given the characters of the line so far, newest first. -/
  go (line : List Char) : List Char → List (List Char)
    | [] => if line.isEmpty then [] else [line.reverse]
    | '\n' :: rest =>
      let ended := match line with
        | '\r' :: shorter => shorter
        | whole => whole
      ended.reverse :: go [] rest
    | c :: rest => go (c :: line) rest

/-- All that is printed when a text is the whole input: each line followed by a line feed. -/
def transcript (input : String) : String :=
  let answers := ({} : Dialogue).converse ((lines input.toList).map String.ofList)
  String.join ((greeting ++ answers).map fun line => line ++ "\n")

end Dialogue

end CellScheme
