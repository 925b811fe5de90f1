/-!
Comments run from a semicolon outside string literals to the end of the line. They are blanked
before reading: each byte of a comment becomes a space, so every other character keeps its byte
offset.
-/
namespace CellScheme.Reader

/-- Where in a text a character stands, as far as comments are concerned. -/
inductive Zone where
  | code
  | string
  | escape
  | comment
  deriving DecidableEq, Repr

/-- The zone of the next character. A backslash inside a string hides the character after it. -/
def Zone.after (zone : Zone) (c : Char) : Zone :=
  match zone with
  | .code => if c = ';' then .comment else if c = '"' then .string else .code
  | .string => if c = '\\' then .escape else if c = '"' then .code else .string
  | .escape => .string
  | .comment => if c = '\n' then .code else .comment

/-- A character is part of a comment when it starts one or stands in one; the line feed that ends
a comment is not part of it. -/
def Zone.covers (zone : Zone) (c : Char) : Bool :=
  match zone with
  | .code => c == ';'
  | .comment => c != '\n'
  | .string | .escape => false

/-- Replaces every byte of a comment by a space, starting in a given zone. -/
def blankFrom (zone : Zone) : List Char → List Char
  | [] => []
  | c :: rest =>
    (if zone.covers c then List.replicate c.utf8Size ' ' else [c]) ++ blankFrom (zone.after c) rest

def blankComments (text : List Char) : List Char :=
  blankFrom .code text

end CellScheme.Reader
