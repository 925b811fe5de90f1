/-!
Name resolution. Environments never hold values: a frame, like the global table, maps names to
addresses of store cells. The global table keeps growing after a closure has captured the global
environment, so it is passed to `resolve` and not kept inside an environment.
-/
namespace CellScheme

abbrev Address := Nat

/-- The top-level name table, in order of definition. Entries are appended and never removed. -/
structure GlobalTable where
  bindings : List (String × Address) := []
  deriving DecidableEq, Repr

namespace GlobalTable

/-- Appends an entry. An earlier entry of the same name stays in force. -/
def define (table : GlobalTable) (name : String) (address : Address) : GlobalTable :=
  ⟨table.bindings ++ [(name, address)]⟩

/-- The address of the first entry for a name. -/
def find? (table : GlobalTable) (name : String) : Option Address :=
  table.bindings.lookup name

def size (table : GlobalTable) : Nat :=
  table.bindings.length

@[simp] theorem bindings_define (table : GlobalTable) (name : String) (address : Address) :
    (table.define name address).bindings = table.bindings ++ [(name, address)] := rfl

/-- A new entry is found only under its own name, and only if no earlier entry has it. -/
theorem find?_define (table : GlobalTable) (name other : String) (address : Address) :
    (table.define name address).find? other =
      (table.find? other).or (if other = name then some address else none) := by
  by_cases same : other = name
  · simp [find?, List.lookup_append, same]
  · have unequal : (other == name) = false := by simpa using same
    simp [find?, List.lookup_append, List.lookup_cons, unequal, same]

end GlobalTable

/-- One link of an environment: the names bound together by one `let` or one application, with
their cells. The serial number is the frame's identity; two frames with the same slots differ. -/
structure Frame where
  serial : Nat
  slots : List (String × Address)
  deriving DecidableEq, Repr

/-- An environment is its frames, innermost first; the empty list is the global environment. -/
abbrev Environment := List Frame

namespace Environment

def global : Environment := []

/-- The address of a name: the first slot of that name in the innermost frame that has one, or
else its first global entry. -/
def find? (globals : GlobalTable) : Environment → String → Option Address
  | [], name => globals.find? name
  | frame :: outer, name => (frame.slots.lookup name).or (find? globals outer name)

/-- The serial number of the innermost frame, absent for the global environment. -/
def identity? (env : Environment) : Option Nat :=
  env.head?.map Frame.serial

/-- Environments are the same when both are global or both start with the very same frame. -/
def same (left right : Environment) : Bool :=
  left.identity? == right.identity?

end Environment

end CellScheme
