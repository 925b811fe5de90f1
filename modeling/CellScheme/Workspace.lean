import CellScheme.Session

/-!
Several sessions side by side, and programs kept by name for repeated runs. All stamps come from
one supply, so code that was converted once keeps its identity wherever it runs, and no two
conversions share a stamp.
-/
namespace CellScheme

/-- Numbered sessions with one depth limit, and programs that any of them can run. -/
structure Workspace where
  limit : Nat := 256
  supply : Nat := 0
  sessions : List (Nat × Session) := []
  programs : List (String × Program) := []

namespace Workspace

/-- The session of a number; a number not used before stands for a fresh session. -/
def session (workspace : Workspace) (number : Nat) : Session :=
  (workspace.sessions.lookup number).getD { limit := workspace.limit }

/-- Lets one session act, with the stamps of the workspace. -/
def within {α : Type} (workspace : Workspace) (number : Nat) (act : Session → α × Session) :
    α × Workspace :=
  let acting := { workspace.session number with supply := workspace.supply }
  let others := workspace.sessions.filter fun entry => entry.1 != number
  let (result, session) := act acting
  (result, { workspace with supply := session.supply, sessions := (number, session) :: others })

/-- Reads and converts a text once and keeps the program under a name. The result is the number of
its forms. After an error, a program kept earlier under the name stays. -/
def load (workspace : Workspace) (name : String) (comments : Bool) (text : String) :
    Except Error Nat × Workspace :=
  match Program.ofText comments text with
  | .error error => (.error error, workspace)
  | .ok program =>
    let (stamped, supply) := program.stamped workspace.supply
    (.ok stamped.length,
      { workspace with supply, programs := (name, stamped) :: workspace.programs })

def run? (workspace : Workspace) (number : Nat) (name : String) :
    Option (Except Error Value × Workspace) :=
  (workspace.programs.lookup name).map fun program =>
    workspace.within number fun session => session.evaluateProgram program

end Workspace

end CellScheme
