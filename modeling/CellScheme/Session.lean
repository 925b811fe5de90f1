import CellScheme.Evaluator
import CellScheme.Reader
import CellScheme.Syntax
import CellScheme.Syntax.Stamp

/-!
Sessions. A session is one interpreter: its memory, its depth limit and its supply of stamps.
Text goes through reading and syntax before anything runs, so a fault in either leaves the
session as it was.
-/
namespace CellScheme

/-- The program that a text holds, without stamps. -/
def Program.ofText (comments : Bool) (text : String) : Except Error Program :=
  match Reader.readProgram comments text with
  | .error fault => throw (.source fault)
  | .ok data =>
    match Program.ofData data with
    | .error fault => throw fault.toError
    | .ok program => pure program

/-- One interpreter. Sessions share nothing. -/
structure Session where
  memory : Memory := {}
  limit : Nat := 256
  supply : Nat := 0

namespace Session

def perform {α : Type} (session : Session) (evaluation : Evaluation α) :
    Except Error α × Session :=
  let ⟨before, limit, supply⟩ := session
  let (result, memory) := Evaluation.outcome evaluation before
  (result, { memory, limit, supply })

def evaluate (session : Session) (env : Environment) (expr : Expr) :
    Except Error Value × Session :=
  session.perform (CellScheme.evaluate session.limit session.limit env expr)

def evaluateBody (session : Session) (env : Environment) (forms : List Form) :
    Except Error Value × Session :=
  session.perform (CellScheme.evaluateBody session.limit session.limit env forms)

def evaluateProgram (session : Session) (program : Program) : Except Error Value × Session :=
  session.evaluateBody .global program

/-- Stamps a program from the session's supply. -/
def stamp (session : Session) (program : Program) : Program × Session :=
  let (stamped, supply) := program.stamped session.supply
  (stamped, { session with supply })

/-- Evaluates a body sequence, stamped here, under frames made by hand, the outermost first. -/
def evaluateFormsIn (session : Session) (frames : List (List String × List Address))
    (forms : List Form) : Except Error Value × Session :=
  let (stamped, supply) := (Form.stampedAll forms).run session.supply
  { session with supply }.perform do
    CellScheme.evaluateBody session.limit session.limit (← Evaluation.extendAll .global frames)
      stamped

def evaluateExprIn (session : Session) (frames : List (List String × List Address))
    (expr : Expr) : Except Error Value × Session :=
  let (stamped, supply) := expr.stamped.run session.supply
  { session with supply }.perform do
    CellScheme.evaluate session.limit session.limit (← Evaluation.extendAll .global frames) stamped

def evaluateText (session : Session) (comments : Bool) (text : String) :
    Except Error Value × Session :=
  match Program.ofText comments text with
  | .error error => (.error error, session)
  | .ok program =>
    let (stamped, session) := session.stamp program
    session.evaluateProgram stamped

end Session

end CellScheme
