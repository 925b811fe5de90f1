import CellScheme.Dialogue

/-!
The interpreter as a program: lines come from standard input, answers go to standard output.
-/
namespace CellScheme

def printLines (output : IO.FS.Stream) (lines : List String) : IO Unit := do
  for line in lines do
    output.putStrLn line
  output.flush

/-- Carries a dialogue on until it is over or the input ends. -/
partial def talk (input output : IO.FS.Stream) (dialogue : Dialogue) : IO Unit := do
  let raw ← input.getLine
  match Dialogue.lines raw.toList with
  | [] => printLines output Dialogue.farewell
  | line :: _ =>
    match dialogue.take (String.ofList line) with
    | .proceed next printed => do
      printLines output printed
      talk input output next
    | .leave printed => printLines output printed

end CellScheme

def main : IO Unit := do
  let input ← IO.getStdin
  let output ← IO.getStdout
  CellScheme.printLines output CellScheme.Dialogue.greeting
  CellScheme.talk input output {}
