import CellScheme.Main
import CellScheme.Value.Inspect
import CellScheme.Workspace
import CellScheme.Proofs.Code
import CellScheme.Proofs.Conversion
import CellScheme.Proofs.Call
import CellScheme.Proofs.Stamping
import CellScheme.Proofs.Closure
import CellScheme.Proofs.Discipline
import CellScheme.Proofs.Ownership
import CellScheme.Proofs.Soundness
import CellScheme.Proofs.TextDriven
import CellScheme.Proofs.AddressSafety
import CellScheme.Proofs.CellOwners
import CellScheme.Proofs.StaticScope
import CellScheme.Proofs.Renaming
import CellScheme.Proofs.Simulation
import CellScheme.Proofs.Equivalence
import CellScheme.Proofs.Unobservable
import CellScheme.Proofs.DepthLimit
import CellScheme.Proofs.Grammar
import CellScheme.Proofs.Denotation
import CellScheme.Proofs.Reading
import CellScheme.Proofs.ReadBack
import CellScheme.Proofs.ReadingStep
import CellScheme.Proofs.Zones
import CellScheme.Proofs.FaultPlaces
import CellScheme.Proofs.DefinitionOrder
import CellScheme.Proofs.Continuation
import CellScheme.Proofs.Relocation
import CellScheme.Proofs.Composition
import CellScheme.Proofs.Comments
import CellScheme.Proofs.StaticErrors
import CellScheme.Proofs.ProgramSequence
import CellScheme.Proofs.LineByLine
import CellScheme.Proofs.Rendering
import CellScheme.Proofs.Policy
import CellScheme.Proofs.BoundNames
import CellScheme.Proofs.Course
import CellScheme.Proofs.Flow
import CellScheme.Proofs.Origin
import CellScheme.Proofs.Assignment
import CellScheme.Proofs.Growth
import CellScheme.Proofs.Activation
import CellScheme.Proofs.History
import CellScheme.Proofs.ClosureIdentity
import CellScheme.Proofs.Spelling
import CellScheme.Proofs.LetApplication
import CellScheme.Proofs.FailingDefinition
import CellScheme.Proofs.FormlessLines
import CellScheme.Proofs.ViablePrefix
import CellScheme.Proofs.ValueIdentity
import CellScheme.Proofs.ArgumentTypes
import CellScheme.Proofs.ExactArithmetic
import CellScheme.Proofs.ChainedDivision
import CellScheme.Proofs.Comparison
import CellScheme.Proofs.Blanking
import CellScheme.Proofs.Excerpt
import CellScheme.Proofs.Defects
import CellScheme.Proofs.Listing
import CellScheme.Proofs.Combinator
import CellScheme.Proofs.Descent
import CellScheme.Proofs.Words
import CellScheme.Proofs.Agreement
import CellScheme.Proofs.Progress
