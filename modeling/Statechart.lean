import Statechart.Chart.Outline
import Statechart.Command.Run
import Statechart.Compile
import Statechart.Main
import Statechart.Proofs.Accounting
import Statechart.Proofs.Chart.Editing
import Statechart.Proofs.Delays
import Statechart.Proofs.Independence
import Statechart.Proofs.Language.Hoisting
import Statechart.Proofs.Language.Recognition
import Statechart.Proofs.Language.Shape
import Statechart.Proofs.Locations
import Statechart.Proofs.Naming
import Statechart.Proofs.Output.Discipline
import Statechart.Proofs.Output.Tour
import Statechart.Proofs.Rejecting
import Statechart.Proofs.Repetitions
import Statechart.Proofs.Rereading
import Statechart.Proofs.Runtime
import Statechart.Proofs.Script.Literal
import Statechart.Proofs.Script.Nesting
import Statechart.Proofs.Script.Reading
import Statechart.Proofs.Shadowing
