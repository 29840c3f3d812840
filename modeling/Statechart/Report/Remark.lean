import Statechart.Chart.Node
import Statechart.Source.Span
import Statechart.Report.Ink
import Statechart.Report.Log

/-!
# Remarks

Reading and emitting a chart are pure functions.  What they have to say on the way is a list of
remarks, in the order in which they were made; a journal turns remarks into text.
-/

namespace Statechart

/-- Something that is said about a chart. -/
inductive Remark where
  /-- An entry for the log. -/
  | log (entry : Log.Entry)
  /-- A report about a span of text. -/
  | span (location : Location) (severity : Severity) (message : String)
  /-- A report about a node, which may or may not have a location.  The same message is
  reported once per node. -/
  | node (id : NodeId) (location : Option Location) (severity : Severity) (message : String)
  /-- A report about the chart as a whole. -/
  | general (severity : Severity) (message : String)
deriving DecidableEq

end Statechart
