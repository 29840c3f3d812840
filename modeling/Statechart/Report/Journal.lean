import Statechart.Fault
import Statechart.Report.Remark
import Statechart.Report.Snippet

/-!
# The journal

A journal belongs to one use of the compiler, for one chart or for many.  It keeps the files
that reports point into, counts errors and warnings, remembers what was said about which node,
and holds all that is to be shown, reports and log entries in order of occurrence.

* `Journal.addFile` — files are numbered from zero in order of addition.
* `Journal.report` — count a report and put its text down.
* `Journal.reportNode` — the same, once per node number and message.
* `Journal.note`, `Journal.noteAll` — take in remarks.
* `Reporting` — computations with a journal that may end in a fault.  The journal up to the
  fault is kept.
-/

namespace Statechart

/-- Something to be shown. -/
inductive Notice where
  | log (entry : Log.Entry)
  /-- The text of a report. -/
  | text (shown : String)
deriving DecidableEq

/-- The journal of one use of the compiler. -/
structure Journal where
  coloured : Bool := false
  files : Array SourceFile := #[]
  /-- What has been reported about which node number. -/
  reported : List (NodeId × String) := []
  notices : Array Notice := #[]
  errors : Nat := 0
  warnings : Nat := 0
deriving DecidableEq

/-- Computations that keep a journal and may end in a fault. -/
abbrev Reporting := EStateM Fault Journal

namespace Journal

/-- Add something to be shown. -/
def addNotice (j : Journal) (notice : Notice) : Journal :=
  { j with notices := j.notices.push notice }

/-- Add an entry to the log. -/
def log (j : Journal) (level : Log.Level) (part : Log.Part) (message : String) : Journal :=
  j.addNotice (.log ⟨level, part, message⟩)

/-- Add a file, and give it the next number. -/
def addFile (j : Journal) (file : SourceFile) : Journal × Nat :=
  ({ j with files := j.files.push file }, j.files.size)

/-- Count one report. -/
def count (j : Journal) : Severity → Journal
  | .error => { j with errors := j.errors + 1 }
  | .warning => { j with warnings := j.warnings + 1 }

/-- The pieces of a report, if its file is known and its label can be placed. -/
def layout (j : Journal) (location : Option Location) (severity : Severity) (message : String) :
    Except Fault (List Report.Piece) :=
  match location with
  | none => .ok (Report.general severity message)
  | some location =>
    match j.files[location.file]? with
    | none => .error .unknownFile
    | some file =>
      if Report.isPlaceable file location.span then
        .ok (Report.located file location.span severity message)
      else .error .offsetOverflow

end Journal

namespace Reporting

/-- Add an entry to the log. -/
def log (level : Log.Level) (part : Log.Part) (message : String) : Reporting Unit :=
  modify fun j => j.log level part message

/-- Add a file, and give it the next number. -/
def addFile (file : SourceFile) : Reporting Nat :=
  modifyGet fun j => (j.addFile file).swap

/-- Count a report and put its text down.  A report is counted even if it has no text. -/
def report (location : Option Location) (severity : Severity) (message : String) :
    Reporting Unit := do
  modify fun j => j.count severity
  let j ← get
  match j.layout location severity message with
  | .ok pieces => set (j.addNotice (.text (Report.render j.coloured pieces)))
  | .error fault => throw fault

/-- Report something about a node, unless the same was reported before about a node with the
same number. -/
def reportNode (id : NodeId) (location : Option Location) (severity : Severity)
    (message : String) : Reporting Unit := do
  let j ← get
  if (id, message) ∈ j.reported then
    return
  set { j with reported := (id, message) :: j.reported }
  report location severity message

/-- Take in a remark. -/
def note : Remark → Reporting Unit
  | .log entry => modify fun j => j.addNotice (.log entry)
  | .span location severity message => report (some location) severity message
  | .node id location severity message => reportNode id location severity message
  | .general severity message => report none severity message

/-- Take in remarks one after another. -/
def noteAll : List Remark → Reporting Unit
  | [] => return
  | remark :: remarks => do
    note remark
    noteAll remarks

end Reporting

namespace Journal

/-- The texts of all reports, one after the other. -/
def reportText (j : Journal) : String :=
  String.join (j.notices.toList.filterMap fun
    | .text shown => some shown
    | .log _ => none)

/-- All log entries, in order. -/
def entries (j : Journal) : List Log.Entry :=
  j.notices.toList.filterMap fun
    | .text _ => none
    | .log entry => some entry

/-- All that is shown: the reports, and the log entries that pass a filter. -/
def shownText (j : Journal) (filter : Log.Filter) : String :=
  String.join (j.notices.toList.map fun
    | .text shown => shown
    | .log entry => if filter.passes entry then entry.line else "")

end Journal

end Statechart
