import Statechart.Chart.Outline
import Statechart.Command.Arguments
import Statechart.Command.Directory

/-!
# A run of the command

A run reads one chart, and then prints its outline, prints its module, or writes its module to
a file.  What goes to the error stream are the reports and the log entries, in order, and at
last the failure report if there is one.

* `Product` — what a run comes to before anything is written.
* `Invocation.produce` — the product for the contents of the input.
* `Invocation.conclude` — the end of a run whose product was written or not.
* `run` — a whole run in a directory.

A failure report has the outermost message, and below it the chain of causes: one cause stands
alone, several are numbered.
-/

namespace Statechart.Command

/-- What a run leaves on the two streams, and its exit code. -/
structure Outcome where
  code : Nat
  stdout : String
  stderr : String
deriving DecidableEq

/-- What a run comes to. -/
inductive Product where
  /-- A text to print. -/
  | print (text : String)
  /-- A text to write to a file. -/
  | save (path text : String)
  /-- A failure, and its causes from the outermost inwards. -/
  | failed (message : String) (causes : List String)
deriving DecidableEq

/-- A text with blanks in front of every line but the first. -/
def indentLines (blanks text : String) : String :=
  String.ofList (text.toList.flatMap fun c => if c = '\n' then '\n' :: blanks.toList else [c])

/-- The causes of a failure with their numbers, from the given one on. -/
def numberedCauses : Nat → List String → String
  | _, [] => ""
  | n, cause :: rest =>
    "    " ++ toString n ++ ": " ++ indentLines "       " cause ++ "\n" ++
      numberedCauses (n + 1) rest

/-- The report of a failure. -/
def failureReport (message : String) (causes : List String) : String :=
  "Error: " ++ message ++ "\n" ++
    match causes with
    | [] => ""
    | [cause] => "\nCaused by:\n    " ++ indentLines "    " cause ++ "\n"
    | causes => "\nCaused by:\n" ++ numberedCauses 0 causes

namespace Invocation

/-- The library that the module is to import. -/
def library (i : Invocation) : Output.Library := if i.remote then .remote else .package

/-- Whether reports are coloured, given whether they go to a terminal. -/
def coloured (i : Invocation) (terminal : Bool) : Bool :=
  match i.colour with
  | .auto => terminal
  | .always => true
  | .never => false

/-- The product for the contents of the input. -/
def produce (i : Invocation) (contents : Except FileError String) : Reporting Product := do
  if i.dumpTree then
    match ← parseContents i.input contents with
    | .ok program => return .print program.forest.outline
    | .error error => return .failed error.message error.causes
  else
    match ← compileContents i.input contents i.library with
    | .error error =>
      return .failed ("could not compile `" ++ i.input ++ "`") (error.message :: error.causes)
    | .ok text =>
      match i.output with
      | some path => return .save path (text ++ "\n")
      | none => return .print (text ++ "\n")

/-- The end of a run: log how many warnings there were, unless something failed. -/
def conclude (i : Invocation) (product : Product) (saved : Except FileError Unit) (j : Journal) :
    Outcome :=
  let counted := j.log .info .program
    (toString j.warnings ++ " warning(s) while compiling `" ++ i.input ++ "`")
  match product, saved with
  | .failed message causes, _ =>
    ⟨1, "", j.shownText i.filter ++ failureReport message causes⟩
  | .save path _, .error cause =>
    ⟨1, "", j.shownText i.filter ++
      failureReport ("could not write `" ++ path ++ "`") [cause.message]⟩
  | .save _ _, .ok () => ⟨0, "", counted.shownText i.filter⟩
  | .print text, _ => ⟨0, text, (if i.dumpTree then j else counted).shownText i.filter⟩

/-- The product and the journal for the contents of the input.  A fault is a failure. -/
def start (i : Invocation) (terminal : Bool) (contents : Except FileError String) :
    Product × Journal :=
  match i.produce contents { coloured := i.coloured terminal } with
  | .ok product j => (product, j)
  | .error fault j => (.failed fault.message [], j)

end Invocation

/-- A run in a directory, with the error stream not on a terminal: its outcome, and the
directory after it. -/
def run (arguments : List String) (d : Directory) :
    Except UsageError (Outcome × Directory) := do
  let invocation ← Invocation.ofArguments arguments
  let (product, j) := invocation.start false (d.read invocation.input)
  match product with
  | .save path text =>
    match d.write path text with
    | .ok d' => return (invocation.conclude product (.ok ()) j, d')
    | .error cause => return (invocation.conclude product (.error cause) j, d)
  | product => return (invocation.conclude product (.ok ()) j, d)

end Statechart.Command
