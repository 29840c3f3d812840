import Statechart.Language.Assembly
import Statechart.Output.Walk
import Statechart.Report.Journal

/-!
# Compiling a chart

Reading and emitting, with a journal.  The two halves are pure; here their remarks enter the
journal, in the order in which they were made.

* `parse` — from a named text to a program.
* `generate` — from a program to a module.
* `compile` — both.
* `compileContents` — both, for a text that comes from a file and may not have been readable.

A chart that is rejected is reported as an error at its place.
-/

namespace Statechart

/-- Why a file could not be read or written. -/
inductive FileError where
  | missing
  | isDirectory
  | notDirectory
  | nameTooLong
  /-- The name has a character that no name can have. -/
  | invalidName
  | notText
  /-- Any other reason, in the words of the system. -/
  | other (text : String)
deriving DecidableEq

namespace FileError

/-- The words for the reason. -/
def message : FileError → String
  | missing => "No such file or directory (os error 2)"
  | isDirectory => "Is a directory (os error 21)"
  | notDirectory => "Not a directory (os error 20)"
  | nameTooLong => "File name too long (os error 36)"
  | invalidName => "file name contained an unexpected NUL byte"
  | notText => "stream did not contain valid UTF-8"
  | other text => text

end FileError

/-- Why there is no module. -/
inductive CompileError where
  /-- The file could not be read. -/
  | file (cause : FileError)
  /-- The text was rejected. -/
  | rejected (filename message : String)
deriving DecidableEq

namespace CompileError

/-- The words for the reason. -/
def message : CompileError → String
  | file cause => "failed to perform i/o: " ++ cause.message
  | rejected filename message => "failed to parse `" ++ filename ++ "`: " ++ message

/-- What caused it in turn. -/
def causes : CompileError → List String
  | file cause => [cause.message]
  | rejected _ _ => []

end CompileError

/-- Read a chart.  The text becomes a file of the journal. -/
def parse (source : SourceFile) : Reporting (Except CompileError Program) := do
  let file ← Reporting.addFile source
  let (result, remarks) := Language.read file source.content
  Reporting.noteAll remarks
  match result with
  | .error rejection =>
    Reporting.report (some ⟨rejection.span, file⟩) .error rejection.message
    return .error (.rejected source.name rejection.message)
  | .ok program =>
    Reporting.log .info .reading
      ("parsed `" ++ source.name ++ "` into " ++ toString program.forest.liveNodes ++ " nodes")
    return .ok program

/-- Write the module for a program. -/
def generate (program : Program) (library : Output.Library) : Reporting String := do
  let (result, remarks) := Output.generate program library
  Reporting.noteAll remarks
  match result with
  | .ok text => return text
  | .error fault => throw fault

/-- The module for a chart, or nothing if the chart was rejected. -/
def compile (source : SourceFile) (library : Output.Library) : Reporting (Option String) := do
  match ← parse source with
  | .ok program => return some (← generate program library)
  | .error error =>
    Reporting.log .error .program error.message
    return none

/-- Read a chart from the contents of a file, if these could be had. -/
def parseContents (path : String) (contents : Except FileError String) :
    Reporting (Except CompileError Program) :=
  match contents with
  | .error cause => return .error (.file cause)
  | .ok content => parse ⟨path, content⟩

/-- The module for the contents of a file. -/
def compileContents (path : String) (contents : Except FileError String)
    (library : Output.Library) : Reporting (Except CompileError String) := do
  match ← parseContents path contents with
  | .error error => return .error error
  | .ok program => return .ok (← generate program library)

end Statechart
