import Statechart.Command.Run

/-!
# The command

The thin layer between a run and the system: arguments, one file to read, at most one to write,
and the two streams.
-/

namespace Statechart.Command

/-- The code of the system for a path that leads through something other than a directory. -/
def notDirectoryCode : UInt32 := 20

/-- The code of the system for a name or a path with too many bytes. -/
def nameTooLongCode : UInt32 := 36

/-- Whether an error has a code of the system.  Some calls give it with the sign changed. -/
def hasCode (code expected : UInt32) : Bool := code = expected || code = -expected

/-- The reason behind an error of the system. -/
def fileErrorOf : IO.Error → FileError
  | .noFileOrDirectory .. => .missing
  | .inappropriateType _ code _ =>
    if hasCode code notDirectoryCode then .notDirectory else .isDirectory
  | .invalidArgument (some name) code details =>
    if hasCode code nameTooLongCode then .nameTooLong
    else .other (toString (IO.Error.invalidArgument (some name) code details))
  | error => .other (toString error)

/-- The text of a file. -/
def readText (path : String) : IO (Except FileError String) := do
  try
    match String.fromUTF8? (← IO.FS.readBinFile path) with
    | some text => return .ok text
    | none => return .error .notText
  catch error => return .error (fileErrorOf error)

/-- Put a text into a file. -/
def writeText (path text : String) : IO (Except FileError Unit) := do
  try
    IO.FS.writeFile path text
    return .ok ()
  catch error => return .error (fileErrorOf error)

/-- Do what a product asks for. -/
def saveProduct : Product → IO (Except FileError Unit)
  | .save path text => writeText path text
  | _ => return .ok ()

end Statechart.Command

open Statechart.Command in
/-- Compile the chart that the arguments name. -/
def main (arguments : List String) : IO UInt32 := do
  match Invocation.ofArguments arguments with
  | .error error =>
    IO.eprintln ("error: " ++ error.message)
    return 2
  | .ok invocation =>
    let terminal ← (← IO.getStderr).isTty
    let (product, journal) := invocation.start terminal (← readText invocation.input)
    let outcome := invocation.conclude product (← saveProduct product) journal
    IO.eprint outcome.stderr
    IO.print outcome.stdout
    return UInt32.ofNat outcome.code
