import Statechart.Report.Log

/-!
# The arguments of the command

The command takes the path of a chart and some options.  An option with a value takes it from
the same argument, after an equals sign or, for a one-letter option, directly, and otherwise
from the next argument; that one must not look like an option itself.  One-letter options can
share an argument.  After two dashes every argument is a path.

* `Invocation` — what the command is asked to do.
* `UsageError` — why the arguments make no sense.
* `Invocation.ofArguments` — the invocation for a list of arguments.
-/

namespace Statechart.Command

/-- When reports are coloured. -/
inductive ColourChoice where
  /-- If they go to a terminal. -/
  | auto
  | always
  | never
deriving DecidableEq

namespace ColourChoice

/-- The choice for a word. -/
def ofWord? (word : String) : Option ColourChoice :=
  if word = "auto" then some auto
  else if word = "always" then some always
  else if word = "never" then some never
  else none

end ColourChoice

/-- The options of the command. -/
inductive Opt where
  | output
  | remote
  | dumpTree
  | colour
  | verbose
  | quiet
deriving DecidableEq

namespace Opt

/-- The option as it is written out. -/
def long : Opt → String
  | output => "output"
  | remote => "remote"
  | dumpTree => "dump-ast"
  | colour => "color"
  | verbose => "verbose"
  | quiet => "quiet"

/-- All options, in the order in which they are looked at. -/
def all : List Opt := [output, remote, dumpTree, colour, verbose, quiet]

/-- The option with a given name. -/
def ofLong? (name : String) : Option Opt := all.find? fun opt => opt.long = name

/-- The option with a given letter. -/
def ofShort? (letter : Char) : Option Opt :=
  if letter = 'o' then some output
  else if letter = 'v' then some verbose
  else if letter = 'q' then some quiet
  else none

/-- Whether the option has a value. -/
def takesValue (opt : Opt) : Bool := opt = output || opt = colour

/-- Whether the option may be given more than once. -/
def mayRepeat (opt : Opt) : Bool := opt = verbose || opt = quiet

end Opt

/-- Why a list of arguments makes no sense. -/
inductive UsageError where
  | unknownOption (text : String)
  | missingValue (opt : Opt)
  | unexpectedValue (opt : Opt)
  | invalidValue (opt : Opt) (value : String)
  | repeated (opt : Opt)
  | conflict (first second : Opt)
  | missingPath
  | emptyPath
  | unexpectedPath (path : String)
deriving DecidableEq

namespace UsageError

/-- The words for a usage error. -/
def message : UsageError → String
  | unknownOption text => "unexpected argument '" ++ text ++ "' found"
  | missingValue opt => "a value is required for '--" ++ opt.long ++ "'"
  | unexpectedValue opt => "no value is expected for '--" ++ opt.long ++ "'"
  | invalidValue opt value => "invalid value '" ++ value ++ "' for '--" ++ opt.long ++ "'"
  | repeated opt => "the argument '--" ++ opt.long ++ "' cannot be used multiple times"
  | conflict first second =>
    "the argument '--" ++ first.long ++ "' cannot be used with '--" ++ second.long ++ "'"
  | missingPath => "the path of a chart is required"
  | emptyPath => "a path must not be empty"
  | unexpectedPath path => "unexpected argument '" ++ path ++ "' found"

end UsageError

/-! ## Taking arguments apart -/

/-- A part of the command line: an option with or without a value, or a path. -/
inductive Part where
  | flag (opt : Opt)
  | valued (opt : Opt) (value : String)
  | path (text : String)
deriving DecidableEq

/-- The characters up to the first equals sign, and those after it if there is one. -/
def splitAtEquals : List Char → List Char × Option (List Char)
  | [] => ([], none)
  | c :: cs =>
    if c = '=' then ([], some cs)
    else
      let (name, value) := splitAtEquals cs
      (c :: name, value)

/-- What an argument leaves to be done: nothing, or an option that waits for its value. -/
abbrev Pending := Option Opt

/-- An argument with an option that is written out. -/
def longPart (text : List Char) : Except UsageError (List Part × Pending) :=
  let (name, value) := splitAtEquals text
  match Opt.ofLong? (String.ofList name), value with
  | none, _ => .error (.unknownOption ("--" ++ String.ofList text))
  | some opt, none => if opt.takesValue then .ok ([], some opt) else .ok ([.flag opt], none)
  | some opt, some value =>
    if opt.takesValue then .ok ([.valued opt (String.ofList value)], none)
    else .error (.unexpectedValue opt)

/-- An argument with options of one letter.  The rest of the argument is the value of the first
option that has one, with or without an equals sign in front. -/
def shortParts : List Char → Except UsageError (List Part × Pending)
  | [] => .ok ([], none)
  | letter :: rest =>
    match Opt.ofShort? letter with
    | none => .error (.unknownOption ("-" ++ String.singleton letter))
    | some opt =>
      if opt.takesValue then
        match rest with
        | [] => .ok ([], some opt)
        | '=' :: value => .ok ([.valued opt (String.ofList value)], none)
        | value => .ok ([.valued opt (String.ofList value)], none)
      else
        match shortParts rest with
        | .ok (parts, pending) => .ok (.flag opt :: parts, pending)
        | .error error => .error error

/-- The parts of a list of arguments.  `pending` is an option that waits for its value. -/
def splitArguments : Pending → List String → Except UsageError (List Part)
  | none, [] => .ok []
  | some opt, [] => .error (.missingValue opt)
  | pending, argument :: rest =>
    match pending, argument.toList with
    | none, ['-', '-'] => .ok (rest.map .path)
    | none, '-' :: '-' :: text =>
      match longPart text with
      | .ok (parts, pending) => (splitArguments pending rest).map (parts ++ ·)
      | .error error => .error error
    | none, '-' :: letter :: letters =>
      match shortParts (letter :: letters) with
      | .ok (parts, pending) => (splitArguments pending rest).map (parts ++ ·)
      | .error error => .error error
    | none, _ => (splitArguments none rest).map (.path argument :: ·)
    | some opt, '-' :: _ :: _ => .error (.missingValue opt)
    | some opt, _ => (splitArguments none rest).map (.valued opt argument :: ·)

/-! ## Invocations -/

/-- What the command is asked to do. -/
structure Invocation where
  input : String
  output : Option String
  remote : Bool
  dumpTree : Bool
  colour : ColourChoice
  filter : Log.Filter
deriving DecidableEq

/-- The option of a part. -/
def Part.opt? : Part → Option Opt
  | .flag opt => some opt
  | .valued opt _ => some opt
  | .path _ => none

/-- The paths among the parts. -/
def pathsOf (parts : List Part) : List String :=
  parts.filterMap fun
    | .path text => some text
    | _ => none

/-- The values given to an option. -/
def valuesOf (opt : Opt) (parts : List Part) : List String :=
  parts.filterMap fun
    | .valued given value => if given = opt then some value else none
    | _ => none

/-- How often an option is given. -/
def occurrences (opt : Opt) (parts : List Part) : Nat :=
  parts.countP fun part => part.opt? = some opt

/-- The first option that is given more often than it may be. -/
def repeated? (parts : List Part) : Option Opt :=
  Opt.all.find? fun opt => !opt.mayRepeat && 1 < occurrences opt parts

/-- The one path of the input. -/
def inputOf (parts : List Part) : Except UsageError String :=
  match pathsOf parts with
  | [] => .error .missingPath
  | [path] => if path = "" then .error .emptyPath else .ok path
  | _ :: path :: _ => .error (.unexpectedPath path)

/-- The path of the output, if there is one. -/
def outputOf (parts : List Part) : Except UsageError (Option String) :=
  match valuesOf .output parts with
  | [] => .ok none
  | path :: _ => if path = "" then .error .emptyPath else .ok (some path)

/-- When reports are coloured; the default depends on where they go. -/
def colourOf (parts : List Part) : Except UsageError ColourChoice :=
  match valuesOf .colour parts with
  | [] => .ok .auto
  | word :: _ =>
    match ColourChoice.ofWord? word with
    | some choice => .ok choice
    | none => .error (.invalidValue .colour word)

/-- The filter of the log: warnings and errors, one level more for each `verbose`, and one less
for each `quiet`. -/
def filterOf (parts : List Part) : Log.Filter :=
  ⟨Log.Level.warn.rank + occurrences .verbose parts - occurrences .quiet parts⟩

/-- The invocation for the arguments of the command. -/
def Invocation.ofArguments (arguments : List String) : Except UsageError Invocation := do
  let parts ← splitArguments none arguments
  if let some opt := repeated? parts then
    throw (.repeated opt)
  if 0 < occurrences .verbose parts && 0 < occurrences .quiet parts then
    throw (.conflict .verbose .quiet)
  let output ← outputOf parts
  let colour ← colourOf parts
  let input ← inputOf parts
  return {
    input := input
    output := output
    remote := 0 < occurrences .remote parts
    dumpTree := 0 < occurrences .dumpTree parts
    colour := colour
    filter := filterOf parts }

end Statechart.Command
