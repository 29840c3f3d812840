import Statechart.Report.PlainText

/-!
# Log entries

The compiler keeps a log of what it does.  An entry has a level, the part of the compiler it
comes from, and a message.  Entries are values: whoever runs the compiler decides which of them
are shown.

* `Log.Level` and `Log.Filter` — five levels, and which of them a filter lets pass.
* `Log.Part` — the parts of the compiler that write entries.
* `Log.Entry.record` — an entry in full; `Log.Entry.line` — an entry as a line of output.
-/

namespace Statechart.Log

/-- How important an entry is, the most important first. -/
inductive Level where
  | error
  | warn
  | info
  | debug
  | trace
deriving DecidableEq

namespace Level

/-- The position of a level: entries get more detailed as it grows. -/
def rank : Level → Nat
  | error => 1
  | warn => 2
  | info => 3
  | debug => 4
  | trace => 5

/-- The level in capitals. -/
def word : Level → String
  | error => "ERROR"
  | warn => "WARN"
  | info => "INFO"
  | debug => "DEBUG"
  | trace => "TRACE"

/-- The level in capitals, in five columns. -/
def padded : Level → String
  | error => "ERROR"
  | warn => "WARN "
  | info => "INFO "
  | debug => "DEBUG"
  | trace => "TRACE"

end Level

/-- The part of the compiler that an entry comes from. -/
inductive Part where
  | program
  | reading
  | emission
  | bindings
deriving DecidableEq

namespace Part

/-- The name of a part in the log. -/
def name : Part → String
  | program => "lucyc"
  | reading => "lucyc::parser"
  | emission => "lucyc::codegen"
  | bindings => "lucyc::refs"

end Part

/-- One entry of the log. -/
structure Entry where
  level : Level
  part : Part
  message : String
deriving DecidableEq

/-- A filter lets the entries up to a rank pass; rank zero lets none pass. -/
structure Filter where
  rank : Nat
deriving DecidableEq

namespace Filter

/-- Whether an entry passes. -/
def passes (filter : Filter) (entry : Entry) : Bool := entry.level.rank ≤ filter.rank

end Filter

/-- A text with four blanks in front of every line but the first. -/
def indentContinuation (text : String) : String :=
  String.ofList (text.toList.flatMap fun c => if c = '\n' then '\n' :: "    ".toList else [c])

namespace Entry

/-- The entry in full: level, part and message. -/
def record (e : Entry) : String := e.level.word ++ " " ++ e.part.name ++ " " ++ e.message

/-- The entry as it is shown, on a line of its own and in plain text. -/
def line (e : Entry) : String :=
  Report.plainText
    ("[" ++ e.level.padded ++ " " ++ e.part.name ++ "] " ++ indentContinuation e.message ++ "\n")

end Entry

end Statechart.Log
