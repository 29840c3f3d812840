/-!
# Coloured text

A report is a list of pieces: text, and changes of ink.  Without colour the changes of ink are
not written, so that colour is a layer over one and the same layout.

* `Severity` — errors and warnings.
* `Ink` — what is coloured alike.
* `Piece`, `render` — text with changes of ink, and how it is written.
-/

namespace Statechart

/-- How serious a report is. -/
inductive Severity where
  | error
  | warning
deriving DecidableEq

namespace Severity

/-- The word that opens a report with a location. -/
def word : Severity → String
  | error => "error"
  | warning => "warning"

/-- The word that opens a report without a location. -/
def title : Severity → String
  | error => "Error"
  | warning => "Warning"

end Severity

namespace Report

/-- What is written in one colour. -/
inductive Ink where
  /-- The word that opens a report without a location. -/
  | title (severity : Severity)
  /-- The word that opens a report with a location. -/
  | heading (severity : Severity)
  /-- The message that follows that word. -/
  | headingText
  /-- Borders and line numbers. -/
  | border
  /-- What a report points at, and what points at it. -/
  | label (severity : Severity)
deriving DecidableEq

/-- Back to the colour of plain text. -/
def resetCode : String := "\x1b[0m"

namespace Ink

/-- The terminal codes that select an ink. -/
def code : Ink → String
  | title .error => "\x1b[1m\x1b[31m"
  | title .warning => "\x1b[1m\x1b[33m"
  | heading .error => "\x1b[1m\x1b[38;5;9m"
  | heading .warning => "\x1b[1m\x1b[38;5;11m"
  | headingText => "\x1b[1m"
  | border => "\x1b[34m"
  | label .error => "\x1b[31m"
  | label .warning => "\x1b[33m"

end Ink

/-- A piece of a report. -/
inductive Piece where
  | text (shown : String)
  /-- From here on write in the given ink. -/
  | ink (colour : Ink)
  /-- From here on write plainly. -/
  | plain
deriving DecidableEq

namespace Piece

/-- A piece as it is written.  Every ink starts from plain text. -/
def render (coloured : Bool) : Piece → String
  | text shown => shown
  | ink colour => if coloured then resetCode ++ colour.code else ""
  | plain => if coloured then resetCode else ""

end Piece

/-- A report as it is written. -/
def render (coloured : Bool) (pieces : List Piece) : String :=
  String.join (pieces.map (Piece.render coloured))

/-- A text in one ink. -/
def inked (ink : Ink) (text : String) : List Piece := [.ink ink, .text text, .plain]

end Report

end Statechart
