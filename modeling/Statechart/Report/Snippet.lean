import Statechart.Source.Span
import Statechart.Source.Line
import Statechart.Source.Width
import Statechart.Report.Ink

/-!
# Reports that show their source

A report with a location consists of a heading, the place it speaks of, the lines in question
with a border and line numbers, and a label below or beside them that repeats the message.

* **A label within one line** is a row of carets under the characters it covers.
* **A label over several lines** is a bracket in a gutter between the border and the source.
  Of the lines it covers, the first with the three that follow and the last with the one before
  are shown; one line in between is shown as well, and more of them give way to a gap.

The source is laid out in *cells*, one for every character: where it is in bytes, how many
columns it takes, and what is written for it.  A tab reaches to the next multiple of four
columns.
-/

namespace Statechart.Report

/-! ## Cells -/

/-- One character of a shown line. -/
structure Cell where
  /-- The byte offset of the character in its line. -/
  start : Nat
  /-- The byte offset after the character. -/
  stop : Nat
  /-- How many columns it takes. -/
  width : Nat
  /-- What is written for it. -/
  shown : String
deriving DecidableEq

/-- Columns between two tab stops. -/
def tabWidth : Nat := 4

/-- A text repeated. -/
def times : Nat → String → String
  | 0, _ => ""
  | n + 1, text => times n text ++ text

/-- The cells of a line, from a byte offset and a column on. -/
def cellsFrom : Nat → Nat → List Char → List Cell
  | _, _, [] => []
  | start, column, c :: cs =>
    let stop := start + c.utf8Size
    if c = '\t' then
      let width := tabWidth - column % tabWidth
      ⟨start, stop, width, times width " "⟩ :: cellsFrom stop (column + width) cs
    else
      ⟨start, stop, displayWidth c, String.singleton c⟩ ::
        cellsFrom stop (column + displayWidth c) cs

/-- The cells of a line as it is shown. -/
def cells (line : Line) : List Cell := cellsFrom 0 0 line.shown

/-- The cell after the last character of a line, where a label may point as well. -/
def endCell (line : Line) : Cell :=
  ⟨byteLength line.shown, byteLength line.shown + 1, 1, ""⟩

/-- How many bytes of blank characters a line begins with. -/
def leadingBlankBytes (line : Line) : Nat := byteLength (line.shown.takeWhile isUnicodeBlank)

/-- Cells in a row, those inside a label in its ink.  `inside` says whether the ink is on. -/
def inkedCells (ink : Ink) (covers : Cell → Bool) (shown : Cell → String) :
    Bool → List Cell → List Piece
  | inside, [] => if inside then [.plain] else []
  | inside, cell :: rest =>
    let change : List Piece :=
      if covers cell = inside then [] else if inside then [.plain] else [.ink ink]
    change ++ .text (shown cell) :: inkedCells ink covers shown (covers cell) rest

/-! ## Marks -/

/-- What a label is to one of the lines shown. -/
inductive Mark where
  /-- The label lies within this line. -/
  | within (start stop : Nat)
  /-- The label begins in this line. -/
  | top (start : Nat)
  /-- The label covers this line. -/
  | whole
  /-- The label ends in this line. -/
  | bottom (stop : Nat)
  /-- The label has nothing to do with this line. -/
  | outside
deriving DecidableEq

namespace Mark

/-- Whether the label covers a cell of the line. -/
def covers : Mark → Cell → Bool
  | within start stop, cell => max start cell.start < min stop cell.stop
  | top start, cell => start ≤ cell.start
  | whole, _ => true
  | bottom stop, cell => cell.stop ≤ stop
  | outside, _ => false

end Mark

/-! ## The frame around the source -/

/-- The left margin, as wide as the line numbers. -/
def margin (width : Nat) : List Piece := [.text (times width " " ++ " ")]

/-- The left margin with a line number. -/
def numberMargin (width number : Nat) : List Piece :=
  let digits := toString number
  inked .border (times (width - digits.length) " " ++ digits) ++ [.text " "]

/-- The border beside the source. -/
def borderLine : List Piece := inked .border "│"

/-- The border beside lines that are left out. -/
def borderGap : List Piece := inked .border "·"

/-- A bracket character in the gutter. -/
def bracket (severity : Severity) (character : String) : List Piece :=
  .text " " :: inked (.label severity) character

/-- A gutter with nothing in it. -/
def emptyGutter : List Piece := [.text "  "]

/-- The gutter beside a source line.  A label that begins before all visible characters opens
its bracket here, and otherwise on a line of its own. -/
def sourceGutter (severity : Severity) (line : Line) : Mark → List Piece
  | .within _ _ => []
  | .top start =>
    if start ≤ leadingBlankBytes line then bracket severity "╭" else emptyGutter
  | .whole => bracket severity "│"
  | .bottom _ => bracket severity "│"
  | .outside => emptyGutter

/-- The gutter beside a gap, which continues the bracket of the line above. -/
def gapGutter (severity : Severity) : Mark → List Piece
  | .within _ _ => []
  | .top _ => emptyGutter
  | .whole => bracket severity "│"
  | .bottom _ => bracket severity "│"
  | .outside => emptyGutter

/-! ## The rows of a snippet -/

/-- The message beside a label, after one blank; an empty one is left out with its blank. -/
def caretMessage (severity : Severity) (message : String) : List Piece :=
  if message.isEmpty then [] else .text " " :: inked (.label severity) message

/-- What is written under a cell by a label up to `stop`: carets where it covers the cell, and
blanks before its end. -/
def caretsUnder (mark : Mark) (stop : Nat) (cell : Cell) : String :=
  if mark.covers cell then times cell.width "^"
  else if cell.start < stop then times cell.width " "
  else ""

/-- The lines under a source line that belong to the label. -/
def underline (severity : Severity) (width : Nat) (message : String) (line : Line) :
    Mark → List Piece
  | .within start stop =>
    margin width ++ borderLine ++ [.text " "] ++
      inkedCells (.label severity) (Mark.within start stop).covers
        (caretsUnder (.within start stop) stop) false (cells line ++ [endCell line]) ++
      caretMessage severity message ++ [.text "\n"]
  | .top start =>
    if start ≤ leadingBlankBytes line then []
    else
      let reach := (cells line).takeWhile fun cell => cell.start < start + 1
      margin width ++ borderLine ++ bracket severity "╭" ++
        inked (.label severity) (String.join (reach.map fun cell => times cell.width "─") ++ "^") ++
        [.text "\n"]
  | .whole => []
  | .bottom stop =>
    let reach := (cells line).takeWhile fun cell => cell.start < stop
    margin width ++ borderLine ++ bracket severity "╰" ++
      inked (.label severity)
        (String.join (reach.map fun cell => times cell.width "─") ++ "^" ++
          (if message.isEmpty then "" else " " ++ message)) ++
      [.text "\n"]
  | .outside => []

/-- A source line with what the label adds to it. -/
def sourceRow (severity : Severity) (width : Nat) (message : String) (line : Line)
    (mark : Mark) : List Piece :=
  numberMargin width line.number ++ borderLine ++ sourceGutter severity line mark ++
    [.text " "] ++ inkedCells (.label severity) mark.covers Cell.shown false (cells line) ++
    [.text "\n"] ++ underline severity width message line mark

/-- The row that stands for lines left out. -/
def gapRow (severity : Severity) (width : Nat) (mark : Mark) : List Piece :=
  margin width ++ borderGap ++ gapGutter severity mark ++ [.text "\n"]

/-! ## Which lines are shown -/

/-- How many lines are shown after the one in which a label begins. -/
def linesAfterTop : Nat := 3

/-- How many lines are shown before the one in which a label ends. -/
def linesBeforeBottom : Nat := 1

/-- The number of byte offsets that can be told apart. -/
def offsetCount : Nat := 0x10000000000000000

/-- Whether the label of a span can be placed.  A label within one line covers at least the
offset it begins at, so there has to be an offset after it. -/
def isPlaceable (file : SourceFile) (span : Span) : Bool :=
  let first := file.lineAt span.start
  first.number ≠ (file.lineAt span.stop).number || span.start - first.start + 1 < offsetCount

/-- The lines to show for a label from `start` to `stop`, each with its mark, in order.  A label
that ends on an earlier line than it begins on shows these two lines only. -/
def markedLines (lines : List Line) (first last : Line) (span : Span) : List (Line × Mark) :=
  if first.number = last.number then
    let start := span.start - first.start
    [(first, .within start (max (span.stop - first.start) (start + 1)))]
  else if first.number < last.number then
    lines.filterMap fun line =>
      if line.number = first.number then some (line, .top (span.start - first.start))
      else if line.number = last.number then some (line, .bottom (span.stop - last.start))
      else if first.number < line.number ∧ line.number < last.number ∧
          (line.number ≤ first.number + linesAfterTop ∨
            last.number ≤ line.number + linesBeforeBottom) then
        some (line, .whole)
      else none
  else [(last, .bottom (span.stop - last.start)), (first, .top (span.start - first.start))]

/-- The rows for marked lines.  A single line between two of them is shown as well, and more
than one give way to a gap. -/
def rows (severity : Severity) (width : Nat) (message : String) (lines : List Line)
    (between : Mark) : List (Line × Mark) → List Piece
  | [] => []
  | [(line, mark)] => sourceRow severity width message line mark
  | (line, mark) :: (next, nextMark) :: rest =>
    let missing := lines.filter fun l => line.number < l.number && l.number < next.number
    sourceRow severity width message line mark ++
      (match missing with
        | [] => []
        | [single] => sourceRow severity width message single between
        | _ => gapRow severity width mark) ++
      rows severity width message lines between ((next, nextMark) :: rest)

/-! ## The whole report -/

/-- The heading of a report with a location. -/
def heading (severity : Severity) (message : String) : List Piece :=
  [.ink (.heading severity), .text severity.word, .ink .headingText, .text (": " ++ message),
    .plain, .text "\n"]

/-- A report about a span of a file. -/
def located (file : SourceFile) (span : Span) (severity : Severity) (message : String) :
    List Piece :=
  let lines := file.lines
  let first := file.lineAt span.start
  let last := file.lineAt span.stop
  let width := (toString (max first.number last.number)).length
  let place := file.name ++ ":" ++ toString first.number ++ ":" ++
    toString (first.column span.start)
  let oneLine : Bool := first.number = last.number
  let between := if first.number < last.number then Mark.whole else Mark.outside
  heading severity message ++
    margin width ++ inked .border "┌─" ++ [.text (" " ++ place ++ "\n")] ++
    margin width ++ borderLine ++ (if oneLine then [] else emptyGutter) ++ [.text "\n"] ++
    rows severity width message lines between (markedLines lines first last span) ++
    [.text "\n"]

/-- A report without a location. -/
def general (severity : Severity) (message : String) : List Piece :=
  inked (.title severity) severity.title ++ [.text (": " ++ message ++ "\n")]

end Statechart.Report
