/-!
# Files and their lines

A source file is a name and a text.  The text is cut into lines, each with its line feed; a
text that ends in a line feed has an empty last line, and the empty text has one empty line.

* `splitLines` — the lines of a text; joined again they are the text (`flatten_splitLines`).
* `SourceFile.lines` — the lines in order, with their numbers and offsets.
* `SourceFile.lineAt` — the line of an offset: the last one that starts at or before it, so
  that offsets beyond the end belong to the last line.
* `Line.column` — the column of an offset in its line, counted in characters from one.
-/

namespace Statechart

/-- The length of a text in bytes of UTF-8. -/
def byteLength : List Char → Nat
  | [] => 0
  | c :: cs => c.utf8Size + byteLength cs

/-- The bytes of two texts in a row. -/
@[simp]
theorem byteLength_append (cs ds : List Char) :
    byteLength (cs ++ ds) = byteLength cs + byteLength ds := by
  induction cs with
  | nil => simp [byteLength]
  | cons c cs ih => simp [byteLength, ih, Nat.add_assoc]

/-- A named text. -/
structure SourceFile where
  name : String
  content : String
deriving DecidableEq

/-- A line of a text, with its line feed if it has one. -/
structure Line where
  /-- Counted from one. -/
  number : Nat
  /-- The byte offset of its first character. -/
  start : Nat
  chars : List Char
deriving DecidableEq, Inhabited

namespace Line

/-- How many characters end within the first `bytes` bytes. -/
def charsWithin : Nat → List Char → Nat
  | _, [] => 0
  | bytes, c :: cs =>
    if c.utf8Size ≤ bytes then 1 + charsWithin (bytes - c.utf8Size) cs else 0

/-- The column of an offset: one more than the number of characters before it in the line. -/
def column (line : Line) (offset : Nat) : Nat :=
  charsWithin (offset - line.start) line.chars + 1

/-- The characters of the line as it is shown: without line feeds, carriage returns and null
characters at its end. -/
def shown (line : Line) : List Char :=
  (line.chars.reverse.dropWhile fun c => c = '\n' || c = '\r' || c = '\x00').reverse

end Line

/-- A text cut after each line feed. -/
def splitLines : List Char → List (List Char)
  | [] => [[]]
  | c :: cs =>
    if c = '\n' then [c] :: splitLines cs
    else
      match splitLines cs with
      | [] => [[c]]
      | line :: lines => (c :: line) :: lines

/-- **Cutting a text into lines loses nothing.** -/
theorem flatten_splitLines (cs : List Char) : (splitLines cs).flatten = cs := by
  induction cs with
  | nil => rfl
  | cons c cs ih =>
    unfold splitLines
    split
    · simp [ih]
    · cases h : splitLines cs with
      | nil => rw [h] at ih; simp [← ih]
      | cons line lines => rw [h] at ih; simp [← ih]

/-- Number the lines from `number` on, the first of them at offset `start`. -/
def numberLines : Nat → Nat → List (List Char) → List Line
  | _, _, [] => []
  | number, start, chars :: rest =>
    ⟨number, start, chars⟩ :: numberLines (number + 1) (start + byteLength chars) rest

namespace SourceFile

/-- The lines of the file. -/
def lines (file : SourceFile) : List Line := numberLines 1 0 (splitLines file.content.toList)

/-- The line of an offset. -/
def lineAt (file : SourceFile) (offset : Nat) : Line :=
  (file.lines.takeWhile fun line => line.start ≤ offset).getLastD default

end SourceFile

end Statechart
