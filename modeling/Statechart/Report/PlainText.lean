/-!
# Plain text

A terminal takes some characters as commands.  Text that goes elsewhere is shown without them:
`plainText` leaves out control characters and control sequences, and keeps everything else.

* **Control characters** are left out, except those that are white space.
* **A control sequence** begins with the escape character.  What follows says of which kind it
  is, and the kind says where it ends.

White space that stands in the middle of a short sequence is kept, and interrupts the sequence:
what comes after it is kept as well, up to the next control character.
-/

namespace Statechart.Report

/-- Where in a control sequence a text is. -/
inductive Phase where
  /-- In none. -/
  | text
  /-- After the escape character. -/
  | escape
  /-- In a sequence that ends with a digit, a letter or the like. -/
  | designation
  /-- In a sequence that ends with a letter or the like. -/
  | command
  /-- In the head of a string for the device. -/
  | header
  /-- In a string that ends with a string terminator. -/
  | payload
  /-- In a string that a bell ends. -/
  | title
deriving DecidableEq

namespace Phase

/-- Whether white space is kept in the phase. -/
def keepsWhiteSpace : Phase → Bool
  | text | escape | designation | command => true
  | header | payload | title => false

/-- The phase after the escape character and one more printable character. -/
def afterEscape (c : Char) : Phase :=
  if c.toNat < 0x30 then .designation
  else if c = '[' then .command
  else if c = ']' then .title
  else if c = 'P' then .header
  else if c = 'X' || c = '^' || c = '_' then .payload
  else .text

/-- The phase after a printable ASCII character. -/
def afterPrintable (c : Char) : Phase → Phase
  | text => .text
  | escape => afterEscape c
  | designation => if c.toNat < 0x30 then .designation else .text
  | command => if c.toNat < 0x40 then .command else .text
  | header => if c.toNat < 0x40 then .header else .payload
  | payload => .payload
  | title => .title

/-- The byte that terminates a string. -/
def stringTerminator : UInt8 := 0x9c

/-- The phase after a character outside ASCII.  A string ends wherever the terminating byte
occurs. -/
def afterWide (c : Char) : Phase → Phase
  | payload => if (String.utf8EncodeChar c).contains stringTerminator then .text else .payload
  | phase => phase

end Phase

/-- White space among the control characters: tab, line feed, form feed, carriage return. -/
def isControlSpace (c : Char) : Bool := c = '\t' || c = '\n' || c = '\x0c' || c = '\r'

/-- How far a text has been read. -/
structure PlainReader where
  phase : Phase := .text
  /-- White space has interrupted the sequence that the text is in. -/
  interrupted : Bool := false
deriving DecidableEq

namespace PlainReader

/-- Whether characters are kept as in plain text. -/
def isPlain (r : PlainReader) : Bool := r.phase = .text || r.interrupted

/-- Read one character: whether it is kept, and the reader after it. -/
def step (r : PlainReader) (c : Char) : Bool × PlainReader :=
  if c = '\x1b' then (false, ⟨.escape, false⟩)
  else if c = '\x18' || c = '\x1a' then (false, ⟨.text, false⟩)
  else if c.toNat < 0x20 || c = '\x7f' then
    if isControlSpace c && r.phase.keepsWhiteSpace then (true, ⟨r.phase, true⟩)
    else if c = '\x07' && r.phase = .title then (false, ⟨.text, false⟩)
    else (false, ⟨r.phase, false⟩)
  else if c.toNat < 0x80 then
    if r.isPlain then (true, r) else (false, ⟨r.phase.afterPrintable c, false⟩)
  else if r.isPlain then (true, ⟨.text, false⟩)
  else (false, ⟨r.phase.afterWide c, false⟩)

/-- The characters that are kept. -/
def keep (r : PlainReader) : List Char → List Char
  | [] => []
  | c :: cs =>
    match r.step c with
    | (true, next) => c :: next.keep cs
    | (false, next) => next.keep cs

end PlainReader

/-- A text without control characters and control sequences. -/
def plainText (text : String) : String := String.ofList (PlainReader.keep {} text.toList)

end Statechart.Report
