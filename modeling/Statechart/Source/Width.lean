import Statechart.Source.Property

/-!
# Display width

How many columns a character takes on a terminal.  The width of a tab depends on the column it
stands in and is not decided here.

* **None**: control characters, and all that is invisible or joined to another character.
* **Two**: ideographs, Hangul syllables, full-width forms and pictographs.
* **One**: everything else.

A few characters are exceptions: they look like several, or they count by themselves although
they are joined in some texts.
-/

namespace Statechart

/-- Characters whose width does not follow from their properties.  A filler stands in for a wide
letter, two signs of Khmer are written out in more columns than one, a joiner counts where it
does not join, and a caret stands above the letter before it. -/
def exceptionalWidth (n : Nat) : Option Nat :=
  if n = 0x115f then some 2
  else if n = 0x17a4 then some 2
  else if n = 0x17d8 then some 3
  else if n = 0x2d7f then some 1
  else if n = 0xa8fa then some 0
  else none

/-- Vowel signs of Kannada and Balinese that consist of two joined signs each. -/
def doubledSigns : List (Nat × Nat) :=
  [(0xcc0, 0xcc0), (0xcc7, 0xcc8), (0xcca, 0xccb), (0x1b3b, 0x1b3b), (0x1b3d, 0x1b3d),
   (0x1b43, 0x1b43)]

/-- Marks of Arabic and Syriac that stand above the characters after them. -/
def marksAbove : List (Nat × Nat) :=
  [(0x605, 0x605), (0x70f, 0x70f), (0x890, 0x891), (0x8e2, 0x8e2)]

/-- Whether a code point takes no column by itself. -/
def isZeroWidth (n : Nat) : Bool :=
  inRanges Property.defaultIgnorable n || inRanges Property.graphemeExtend n ||
    inRanges Property.conjoiningJamo n || inRanges doubledSigns n || inRanges marksAbove n ||
    inRanges Property.prependedLetters n

/-- The number of columns of a code point outside ASCII. -/
def wideDisplayWidth (n : Nat) : Nat :=
  match exceptionalWidth n with
  | some width => width
  | none =>
    if isZeroWidth n then 0
    else if inRanges Property.eastAsianWide n then 2
    else 1

/-- The number of columns of a character other than a tab. -/
def displayWidth (c : Char) : Nat :=
  if c.toNat < 0x20 then 0
  else if c.toNat < 0x7f then 1
  else if c.toNat < 0xa0 then 0
  else wideDisplayWidth c.toNat

/-- A printable character of ASCII takes one column. -/
theorem displayWidth_of_printable {c : Char} (h : 0x20 ≤ c.toNat) (h' : c.toNat < 0x7f) :
    displayWidth c = 1 := by
  have : ¬ c.toNat < 0x20 := by omega
  simp [displayWidth, this, h']

/-- Whether a character is white space in the sense of Unicode. -/
def isUnicodeBlank (c : Char) : Bool := inRanges Property.whiteSpace c.toNat

end Statechart
