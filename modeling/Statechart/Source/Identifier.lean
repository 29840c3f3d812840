/-!
# Identifiers

Charts and the modules written from them agree on what a plain name is: an ASCII letter,
underscore or dollar sign, followed by any number of those and ASCII digits.
-/

namespace Statechart

/-- A character that may begin a plain name.  `Char.isAlpha` holds of ASCII letters only. -/
def isNameStart (c : Char) : Bool := c.isAlpha || c = '_' || c = '$'

/-- A character that may stand in a plain name after the first. -/
def isNameChar (c : Char) : Bool := c.isAlphanum || c = '_' || c = '$'

/-- Whether the characters form a plain name. -/
def isIdentifier : List Char → Bool
  | [] => false
  | c :: cs => isNameStart c && cs.all isNameChar

end Statechart
