import Statechart.Source.Identifier

/-!
# Quoted text

String literals and property keys of a written module.  A literal stands between single
quotes; the quote, the backslash and all control characters are escaped, and nothing else is.

* `escape` — the characters that one character is written as.
* `quote` — a string literal.
* `propertyKey` — a key, bare where it can be and quoted where it must be.
-/

namespace Statechart.Script

/-- The control characters: those below the blank, and from delete to `U+009F`. -/
def isControl (c : Char) : Bool :=
  c.toNat < 0x20 || (0x7f ≤ c.toNat && c.toNat ≤ 0x9f)

/-- The digit for a number below sixteen, with lower-case letters. -/
def hexDigit (n : Nat) : Char :=
  if n < 10 then Char.ofNat (48 + n) else Char.ofNat (87 + n)

/-- The last four hexadecimal digits of a number. -/
def fourHexDigits (n : Nat) : List Char :=
  [hexDigit (n / 4096 % 16), hexDigit (n / 256 % 16), hexDigit (n / 16 % 16), hexDigit (n % 16)]

/-- The characters that stand for `c` inside a literal. -/
def escape (c : Char) : List Char :=
  if c = '\\' then ['\\', '\\']
  else if c = '\'' then ['\\', '\'']
  else if c = '\n' then ['\\', 'n']
  else if c = '\r' then ['\\', 'r']
  else if c = '\t' then ['\\', 't']
  else if isControl c then '\\' :: 'u' :: fourHexDigits c.toNat
  else [c]

/-- A string literal. -/
def quote (text : String) : String :=
  "'" ++ String.ofList (text.toList.flatMap escape) ++ "'"

/-- A property key: the name itself if it is a plain one, and a literal otherwise. -/
def propertyKey (key : String) : String :=
  if isIdentifier key.toList then key else quote key

end Statechart.Script
