/-!
# Spans and locations

A chart is read from text, and everything that is later said about it points back into that
text.  Positions are **byte offsets** into the UTF-8 form of the text.

* `Span` — a range of byte offsets, start included and stop excluded.
* `Located` — a value together with the span it was read from.
* `Location` — a span inside one of several numbered files.
-/

namespace Statechart

/-- A range of byte offsets: from `start`, up to and without `stop`. -/
structure Span where
  start : Nat
  stop : Nat
deriving DecidableEq, Inhabited

/-- A value and the span of text it was read from. -/
structure Located (α : Type) where
  value : α
  span : Span
deriving DecidableEq

/-- A span in the file with the given number. -/
structure Location where
  span : Span
  file : Nat
deriving DecidableEq

namespace Span

/-- The empty span at an offset. -/
def point (offset : Nat) : Span := ⟨offset, offset⟩

end Span

end Statechart
