import Statechart.Language.Attempts
import Statechart.Source.Span

/-!
# Rejections

A text is rejected for one of three reasons: it does not follow the grammar, two states of one
machine have the same name, or a delay is too long.  A rejection has a place and a message.
-/

namespace Statechart.Language

/-- Why a text is not taken for a chart. -/
inductive Rejection where
  /-- The text does not follow the grammar. -/
  | unreadable (attempts : Attempts)
  /-- The machine has a state of this name already. -/
  | duplicateState (name : String) (head : Span)
  /-- The delay is not below the limit. -/
  | delayTooLong (text : String) (span : Span)
deriving DecidableEq

namespace Rejection

/-- The words for a rejection. -/
def message : Rejection → String
  | unreadable attempts => "Lexing failed: " ++ attempts.message
  | duplicateState name _ => "state `" ++ name ++ "` is already defined in this machine"
  | delayTooLong text _ => "delay `" ++ text ++ "` is too large"

/-- The place of a rejection. -/
def span : Rejection → Span
  | unreadable attempts => .point attempts.offset
  | duplicateState _ head => head
  | delayTooLong _ span => span

end Rejection

end Statechart.Language
