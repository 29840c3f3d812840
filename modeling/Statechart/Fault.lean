import Statechart.Chart.Node

/-!
# Faults

An operation that is asked for something it cannot do stops with a `Fault`.  Nothing that
follows such an operation takes place.  Each constructor is one cause, and `Fault.message` is
the only place that puts the causes into words.
-/

namespace Statechart

/-- Why an operation could not go on. -/
inductive Fault where
  /-- The payload of the node is gone. -/
  | destroyed (id : NodeId)
  /-- The payload of the node was to be dropped, and is gone already. -/
  | destroyedTwice (id : NodeId)
  /-- Only `count` nodes were ever added. -/
  | noSuchNode (count : Nat) (id : NodeId)
  /-- A property was started while no object was innermost. -/
  | propertyOutsideObject (key : String)
  /-- An element was started while no array was innermost. -/
  | elementOutsideArray
  /-- An array was to be closed, and the innermost container is none. -/
  | noArrayToClose
  /-- An object was to be closed, and the innermost container is none. -/
  | noObjectToClose
  /-- A report points into a file that the journal does not know. -/
  | unknownFile
  /-- A report points to an offset that has no offset after it. -/
  | offsetOverflow
deriving DecidableEq

namespace Fault

/-- The words for a fault. -/
def message : Fault → String
  | destroyed id => NodeId.label id ++ " was already destroyed"
  | destroyedTwice id => NodeId.label id ++ " destroyed twice"
  | noSuchNode count id =>
    "index out of bounds: the len is " ++ toString count ++ " but the index is " ++ toString id
  | propertyOutsideObject key => "property `" ++ key ++ "` outside of an object"
  | elementOutsideArray => "array element outside of an array"
  | noArrayToClose => "no array to close"
  | noObjectToClose =>
    "assertion failed: matches!(self.frames.last(), Some(Frame::Object \x7b .. \x7d))"
  | unknownFile => "Failed to write diagnostic: FileMissing"
  | offsetOverflow => "attempt to add with overflow"

end Fault

end Statechart
