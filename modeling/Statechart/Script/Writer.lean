import Statechart.Fault
import Statechart.Script.Quoted

/-!
# A structural writer for object literals

The writer is told what to open, start and close, and takes care of indentation, separators
and quoting.  It knows which containers are open; an operation that does not fit the innermost
one is a `Fault`.

* `Frame` — an open container, and whether anything has been put into it.
* `Writer` — the text so far, the depth of indentation, and the open containers.
* `Operation` — the eleven things a writer can be told.
* `Writer.apply` — what one operation does.

Objects always take a line of their own for every property.  An array does so for its elements
if it is a multi-line one, and keeps them on one line otherwise.  Calls are not containers:
they neither indent nor separate.
-/

namespace Statechart.Script

/-- An open container; `fresh` says that nothing has been put into it yet. -/
inductive Frame where
  | object (fresh : Bool)
  | array (fresh multiline : Bool)
deriving DecidableEq

/-- A module that is being written.  The innermost open container comes first in `frames`. -/
structure Writer where
  text : String := ""
  depth : Nat := 0
  frames : List Frame := []
deriving DecidableEq

/-- What a writer can be told. -/
inductive Operation where
  | startObject
  | endObject
  /-- The key of a property of the innermost object; its value follows. -/
  | startProperty (key : String)
  | startArray (multiline : Bool)
  /-- A further element of the innermost array; its value follows. -/
  | startElement
  | endArray
  | startCall (callee : String)
  | endCall
  /-- Text that is written as it stands. -/
  | raw (token : String)
  /-- Text that is written as a string literal. -/
  | string (text : String)
  /-- One unit of indentation. -/
  | indent
deriving DecidableEq

/-- One unit of indentation. -/
def indentUnit : String := "  "

/-- The blanks in front of a line at the given depth. -/
def indentation : Nat → String
  | 0 => ""
  | n + 1 => indentation n ++ indentUnit

namespace Writer

/-- The writer with more text. -/
def put (w : Writer) (text : String) : Writer := { w with text := w.text ++ text }

/-- The writer with more text, and the indentation of the current depth after it. -/
def putLine (w : Writer) (text : String) : Writer := w.put (text ++ indentation w.depth)

/-- The number of containers that are open. -/
def openFrames (w : Writer) : Nat := w.frames.length

/-- Open an object: its properties are one level deeper. -/
def startObject (w : Writer) : Writer :=
  { (w.put "\x7b\n") with depth := w.depth + 1, frames := .object true :: w.frames }

/-- Close the innermost container, which has to be an object. -/
def endObject (w : Writer) : Except Fault Writer :=
  match w.frames with
  | .object _ :: outer =>
    .ok (({ w with depth := w.depth - 1, frames := outer }.putLine "\n").put "\x7d")
  | _ => .error .noObjectToClose

/-- Start a property of the innermost container, which has to be an object. -/
def startProperty (w : Writer) (key : String) : Except Fault Writer :=
  match w.frames with
  | .object fresh :: outer =>
    .ok (({ w with frames := .object false :: outer }.putLine (if fresh then "" else ",\n")).put
      (propertyKey key ++ ": "))
  | _ => .error (.propertyOutsideObject key)

/-- Open an array: the elements of a multi-line one are one level deeper. -/
def startArray (w : Writer) (multiline : Bool) : Writer :=
  { (w.put "[") with
    depth := if multiline then w.depth + 1 else w.depth
    frames := .array true multiline :: w.frames }

/-- Start an element of the innermost container, which has to be an array. -/
def startElement (w : Writer) : Except Fault Writer :=
  match w.frames with
  | .array fresh multiline :: outer =>
    let w := { w with frames := .array false multiline :: outer }
    if multiline then .ok (w.putLine (if fresh then "\n" else ",\n"))
    else .ok (w.put (if fresh then "" else ", "))
  | _ => .error .elementOutsideArray

/-- Close the innermost container, which has to be an array.  An array without elements stays
on one line. -/
def endArray (w : Writer) : Except Fault Writer :=
  match w.frames with
  | .array fresh multiline :: outer =>
    let w := { w with frames := outer }
    if multiline then
      let w := { w with depth := w.depth - 1 }
      .ok ((if fresh then w else w.putLine "\n").put "]")
    else .ok (w.put "]")
  | _ => .error .noArrayToClose

/-- Carry out one operation. -/
def apply (w : Writer) : Operation → Except Fault Writer
  | .startObject => .ok w.startObject
  | .endObject => w.endObject
  | .startProperty key => w.startProperty key
  | .startArray multiline => .ok (w.startArray multiline)
  | .startElement => w.startElement
  | .endArray => w.endArray
  | .startCall callee => .ok (w.put (callee ++ "("))
  | .endCall => .ok (w.put ")")
  | .raw token => .ok (w.put token)
  | .string text => .ok (w.put (quote text))
  | .indent => .ok (w.put indentUnit)

/-- Carry out operations one after another, up to the first that does not fit. -/
def applyAll (w : Writer) : List Operation → Except Fault Writer
  | [] => .ok w
  | op :: ops =>
    match w.apply op with
    | .ok w => w.applyAll ops
    | .error fault => .error fault

end Writer

end Statechart.Script
