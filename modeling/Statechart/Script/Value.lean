import Statechart.Script.Writer

/-!
# Values of a written module

A `Value` is what the text of a configuration stands for: an object, an array, a string, a call
with one argument, or a token that is written as it stands.  `Value.operations` tells a writer
how to put the value down, and it opens and closes the same containers in the same order.
-/

namespace Statechart.Script

/-- A value as it stands in a written module. -/
inductive Value where
  | token (text : String)
  | string (text : String)
  | object (properties : List (String × Value))
  | array (multiline : Bool) (elements : List Value)
  | call (callee : String) (argument : Value)

namespace Value

mutual

/-- The operations that write a value. -/
def operations : Value → List Operation
  | token text => [.raw text]
  | string text => [.string text]
  | object properties => .startObject :: propertyOperations properties ++ [.endObject]
  | array multiline elements =>
    .startArray multiline :: elementOperations elements ++ [.endArray]
  | call callee argument => .startCall callee :: argument.operations ++ [.endCall]

/-- The operations that write the properties of an open object. -/
def propertyOperations : List (String × Value) → List Operation
  | [] => []
  | (key, value) :: rest => .startProperty key :: value.operations ++ propertyOperations rest

/-- The operations that write the elements of an open array. -/
def elementOperations : List Value → List Operation
  | [] => []
  | value :: rest => .startElement :: value.operations ++ elementOperations rest

end

end Value

end Statechart.Script
