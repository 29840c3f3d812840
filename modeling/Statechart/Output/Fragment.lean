import Statechart.Output.Bindings
import Statechart.Script.Value

/-!
# Values of transitions and bindings

What is written for the parts of a chart that have no nesting.  Every function here is from a
piece of a chart to a `Script.Value`; where a piece cannot be written, the answer is the warning
to give instead.
-/

namespace Statechart.Output

open Script

/-- What an assignment without a value takes its key from. -/
def eventData : String := "(context, event) => event.data"

/-- An update of the context. -/
def assignValue (a : Assignment) : Value :=
  .call "assign" (.object [(a.key, .token (a.value.getD eventData))])

/-- A guard of a transition: a quoted name refers to the options, a bare one to the module. -/
def guardValue : Reference → Except String Value
  | .named name => .ok (.string name)
  | .inline (.guard name) => .ok (.token name)
  | .inline (.identifier name) => .ok (.token name)
  | .inline expr => .error ("unsupported guard expression `" ++ expr.text ++ "`")

/-- An action of a transition. -/
def actionValue : Reference → Except String Value
  | .named name => .ok (.string name)
  | .inline (.action name) => .ok (.token name)
  | .inline (.identifier name) => .ok (.token name)
  | .inline (.assign a) => .ok (assignValue a)
  | .inline expr => .error ("unsupported action expression `" ++ expr.text ++ "`")

/-- The condition of a transition: a single guard stands alone, several form a list. -/
def conditionProperty : List Value → List (String × Value)
  | [] => []
  | [guard] => [("cond", guard)]
  | guards => [("cond", .array false guards)]

/-- Whether a value is a call, which takes several lines. -/
def isCall : Value → Bool
  | .call _ _ => true
  | _ => false

/-- The actions of a transition, on one line unless one of them takes more. -/
def actionsProperty : List Value → List (String × Value)
  | [] => []
  | actions => [("actions", .array (actions.any isCall) actions)]

/-- The value of a transition: its target alone if nothing else has to be said.  An immediate
transition stands in a list and is always an object. -/
def transitionValue (t : Transition) (guards actions : List Value) : Value :=
  if guards.isEmpty && actions.isEmpty && !t.isImmediate then .string t.target
  else
    .object (("target", .string t.target) :: conditionProperty guards ++ actionsProperty actions)

/-- A guard in the options of a machine. -/
def hoistedGuard (h : Hoisted) : Except String Value :=
  match h.value with
  | .identifier name => .ok (.token name)
  | _ => .error ("guard `" ++ h.name ++ "` must be bound to an identifier")

/-- An action in the options of a machine. -/
def hoistedAction (h : Hoisted) : Except String Value :=
  match h.value with
  | .identifier name => .ok (.token name)
  | .assign a => .ok (assignValue a)
  | _ => .error ("action `" ++ h.name ++ "` must be bound to an identifier or assign(...)")

/-- One kind of options, if there were bindings of that kind. -/
def optionsProperty (key : String) (bound : List Hoisted) (written : List (String × Value)) :
    List (String × Value) :=
  if bound.isEmpty then [] else [(key, .object written)]

end Statechart.Output
