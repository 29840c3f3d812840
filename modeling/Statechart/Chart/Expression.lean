/-!
# Expressions of a chart

What may stand to the right of `=` in a binding, between the arrows of a transition, and in
front of its first arrow.  Every type here has one `text` function, and the text is in the
notation that charts are written in.

* `Assignment`, `Expr` — values of bindings and inline steps.
* `Trigger` — what makes a transition fire.
* `Reference` — a guard or an action of a transition: a name to be looked up among the
  machine's options, or an expression that stands for itself.
* `Transition` — a trigger, a target, and the guards and actions in between.
-/

namespace Statechart

/-- An update of one key of the machine's context.  Without a `value` the key takes the payload
of the event. -/
structure Assignment where
  key : String
  value : Option String
deriving DecidableEq

namespace Assignment

/-- `assign(key)` or `assign(key, value)`. -/
def text (a : Assignment) : String :=
  match a.value with
  | none => "assign(" ++ a.key ++ ")"
  | some value => "assign(" ++ a.key ++ ", " ++ value ++ ")"

end Assignment

/-- An expression of the chart language. -/
inductive Expr where
  | identifier (name : String)
  | assign (assignment : Assignment)
  | guard (name : String)
  | action (name : String)
  | delay (milliseconds : Nat)
deriving DecidableEq

/-- A delay is always written in milliseconds. -/
def delayText (milliseconds : Nat) : String :=
  "delay(" ++ toString milliseconds ++ "ms)"

namespace Expr

/-- The expression in the notation of a chart; an inline guard or action has a leading colon. -/
def text : Expr → String
  | identifier name => name
  | assign assignment => assignment.text
  | guard name => ":" ++ name
  | action name => ":" ++ name
  | delay milliseconds => delayText milliseconds

/-- Whether the expression updates the context. -/
def isAssign : Expr → Bool
  | assign _ => true
  | _ => false

end Expr

/-- What makes a transition fire. -/
inductive Trigger where
  | event (name : String)
  | immediate
  | delay (milliseconds : Nat)
deriving DecidableEq

namespace Trigger

/-- The trigger as it stands in front of the first arrow. -/
def text : Trigger → String
  | event name => name
  | immediate => "@immediate"
  | delay milliseconds => delayText milliseconds

end Trigger

/-- A guard or an action of a transition. -/
inductive Reference where
  /-- A name that the options of the machine give a meaning to. -/
  | named (name : String)
  /-- An expression that stands for itself. -/
  | inline (expr : Expr)
deriving DecidableEq

namespace Reference

/-- The reference without the word that says what it is used for. -/
def text : Reference → String
  | named name => name
  | inline expr => expr.text

/-- The reference as a guard step of a transition. -/
def guardText (r : Reference) : String := "guard(" ++ r.text ++ ")"

/-- The reference as an action step of a transition; an assignment is a step of its own. -/
def actionText : Reference → String
  | inline (.assign assignment) => assignment.text
  | r => "action(" ++ r.text ++ ")"

/-- Whether the reference updates the context. -/
def isAssign : Reference → Bool
  | named _ => false
  | inline expr => expr.isAssign

end Reference

/-- A transition: any of the guards allows it, and its actions are executed in order. -/
structure Transition where
  trigger : Trigger
  target : String
  guards : List Reference := []
  actions : List Reference := []
deriving DecidableEq

namespace Transition

/-- The transition on one line: trigger, guards, actions and target, joined by arrows. -/
def text (t : Transition) : String :=
  String.intercalate " => "
    (t.trigger.text :: t.guards.map Reference.guardText ++ t.actions.map Reference.actionText
      ++ [t.target])

/-- Whether the transition fires without waiting for anything. -/
def isImmediate (t : Transition) : Bool := t.trigger = .immediate

/-- The transition with one more guard, after those it has. -/
def addGuard (t : Transition) (guard : Reference) : Transition :=
  { t with guards := t.guards ++ [guard] }

/-- The transition with one more action, after those it has. -/
def addAction (t : Transition) (action : Reference) : Transition :=
  { t with actions := t.actions ++ [action] }

end Transition

end Statechart
