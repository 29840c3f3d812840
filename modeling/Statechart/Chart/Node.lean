import Statechart.Chart.Expression

/-!
# Nodes of a chart

One node is one declaration, without what is nested in it: nesting is the business of the
forest.  `Node.text` is the line that stands for the node in an outline.

* `Machine`, `State`, `Binding` — the payloads with more than one field.
* `Node` — a payload of any kind, and `Kind` — the kind alone.
-/

namespace Statechart

/-- The number of a node, counted from zero in order of addition.  Numbers are not bounded here.
An index of 32 bits tells the nodes of a chart apart as long as there are fewer than 2^32 of them,
and larger charts are left out of the account. -/
abbrev NodeId := Nat

/-- The name under which a node number is spoken of. -/
def NodeId.label (id : NodeId) : String := "node" ++ toString id

/-- A machine.  Without a name it is the default export of its module. -/
structure Machine where
  name : Option String := none
  initial : Option String := none
  /-- The container of the machine's states has been opened. -/
  hasStates : Bool := false
deriving DecidableEq

/-- A state. -/
structure State where
  name : String
  isFinal : Bool := false
deriving DecidableEq

/-- What a binding gives a name to. -/
inductive BindingKind where
  | guard
  | action
deriving DecidableEq

namespace BindingKind

/-- The word that opens the binding. -/
def word : BindingKind → String
  | guard => "guard"
  | action => "action"

end BindingKind

/-- `guard name = value` or `action name = value`. -/
structure Binding where
  kind : BindingKind
  name : String
  value : Expr
deriving DecidableEq

/-- The kinds of nodes. -/
inductive Kind where
  | machine
  | state
  | transition
  | invoke
  | importModule
  | specifier
  | binding
deriving DecidableEq

/-- A node of the forest. -/
inductive Node where
  | machine (machine : Machine)
  | state (state : State)
  | transition (transition : Transition)
  /-- A service to call, referred to by a path that is written as it stands. -/
  | invoke (service : String)
  /-- A module to import from; what is imported hangs below as specifiers. -/
  | importModule (path : String)
  /-- An imported name, and the name it has here if that differs. -/
  | specifier (imported : String) (renamed : Option String)
  | binding (binding : Binding)
deriving DecidableEq

namespace Node

/-- The kind of a node. -/
def kind : Node → Kind
  | machine _ => .machine
  | state _ => .state
  | transition _ => .transition
  | invoke _ => .invoke
  | importModule _ => .importModule
  | specifier _ _ => .specifier
  | binding _ => .binding

/-- Whether the node is a machine. -/
def isMachine (n : Node) : Bool := n.kind = .machine

/-- Whether the node is a state. -/
def isState (n : Node) : Bool := n.kind = .state

/-- Whether the node is an invocation of a service. -/
def isInvoke (n : Node) : Bool := n.kind = .invoke

/-- The node on one line, without its children. -/
def text : Node → String
  | machine m =>
    "machine" ++ (m.name.elim "" (" " ++ ·)) ++ (m.initial.elim "" (" initial=" ++ ·))
  | state s => (if s.isFinal then "final state " else "state ") ++ s.name
  | transition t => t.text
  | invoke service => "invoke " ++ service
  | importModule path => "use '" ++ path ++ "'"
  | specifier imported renamed => imported ++ renamed.elim "" (" as " ++ ·)
  | binding b => b.kind.word ++ " " ++ b.name ++ " = " ++ b.value.text

end Node

end Statechart
