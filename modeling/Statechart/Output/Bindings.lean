import Statechart.Chart.Node

/-!
# Bindings waiting to be hoisted

Named guards and actions are declared anywhere in a machine and written once, in the options
that follow its configuration.  Until then they are collected here, in the order in which they
were met.  A name that was registered twice is kept twice: in the written options the later
key wins.
-/

namespace Statechart

/-- A binding on its way to the options of its machine. -/
structure Hoisted where
  name : String
  value : Expr
  /-- The node that declared the binding, to locate reports about it. -/
  origin : NodeId
deriving DecidableEq

/-- The guards and the actions collected so far, each in order of registration. -/
structure Bindings where
  guards : List Hoisted := []
  actions : List Hoisted := []
deriving DecidableEq

namespace Bindings

/-- Nothing is waiting. -/
def isEmpty (b : Bindings) : Bool := b.guards.isEmpty && b.actions.isEmpty

/-- Add a binding after those of its kind. -/
def register (b : Bindings) (kind : BindingKind) (hoisted : Hoisted) : Bindings :=
  match kind with
  | .guard => { b with guards := b.guards ++ [hoisted] }
  | .action => { b with actions := b.actions ++ [hoisted] }

/-- Hand out what was collected, and what is left: nothing. -/
def drain (b : Bindings) : Bindings × Bindings := (b, {})

/-- The names of all bindings, guards before actions. -/
def names (b : Bindings) : List String := (b.guards ++ b.actions).map Hoisted.name

end Bindings

end Statechart
