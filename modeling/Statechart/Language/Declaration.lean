import Statechart.Chart.Node
import Statechart.Source.Span

/-!
# Declarations

A chart as it was written: imports, bindings and machines, with states that hold bindings,
invocations, transitions and further states.  Declarations keep the spans that reports and
nodes need; blank text and comments leave no trace.

* `Named` — the use of a name: `:name` or `name`.
* `BindingDecl`, `TransitionDecl`, `InvokeDecl`, `ImportDecl` — the declarations without nesting.
* `StateDecl`, `Clause` — states, and what stands between their braces.
* `MachineDecl`, `Item` — machines, and what stands at the top level.
-/

namespace Statechart.Language

/-- The use of a name: with a colon it stands for itself, and without one it is looked up. -/
inductive Named where
  | symbol (name : String)
  | plain (name : String)
deriving DecidableEq

namespace Named

/-- The name without its colon. -/
def name : Named → String
  | symbol name => name
  | plain name => name

end Named

/-- `assign(key)` or `assign(key, value)`. -/
structure AssignDecl where
  key : String
  value : Option Named
deriving DecidableEq

/-- What a binding gives a name to. -/
inductive BindingValue where
  | assign (assign : AssignDecl)
  | named (named : Named)
deriving DecidableEq

/-- `guard name = value` or `action name = value`. -/
structure BindingDecl where
  kind : BindingKind
  name : String
  /-- The span of the kind and the name. -/
  head : Span
  value : BindingValue
  span : Span
deriving DecidableEq

/-- A unit of time. -/
inductive TimeUnit where
  | milliseconds
  | seconds
deriving DecidableEq

namespace TimeUnit

/-- The unit as it is written. -/
def text : TimeUnit → String
  | milliseconds => "ms"
  | seconds => "s"

/-- How many milliseconds the unit has. -/
def scale : TimeUnit → Nat
  | milliseconds => 1
  | seconds => 1000

end TimeUnit

/-- A number of milliseconds, or of the unit that follows it. -/
structure Duration where
  digits : List Char
  unit : Option TimeUnit
  span : Span
deriving DecidableEq

namespace Duration

/-- The duration as it is written. -/
def text (d : Duration) : String := String.ofList d.digits ++ d.unit.elim "" TimeUnit.text

/-- A duration is less than this many milliseconds. -/
def limit : Nat := 0x10000000000000000

/-- A number, if it is below the limit. -/
def bounded (n : Nat) : Option Nat := if n < limit then some n else none

/-- A number with one more digit behind it, if it stays below the limit. -/
def takeDigit (n : Nat) (c : Char) : Option Nat := do
  bounded ((← bounded (10 * n)) + (c.toNat - '0'.toNat))

/-- The number that a row of decimal digits stands for, if it is below the limit. -/
def number? (digits : List Char) : Option Nat := digits.foldlM takeDigit 0

/-- The duration in milliseconds, if it is below the limit. -/
def milliseconds? (d : Duration) : Option Nat := do
  bounded ((← number? d.digits) * d.unit.elim 1 TimeUnit.scale)

end Duration

/-- What stands in front of the first arrow of a transition. -/
inductive TriggerDecl where
  | immediate
  | delay (duration : Duration)
  | event (name : String)
deriving DecidableEq

/-- What stands between two arrows of a transition. -/
inductive StepDecl where
  | guard (named : Named)
  | action (named : Named)
  | assign (assign : AssignDecl)
deriving DecidableEq

/-- A transition. -/
structure TransitionDecl where
  trigger : TriggerDecl
  steps : List StepDecl
  target : String
  span : Span
deriving DecidableEq

/-- An invocation of a service, with the transitions that answer it. -/
structure InvokeDecl where
  service : String
  transitions : List TransitionDecl
  span : Span
deriving DecidableEq

/-- A word in front of a state. -/
inductive Modifier where
  | initial
  | final
deriving DecidableEq

/-- The part of a state in front of its braces. -/
structure StateHead where
  modifiers : List Modifier
  name : String
  span : Span
deriving DecidableEq

mutual

/-- A state. -/
inductive StateDecl where
  | mk (head : StateHead) (body : List Clause) (span : Span)

/-- What stands between the braces of a state. -/
inductive Clause where
  | binding (binding : BindingDecl)
  | invoke (invoke : InvokeDecl)
  | state (state : StateDecl)
  | transition (transition : TransitionDecl)

end

namespace StateDecl

/-- The part in front of the braces. -/
def head : StateDecl → StateHead
  | mk head _ _ => head

/-- What stands between the braces. -/
def body : StateDecl → List Clause
  | mk _ body _ => body

/-- The span of the whole state. -/
def span : StateDecl → Span
  | mk _ _ span => span

end StateDecl

/-- What stands between the braces of a machine. -/
inductive MachineClause where
  | binding (binding : BindingDecl)
  | state (state : StateDecl)

/-- A machine. -/
structure MachineDecl where
  name : Option String
  body : List MachineClause
  span : Span

/-- An import of names from a module. -/
structure ImportDecl where
  path : String
  specifiers : List (Located String)
  span : Span
deriving DecidableEq

/-- What stands at the top level of a chart. -/
inductive Item where
  | importDecl (decl : ImportDecl)
  | binding (binding : BindingDecl)
  | machine (machine : MachineDecl)

end Statechart.Language
