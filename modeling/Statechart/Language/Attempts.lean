/-!
# Rules and furthest attempts

When a text is not a chart, the reader says which rules of the grammar it was looking for at
the furthest place it got to.  This module has the names of the rules and the record from which
that answer is made.

* `Rule` — the rules that can be named, in the order in which a message lists them.
* `Attempts` — the furthest offset at which a rule was missed, and the rules missed there.
* `Attempts.miss` — how a missed rule enters the record.
* `Attempts.message` — the record in words.

A rule that is missed at the offset where it began stands for what was missed inside it at that
same offset, because it is the more telling name; only if exactly one rule was missed inside,
that one is kept instead.  Nothing that was missed before the furthest offset counts.
-/

namespace Statechart.Language

/-- The rules of the grammar that can be missed. -/
inductive Rule where
  | endOfInput
  | ident
  | symbol
  | string
  | file
  | importDecl
  | specifiers
  | binding
  | bindingHead
  | bindingKind
  | machine
  | machineHead
  | state
  | stateHead
  | stateModifier
  | invoke
  | invokeHead
  | callRef
  | transition
  | immediate
  | delay
  | duration
  | number
  | timeUnit
  | event
  | target
  | guardStep
  | actionStep
  | assignExpr
deriving DecidableEq

namespace Rule

/-- All rules, in the order in which a message lists them. -/
def all : List Rule :=
  [endOfInput, ident, symbol, string, file, importDecl, specifiers, binding, bindingHead,
    bindingKind, machine, machineHead, state, stateHead, stateModifier, invoke, invokeHead,
    callRef, transition, immediate, delay, duration, number, timeUnit, event, target, guardStep,
    actionStep, assignExpr]

/-- The name of a rule in a message. -/
def name : Rule → String
  | endOfInput => "EOI"
  | ident => "ident"
  | symbol => "symbol"
  | string => "string"
  | file => "file"
  | importDecl => "import_decl"
  | specifiers => "specifiers"
  | binding => "binding"
  | bindingHead => "binding_head"
  | bindingKind => "binding_kind"
  | machine => "machine"
  | machineHead => "machine_head"
  | state => "state"
  | stateHead => "state_head"
  | stateModifier => "state_modifier"
  | invoke => "invoke"
  | invokeHead => "invoke_head"
  | callRef => "call_ref"
  | transition => "transition"
  | immediate => "immediate"
  | delay => "delay"
  | duration => "duration"
  | number => "number"
  | timeUnit => "time_unit"
  | event => "event"
  | target => "target"
  | guardStep => "guard_step"
  | actionStep => "action_step"
  | assignExpr => "assign_expr"

end Rule

/-- The furthest offset at which a rule was missed, and the rules missed there in order. -/
structure Attempts where
  offset : Nat := 0
  missed : List Rule := []
deriving DecidableEq

namespace Attempts

/-- How many rules are recorded at an offset. -/
def countAt (a : Attempts) (offset : Nat) : Nat :=
  if a.offset = offset then a.missed.length else 0

/-- Record that `rule` was missed at `offset`, where `before` rules were recorded there when it
began. -/
def miss (a : Attempts) (rule : Rule) (offset before : Nat) : Attempts :=
  if a.countAt offset = before + 1 then a
  else if a.offset < offset then ⟨offset, [rule]⟩
  else if a.offset = offset then ⟨offset, a.missed.take before ++ [rule]⟩
  else a

/-- The rules missed at the furthest offset, each once and in the order of `Rule.all`. -/
def expected (a : Attempts) : List Rule := Rule.all.filter (· ∈ a.missed)

/-- Names in a row: `a`, `a or b`, `a, b, or c`. -/
def enumerate : List String → String
  | [] => ""
  | [a] => a
  | [a, b] => a ++ " or " ++ b
  | names => String.intercalate ", " names.dropLast ++ ", or " ++ names.getLastD ""

/-- The record in words. -/
def message (a : Attempts) : String := "expected " ++ enumerate (a.expected.map Rule.name)

end Attempts

end Statechart.Language
