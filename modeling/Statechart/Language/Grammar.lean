import Statechart.Source.Identifier
import Statechart.Language.Declaration
import Statechart.Language.Parser

/-!
# The grammar of charts

One parser for every rule of the language.  The parts of most rules may have blank text and
comments between them, written `skip` here.  Names, numbers and the heads of declarations are
the exceptions: a head takes blank characters between its words, but no comment.

Blank text in front of an absent part belongs to the rule that would have had the part, so that
imports without specifiers reach to the next declaration.

* `item`, `machine`, `state`, `transition`, `binding`, `importDecl` — the declarations.
* `parse` — a whole chart, or the record of attempts that says why it is none.

States nest.  Each level of nesting consumes characters of its own, so the number of characters
bounds the number of levels, and `state` counts levels down.
-/

namespace Statechart.Language.Grammar

open Statechart.Language.Parser

/-! ## Names -/

/-- A plain name. -/
def name : Parser String := do
  let first ← char isNameStart
  let rest ← charsWhile isNameChar
  return String.ofList (first :: rest)

/-- A name that is declared or used. -/
def ident : Parser (Located String) := rule .ident name

/-- A name with a colon in front. -/
def symbol : Parser (Located String) :=
  rule .symbol do
    literal ":"
    return (← ident).value

/-- A name with or without a colon. -/
def named : Parser Named :=
  (do return .symbol (← symbol).value) <|> (do return .plain (← ident).value)

/-- Text between two equal quotes. -/
def quotedBy (quote : Char) : Parser String := do
  literal (String.singleton quote)
  let text ← charsWhile (· != quote)
  literal (String.singleton quote)
  return String.ofList text

/-- Text between single or double quotes, taken as it stands. -/
def string : Parser (Located String) :=
  rule .string (quotedBy '\'' <|> quotedBy '"')

/-! ## Imports -/

/-- The names between the braces of an import. -/
def specifierNames : Parser (List (Located String)) := do
  let first ← ident
  skip
  let more ← manySpaced do
    literal ","
    skip
    ident
  skip
  let _ ← optional (literal ",")
  return first :: more

/-- Names between braces, with a comma between two of them and perhaps after the last. -/
def specifiers : Parser (Located (List (Located String))) :=
  rule .specifiers do
    literal "\x7b"
    skip
    let names ← optional specifierNames
    skip
    literal "\x7d"
    return names.getD []

/-- An import, with or without specifiers. -/
def importDecl : Parser ImportDecl := do
  let decl ← rule .importDecl do
    literal "use"
    skip
    let path ← string
    skip
    let names ← optional specifiers
    return (path.value, names.elim [] Located.value)
  return ⟨decl.value.1, decl.value.2, decl.span⟩

/-! ## Bindings -/

/-- `assign(key)` or `assign(key, value)`. -/
def assignExpr : Parser AssignDecl := do
  let assign ← rule .assignExpr do
    literal "assign"
    skip
    literal "("
    skip
    let key ← ident
    skip
    let value ← optional do
      literal ","
      skip
      named
    skip
    literal ")"
    return AssignDecl.mk key.value value
  return assign.value

/-- The word that opens a binding. -/
def bindingKind : Parser BindingKind := do
  let kind ← rule .bindingKind
    ((do literal "guard"; return BindingKind.guard) <|>
      (do literal "action"; return BindingKind.action))
  return kind.value

/-- The kind and the name of a binding. -/
def bindingHead : Parser (Located (BindingKind × String)) :=
  rule .bindingHead do
    let kind ← bindingKind
    blanks
    let name ← ident
    return (kind, name.value)

/-- What a binding gives a name to. -/
def bindingValue : Parser BindingValue :=
  (do return .assign (← assignExpr)) <|> (do return .named (← named))

/-- A binding. -/
def binding : Parser BindingDecl := do
  let decl ← rule .binding do
    let head ← bindingHead
    skip
    literal "="
    skip
    let value ← bindingValue
    return (head, value)
  let (head, value) := decl.value
  return ⟨head.value.1, head.value.2, head.span, value, decl.span⟩

/-! ## Transitions -/

/-- The word for a transition that waits for nothing. -/
def immediate : Parser Unit := do
  let _ ← rule .immediate do
    literal "@immediate"
    notBefore isNameChar
  return

/-- A row of decimal digits. -/
def number : Parser (List Char) := do
  let digits ← rule .number do
    let first ← char Char.isDigit
    let rest ← charsWhile Char.isDigit
    return first :: rest
  return digits.value

/-- A unit of time. -/
def timeUnit : Parser TimeUnit := do
  let unit ← rule .timeUnit
    ((do literal "ms"; return TimeUnit.milliseconds) <|>
      (do literal "s"; return TimeUnit.seconds))
  return unit.value

/-- A number and perhaps a unit, with nothing between them. -/
def duration : Parser Duration := do
  let decl ← rule .duration do
    let digits ← number
    let unit ← optional timeUnit
    return (digits, unit)
  return ⟨decl.value.1, decl.value.2, decl.span⟩

/-- `delay(duration)`. -/
def delay : Parser Duration := do
  let decl ← rule .delay do
    literal "delay"
    skip
    literal "("
    skip
    let time ← duration
    skip
    literal ")"
    return time
  return decl.value

/-- The name of an event. -/
def event : Parser String := do
  return (← rule .event name).value

/-- The name of the state that a transition leads to. -/
def target : Parser String := do
  return (← rule .target name).value

/-- What makes a transition fire. -/
def trigger : Parser TriggerDecl :=
  (do immediate; return .immediate) <|>
    (do return .delay (← delay)) <|>
    (do return .event (← event))

/-- A word with a name in parentheses after it. -/
def stepCall (step : Rule) (word : String) : Parser Named := do
  let use ← rule step do
    literal word
    skip
    literal "("
    skip
    let use ← named
    skip
    literal ")"
    return use
  return use.value

/-- A guard, an action or an assignment. -/
def step : Parser StepDecl :=
  (do return .guard (← stepCall .guardStep "guard")) <|>
    (do return .action (← stepCall .actionStep "action")) <|>
    (do return .assign (← assignExpr))

/-- A transition: trigger, steps and target, with arrows between them. -/
def transition : Parser TransitionDecl := do
  let decl ← rule .transition do
    let trigger ← trigger
    skip
    literal "=>"
    skip
    let steps ← manySpaced do
      let step ← step
      skip
      literal "=>"
      return step
    skip
    let target ← target
    return (trigger, steps, target)
  let (trigger, steps, target) := decl.value
  return ⟨trigger, steps, target, decl.span⟩

/-! ## Invocations -/

/-- Names joined by dots, as one text. -/
def callRef : Parser String := do
  let path ← rule .callRef do
    let first ← name
    let more ← many do
      literal "."
      let part ← name
      return "." ++ part
    return first ++ String.join more
  return path.value

/-- The service that is invoked. -/
def invokeHead : Parser String := do
  let service ← rule .invokeHead do
    literal "invoke"
    blanks
    callRef
  return service.value

/-- An invocation. -/
def invoke : Parser InvokeDecl := do
  let decl ← rule .invoke do
    let service ← invokeHead
    skip
    literal "\x7b"
    skip
    let transitions ← manySpaced transition
    skip
    literal "\x7d"
    return (service, transitions)
  return ⟨decl.value.1, decl.value.2, decl.span⟩

/-! ## States and machines -/

/-- A word in front of a state. -/
def stateModifier : Parser Modifier := do
  let modifier ← rule .stateModifier
    ((do literal "initial"; return Modifier.initial) <|>
      (do literal "final"; return Modifier.final))
  return modifier.value

/-- The modifiers and the name of a state. -/
def stateHead : Parser StateHead := do
  let decl ← rule .stateHead do
    let modifiers ← many do
      let modifier ← stateModifier
      blanks
      return modifier
    literal "state"
    blanks
    let name ← ident
    return (modifiers, name.value)
  return ⟨decl.value.1, decl.value.2, decl.span⟩

/-- What stands between the braces of a state, given how nested states are read. -/
def clause (nested : Parser StateDecl) : Parser Clause :=
  (do return .binding (← binding)) <|>
    (do return .invoke (← invoke)) <|>
    (do return .state (← nested)) <|>
    (do return .transition (← transition))

/-- A state, given how nested states are read. -/
def stateWith (nested : Parser StateDecl) : Parser StateDecl := do
  let decl ← rule .state do
    let head ← stateHead
    skip
    literal "\x7b"
    skip
    let body ← manySpaced (clause nested)
    skip
    literal "\x7d"
    return (head, body)
  return ⟨decl.value.1, decl.value.2, decl.span⟩

/-- A state with fewer than the given number of levels. -/
def state : Nat → Parser StateDecl
  | 0 => reject
  | levels + 1 => stateWith (state levels)

/-- The name of a machine, if it has one. -/
def machineHead : Parser (Option String) := do
  let decl ← rule .machineHead do
    literal "machine"
    notBefore isNameChar
    optional do
      blanks
      let name ← ident
      return name.value
  return decl.value

/-- What stands between the braces of a machine. -/
def machineClause (levels : Nat) : Parser MachineClause :=
  (do return .binding (← binding)) <|> (do return .state (← state levels))

/-- A machine. -/
def machine (levels : Nat) : Parser MachineDecl := do
  let decl ← rule .machine do
    let name ← machineHead
    skip
    literal "\x7b"
    skip
    let body ← manySpaced (machineClause levels)
    skip
    literal "\x7d"
    return (name, body)
  return ⟨decl.value.1, decl.value.2, decl.span⟩

/-! ## Charts -/

/-- A declaration at the top level. -/
def item (levels : Nat) : Parser Item :=
  (do return .importDecl (← importDecl)) <|>
    (do return .binding (← binding)) <|>
    (do return .machine (← machine levels))

/-- A whole chart. -/
def file (levels : Nat) : Parser (List Item) := do
  let items ← rule .file do
    skip
    let items ← manySpaced (item levels)
    skip
    let _ ← rule .endOfInput atEnd
    return items
  return items.value

end Grammar

/-- The declarations of a chart, or the record of attempts if the text is none. -/
def parse (text : String) : Except Attempts (List Item) :=
  let chars := text.toList
  let reply := Grammar.file (chars.length + 1) ⟨chars, 0⟩
  match reply.outcome with
  | some (items, _) => .ok items
  | none => .error (reply.record {})

end Statechart.Language
