import Statechart.Chart.Forest
import Statechart.Language.Grammar
import Statechart.Language.Rejection
import Statechart.Report.Remark

/-!
# From declarations to a forest

Declarations are taken in the order in which they were written, and each adds its nodes to the
forest.  A node is added before what is nested in it.  States inside a state hang below a
machine without a name, which is added when the first of them is met and has the location of
that one.

* `Assembly` — the forest so far, and the names that bindings have used.
* `addItem` and the functions it calls — the nodes of each kind of declaration.
* `read` — from text to program, with the remarks made on the way.

A name bound twice, and a second initial state, are remarked upon and otherwise accepted.  Two
states of one name in one machine, and a delay that is too long, are rejected.
-/

namespace Statechart.Language

/-- A chart that is being put together. -/
structure Assembly where
  forest : Forest := {}
  usesAssign : Bool := false
  /-- The names of all guards bound so far. -/
  guards : List String := []
  /-- The names of all actions bound so far. -/
  actions : List String := []
  remarks : Array Remark := #[]

/-- Steps that put a chart together and may reject it. -/
abbrev Assembling := EStateM Rejection Assembly

namespace Assembling

/-! ## Single steps -/

/-- Write an entry into the log. -/
def log (level : Log.Level) (message : String) : Assembling Unit :=
  modify fun a => { a with remarks := a.remarks.push (.log ⟨level, .reading, message⟩) }

/-- Warn about a span of the file, and log the warning. -/
def warn (file : Nat) (span : Span) (message : String) : Assembling Unit := do
  log .debug message
  modify fun a =>
    { a with remarks := a.remarks.push (.span ⟨span, file⟩ .warning message) }

/-- Add a node and its location. -/
def addNode (file : Nat) (node : Node) (span : Span) : Assembling NodeId :=
  modifyGet fun a =>
    let (forest, id) := a.forest.add node
    (id, { a with forest := forest.setLocation id ⟨span, file⟩ })

/-- Hang a node below another. -/
def append (parent : Option NodeId) (child : NodeId) : Assembling Unit :=
  modify fun a => { a with forest := a.forest.append parent child }

/-- The assignment of a declaration.  From now on the chart is known to have one. -/
def assignment (decl : AssignDecl) : Assembling Assignment := do
  modify fun a => { a with usesAssign := true }
  return ⟨decl.key, decl.value.map Named.name⟩

/-- Note that a name is bound, and say whether it was bound before to something of its kind. -/
def bindName (kind : BindingKind) (name : String) : Assembling Bool :=
  modifyGet fun a =>
    match kind with
    | .guard => (decide (name ∈ a.guards), { a with guards := name :: a.guards })
    | .action => (decide (name ∈ a.actions), { a with actions := name :: a.actions })

/-! ## Declarations without nesting -/

/-- The value of a binding. -/
def bindingExpr : BindingValue → Assembling Expr
  | .assign decl => return .assign (← assignment decl)
  | .named use => return .identifier use.name

/-- Add a binding below `parent`, or unlinked if there is none. -/
def addBinding (file : Nat) (parent : Option NodeId) (decl : BindingDecl) :
    Assembling NodeId := do
  let value ← bindingExpr decl.value
  if ← bindName decl.kind decl.name then
    warn file decl.head
      ("`" ++ decl.name ++ "` is declared more than once, the last declaration wins")
  let id ← addNode file (.binding ⟨decl.kind, decl.name, value⟩) decl.span
  append parent id
  return id

/-- Add the specifiers of an import. -/
def addSpecifiers (file : Nat) (parent : NodeId) : List (Located String) → Assembling Unit
  | [] => return
  | specifier :: rest => do
    let id ← addNode file (.specifier specifier.value none) specifier.span
    append (some parent) id
    addSpecifiers file parent rest

/-- Add an import and its specifiers. -/
def addImport (file : Nat) (decl : ImportDecl) : Assembling NodeId := do
  let id ← addNode file (.importModule decl.path) decl.span
  addSpecifiers file id decl.specifiers
  return id

/-- The trigger of a transition. -/
def triggerOf : TriggerDecl → Assembling Trigger
  | .immediate => return .immediate
  | .event name => return .event name
  | .delay duration =>
    match duration.milliseconds? with
    | some milliseconds => return .delay milliseconds
    | none => throw (.delayTooLong duration.text duration.span)

/-- Add the steps of a transition to it, in order. -/
def takeSteps (transition : Transition) : List StepDecl → Assembling Transition
  | [] => return transition
  | .guard (.symbol name) :: rest =>
    takeSteps (transition.addGuard (.inline (.guard name))) rest
  | .guard (.plain name) :: rest => takeSteps (transition.addGuard (.named name)) rest
  | .action (.symbol name) :: rest =>
    takeSteps (transition.addAction (.inline (.action name))) rest
  | .action (.plain name) :: rest => takeSteps (transition.addAction (.named name)) rest
  | .assign decl :: rest => do
    let value ← assignment decl
    takeSteps (transition.addAction (.inline (.assign value))) rest

/-- Add a transition. -/
def addTransition (file : Nat) (parent : NodeId) (decl : TransitionDecl) :
    Assembling Unit := do
  let trigger ← triggerOf decl.trigger
  let transition ← takeSteps { trigger := trigger, target := decl.target } decl.steps
  let id ← addNode file (.transition transition) decl.span
  append (some parent) id

/-- Add transitions in order. -/
def addTransitions (file : Nat) (parent : NodeId) : List TransitionDecl → Assembling Unit
  | [] => return
  | decl :: rest => do
    addTransition file parent decl
    addTransitions file parent rest

/-- Add an invocation and its transitions. -/
def addInvoke (file : Nat) (parent : NodeId) (decl : InvokeDecl) : Assembling Unit := do
  let id ← addNode file (.invoke decl.service) decl.span
  append (some parent) id
  addTransitions file id decl.transitions

/-! ## States and machines -/

/-- Make a state the initial one of its machine, unless the machine has one. -/
def markInitial (file : Nat) (machine : NodeId) (head : StateHead) : Assembling Unit := do
  match (← get).forest.machine? machine with
  | none => return
  | some payload =>
    match payload.initial with
    | some first =>
      warn file head.span
        ("`" ++ first ++ "` is already the initial state, `" ++ head.name ++ "` is ignored")
    | none =>
      modify fun a =>
        { a with
          forest := a.forest.setNode machine
            (.machine { payload with initial := some head.name }) }

/-- Add the node of a state to its machine, which has states of the given names. -/
def addStateNode (file : Nat) (machine : NodeId) (names : List String) (head : StateHead)
    (span : Span) : Assembling NodeId := do
  if head.name ∈ names then
    throw (.duplicateState head.name head.span)
  if Modifier.initial ∈ head.modifiers then
    markInitial file machine head
  let id ← addNode file (.state ⟨head.name, decide (Modifier.final ∈ head.modifiers)⟩) span
  append (some machine) id
  return id

/-- The machine for the states inside a state: the one there is, or a new one. -/
def nestedMachine (file : Nat) (parent : NodeId) (nested : Option NodeId) (span : Span) :
    Assembling NodeId := do
  match nested with
  | some id => return id
  | none =>
    let id ← addNode file (.machine {}) span
    append (some parent) id
    return id

mutual

/-- Add a state and all that is nested in it. -/
def addState (file : Nat) (machine : NodeId) (names : List String) :
    StateDecl → Assembling Unit
  | .mk head body span => do
    let id ← addStateNode file machine names head span
    addClauses file id none [] body

/-- Add what stands between the braces of a state.  `nested` is the machine for its inner
states, once there is one, and `names` are the names of those. -/
def addClauses (file : Nat) (parent : NodeId) (nested : Option NodeId) (names : List String) :
    List Clause → Assembling Unit
  | [] => return
  | .binding decl :: rest => do
    let _ ← addBinding file (some parent) decl
    addClauses file parent nested names rest
  | .invoke decl :: rest => do
    addInvoke file parent decl
    addClauses file parent nested names rest
  | .transition decl :: rest => do
    addTransition file parent decl
    addClauses file parent nested names rest
  | .state decl :: rest => do
    let machine ← nestedMachine file parent nested decl.span
    addState file machine names decl
    addClauses file parent (some machine) (decl.head.name :: names) rest

end

/-- Add what stands between the braces of a machine with states of the given names. -/
def addMachineClauses (file : Nat) (machine : NodeId) (names : List String) :
    List MachineClause → Assembling Unit
  | [] => return
  | .binding decl :: rest => do
    let _ ← addBinding file (some machine) decl
    addMachineClauses file machine names rest
  | .state decl :: rest => do
    addState file machine names decl
    addMachineClauses file machine (decl.head.name :: names) rest

/-- Add a machine and all that is nested in it. -/
def addMachine (file : Nat) (decl : MachineDecl) : Assembling NodeId := do
  log .debug ("parsing machine " ++ decl.name.getD "(default)")
  let id ← addNode file (.machine { name := decl.name }) decl.span
  addMachineClauses file id [] decl.body
  return id

/-! ## Charts -/

/-- Add a declaration of the top level, after those before it. -/
def addItem (file : Nat) (item : Item) : Assembling Unit := do
  let id ← match item with
    | .importDecl decl => addImport file decl
    | .binding decl => addBinding file none decl
    | .machine decl => addMachine file decl
  modify fun a => { a with forest := a.forest.pushRoot id }

/-- Add declarations in order. -/
def addItems (file : Nat) : List Item → Assembling Unit
  | [] => return
  | item :: rest => do
    addItem file item
    addItems file rest

end Assembling

/-- Read a chart: the program or why there is none, and the remarks made on the way.  `file` is
the number under which locations refer to the text. -/
def read (file : Nat) (text : String) : Except Rejection Program × List Remark :=
  match parse text with
  | .error attempts => (.error (.unreadable attempts), [])
  | .ok items =>
    match Assembling.addItems file items {} with
    | .ok () a => (.ok ⟨a.forest, a.usesAssign⟩, a.remarks.toList)
    | .error rejection a => (.error rejection, a.remarks.toList)

end Statechart.Language
