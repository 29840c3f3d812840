import Statechart.Output.Emitter
import Statechart.Output.Fragment

/-!
# Entering and leaving a node

What is written when the walk comes to a node, and when it has done all that is below it.

* An **import** is a line of its own, written on entry.
* A **machine** at the top level is an exported call, its configuration an object that stays
  open until the machine is left; then the options with the hoisted bindings follow.  A machine
  inside a state only adds to the object of that state.
* A **state** is a property of the `states` of its machine.  The first state of a machine opens
  `states`, and the last one closes it.
* A **transition** is a property or an element of its batch, or one of the two answers to an
  invocation.  The batch stays open while the next node that writes anything belongs to it.
* An **invocation** is an object under `invoke`.
* A **binding** writes nothing here; it waits for the end of its machine.
-/

namespace Statechart.Output

open Script

namespace Emission

/-! ## Imports -/

/-- The names that an import brings in. -/
def importedNames (f : Forest) (id : NodeId) : List String :=
  (f.children id).filterMap fun child =>
    match f.node? child with
    | some (.specifier imported _) => some imported
    | _ => none

/-- Write an import line. -/
def enterImport (id : NodeId) (path : String) : Emission Unit := do
  let names := importedNames (← get).forest id
  if names.isEmpty then
    warn id "imports without specifiers are not supported"
  else
    writeAll [.raw "import \x7b ", .raw (String.intercalate ", " names), .raw " \x7d from ",
      .string path, .raw ";\n"]

/-! ## Machines -/

/-- What stands in front of the call that makes a machine. -/
def exportText (m : Machine) : String :=
  match m.name with
  | some name => "\nexport const " ++ name ++ " = "
  | none => "\nexport default "

/-- Open a machine.  The transitions of a state end where its inner states begin. -/
def enterMachine (id : NodeId) (m : Machine) : Emission Unit := do
  if (← get).forest.isNestedMachine id then
    closeBatch .on
    closeBatch .always
    closeBatch .delay
  else
    writeAll [.raw (exportText m), .startCall "Machine", .startObject]
  if let some initial := m.initial then
    writeProperty "initial" (.string initial)
  modify fun e => { e with enclosing := e.scope :: e.enclosing, scope := {} }

/-- Write the options of a machine, if anything was bound since the last one. -/
def writeOptions (bound : Bindings) : Emission Unit := do
  if !bound.isEmpty then
    let guards ← valuesOf Hoisted.origin hoistedGuard bound.guards
    let actions ← valuesOf Hoisted.origin hoistedAction bound.actions
    write (.raw ", ")
    writeValue (.object
      (optionsProperty "guards" bound.guards (guards.map fun (h, v) => (h.name, v)) ++
        optionsProperty "actions" bound.actions (actions.map fun (h, v) => (h.name, v))))

/-- Close a machine. -/
def leaveMachine (id : NodeId) (m : Machine) : Emission Unit := do
  modify fun e => { e with scope := e.enclosing.headD {}, enclosing := e.enclosing.tail }
  if !(← get).forest.isNestedMachine id then
    write .endObject
    let bound ← modifyGet fun e =>
      let (bound, left) := e.bindings.drain
      (bound, { e with bindings := left })
    writeOptions bound
    writeAll [.endCall, .raw ";"]
    log .info .emission ("emitted machine `" ++ m.name.getD "default" ++ "`")

/-! ## States -/

/-- Note that a machine has its `states` open, and say whether they had to be opened. -/
def openStates (machine : Option NodeId) : Emission Bool := do
  match machine with
  | none => return false
  | some id =>
    match (← get).forest.machine? id with
    | none => return false
    | some m =>
      if m.hasStates then
        return false
      modify fun e =>
        { e with forest := e.forest.setNode id (.machine { m with hasStates := true }) }
      return true

/-- Open a state. -/
def enterState (id : NodeId) (s : State) : Emission Unit := do
  let f := (← get).forest
  if !(f.parentNode? id).any Node.isMachine then
    warn id "states must be declared inside a machine"
  if ← openStates (f.parent id) then
    write (.startProperty "states")
    write .startObject
  modifyScope fun scope => { scope with written := {} }
  write (.startProperty s.name)
  write .startObject
  if s.isFinal then
    writeProperty "type" (.string "final")

/-- Whether there is a state among the given nodes, each of which is relied upon to be live up
to the first state. -/
def hasState (f : Forest) : List NodeId → Except Fault Bool
  | [] => .ok false
  | id :: rest =>
    match f.node id with
    | .ok node => if node.isState then .ok true else hasState f rest
    | .error fault => .error fault

/-- Close a state, and after the last one the `states` of its machine. -/
def leaveState (id : NodeId) : Emission Unit := do
  write .endObject
  let f := (← get).forest
  let inStates := ((f.parent id).bind f.machine?).any Machine.hasStates
  let moreStates ← expect (hasState f (f.following id))
  if inStates && !moreStates then
    write .endObject

/-! ## Transitions -/

/-- Whether the node answers an invocation. -/
def inInvoke (f : Forest) (id : NodeId) : Bool := (f.parentNode? id).any Node.isInvoke

/-- The key under which an invocation has the answer to a trigger, or the warning that there is
none. -/
def answerKey : Trigger → Except String String
  | .event name =>
    if name = "done" then .ok "onDone"
    else if name = "error" then .ok "onError"
    else .error ("`" ++ name ++ "` is not supported inside invoke, expected `done` or `error`")
  | .immediate => .error "only `done` and `error` transitions are supported inside invoke"
  | .delay _ => .error "only `done` and `error` transitions are supported inside invoke"

/-- Start the property or the element of a transition in its batch. -/
def startInBatch (id : NodeId) (trigger : Trigger) : Emission Unit := do
  openBatch id (.ofTrigger trigger)
  match trigger with
  | .event name => write (.startProperty name)
  | .immediate => write .startElement
  | .delay milliseconds => write (.startProperty (toString milliseconds))

/-- Write the value of a transition, without the guards and actions that have none. -/
def writeTransition (id : NodeId) (t : Transition) : Emission Unit := do
  let guards ← valuesOf (fun _ => id) guardValue t.guards
  let actions ← valuesOf (fun _ => id) actionValue t.actions
  writeValue (transitionValue t (guards.map Prod.snd) (actions.map Prod.snd))

/-- Write a transition.  One that an invocation has no use for is left out. -/
def enterTransition (id : NodeId) (t : Transition) : Emission Unit := do
  if inInvoke (← get).forest id then
    match answerKey t.trigger with
    | .ok key =>
      write (.startProperty key)
      writeTransition id t
    | .error message => warn id message
  else
    startInBatch id t.trigger
    writeTransition id t

/-- The first of the given nodes that writes something, each of which is relied upon to be live
up to that one. -/
def firstWriting (f : Forest) : List NodeId → Except Fault (Option Node)
  | [] => .ok none
  | id :: rest =>
    match f.node id with
    | .ok (.binding _) => firstWriting f rest
    | .ok node => .ok (some node)
    | .error fault => .error fault

/-- Whether a node is a transition of the given batch. -/
def isInBatch (batch : Batch) : Node → Bool
  | .transition t => Batch.ofTrigger t.trigger = batch
  | _ => false

/-- Close the batch of a transition, unless the next node that writes something belongs to it. -/
def leaveTransition (id : NodeId) (t : Transition) : Emission Unit := do
  let f := (← get).forest
  if !inInvoke f id then
    let batch := Batch.ofTrigger t.trigger
    let next ← expect (firstWriting f (f.following id))
    if !next.any (isInBatch batch) then
      closeBatch batch

/-! ## Invocations and bindings -/

/-- Open an invocation. -/
def enterInvoke (service : String) : Emission Unit := do
  write (.startProperty "invoke")
  write .startObject
  writeProperty "src" (.token service)

/-- Keep a binding for the end of its machine. -/
def enterBinding (id : NodeId) (b : Binding) : Emission Unit := do
  log .debug .bindings ("hoisting " ++ b.kind.word ++ " `" ++ b.name ++ "`")
  modify fun e => { e with bindings := e.bindings.register b.kind ⟨b.name, b.value, id⟩ }

/-! ## All nodes -/

/-- Enter a node. -/
def enter (id : NodeId) : Emission Unit := do
  log .debug .emission ("enter " ++ NodeId.label id)
  match ← node id with
  | .importModule path => enterImport id path
  | .machine m => enterMachine id m
  | .state s => enterState id s
  | .transition t => enterTransition id t
  | .invoke service => enterInvoke service
  | .binding b => enterBinding id b
  | .specifier _ _ => return

/-- Leave a node. -/
def leave (id : NodeId) : Emission Unit := do
  log .debug .emission ("exit " ++ NodeId.label id)
  match ← node id with
  | .machine m => leaveMachine id m
  | .state _ => leaveState id
  | .transition t => leaveTransition id t
  | .invoke _ => write .endObject
  | .importModule _ => return
  | .specifier _ _ => return
  | .binding _ => return

end Emission

end Statechart.Output
