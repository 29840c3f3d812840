import Statechart.Proofs.Output.Position
import Statechart.Proofs.Script.Container

/-!
# What the walk does at a position

Everything that the walk keeps in its state is a function of its position: which containers are
open, which batches, which bindings wait.  So is everything that it does in a step: the writer
operations and the remarks.  This module has these functions; that the walk follows them is
shown elsewhere.

* `enterOperations`, `leaveOperations` — what is written at a node.
* `enterRemarks`, `leaveRemarks` — what is said there.
* `containersAt`, `scopesAt`, `pendingAt` — the open containers, the scopes of the machines around
  the position, and the bindings that no machine has taken yet.
* `remaining` — all operations from a position to the end of the walk.
-/

namespace Statechart

namespace Tree

/-- The first of some trees that writes something. -/
def firstWriting : List Tree → Option Node
  | [] => none
  | t :: ts => if t.payload.kind = .binding then firstWriting ts else some t.payload

/-- The last of some trees that writes something. -/
def lastWriting (ts : List Tree) : Option Node := firstWriting ts.reverse

@[simp] lemma firstWriting_nil : firstWriting [] = none := rfl

@[simp] lemma firstWriting_cons (t : Tree) (ts : List Tree) :
    firstWriting (t :: ts) =
      if t.payload.kind = .binding then firstWriting ts else some t.payload := rfl

@[simp] lemma lastWriting_nil : lastWriting [] = none := rfl

@[simp] lemma lastWriting_concat (ts : List Tree) (t : Tree) :
    lastWriting (ts ++ [t]) =
      if t.payload.kind = .binding then lastWriting ts else some t.payload := by
  simp [lastWriting]

/-- The binding that a node declares, if it declares one. -/
def bindingOf : NodeId × Node → Option (BindingKind × Hoisted)
  | (id, .binding b) => some (b.kind, ⟨b.name, b.value, id⟩)
  | _ => none

/-- The bindings of some trees, in the order in which they were written. -/
def bindingsIn (ts : List Tree) : List (BindingKind × Hoisted) :=
  (allEntries ts).filterMap bindingOf

end Tree

/-- Add bindings in order, the guards after the guards and the actions after the actions. -/
def Bindings.registerAll (b : Bindings) (added : List (BindingKind × Hoisted)) : Bindings where
  guards := b.guards ++ (added.filter (·.1 = .guard)).map Prod.snd
  actions := b.actions ++ (added.filter (·.1 = .action)).map Prod.snd

namespace Output

open Script

/-! ## Batches -/

/-- The batch of a node, if the node is a transition. -/
def batchOf : Node → Option Batch
  | .transition t => some (.ofTrigger t.trigger)
  | _ => none

/-- The batch that is open between the trees on the left and those on the right: the last that
writes something on the left and the first on the right are both transitions of it. -/
def sharedBatch (entered ahead : List Tree) : Option Batch :=
  if (Tree.lastWriting entered).bind batchOf = (Tree.firstWriting ahead).bind batchOf then
    (Tree.lastWriting entered).bind batchOf
  else none

/-- The batches that some trees have written. -/
def batchesIn (ts : List Tree) : BatchFlags :=
  let has (b : Batch) := ts.any fun t => batchOf t.payload = some b
  ⟨has .on, has .always, has .delay⟩

/-- The flags of at most one batch. -/
def flagsOf : Option Batch → BatchFlags
  | none => {}
  | some b => BatchFlags.set {} b true

/-- The operations that open a batch. -/
def openOperations (b : Batch) : List Operation :=
  [.startProperty b.key, if b = .always then .startArray true else .startObject]

/-- The operation that closes a batch. -/
def closeOperation (b : Batch) : Operation := if b = .always then .endArray else .endObject

/-- The operation in front of the value of a transition in its batch. -/
def startOperation : Trigger → Operation
  | .event name => .startProperty name
  | .immediate => .startElement
  | .delay milliseconds => .startProperty (toString milliseconds)

/-! ## Values -/

/-- An update of the context.  Without a value the key takes the data of the event. -/
def updateOf (a : Assignment) : Value :=
  .call "assign" (.object [(a.key, .token (a.value.getD "(context, event) => event.data"))])

/-- A guard of a transition, if it can be written: a quoted name is looked up in the options, and
a bare one in the module. -/
def guardOf : Reference → Option Value
  | .named name => some (.string name)
  | .inline (.guard name) => some (.token name)
  | .inline (.identifier name) => some (.token name)
  | .inline _ => none

/-- An action of a transition, if it can be written. -/
def actionOf : Reference → Option Value
  | .named name => some (.string name)
  | .inline (.action name) => some (.token name)
  | .inline (.identifier name) => some (.token name)
  | .inline (.assign a) => some (updateOf a)
  | .inline _ => none

/-- The condition of a transition: one guard stands alone, several form a list. -/
def conditionOf : List Value → List (String × Value)
  | [] => []
  | [guard] => [("cond", guard)]
  | guards => [("cond", .array false guards)]

/-- A transition: its target alone, or an object if it waits for nothing or if there are guards or
actions.  The actions take a line each if one of them updates the context. -/
def transitionOf (t : Transition) : Value :=
  let guards := t.guards.filterMap guardOf
  let actions := t.actions.filterMap actionOf
  if guards.isEmpty ∧ actions.isEmpty ∧ t.trigger ≠ .immediate then .string t.target
  else
    .object (("target", .string t.target) :: conditionOf guards ++
      if actions.isEmpty then []
      else [("actions", .array (t.actions.any Reference.isAssign) actions)])

/-- The key of an answer to an invocation. -/
def answerOf : Trigger → Option String
  | .event name =>
    if name = "done" then some "onDone" else if name = "error" then some "onError" else none
  | .immediate => none
  | .delay _ => none

/-- The entry of a guard in the options, if it is bound to an identifier. -/
def guardEntry (h : Hoisted) : Option (String × Value) :=
  match h.value with
  | .identifier name => some (h.name, .token name)
  | _ => none

/-- The entry of an action in the options, if it is bound to an identifier or an update. -/
def actionEntry (h : Hoisted) : Option (String × Value) :=
  match h.value with
  | .identifier name => some (h.name, .token name)
  | .assign a => some (h.name, updateOf a)
  | _ => none

/-- The options of a machine with the given bindings: its guards if there are any, and then its
actions. -/
def optionsValue (bound : Bindings) : Value :=
  .object
    ((if bound.guards.isEmpty then []
      else [("guards", .object (bound.guards.filterMap guardEntry))]) ++
      (if bound.actions.isEmpty then []
      else [("actions", .object (bound.actions.filterMap actionEntry))]))

/-- The initial state of a machine, if it has one. -/
def initialProperty (m : Machine) : List (String × Value) :=
  match m.initial with
  | none => []
  | some initial => [("initial", .string initial)]

/-- The mark of a final state. -/
def finalProperty (s : State) : List (String × Value) :=
  if s.isFinal then [("type", .string "final")] else []

/-- The names that specifiers bring in. -/
def specifierNames (ts : List Tree) : List String :=
  ts.filterMap fun t =>
    match t.payload with
    | .specifier imported _ => some imported
    | _ => none

/-! ## Operations -/

/-- What is written on entering a node with the given parent. -/
def enterOperations (parent : Option Node) (entered : List Tree) (t : Tree) : List Operation :=
  match t.payload with
  | .importModule path =>
    if (specifierNames t.children).isEmpty then []
    else
      [.raw "import \x7b ", .raw (String.intercalate ", " (specifierNames t.children)),
        .raw " \x7d from ", .string path, .raw ";\n"]
  | .machine m =>
    (if parent.isSome then []
      else [.raw (Emission.exportText m), .startCall "Machine", .startObject]) ++
      Value.propertyOperations (initialProperty m)
  | .state s =>
    (if entered.any Tree.isState then [] else [.startProperty "states", .startObject]) ++
      [.startProperty s.name, .startObject] ++ Value.propertyOperations (finalProperty s)
  | .transition u =>
    if parent.any Node.isInvoke then
      match Emission.answerKey u.trigger with
      | .ok key => .startProperty key :: (transitionOf u).operations
      | .error _ => []
    else
      (if sharedBatch entered [t] = none then openOperations (.ofTrigger u.trigger) else []) ++
        startOperation u.trigger :: (transitionOf u).operations
  | .invoke service =>
    [.startProperty "invoke", .startObject] ++
      Value.propertyOperations [("src", .token service)]
  | .binding _ => []
  | .specifier _ _ => []

/-- What is written on leaving a node with the given parent, when the given bindings wait. -/
def leaveOperations (parent : Option Node) (t : Tree) (after : List Tree) (bound : Bindings) :
    List Operation :=
  match t.payload with
  | .machine _ =>
    if parent.isSome then []
    else
      .endObject :: (if bound.isEmpty then [] else .raw ", " :: (optionsValue bound).operations) ++
        [.endCall, .raw ";"]
  | .state _ => .endObject :: (if after.any Tree.isState then [] else [.endObject])
  | .transition u =>
    if parent.any Node.isInvoke || (sharedBatch [t] after).isSome then []
    else [closeOperation (.ofTrigger u.trigger)]
  | .invoke _ => [.endObject]
  | .importModule _ => []
  | .binding _ => []
  | .specifier _ _ => []

/-! ## Remarks -/

/-- A warning about a node, and the log entry that goes with it. -/
def warning (locate : NodeId → Option Location) (id : NodeId) (message : String) : List Remark :=
  [.log ⟨.debug, .emission, message⟩, .node id (locate id) .warning message]

/-- The warnings about those things that have no value. -/
def refusals {α : Type} (locate : NodeId → Option Location) (origin : α → NodeId)
    (value : α → Except String Value) (as : List α) : List Remark :=
  as.flatMap fun a =>
    match value a with
    | .ok _ => []
    | .error message => warning locate (origin a) message

/-- The warning that a state repeats the key of a batch. -/
def repeatedMessage (b : Batch) : String :=
  "`" ++ b.key ++ "` is written twice for this state, the earlier `" ++ b.key ++
    "` transitions are shadowed"

/-- The warnings about guards and actions of a transition that have no value. -/
def transitionRefusals (locate : NodeId → Option Location) (id : NodeId) (t : Transition) :
    List Remark :=
  refusals locate (fun _ => id) guardValue t.guards ++
    refusals locate (fun _ => id) actionValue t.actions

/-- What is said on entering a node with the given parent. -/
def enterRemarks (locate : NodeId → Option Location) (parent : Option Node)
    (entered : List Tree) (t : Tree) : List Remark :=
  .log ⟨.debug, .emission, "enter " ++ NodeId.label t.id⟩ ::
    match t.payload with
    | .importModule _ =>
      if (specifierNames t.children).isEmpty then
        warning locate t.id "imports without specifiers are not supported"
      else []
    | .transition u =>
      if parent.any Node.isInvoke then
        match Emission.answerKey u.trigger with
        | .ok _ => transitionRefusals locate t.id u
        | .error message => warning locate t.id message
      else
        (if sharedBatch entered [t] = none ∧
            (batchesIn entered).get (.ofTrigger u.trigger) = true then
          warning locate t.id (repeatedMessage (.ofTrigger u.trigger))
        else []) ++ transitionRefusals locate t.id u
    | .binding b =>
      [.log ⟨.debug, .bindings, "hoisting " ++ b.kind.word ++ " `" ++ b.name ++ "`"⟩]
    | _ => []

/-- What is said on leaving a node with the given parent, when the given bindings wait. -/
def leaveRemarks (locate : NodeId → Option Location) (parent : Option Node) (t : Tree)
    (bound : Bindings) : List Remark :=
  .log ⟨.debug, .emission, "exit " ++ NodeId.label t.id⟩ ::
    match t.payload with
    | .machine m =>
      if parent.isSome then []
      else
        refusals locate Hoisted.origin hoistedGuard bound.guards ++
          refusals locate Hoisted.origin hoistedAction bound.actions ++
          [.log ⟨.info, .emission, "emitted machine `" ++ m.name.getD "default" ++ "`"⟩]
    | _ => []

/-! ## The state of the walk -/

/-- The container of a batch. -/
def batchContainer (b : Batch) : Container := if b = .always then .array true else .object

/-- The containers that an entered node has open around its row of children, between those that
are entered and those that are not left. -/
def ownContainers (parent : Option Node) (payload : Node) (entered ahead : List Tree) :
    List Container :=
  match payload with
  | .machine _ =>
    (if entered.any Tree.isState && ahead.any Tree.isState then [.object] else []) ++
      (if parent.isSome then [] else [.object])
  | .state _ => (sharedBatch entered ahead).toList.map batchContainer ++ [.object]
  | .invoke _ => [.object]
  | _ => []

/-- The containers that are open in a row below a path, the innermost first. -/
def containersAt : List Level → List Tree → List Tree → List Container
  | [], _, _ => []
  | l :: path, entered, ahead =>
    ownContainers (parentPayload path) l.tree.payload entered ahead ++
      containersAt path l.entered l.ahead

/-- The batches that the last state among some trees has written. -/
def lastStateBatches (entered : List Tree) : BatchFlags :=
  match (entered.filter Tree.isState).getLast? with
  | none => {}
  | some t => batchesIn t.children

/-- The scopes in a row below a path, that of the innermost machine first.  The last one belongs
to the chart outside of all machines. -/
def scopesAt : List Level → List Tree → List Tree → List Scope
  | [], _, _ => [{}]
  | l :: path, entered, ahead =>
    match l.tree.payload with
    | .machine _ => ⟨{}, lastStateBatches entered⟩ :: scopesAt path l.entered l.ahead
    | .state _ =>
      ⟨flagsOf (sharedBatch entered ahead), batchesIn entered⟩ ::
        (scopesAt path l.entered l.ahead).tail
    | _ => scopesAt path l.entered l.ahead

/-- The bindings that wait after some top-level trees.  A machine takes all of them. -/
def pendingAfter (bound : Bindings) : List Tree → Bindings
  | [] => bound
  | t :: ts =>
    pendingAfter (if t.payload.isMachine then {} else bound.registerAll (Tree.bindingsIn [t])) ts

/-- The bindings that wait in a row below a path. -/
def pendingAt : List Level → List Tree → Bindings
  | [], entered => pendingAfter {} entered
  | l :: path, entered =>
    (pendingAt path l.before).registerAll
      ((Tree.bindingOf (l.tree.id, l.tree.payload)).toList ++ Tree.bindingsIn entered)

/-! ## From a position on -/

mutual

/-- All that is written for a tree below a node. -/
def treeOperations (parent : Node) (entered after : List Tree) : Tree → List Operation
  | .node id payload children =>
    enterOperations (some parent) entered (.node id payload children) ++
      rowOperations payload [] children ++
      leaveOperations (some parent) (.node id payload children) after {}

/-- All that is written for a row of trees below a node. -/
def rowOperations (parent : Node) (entered : List Tree) : List Tree → List Operation
  | [] => []
  | t :: ts => treeOperations parent entered ts t ++ rowOperations parent (entered ++ [t]) ts

end

/-- All that is written for top-level trees after others. -/
def rootOperations (entered : List Tree) : List Tree → List Operation
  | [] => []
  | t :: ts =>
    enterOperations none entered t ++ rowOperations t.payload [] t.children ++
      leaveOperations none t ts
        ((pendingAfter {} entered).registerAll (Tree.bindingsIn [t])) ++
      rootOperations (entered ++ [t]) ts

/-- All that is written from a row below a path to the end of the walk. -/
def remaining : List Level → List Tree → List Tree → List Operation
  | [], entered, ahead => rootOperations entered ahead
  | l :: path, entered, ahead =>
    rowOperations l.tree.payload entered ahead ++
      leaveOperations (parentPayload path) l.tree l.after
        ((pendingAt path l.before).registerAll (Tree.bindingsIn [l.tree])) ++
      remaining path l.entered l.after

end Output

end Statechart
