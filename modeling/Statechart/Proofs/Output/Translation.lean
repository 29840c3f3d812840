import Statechart.Proofs.Output.Progress

/-!
# The module of a chart, tree by tree

What the module of a chart looks like, by recursion on the trees of the chart.  Nothing here
walks, opens or closes anything.

* `sections` — the properties of a state after its mark.  Transitions of one class that stand
  side by side, bindings aside, are one section; an invocation is a section, and so are the inner
  states of a nested machine.
* `stateProperties` — the states of a machine, each with its sections.
* `moduleText` — the whole module: the header, and the text of each top-level tree.

**`rowOperations_machine`**, **`rowOperations_state`** — the operations that the walk carries out
one by one for a machine or a state are those that write these properties.
-/

namespace Statechart.Output

open Script

/-! ## The translation -/

/-- A part of the object of a state. -/
inductive Section where
  | events (transitions : List (String × Value))
  | immediates (transitions : List Value)
  | delays (transitions : List (Nat × Value))
  /-- Properties that have nothing to do with transitions. -/
  | other (properties : List (String × Value))

namespace Section

/-- Delays as they are written. -/
def delayProperties (transitions : List (Nat × Value)) : List (String × Value) :=
  transitions.map fun (milliseconds, value) => (toString milliseconds, value)

/-- The properties that a section consists of. -/
def properties : Section → List (String × Value)
  | events transitions => [("on", .object transitions)]
  | immediates transitions => [("always", .array true transitions)]
  | delays transitions => [("delay", .object (delayProperties transitions))]
  | other properties => properties

end Section

/-- Put a transition in front of sections: into the first one if that has the same class, and into
a section of its own otherwise. -/
def addTransition (trigger : Trigger) (value : Value) (rest : List Section) : List Section :=
  match trigger, rest with
  | .event name, .events transitions :: rest => .events ((name, value) :: transitions) :: rest
  | .event name, rest => .events [(name, value)] :: rest
  | .immediate, .immediates transitions :: rest => .immediates (value :: transitions) :: rest
  | .immediate, rest => .immediates [value] :: rest
  | .delay milliseconds, .delays transitions :: rest =>
    .delays ((milliseconds, value) :: transitions) :: rest
  | .delay milliseconds, rest => .delays [(milliseconds, value)] :: rest

/-- The answers to an invocation. -/
def answers (ts : List Tree) : List (String × Value) :=
  ts.filterMap fun t =>
    match t.payload with
    | .transition u => (answerOf u.trigger).map fun key => (key, transitionOf u)
    | _ => none

/-- An invocation with its answers. -/
def invocation (service : String) (children : List Tree) : Value :=
  .object (("src", .token service) :: answers children)

/-- The properties of a machine with the given states.  Without states there is no object for
them. -/
def machineProperties (m : Machine) (states : List (String × Value)) : List (String × Value) :=
  initialProperty m ++ if states.isEmpty then [] else [("states", .object states)]

mutual

/-- The sections of a state with the given trees below it. -/
def sections : List Tree → List Section
  | [] => []
  | .node _ payload children :: ts =>
    match payload with
    | .transition u => addTransition u.trigger (transitionOf u) (sections ts)
    | .invoke service => .other [("invoke", invocation service children)] :: sections ts
    | .machine m => .other (machineProperties m (stateProperties children)) :: sections ts
    | _ => sections ts

/-- The states among trees below a machine. -/
def stateProperties : List Tree → List (String × Value)
  | [] => []
  | .node _ payload children :: ts =>
    match payload with
    | .state s =>
      (s.name, .object (finalProperty s ++ (sections children).flatMap Section.properties)) ::
        stateProperties ts
    | _ => stateProperties ts

end

section equations

variable (id : NodeId) (children ts : List Tree)

@[simp] lemma sections_nil : sections [] = [] := by rw [sections]

@[simp] lemma sections_transition (u : Transition) :
    sections (.node id (.transition u) children :: ts) =
      addTransition u.trigger (transitionOf u) (sections ts) := by
  rw [sections]

@[simp] lemma sections_invoke (service : String) :
    sections (.node id (.invoke service) children :: ts) =
      .other [("invoke", invocation service children)] :: sections ts := by
  rw [sections]

@[simp] lemma sections_machine (m : Machine) :
    sections (.node id (.machine m) children :: ts) =
      .other (machineProperties m (stateProperties children)) :: sections ts := by
  rw [sections]

@[simp] lemma sections_binding (b : Binding) :
    sections (.node id (.binding b) children :: ts) = sections ts := by
  simp only [sections]

@[simp] lemma stateProperties_nil : stateProperties [] = [] := by rw [stateProperties]

@[simp] lemma stateProperties_state (s : State) :
    stateProperties (.node id (.state s) children :: ts) =
      (s.name, .object (finalProperty s ++ (sections children).flatMap Section.properties)) ::
        stateProperties ts := by
  rw [stateProperties]

@[simp] lemma stateProperties_binding (b : Binding) :
    stateProperties (.node id (.binding b) children :: ts) = stateProperties ts := by
  simp only [stateProperties]

end equations

/-- The line for an import, which has to bring in something. -/
def importText (path : String) (children : List Tree) : String :=
  if (specifierNames children).isEmpty then ""
  else
    "import \x7b " ++ String.intercalate ", " (specifierNames children) ++ " \x7d from " ++
      quote path ++ ";\n"

/-- The text of a top-level machine that takes the given bindings. -/
def machineText (m : Machine) (children : List Tree) (bound : Bindings) : String :=
  (match m.name with
    | some name => "\nexport const " ++ name ++ " = "
    | none => "\nexport default ") ++ "Machine(" ++
    (Value.object (machineProperties m (stateProperties children))).layout 0 ++
    (if bound.isEmpty then "" else ", " ++ (optionsValue bound).layout 0) ++ ");"

/-- The text of top-level trees, when the given bindings wait for a machine. -/
def rootsText (bound : Bindings) : List Tree → String
  | [] => ""
  | t :: ts =>
    match t.payload with
    | .importModule path => importText path t.children ++ rootsText bound ts
    | .machine m =>
      machineText m t.children (bound.registerAll (Tree.bindingsIn [t])) ++ rootsText {} ts
    | _ => rootsText (bound.registerAll (Tree.bindingsIn [t])) ts

/-- The first line of a module. -/
def headerText (usesAssign : Bool) (library : Library) : String :=
  "import \x7b Machine" ++ (if usesAssign then ", assign" else "") ++ " \x7d from " ++
    quote library.specifier ++ ";\n"

/-- The module for top-level trees. -/
def moduleText (usesAssign : Bool) (library : Library) (roots : List Tree) : String :=
  (if roots.isEmpty then "" else headerText usesAssign library) ++ rootsText {} roots

/-! ## Sections and batches -/

namespace Section

/-- The batch that a section is written as. -/
def batch? : Section → Option Batch
  | events _ => some .on
  | immediates _ => some .always
  | delays _ => some .delay
  | other _ => none

/-- The operations inside the container of a batch. -/
def innerOperations : Section → List Operation
  | events transitions => Value.propertyOperations transitions
  | immediates transitions => Value.elementOperations transitions
  | delays transitions => Value.propertyOperations (delayProperties transitions)
  | other _ => []

/-- A batch is opened, filled and closed. -/
lemma operations_of_batch? {part : Section} {b : Batch} (h : part.batch? = some b) :
    Value.propertyOperations part.properties =
      openOperations b ++ part.innerOperations ++ [closeOperation b] := by
  cases part <;> cases h <;>
    simp [properties, Value.propertyOperations, Value.operations, openOperations, closeOperation,
      innerOperations, Batch.key]

end Section

/-- The class of the first section. -/
def firstBatch (parts : List Section) : Option Batch := parts.head?.bind Section.batch?

/-- A transition that joins the first section. -/
lemma addTransition_join {trigger : Trigger} {part : Section}
    (h : part.batch? = some (.ofTrigger trigger)) (value : Value) (rest : List Section) :
    ∃ joined : Section, addTransition trigger value (part :: rest) = joined :: rest ∧
      joined.batch? = some (.ofTrigger trigger) ∧
      joined.innerOperations = startOperation trigger :: value.operations ++ part.innerOperations := by
  cases trigger <;> cases part <;> cases h <;> refine ⟨_, rfl, rfl, ?_⟩ <;>
    simp [Section.innerOperations, Section.delayProperties, Value.propertyOperations,
      Value.elementOperations, startOperation]

/-- A transition that begins a section of its own. -/
lemma addTransition_new {trigger : Trigger} {parts : List Section}
    (h : firstBatch parts ≠ some (.ofTrigger trigger)) (value : Value) :
    ∃ added : Section, addTransition trigger value parts = added :: parts ∧
      added.batch? = some (.ofTrigger trigger) ∧
      added.innerOperations = startOperation trigger :: value.operations := by
  rcases parts with _ | ⟨_ | _ | _ | _, rest⟩ <;> cases trigger <;>
    first
    | exact absurd rfl h
    | (refine ⟨_, rfl, rfl, ?_⟩
       simp [Section.innerOperations, Section.delayProperties, Value.propertyOperations,
         Value.elementOperations, startOperation])

/-- A transition determines the class of the first section. -/
lemma firstBatch_addTransition (trigger : Trigger) (value : Value) (parts : List Section) :
    firstBatch (addTransition trigger value parts) = some (.ofTrigger trigger) := by
  rcases parts with _ | ⟨_ | _ | _ | _, rest⟩ <;> cases trigger <;> rfl

/-! ## Rows of trees -/

/-- What is written for sections, from inside of the batch of the first one if that is open. -/
def sectionOperations : Option Batch → List Section → List Operation
  | some b, part :: rest =>
    part.innerOperations ++
      closeOperation b :: Value.propertyOperations (rest.flatMap Section.properties)
  | _, parts => Value.propertyOperations (parts.flatMap Section.properties)

@[simp] lemma sectionOperations_none (parts : List Section) :
    sectionOperations none parts = Value.propertyOperations (parts.flatMap Section.properties) := by
  cases parts <;> rfl

/-- Nothing hangs below a binding, a transition or a specifier. -/
lemma eq_nil_of_allShaped {k : Kind} (hk : k ∈ [.binding, .transition, .specifier])
    {ts : List Tree} (h : Tree.allShaped (some k) ts = true) : ts = [] := by
  cases ts with
  | nil => rfl
  | cons t ts =>
      have hold := (Tree.allShaped_cons.mp h).1
      cases k <;> simp [Tree.mayHold] at hk hold

lemma rowOperations_nil (parent : Node) (entered : List Tree) :
    rowOperations parent entered [] = [] := by
  rw [rowOperations]

/-- The operations of the first tree of a row, and those of the others behind it. -/
lemma rowOperations_cons (parent : Node) (entered : List Tree) (t : Tree) (ts : List Tree) :
    rowOperations parent entered (t :: ts) =
      enterOperations (some parent) entered t ++ rowOperations t.payload [] t.children ++
        leaveOperations (some parent) t ts {} ++ rowOperations parent (entered ++ [t]) ts := by
  cases t
  rw [rowOperations, treeOperations]
  rfl

/-- The answers that an invocation has a key for. -/
lemma answerKey_eq (trigger : Trigger) :
    (Emission.answerKey trigger).toOption = answerOf trigger := by
  cases trigger with
  | event name =>
      rw [Emission.answerKey, answerOf]
      split
      · rfl
      · split <;> rfl
  | immediate => rfl
  | delay milliseconds => rfl

/-- The answers to an invocation are written one after another. -/
lemma rowOperations_invoke (service : String) : ∀ (entered ts : List Tree),
    Tree.allShaped (some .invoke) ts = true →
    rowOperations (.invoke service) entered ts = Value.propertyOperations (answers ts)
  | entered, [], _ => by rw [rowOperations_nil]; rfl
  | entered, .node id payload children :: ts, h => by
      obtain ⟨hold, -, hchildren, hrest⟩ := Tree.allShaped_cons.mp h
      rw [rowOperations_cons, rowOperations_invoke service _ ts hrest]
      cases payload with
      | transition u =>
          obtain rfl : children = [] := eq_nil_of_allShaped (by simp [Node.kind]) hchildren
          rw [Tree.children_node, rowOperations_nil]
          have hinvoke : (some (Node.invoke service)).any Node.isInvoke = true := rfl
          simp only [enterOperations, leaveOperations, Tree.payload_node, hinvoke, if_true,
            Bool.true_or, answers, List.filterMap_cons, ← answerKey_eq]
          cases Emission.answerKey u.trigger <;>
            simp [Except.toOption, Value.propertyOperations]
      | _ => simp [Tree.mayHold, Node.kind] at hold

/-- The class of the first section is that of the first node that writes something. -/
lemma firstBatch_sections {ts : List Tree} (h : Tree.allShaped (some .state) ts = true) :
    firstBatch (sections ts) = (Tree.firstWriting ts).bind batchOf := by
  induction ts with
  | nil => rw [sections]; rfl
  | cons t ts ih =>
      obtain ⟨id, payload, children⟩ := t
      obtain ⟨hold, -, -, hrest⟩ := Tree.allShaped_cons.mp h
      cases payload with
      | transition u =>
          rw [sections_transition]
          exact firstBatch_addTransition _ _ _
      | invoke service => rw [sections_invoke]; rfl
      | machine m => rw [sections_machine]; rfl
      | binding b => rw [sections_binding]; exact ih hrest
      | _ => simp [Tree.mayHold, Node.kind] at hold

/-- There is a property for every state. -/
lemma isEmpty_stateProperties {ts : List Tree} (h : Tree.allShaped (some .machine) ts = true) :
    (stateProperties ts).isEmpty = !ts.any Tree.isState := by
  induction ts with
  | nil => rw [stateProperties_nil]; rfl
  | cons t ts ih =>
      obtain ⟨id, payload, children⟩ := t
      obtain ⟨hold, -, -, hrest⟩ := Tree.allShaped_cons.mp h
      cases payload with
      | state s => rw [stateProperties_state]; rfl
      | binding b =>
          rw [stateProperties_binding, ih hrest]
          rfl
      | _ => simp [Tree.mayHold, Node.kind] at hold

/-- The operations for the states of a machine, after others of its states or as the first. -/
def statesOperations (opened : Bool) (ts : List Tree) : List Operation :=
  if ts.any Tree.isState then
    (if opened then [] else [.startProperty "states", .startObject]) ++
      Value.propertyOperations (stateProperties ts) ++ [.endObject]
  else []

/-- The operations of a machine that write its states write the object of them. -/
lemma operations_machineProperties {m : Machine} {ts : List Tree}
    (h : Tree.allShaped (some .machine) ts = true) :
    Value.propertyOperations (machineProperties m (stateProperties ts)) =
      Value.propertyOperations (initialProperty m) ++ statesOperations false ts := by
  rw [machineProperties, Value.propertyOperations_append, isEmpty_stateProperties h,
    statesOperations]
  cases ts.any Tree.isState <;> simp [Value.propertyOperations, Value.operations]

/-- After a transition its batch stays open if the first section behind it has the same class. -/
lemma sharedBatch_transition {t : Tree} {b : Batch} {ts : List Tree}
    (hk : t.payload.kind ≠ .binding) (hb : batchOf t.payload = some b)
    (hfirst : firstBatch (sections ts) = (Tree.firstWriting ts).bind batchOf) :
    sharedBatch [t] ts = if some b = firstBatch (sections ts) then some b else none := by
  rw [hfirst, sharedBatch, show Tree.lastWriting [t] = _ from Tree.lastWriting_concat [] t,
    if_neg hk, Option.bind_some, hb]

/-- A transition in front of sections: its batch is open before it if it was, and after it if the
first section has the same class. -/
lemma batched_operations {id : NodeId} {u : Transition} {s : State} {entered ts : List Tree}
    (hfirst : firstBatch (sections ts) = (Tree.firstWriting ts).bind batchOf) :
    enterOperations (some (.state s)) entered (.node id (.transition u) []) ++
        leaveOperations (some (.state s)) (.node id (.transition u) []) ts {} ++
        sectionOperations (sharedBatch (entered ++ [.node id (.transition u) []]) ts)
          (sections ts) =
      sectionOperations (sharedBatch entered (.node id (.transition u) [] :: ts))
        (addTransition u.trigger (transitionOf u) (sections ts)) := by
  generalize ht : Tree.node id (.transition u) [] = t
  have hpayload : t.payload = .transition u := by rw [← ht]; rfl
  have hk : t.payload.kind ≠ .binding := by simp [hpayload, Node.kind]
  have hb : batchOf t.payload = some (.ofTrigger u.trigger) := by rw [hpayload]; rfl
  have henter : enterOperations (some (.state s)) entered t =
      (if sharedBatch entered [t] = none then openOperations (.ofTrigger u.trigger) else []) ++
        startOperation u.trigger :: (transitionOf u).operations := by
    simp [enterOperations, hpayload, Node.isInvoke, Node.kind]
  have hleave : leaveOperations (some (.state s)) t ts {} =
      if (sharedBatch [t] ts).isSome then [] else [closeOperation (.ofTrigger u.trigger)] := by
    simp [leaveOperations, hpayload, Node.isInvoke, Node.kind]
  have hafter := sharedBatch_transition hk hb hfirst
  have hbefore : ∀ b, sharedBatch entered [t] = some b → b = .ofTrigger u.trigger := fun b h =>
    Option.some.inj ((eq_batchOf_of_sharedBatch hk h).symm.trans hb)
  rw [sharedBatch_concat_eq _ _ hk, sharedBatch_cons_eq _ _ hk, henter, hleave]
  by_cases hjoin : some (.ofTrigger u.trigger) = firstBatch (sections ts)
  · -- the transition goes on with the first section
    rw [if_pos hjoin] at hafter
    obtain ⟨part, rest, hparts⟩ : ∃ part rest, sections ts = part :: rest := by
      cases hparts : sections ts with
      | nil => rw [hparts] at hjoin; cases hjoin
      | cons part rest => exact ⟨part, rest, rfl⟩
    have hpart : part.batch? = some (.ofTrigger u.trigger) := by
      rw [hjoin, hparts]; rfl
    obtain ⟨joined, hadd, hbatch, hinner⟩ := addTransition_join hpart (transitionOf u) rest
    rw [hafter, hparts, hadd]
    cases hopen : sharedBatch entered [t] with
    | none =>
        simp [sectionOperations, Value.propertyOperations_append,
          Section.operations_of_batch? hbatch, hinner]
    | some b =>
        cases hbefore b hopen
        simp [sectionOperations, hinner]
  · -- the transition is a section of its own
    rw [if_neg hjoin] at hafter
    obtain ⟨added, hadd, hbatch, hinner⟩ :=
      addTransition_new (fun h => hjoin h.symm) (transitionOf u)
    rw [hafter, hadd]
    cases hopen : sharedBatch entered [t] with
    | none =>
        simp [Value.propertyOperations_append, Section.operations_of_batch? hbatch, hinner]
    | some b =>
        cases hbefore b hopen
        simp [sectionOperations, hinner]

mutual

/-- **What is written below a state** are its sections. -/
lemma rowOperations_state (s : State) : ∀ (entered ts : List Tree),
    Tree.allShaped (some .state) ts = true →
    rowOperations (.state s) entered ts =
      sectionOperations (sharedBatch entered ts) (sections ts)
  | entered, [], _ => by simp [rowOperations_nil, Value.propertyOperations]
  | entered, .node id payload children :: ts, h => by
      obtain ⟨hold, -, hchildren, hrest⟩ := Tree.allShaped_cons.mp h
      have hfirst := firstBatch_sections hrest
      rw [rowOperations_cons, rowOperations_state s _ ts hrest]
      cases payload with
      | transition u =>
          obtain rfl : children = [] := eq_nil_of_allShaped (by simp [Node.kind]) hchildren
          rw [Tree.children_node, rowOperations_nil, List.append_nil, sections_transition]
          exact batched_operations hfirst
      | invoke service =>
          have hrow := rowOperations_invoke service [] children hchildren
          rw [sharedBatch_concat_other _ _ (by simp [Node.kind]) rfl,
            sharedBatch_cons_other _ _ (by simp [Node.kind]) rfl, sections_invoke]
          simp only [Tree.payload_node, Tree.children_node, hrow, sectionOperations_none]
          simp [enterOperations, leaveOperations, Section.properties, Value.propertyOperations,
            Value.operations, invocation]
      | machine m =>
          have hrow := rowOperations_machine m [] children hchildren
          rw [sharedBatch_concat_other _ _ (by simp [Node.kind]) rfl,
            sharedBatch_cons_other _ _ (by simp [Node.kind]) rfl, sections_machine]
          have hobject := @operations_machineProperties m children hchildren
          simp only [Tree.payload_node, Tree.children_node, hrow, sectionOperations_none,
            List.flatMap_cons, Section.properties, Value.propertyOperations_append, hobject]
          simp [enterOperations, leaveOperations]
      | binding b =>
          obtain rfl : children = [] := eq_nil_of_allShaped (by simp [Node.kind]) hchildren
          rw [sharedBatch_concat_binding _ _ rfl, sharedBatch_cons_binding _ _ rfl,
            sections_binding, Tree.children_node, rowOperations_nil]
          rfl
      | _ => simp [Tree.mayHold, Node.kind] at hold

/-- **What is written below a machine** are its states. -/
lemma rowOperations_machine (m : Machine) : ∀ (entered ts : List Tree),
    Tree.allShaped (some .machine) ts = true →
    rowOperations (.machine m) entered ts =
      statesOperations (entered.any Tree.isState) ts
  | entered, [], _ => by rw [rowOperations_nil]; rfl
  | entered, .node id payload children :: ts, h => by
      obtain ⟨hold, -, hchildren, hrest⟩ := Tree.allShaped_cons.mp h
      rw [rowOperations_cons, rowOperations_machine m _ ts hrest]
      cases payload with
      | state s =>
          have hrow := rowOperations_state s [] children hchildren
          rw [sharedBatch_nil_left, sectionOperations_none] at hrow
          simp only [Tree.payload_node, Tree.children_node, hrow, statesOperations,
            stateProperties_state]
          have hlast : ts.any Tree.isState = false → stateProperties ts = [] := fun hmore => by
            simpa [hmore] using isEmpty_stateProperties hrest
          cases hopened : entered.any Tree.isState <;> cases hmore : ts.any Tree.isState <;>
            simp [enterOperations, leaveOperations, hopened, hmore, hlast, Tree.isState,
              Node.isState, Node.kind, Value.propertyOperations, Value.operations,
              Value.propertyOperations_append]
      | binding b =>
          obtain rfl : children = [] := eq_nil_of_allShaped (by simp [Node.kind]) hchildren
          rw [Tree.children_node, rowOperations_nil]
          simp [enterOperations, leaveOperations, statesOperations, Tree.isState, Node.isState,
            Node.kind]
      | _ => simp [Tree.mayHold, Node.kind] at hold

end

end Statechart.Output
