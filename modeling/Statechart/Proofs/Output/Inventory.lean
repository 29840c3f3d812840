import Statechart.Proofs.Output.Construct
import Statechart.Proofs.Output.Warnings

/-!
# The inventory of a module

Here is what the nodes of a chart are to contribute to its module, and that nothing of it is missing.

* `nodeConstructs` — the items for a node together with the specifiers or transitions directly below
  it.
* `bindingConstruct` — the item for a binding.  There is none for a guard that is an update.
* `expectedConstructs` — the items for a chart.

**`constructs_statements`** — the items of a module are those of the nodes of its chart, and of the
bindings that its machines take.
-/

namespace Statechart

/-! ## Items of nodes -/

/-- An assignment without a value takes the data of the event. -/
def Assignment.term (a : Assignment) : Term :=
  .update a.key (a.value.getD "(context, event) => event.data")

/-- A guard or an action. -/
def Reference.term : Reference → Term
  | named name => .quoted name
  | inline (.assign a) => a.term
  | inline (.identifier name) => .bare name
  | inline (.guard name) => .bare name
  | inline (.action name) => .bare name
  | inline (.delay milliseconds) => .bare (delayText milliseconds)

/-- What a transition does. -/
def Transition.move (t : Transition) : Move :=
  ⟨[t.target], t.guards.map Reference.term, t.actions.map Reference.term⟩

namespace Output

open Script

/-- The item for a transition of a state. -/
def transitionConstruct (t : Tree) : Option Construct :=
  match t.payload with
  | .transition u => some <|
    match u.trigger with
    | .event name => .transition .on (some name) u.move
    | .immediate => .transition .always none u.move
    | .delay milliseconds => .transition .delay (some (toString milliseconds)) u.move
  | _ => none

/-- The item for a transition of an invocation, if it answers the invocation. -/
def answerConstruct (t : Tree) : Option Construct :=
  match t.payload with
  | .transition u => (answerOf u.trigger).map fun key => .answer key u.move
  | _ => none

/-- The items for a node and for the specifiers or transitions directly below it.  Bindings are
written elsewhere. -/
def nodeConstructs (t : Tree) : List Construct :=
  match t.payload with
  | .importModule path => (specifierNames t.children).map (Construct.importName path)
  | .machine m => m.initial.toList.map .initial
  | .state s =>
    .state s.name :: (if s.isFinal then [.mark "final"] else []) ++
      t.children.filterMap transitionConstruct
  | .invoke service => .invoke service :: t.children.filterMap answerConstruct
  | _ => []

/-- The item for a top-level machine. -/
def exportConstruct (t : Tree) : Option Construct :=
  match t.payload with
  | .machine m => some (.machine m.name)
  | _ => none

/-- The item for a binding that a machine takes.  There is none for a guard that is an update. -/
def bindingConstruct (b : Binding) : Option Construct :=
  match b.kind, b.value with
  | .guard, .identifier name => some (.option "guards" b.name [.bare name])
  | .action, .identifier name => some (.option "actions" b.name [.bare name])
  | .action, .assign a => some (.option "actions" b.name [a.term])
  | _, _ => none

/-- The items for a chart. -/
def expectedConstructs (roots : List Tree) : List Construct :=
  roots.filterMap exportConstruct ++ (Tree.allWithin roots).flatMap nodeConstructs ++
    (contents (upToLastMachine roots)).filterMap bindingConstruct

/-! ## Transitions -/

section transitions

variable {u : Transition}

lemma terms_guardOf {r : Reference} {v : Value} (h : guardOf r = some v) :
    v.terms = v.term?.toList := by
  rcases r with _ | (_ | _ | _ | _ | _) <;> cases h <;> rfl

/-- The condition of a transition has the terms of its guards. -/
lemma terms_conditionOf {guards : List Value} (h : ∀ v ∈ guards, v.terms = v.term?.toList) :
    ((Value.object (conditionOf guards)).valuesAt "cond").flatMap Value.terms =
      guards.filterMap Value.term? := by
  rcases guards with _ | ⟨guard, _ | ⟨next, guards⟩⟩
  · rfl
  · simp [conditionOf, Value.valuesAt, h, List.filterMap_cons]
    cases guard.term? <;> rfl
  · simp [conditionOf, Value.valuesAt, Value.terms]

/-- A transition that can be written is written with all its guards and actions. -/
lemma filterMap_term? {r : Reference → Option Value} {rs : List Reference}
    (h : ∀ x ∈ rs, (r x).bind Value.term? = some x.term) :
    (rs.filterMap r).filterMap Value.term? = rs.map Reference.term := by
  rw [List.filterMap_filterMap, ← List.filterMap_eq_map]
  exact List.filterMap_congr h

/-- **A transition is written with its target, all its guards and all its actions.** -/
lemma move_transitionOf (h : (Node.transition u).isWritable = true) :
    (transitionOf u).move = u.move := by
  rw [Node.isWritable, Bool.and_eq_true, List.all_eq_true, List.all_eq_true] at h
  have hguards : (u.guards.filterMap guardOf).filterMap Value.term? =
      u.guards.map Reference.term := filterMap_term? fun x hx => by
    have hx := h.1 x hx
    rcases x with _ | (_ | _ | _ | _ | _) <;> first | rfl | cases hx
  have hactions : (u.actions.filterMap actionOf).filterMap Value.term? =
      u.actions.map Reference.term := filterMap_term? fun x hx => by
    have hx := h.2 x hx
    rcases x with _ | (_ | _ | _ | _ | _) <;> first | rfl | cases hx
  have hterms : ∀ v ∈ u.guards.filterMap guardOf, v.terms = v.term?.toList := fun v hv => by
    obtain ⟨r, -, hr⟩ := List.mem_filterMap.mp hv
    exact terms_guardOf hr
  rw [Transition.move, ← hguards, ← hactions, transitionOf]
  generalize u.guards.filterMap guardOf = guards at hterms ⊢
  generalize u.actions.filterMap actionOf = actions
  split
  · next hempty => simp [Value.move, List.isEmpty_iff.mp hempty.1, List.isEmpty_iff.mp hempty.2.1]
  · rw [← terms_conditionOf hterms]
    rcases guards with _ | ⟨guard, _ | ⟨next, guards⟩⟩ <;> rcases actions with _ | ⟨action, actions⟩ <;>
      simp [Value.move, Value.valuesAt, conditionOf, Value.plainText, Value.terms]

end transitions

/-! ## Configurations -/

/-- The items of a section. -/
def Section.constructs (part : Section) : List Construct :=
  Value.propertiesConstructs part.properties

/-- The items of a section are those of its transitions, one after the other. -/
lemma Section.additive_constructs : Section.Additive Section.constructs where
  events p ps := by
    simp [Section.constructs, Section.properties, Value.propertiesConstructs_eq,
      Value.propertyConstructs]
  immediates v vs := by
    simp [Section.constructs, Section.properties, Value.propertiesConstructs_eq,
      Value.propertyConstructs]
  delays p ps := by
    simp [Section.constructs, Section.properties, Section.delayProperties,
      Value.propertiesConstructs_eq, Value.propertyConstructs]
  empty := by simp [Section.constructs, Section.properties, Value.propertiesConstructs_eq]

/-- The items for the nodes of some trees. -/
def rowConstructs (ts : List Tree) : List Construct := (Tree.allWithin ts).flatMap nodeConstructs

@[simp] lemma rowConstructs_nil : rowConstructs [] = [] := by simp [rowConstructs]

lemma rowConstructs_cons (t : Tree) (ts : List Tree) :
    rowConstructs (t :: ts) = nodeConstructs t ++ rowConstructs t.children ++ rowConstructs ts := by
  simp [rowConstructs, Tree.allWithin_cons]

section rows

variable {t : Tree} {ts : List Tree}

/-- A transition that can be written is one item. -/
lemma constructs_single {u : Transition} (ht : t.payload = .transition u)
    (hw : t.payload.isWritable = true) :
    (Section.single (transitionOf u) u.trigger).constructs = (transitionConstruct t).toList := by
  rw [ht] at hw
  rw [transitionConstruct, ht, Section.constructs]
  cases htrigger : u.trigger <;>
    simp [Section.single, Section.properties, Section.delayProperties,
      Value.propertiesConstructs_eq, Value.propertyConstructs, move_transitionOf hw, htrigger]

/-- The answers to an invocation are those of the transitions below it that answer it. -/
lemma constructs_answers (hw : ∀ node ∈ Tree.payloads ts, node.isWritable = true) :
    (answers ts).map (fun p => if p.1 = "src" then Construct.invoke p.2.plainText
      else .answer p.1 p.2.move) = ts.filterMap answerConstruct := by
  rw [answers, List.map_filterMap]
  refine List.filterMap_congr fun t ht => ?_
  have hown := hw _ (Tree.payload_mem_payloads ht)
  rw [answerConstruct]
  cases hp : t.payload with
  | transition u =>
      rw [hp] at hown
      have hkey : ∀ key, answerOf u.trigger = some key → key ≠ "src" := fun key hkey => by
        cases htrigger : u.trigger with
        | event name =>
            rw [htrigger, answerOf] at hkey
            split at hkey
            · cases hkey; decide
            · split at hkey
              · cases hkey; decide
              · cases hkey
        | _ => rw [htrigger] at hkey; cases hkey
      dsimp only
      cases hanswer : answerOf u.trigger with
      | none => rfl
      | some key => simp [hkey key hanswer, move_transitionOf hown]
  | _ => rfl

/-- The items of a machine are its initial state and its states. -/
lemma constructs_machineProperties (m : Machine) (states : List (String × Value)) :
    Value.propertiesConstructs (machineProperties m states) =
      m.initial.toList.map .initial ++ Value.statesConstructs states := by
  rw [machineProperties, initialProperty, Value.propertiesConstructs_eq]
  cases m.initial <;> cases states <;>
    simp [Value.propertyConstructs, Value.statesConstructs]

/-- Transitions and specifiers contribute nothing of their own. -/
lemma rowConstructs_leaves {k : Kind} (hk : k = .invoke ∨ k = .importModule)
    (h : Tree.allShaped (some k) ts = true) : rowConstructs ts = [] := by
  induction ts with
  | nil => exact rowConstructs_nil
  | cons t ts ih =>
      obtain ⟨hold, -, hchildren, hrest⟩ := Tree.allShaped_cons.mp h
      rw [rowConstructs_cons, ih hrest, nodeConstructs]
      cases hp : t.payload with
      | transition u =>
          rw [hp] at hchildren
          rw [eq_nil_of_allShaped (by simp [Node.kind]) hchildren]
          simp
      | specifier imported renamed =>
          rw [hp] at hchildren
          rw [eq_nil_of_allShaped (by simp [Node.kind]) hchildren]
          simp
      | _ => rcases hk with rfl | rfl <;> simp [hp, Tree.mayHold, Node.kind] at hold

/-- The items of the section that a tree below a state is by itself, if the states below it have
theirs. -/
lemma constructs_sectionOf (hold : Tree.mayHold (some .state) t.payload.kind = true)
    (hchildren : Tree.allShaped (some t.payload.kind) t.children = true)
    (hown : t.payload.isWritable = true)
    (hw : ∀ node ∈ Tree.payloads t.children, node.isWritable = true)
    (hstates : t.payload.kind = .machine →
      (Value.statesConstructs (stateProperties t.children)).Perm (rowConstructs t.children)) :
    (sectionOf t).constructs.Perm ((transitionConstruct t).toList ++
      (nodeConstructs t ++ rowConstructs t.children)) := by
  cases hp : t.payload with
  | transition u =>
      rw [hp] at hchildren
      have hsection : sectionOf t = .single (transitionOf u) u.trigger := by rw [sectionOf, hp]
      rw [hsection, constructs_single hp hown, nodeConstructs, hp,
        eq_nil_of_allShaped (by simp [Node.kind]) hchildren]
      simp
  | invoke service =>
      rw [hp] at hchildren
      rw [rowConstructs_leaves (.inl rfl) hchildren, nodeConstructs, transitionConstruct, sectionOf,
        otherProperties, hp, ← constructs_answers hw]
      simp [Section.constructs, Section.properties, Value.propertiesConstructs_eq,
        Value.propertyConstructs, invocation, Value.plainText]
  | machine m =>
      have hsection : (sectionOf t).constructs =
          Value.propertiesConstructs (machineProperties m (stateProperties t.children)) := by
        rw [sectionOf, otherProperties, hp]
        rfl
      rw [hsection, constructs_machineProperties, nodeConstructs, transitionConstruct, hp]
      exact (hstates (by rw [hp]; rfl)).append_left _
  | binding b =>
      rw [hp] at hchildren
      rw [eq_nil_of_allShaped (by simp [Node.kind]) hchildren, nodeConstructs, transitionConstruct,
        sectionOf, otherProperties, hp]
      simp [Section.constructs, Section.properties, Value.propertiesConstructs_eq]
  | _ => simp [hp, Tree.mayHold, Node.kind] at hold

/-- The items of a state are those of its node, of its transitions and of all below it. -/
lemma constructs_state {s : State} (ht : t.payload = .state s)
    (hsections : ((sections t.children).flatMap Section.constructs).Perm
      (t.children.filterMap transitionConstruct ++ rowConstructs t.children)) :
    (Construct.state s.name :: (Value.object (finalProperty s ++
      (sections t.children).flatMap Section.properties)).constructs).Perm
      (nodeConstructs t ++ rowConstructs t.children) := by
  have hfinal : Value.propertiesConstructs (finalProperty s) =
      if s.isFinal then [.mark "final"] else [] := by
    rw [finalProperty, Value.propertiesConstructs_eq]
    cases s.isFinal <;> simp [Value.propertyConstructs]
  have hsplit : (Value.object (finalProperty s ++
      (sections t.children).flatMap Section.properties)).constructs =
      (if s.isFinal then [.mark "final"] else []) ++
        (sections t.children).flatMap Section.constructs := by
    rw [Value.constructs, Value.propertiesConstructs_eq, List.flatMap_append,
      ← Value.propertiesConstructs_eq, hfinal, List.flatMap_assoc]
    congr 2
    funext part
    rw [Section.constructs, Value.propertiesConstructs_eq]
  have hnode : nodeConstructs t = (.state s.name :: if s.isFinal then [.mark "final"] else []) ++
      t.children.filterMap transitionConstruct := by
    rw [nodeConstructs, ht]
  rw [hsplit, hnode, List.cons_append, List.cons_append, List.append_assoc]
  exact (hsections.append_left _).cons _

/-- **The items of a configuration** are those of its nodes: states below a machine, and all that is
below a state. -/
lemma constructs_rows : ∀ {ts : List Tree},
    (∀ node ∈ Tree.payloads ts, node.isWritable = true) →
    (Tree.allShaped (some .machine) ts = true →
      (Value.statesConstructs (stateProperties ts)).Perm (rowConstructs ts)) ∧
    (Tree.allShaped (some .state) ts = true →
      ((sections ts).flatMap Section.constructs).Perm
        (ts.filterMap transitionConstruct ++ rowConstructs ts)) := by
  intro ts
  induction ts using Tree.row_induction with
  | nil => simp [Value.statesConstructs]
  | cons t ts below rest =>
      intro hw
      rw [Tree.forall_payloads_cons] at hw
      obtain ⟨hstates, hsections⟩ := below hw.2.1
      obtain ⟨hstatesRest, hsectionsRest⟩ := rest hw.2.2
      constructor
      · intro hshape
        obtain ⟨hold, -, hchildren, hrest⟩ := Tree.allShaped_cons.mp hshape
        rw [rowConstructs_cons]
        cases hp : t.payload with
        | state s =>
            rw [hp] at hchildren
            have hrow : stateProperties (t :: ts) = (s.name, .object (finalProperty s ++
                (sections t.children).flatMap Section.properties)) :: stateProperties ts := by
              cases t
              cases hp
              rw [stateProperties_state]
              rfl
            rw [hrow, Value.statesConstructs]
            exact (constructs_state hp (hsections hchildren)).append (hstatesRest hrest)
        | binding b =>
            rw [hp] at hchildren
            have hrow : stateProperties (t :: ts) = stateProperties ts := by
              cases t
              cases hp
              rw [stateProperties_binding]
            rw [hrow, nodeConstructs, hp, eq_nil_of_allShaped (by simp [Node.kind]) hchildren]
            simpa using hstatesRest hrest
        | _ => simp [hp, Tree.mayHold, Node.kind] at hold
      · intro hshape
        obtain ⟨hold, -, hchildren, hrest⟩ := Tree.allShaped_cons.mp hshape
        have hfirst := constructs_sectionOf hold hchildren hw.1 hw.2.1 fun hmachine =>
          hstates (by rw [hmachine] at hchildren; exact hchildren)
        have hlast := hsectionsRest hrest
        rw [flatMap_sections _ Section.additive_constructs] at hlast ⊢
        rw [List.flatMap_cons, rowConstructs_cons, List.filterMap_eq_flatMap_toList,
          List.flatMap_cons, ← List.filterMap_eq_flatMap_toList]
        refine List.perm_iff_count.mpr fun c => ?_
        have hfirst := hfirst.count_eq c
        have hlast := hlast.count_eq c
        simp only [List.count_append] at hfirst hlast ⊢
        omega

end rows

/-! ## Options -/

/-- The first tree is dropped only if no machine comes, at it or later. -/
lemma upToLastMachine_cons (t : Tree) (ts : List Tree) : upToLastMachine (t :: ts) =
    if upToLastMachine ts = [] ∧ t.payload.isMachine = false then []
    else t :: upToLastMachine ts := by
  simp only [upToLastMachine, List.rdropWhile, List.reverse_cons, List.dropWhile_append,
    List.reverse_eq_nil_iff, List.isEmpty_iff]
  by_cases hrest : ts.reverse.dropWhile (fun t => !t.payload.isMachine) = [] <;>
    cases ht : t.payload.isMachine <;> simp [hrest, ht]

/-- The machines take the bindings that are declared up to the last of them. -/
lemma flatten_take_piecesFrom (ts : List Tree) : ∀ waiting : List Binding,
    ((piecesFrom waiting ts).take (ts.countP (·.payload.isMachine))).flatten =
      if upToLastMachine ts = [] then [] else waiting ++ contents (upToLastMachine ts) := by
  induction ts with
  | nil => intro waiting; rfl
  | cons t ts ih =>
      intro waiting
      rw [piecesFrom, List.countP_cons, upToLastMachine_cons]
      cases ht : t.payload.isMachine with
      | true =>
          simp only [if_true, List.take_succ_cons, List.flatten_cons, ih, Bool.true_eq_false,
            and_false, if_false, reduceCtorEq]
          rw [contents_cons t (upToLastMachine ts)]
          split
          · next hrest => simp [hrest]
          · simp
      | false =>
          simp only [Bool.false_eq_true, if_false, Nat.add_zero, ih, and_true]
          split
          · simp
          · rw [if_neg (List.cons_ne_nil _ _), contents_cons t (upToLastMachine ts),
              List.append_assoc]

/-- The items of one of the two maps of options. -/
lemma options_group (group : String) (kind : BindingKind)
    {entryOf : Binding → Option (String × Value)} (h : ∀ b, b.kind ≠ kind → entryOf b = none)
    (piece : List Binding) :
    (Value.object (if piece.any (·.kind = kind) then
      [(group, .object (piece.filterMap entryOf))] else [])).options =
      (piece.filterMap entryOf).map fun p => .option group p.1 p.2.terms := by
  split
  · simp [Value.options]
  · next hnone =>
    have hempty : piece.filterMap entryOf = [] := by
      simp only [Bool.not_eq_true, List.any_eq_false, decide_eq_true_eq] at hnone
      exact List.filterMap_eq_nil_iff.mpr fun b hb => h b (hnone b hb)
    rw [hempty]
    rfl

/-- The options for a piece have an item for each of its bindings that has one. -/
lemma options_pieceOptions (piece : List Binding) :
    (pieceOptions piece).options.Perm (piece.filterMap bindingConstruct) := by
  have hguard : ∀ b : Binding, b.kind ≠ .guard → guardEntryOf b = none := fun b hb => by
    rw [guardEntryOf]
    cases hk : b.kind with
    | guard => exact absurd hk hb
    | action => rfl
  have haction : ∀ b : Binding, b.kind ≠ .action → actionEntryOf b = none := fun b hb => by
    rw [actionEntryOf]
    cases hk : b.kind with
    | guard => rfl
    | action => exact absurd hk hb
  have hsplit : (pieceOptions piece).options =
      (piece.filterMap guardEntryOf).map (fun p => .option "guards" p.1 p.2.terms) ++
        (piece.filterMap actionEntryOf).map fun p => .option "actions" p.1 p.2.terms := by
    rw [pieceOptions, Value.options, List.flatMap_append, ← options_group "guards" .guard hguard,
      ← options_group "actions" .action haction]
    rfl
  rw [hsplit, List.map_filterMap, List.map_filterMap, List.filterMap_eq_flatMap_toList,
    List.filterMap_eq_flatMap_toList, List.filterMap_eq_flatMap_toList]
  refine (List.flatMap_append_perm _ _ _).trans (.of_eq (List.flatMap_congr fun b _ => ?_))
  obtain ⟨kind, name, value⟩ := b
  cases kind <;> cases value <;> rfl

/-! ## Modules -/

/-- The items of a top-level machine. -/
lemma constructs_machineStatement {t : Tree} {m : Machine} (ht : t.payload = .machine m)
    (hchildren : Tree.allShaped (some .machine) t.children = true)
    (hw : ∀ node ∈ Tree.payloads t.children, node.isWritable = true) (piece : List Binding) :
    (machineStatement m t.children piece).constructs.Perm
      ((exportConstruct t).toList ++ (nodeConstructs t ++ rowConstructs t.children) ++
        piece.filterMap bindingConstruct) := by
  have hoptions : ((if piece.isEmpty then none else some (pieceOptions piece)).toList.flatMap
      Value.options).Perm (piece.filterMap bindingConstruct) := by
    cases piece with
    | nil => exact .nil
    | cons b piece => simpa using options_pieceOptions (b :: piece)
  rw [machineStatement, Statement.constructs, configuration, Value.constructs,
    constructs_machineProperties, exportConstruct, nodeConstructs, ht]
  exact ((((constructs_rows hw).1 hchildren).append_left _).append hoptions).cons _

/-- The items of the statements for top-level trees, where each machine takes the next piece. -/
lemma constructs_rootStatements {ts : List Tree} : ∀ (pieces : List (List Binding)),
    Tree.allShaped none ts = true → (∀ node ∈ Tree.payloads ts, node.isWritable = true) →
    ((rootStatements pieces ts).flatMap Statement.constructs).Perm
      (ts.filterMap exportConstruct ++ rowConstructs ts ++
        (pieces.take (ts.countP (·.payload.isMachine))).flatten.filterMap bindingConstruct) := by
  induction ts with
  | nil => intros; simp [rootStatements]
  | cons t ts ih =>
      intro pieces hshape hw
      obtain ⟨hold, -, hchildren, hrest⟩ := Tree.allShaped_cons.mp hshape
      rw [Tree.forall_payloads_cons] at hw
      rw [rootStatements, rowConstructs_cons, List.countP_cons, List.filterMap_eq_flatMap_toList,
        List.flatMap_cons, ← List.filterMap_eq_flatMap_toList]
      refine List.perm_iff_count.mpr fun c => ?_
      cases hp : t.payload with
      | importModule path =>
          rw [hp] at hchildren
          have hexport : exportConstruct t = none := by rw [exportConstruct, hp]
          have hnames : (if (specifierNames t.children).isEmpty then []
              else [Statement.importNames (specifierNames t.children) path]).flatMap
              Statement.constructs = nodeConstructs t := by
            rw [nodeConstructs, hp]
            split
            · next hempty => simp [List.isEmpty_iff.mp hempty]
            · simp [Statement.constructs]
          have hlast := (ih pieces hrest hw.2.2).count_eq c
          have hmachine : (Node.importModule path).isMachine = false := rfl
          rw [rowConstructs_leaves (.inr rfl) hchildren, hexport, if_neg (by rw [hmachine]; decide)]
          simp only [List.flatMap_append, hnames, List.count_append, List.count_nil,
            Option.toList_none, Nat.add_zero] at hlast ⊢
          omega
      | machine m =>
          rw [hp] at hchildren
          have hfirst := (constructs_machineStatement hp hchildren hw.2.1 (pieces.headD [])).count_eq c
          have hlast := (ih pieces.tail hrest hw.2.2).count_eq c
          have htake : (pieces.take (ts.countP (·.payload.isMachine) + 1)).flatten =
              pieces.headD [] ++ (pieces.tail.take (ts.countP (·.payload.isMachine))).flatten := by
            cases pieces <;> simp
          have hmachine : (Node.machine m).isMachine = true := rfl
          rw [if_pos hmachine, htake, List.filterMap_append]
          simp only [List.flatMap_cons, List.count_append] at hfirst hlast ⊢
          omega
      | binding b =>
          rw [hp] at hchildren
          have hexport : exportConstruct t = none := by rw [exportConstruct, hp]
          have hown : nodeConstructs t = [] := by rw [nodeConstructs, hp]
          have hmachine : (Node.binding b).isMachine = false := rfl
          rw [eq_nil_of_allShaped (by simp [Node.kind]) hchildren, hexport, hown,
            if_neg (by rw [hmachine]; decide)]
          exact (ih pieces hrest hw.2.2).count_eq c
      | _ => simp [hp, Tree.mayHold, Node.kind] at hold

/-- **Nothing is missing**: after its first statement, a module has the items of the nodes of its
chart and of the bindings that its machines take, each as often as it is declared. -/
theorem constructs_statements {roots : List Tree} (usesAssign : Bool) (library : Library)
    (hshape : Tree.allShaped none roots = true)
    (hw : ∀ node ∈ Tree.payloads roots, node.isWritable = true) :
    ((statements usesAssign library roots).tail.flatMap Statement.constructs).Perm
      (expectedConstructs roots) := by
  have hpieces := flatten_take_piecesFrom roots []
  have htail : (statements usesAssign library roots).tail =
      rootStatements (piecesFrom [] roots) roots := by
    cases roots <;> rfl
  have hbindings : (if upToLastMachine roots = [] then [] else [] ++ contents (upToLastMachine roots)) =
      contents (upToLastMachine roots) := by
    split
    · next hnone => rw [hnone, contents_nil]
    · rfl
  rw [htail, expectedConstructs, ← hbindings, ← hpieces]
  exact constructs_rootStatements _ hshape hw

end Output

end Statechart
