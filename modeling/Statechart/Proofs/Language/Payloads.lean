import Statechart.Proofs.Language.Shape

/-!
# The nodes of a chart, without their order

Gathering the inner states of a state moves whole trees, and adds a machine for them.  So if
machines are left out, the nodes of a chart that was read are those that its declarations stand
for, each as often as it was written.

* `Item.payloads` — the nodes that a declaration stands for, machines aside.
* `Node.updates` — the node holds an update of the context.
* `Node.isWritable` — the expressions of the node can be written where they stand.

**`contained_itemTrees`** — the trees of a chart hold these nodes.  Hence the flag of a chart is set
exactly if one of its nodes holds an update (`any_updates_itemTrees`).
-/

namespace Statechart

/-! ## Nodes -/

/-- Whether an action of a transition or the value of a binding is an update of the context. -/
def Node.updates : Node → Bool
  | transition t => t.actions.any Reference.isAssign
  | binding b => b.value.isAssign
  | _ => false

/-- Whether the guards and the actions of a transition can be written there, and the value of a
binding is an identifier or an update. -/
def Node.isWritable : Node → Bool
  | transition t => t.guards.all Reference.isGuard && t.actions.all Reference.isAction
  | binding b =>
    match b.value with
    | .identifier _ => true
    | .assign _ => true
    | _ => false
  | _ => true

namespace Tree

/-- What the nodes of some trees hold. -/
def payloads (ts : List Tree) : List Node := (allEntries ts).map Prod.snd

@[simp] lemma payloads_nil : payloads [] = [] := by simp [payloads]

@[simp] lemma payloads_cons (t : Tree) (ts : List Tree) :
    payloads (t :: ts) = t.payload :: payloads t.children ++ payloads ts := by
  simp [payloads]

/-- Something holds of all nodes of a row. -/
lemma forall_payloads_cons {P : Node → Prop} {t : Tree} {ts : List Tree} :
    (∀ node ∈ payloads (t :: ts), P node) ↔
      P t.payload ∧ (∀ node ∈ payloads t.children, P node) ∧ ∀ node ∈ payloads ts, P node := by
  rw [payloads_cons, List.cons_append, List.forall_mem_cons, List.forall_mem_append]

lemma payload_mem_payloads {t : Tree} {ts : List Tree} (h : t ∈ ts) : t.payload ∈ payloads ts :=
  List.mem_map_of_mem (mem_allEntries h)

/-- The nodes below a tree of a row are among those of the row. -/
lemma payloads_children {t : Tree} {ts : List Tree} (h : t ∈ ts) :
    payloads t.children ⊆ payloads ts := by
  induction ts with
  | nil => cases h
  | cons u ts ih =>
      rw [payloads_cons, List.cons_append]
      refine List.subset_cons_of_subset _ ?_
      rcases List.mem_cons.mp h with rfl | h
      · exact List.subset_append_left _ _
      · exact List.subset_append_of_subset_right _ (ih h)

lemma payloads_eq_flatMap (ts : List Tree) : payloads ts = ts.flatMap fun t => payloads [t] := by
  induction ts with
  | nil => simp
  | cons t ts ih => simp [ih]

lemma payloads_append (ts us : List Tree) : payloads (ts ++ us) = payloads ts ++ payloads us := by
  rw [payloads_eq_flatMap, List.flatMap_append, ← payloads_eq_flatMap, ← payloads_eq_flatMap]

/-- What the nodes of some trees hold, machines aside. -/
def contained (ts : List Tree) : List Node := (payloads ts).filter (!·.isMachine)

@[simp] lemma contained_nil : contained [] = [] := by simp [contained]

lemma contained_cons (t : Tree) (ts : List Tree) :
    contained (t :: ts) =
      (if t.payload.isMachine then [] else [t.payload]) ++ contained t.children ++ contained ts := by
  cases h : t.payload.isMachine <;> simp [contained, h]

lemma contained_eq_flatMap (ts : List Tree) :
    contained ts = ts.flatMap fun t => contained [t] := by
  rw [contained, payloads_eq_flatMap, List.filter_flatMap]
  rfl

/-- It does not matter in which order trees stand. -/
lemma contained_perm {ts us : List Tree} (h : ts.Perm us) : (contained ts).Perm (contained us) := by
  rw [contained_eq_flatMap ts, contained_eq_flatMap us]
  exact h.flatMap_right _

end Tree

namespace Language

open Statechart.Tree

/-! ## Declarations -/

mutual

/-- The nodes that a state stands for. -/
def StateDecl.payloads : StateDecl → List Node
  | .mk head body _ => .state head.state :: bodyPayloads body

/-- The nodes that a clause stands for. -/
def Clause.payloads : Clause → List Node
  | .binding d => [.binding d.binding]
  | .invoke d => .invoke d.service :: d.transitions.map fun t => .transition t.transition
  | .transition d => [.transition d.transition]
  | .state d => d.payloads

/-- The nodes that some clauses stand for. -/
def bodyPayloads : List Clause → List Node
  | [] => []
  | c :: rest => c.payloads ++ bodyPayloads rest

end

/-- The nodes that a clause of a machine stands for. -/
def MachineClause.payloads : MachineClause → List Node
  | .binding d => [.binding d.binding]
  | .state d => d.payloads

/-- The nodes that a declaration of the top level stands for, the machine aside if it is one. -/
def Item.payloads : Item → List Node
  | .importDecl d => .importModule d.path :: d.specifiers.map fun s => .specifier s.value none
  | .binding d => [.binding d.binding]
  | .machine d => d.body.flatMap MachineClause.payloads

/-! ## Trees of declarations -/

lemma contained_leaf {n : NodeId} {payload : Node} (h : payload.isMachine = false) :
    contained [leaf n payload] = [payload] := by
  simp [contained_cons, leaf, h]

/-- A row of leaves holds one node for each. -/
lemma contained_leaves {α : Type} {payload : α → Node} (h : ∀ a, (payload a).isMachine = false)
    (as : List α) (n : NodeId) :
    contained (numbered (fun n a => leaf n (payload a)) n as) = as.map payload := by
  induction as generalizing n with
  | nil => simp [numbered]
  | cons a as ih =>
      rw [numbered, contained_eq_flatMap, List.flatMap_cons, contained_leaf (h a),
        ← contained_eq_flatMap, ih, List.map_cons]
      rfl

/-- Trees that are numbered one after the other hold what each of them holds. -/
lemma contained_numbered {α : Type} {tree : NodeId → α → Tree} {payloads : α → List Node}
    (h : ∀ n a, (contained [tree n a]).Perm (payloads a)) (as : List α) (n : NodeId) :
    (contained (numbered tree n as)).Perm (as.flatMap payloads) := by
  induction as generalizing n with
  | nil => simp [numbered]
  | cons a as ih =>
      rw [numbered, contained_eq_flatMap, List.flatMap_cons, ← contained_eq_flatMap,
        List.flatMap_cons]
      exact (h n a).append (ih _)

mutual

lemma StateDecl.contained_tree : ∀ (d : StateDecl) (n : NodeId),
    (contained [d.tree n]).Perm d.payloads
  | .mk head body _, n => by
      rw [StateDecl.tree, StateDecl.payloads, contained_cons]
      simpa [Node.isMachine, Node.kind] using contained_clauseTrees body (n + 1)

/-- The tree of a clause holds the nodes that the clause stands for. -/
lemma Clause.contained_tree : ∀ (c : Clause) (n : NodeId), (contained [c.tree n]).Perm c.payloads
  | .binding d, n => by
      rw [Clause.tree, Clause.payloads, contained_leaf (by rfl)]
  | .invoke d, n => by
      rw [Clause.tree, Clause.payloads, InvokeDecl.tree, contained_cons]
      simp [Node.isMachine, Node.kind, contained_leaves]
  | .transition d, n => by
      rw [Clause.tree, Clause.payloads, contained_leaf (by rfl)]
  | .state d, n => by
      rw [Clause.tree, Clause.payloads]
      exact d.contained_tree n

/-- Gathering moves trees, and the machine that it adds is not counted. -/
lemma contained_clauseTrees : ∀ (body : List Clause) (n : NodeId),
    (contained (clauseTrees n body)).Perm (bodyPayloads body)
  | [], n => by rw [clauseTrees, bodyPayloads, contained_nil]
  | c :: rest, n => by
      rw [bodyPayloads]
      cases hc : c.state? with
      | none =>
          rw [clauseTrees_cons n hc, contained_eq_flatMap, List.flatMap_cons,
            ← contained_eq_flatMap]
          exact (c.contained_tree n).append (contained_clauseTrees rest _)
      | some d =>
          -- the states below the machine and the trees after it are the row, in another order
          have hparts := contained_perm
            (List.filter_append_perm isState (rowTrees (n + 1) (c :: rest)))
          have hmachine : ∀ m : Machine, (Node.machine m).isMachine = true := fun _ => rfl
          rw [contained_eq_flatMap, List.flatMap_append, ← contained_eq_flatMap,
            ← contained_eq_flatMap, rowTrees] at hparts
          rw [clauseTrees_gathered n (by rw [hc]; rfl), contained_cons, payload_node, hmachine,
            if_pos rfl, List.nil_append, children_node, rowTrees]
          refine hparts.trans ?_
          rw [contained_eq_flatMap, List.flatMap_cons, ← contained_eq_flatMap]
          exact (c.contained_tree (n + 1)).append (contained_rowTrees rest _)

/-- The trees of a plain row hold the nodes of its clauses. -/
lemma contained_rowTrees : ∀ (body : List Clause) (n : NodeId),
    (contained (rowTrees n body)).Perm (bodyPayloads body)
  | [], n => by rw [rowTrees, bodyPayloads, contained_nil]
  | c :: rest, n => by
      rw [rowTrees, bodyPayloads, contained_eq_flatMap, List.flatMap_cons, ← contained_eq_flatMap]
      exact (c.contained_tree n).append (contained_rowTrees rest _)

end

/-- The tree of a declaration holds the nodes that the declaration stands for. -/
lemma Item.contained_tree (n : NodeId) (item : Item) :
    (contained [item.tree n]).Perm item.payloads := by
  cases item with
  | importDecl d =>
      rw [Item.tree, Item.payloads, ImportDecl.tree, contained_cons]
      simp [Node.isMachine, Node.kind, contained_leaves]
  | binding d => rw [Item.tree, Item.payloads, contained_leaf (by rfl)]
  | machine d =>
      have hclauses : ∀ n (c : MachineClause), (contained [c.tree n]).Perm c.payloads := by
        intro n c
        cases c with
        | binding d => rw [MachineClause.tree, MachineClause.payloads, contained_leaf (by rfl)]
        | state d => exact d.contained_tree n
      rw [Item.tree, Item.payloads, MachineDecl.tree, contained_cons]
      simpa [Node.isMachine, Node.kind] using contained_numbered hclauses d.body (n + 1)

/-- **The nodes of a chart are those of its declarations**, machines aside. -/
lemma contained_itemTrees (items : List Item) :
    (contained (itemTrees items)).Perm (items.flatMap Item.payloads) :=
  contained_numbered Item.contained_tree items 0

/-! ## Updates -/

lemma BindingDecl.updates_binding (d : BindingDecl) :
    (Node.binding d.binding).updates = d.value.updates := by
  rcases d with ⟨_, _, _, _ | _, _⟩ <;> rfl

/-- A transition holds an update exactly if one of its steps is one. -/
lemma TransitionDecl.updates_transition (d : TransitionDecl) :
    (Node.transition d.transition).updates = d.updates := by
  rw [Node.updates, TransitionDecl.transition, TransitionDecl.updates, List.any_filterMap]
  congr 1
  funext step
  rcases step with _ | (_ | _) | _ <;> rfl

mutual

lemma StateDecl.any_payloads : ∀ d : StateDecl, d.payloads.any Node.updates = d.updates
  | .mk head body _ => by
      rw [StateDecl.payloads, StateDecl.updates, List.any_cons, any_bodyPayloads body]
      rfl

/-- A clause updates the context exactly if one of its nodes does. -/
lemma Clause.any_payloads : ∀ c : Clause, c.payloads.any Node.updates = c.updates
  | .binding d => by
      rw [Clause.payloads, Clause.updates, ← d.updates_binding]
      simp
  | .invoke d => by
      have hinvoke : (Node.invoke d.service).updates = false := rfl
      rw [Clause.payloads, Clause.updates, List.any_cons, List.any_map, hinvoke, Bool.false_or]
      exact congrArg _ (funext TransitionDecl.updates_transition)
  | .transition d => by
      rw [Clause.payloads, Clause.updates, ← d.updates_transition]
      simp
  | .state d => by
      rw [Clause.payloads, Clause.updates]
      exact d.any_payloads

lemma any_bodyPayloads : ∀ body : List Clause,
    (bodyPayloads body).any Node.updates = anyUpdates body
  | [] => by rw [bodyPayloads, anyUpdates, List.any_nil]
  | c :: rest => by
      rw [bodyPayloads, anyUpdates, List.any_append, c.any_payloads, any_bodyPayloads rest]

end

/-- The same for a declaration. -/
lemma Item.any_payloads (item : Item) : item.payloads.any Node.updates = item.updates := by
  cases item with
  | importDecl d => simp [Item.payloads, Item.updates, Node.updates]
  | binding d =>
      rw [Item.payloads, Item.updates, ← d.updates_binding]
      simp
  | machine d =>
      rw [Item.payloads, Item.updates, List.any_flatMap]
      congr 1
      funext c
      cases c with
      | binding d =>
          rw [MachineClause.payloads, MachineClause.updates, ← d.updates_binding]
          simp
      | state d => exact d.any_payloads

/-- **There is an update in a chart exactly if one of its nodes holds one.** -/
lemma any_updates_itemTrees (items : List Item) :
    (∃ node ∈ payloads (itemTrees items), node.updates = true) ↔
      items.any Item.updates = true := by
  have hcontained : (∃ node ∈ payloads (itemTrees items), node.updates = true) ↔
      ∃ node ∈ contained (itemTrees items), node.updates = true := by
    refine exists_congr fun node => ?_
    rw [contained, List.mem_filter]
    cases node <;> simp [Node.updates, Node.isMachine, Node.kind]
  rw [hcontained, List.any_eq_true]
  simp only [(contained_itemTrees items).mem_iff, List.mem_flatMap]
  constructor
  · rintro ⟨node, ⟨item, hitem, hnode⟩, hupdates⟩
    refine ⟨item, hitem, ?_⟩
    rw [← item.any_payloads]
    exact List.any_eq_true.mpr ⟨node, hnode, hupdates⟩
  · rintro ⟨item, hitem, hupdates⟩
    rw [← item.any_payloads] at hupdates
    obtain ⟨node, hnode, hupdates⟩ := List.any_eq_true.mp hupdates
    exact ⟨node, ⟨item, hitem, hnode⟩, hupdates⟩

/-! ## Expressions -/

lemma BindingDecl.isWritable_binding (d : BindingDecl) :
    (Node.binding d.binding).isWritable = true := by
  rcases d with ⟨_, _, _, _ | _, _⟩ <;> rfl

lemma TransitionDecl.isWritable_transition (d : TransitionDecl) :
    (Node.transition d.transition).isWritable = true := by
  rw [Node.isWritable, Bool.and_eq_true, List.all_eq_true, List.all_eq_true]
  exact d.references

mutual

lemma StateDecl.all_isWritable : ∀ d : StateDecl, d.payloads.all Node.isWritable = true
  | .mk head body _ => by
      rw [StateDecl.payloads, List.all_cons, all_isWritable body]
      rfl

/-- All nodes of a clause have expressions that can be written. -/
lemma Clause.all_isWritable : ∀ c : Clause, c.payloads.all Node.isWritable = true
  | .binding d => by
      rw [Clause.payloads, List.all_cons, d.isWritable_binding]
      rfl
  | .invoke d => by
      rw [Clause.payloads, List.all_cons, List.all_map, Bool.and_eq_true]
      exact ⟨rfl, List.all_eq_true.mpr fun t _ => t.isWritable_transition⟩
  | .transition d => by
      rw [Clause.payloads, List.all_cons, d.isWritable_transition]
      rfl
  | .state d => by
      rw [Clause.payloads]
      exact d.all_isWritable

lemma all_isWritable : ∀ body : List Clause, (bodyPayloads body).all Node.isWritable = true
  | [] => by rw [bodyPayloads, List.all_nil]
  | c :: rest => by
      rw [bodyPayloads, List.all_append, c.all_isWritable, all_isWritable rest]
      rfl

end

/-- The same for a declaration. -/
lemma Item.all_isWritable (item : Item) : item.payloads.all Node.isWritable = true := by
  cases item with
  | importDecl d => simp [Item.payloads, Node.isWritable]
  | binding d => simp [Item.payloads, d.isWritable_binding]
  | machine d =>
      rw [Item.payloads, List.all_flatMap, List.all_eq_true]
      intro c _
      cases c with
      | binding d => simp [MachineClause.payloads, d.isWritable_binding]
      | state d => exact d.all_isWritable

/-- **All expressions of a chart can be written where they stand.** -/
lemma isWritable_itemTrees (items : List Item) :
    ∀ node ∈ payloads (itemTrees items), node.isWritable = true := by
  intro node hnode
  by_cases hmachine : node.isMachine = true
  · cases node with
    | machine m => rfl
    | _ => cases hmachine
  · have hmem : node ∈ contained (itemTrees items) :=
      List.mem_filter.mpr ⟨hnode, by simpa using hmachine⟩
    obtain ⟨item, -, hitem⟩ :=
      List.mem_flatMap.mp ((contained_itemTrees items).mem_iff.mp hmem)
    exact List.all_eq_true.mp item.all_isWritable node hitem

end Language

end Statechart
