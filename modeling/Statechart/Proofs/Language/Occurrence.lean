import Statechart.Proofs.Language.Payloads

/-!
# What stands somewhere in a chart

Clauses stand in the bodies of states, and states stand in such bodies again.

* `InBody` — one body is another, or stands somewhere inside it.
* `StateBody` — the bodies of all states of a chart.
* `Clause.nodes` — the nodes of a clause without what is nested in a state.
* `Clause.transitions` — the transitions of a clause: itself, or the answers of an invocation.

**`mem_itemPayloads`** — each node of a chart is that of a declaration that stands somewhere in it.
So what holds of all bodies of a chart holds of its nodes.
-/

namespace Statechart.Language

/-! ## Bodies -/

/-- A body is another one, or stands inside it. -/
inductive InBody : List Clause → List Clause → Prop
  | self (body : List Clause) : InBody body body
  | state {d : StateDecl} {body inner : List Clause} :
      .state d ∈ body → InBody d.body inner → InBody body inner

/-- The body of a state of a chart. -/
def StateBody (items : List Item) (body : List Clause) : Prop :=
  ∃ m d, .machine m ∈ items ∧ .state d ∈ m.body ∧ InBody d.body body

/-- The nodes of a clause, without what is nested in a state. -/
def Clause.nodes : Clause → List Node
  | binding d => [.binding d.binding]
  | invoke d => .invoke d.service :: d.transitions.map fun t => .transition t.transition
  | transition d => [.transition d.transition]
  | state d => [.state d.head.state]

/-- The transitions of a clause, without those that are nested in a state. -/
def Clause.transitions : Clause → List TransitionDecl
  | invoke d => d.transitions
  | transition d => [d]
  | _ => []

/-- The transitions of a body, without those of inner states. -/
def transitionsOf (body : List Clause) : List TransitionDecl := body.flatMap Clause.transitions

/-- A transition of a clause comes from a declaration. -/
lemma Clause.transition_mem {c : Clause} {t : Transition} (h : .transition t ∈ c.nodes) :
    ∃ d ∈ c.transitions, d.transition = t := by
  cases c with
  | transition d =>
      refine ⟨d, List.mem_singleton_self d, ?_⟩
      exact (Node.transition.inj (List.mem_singleton.mp h)).symm
  | invoke d =>
      rcases List.mem_cons.mp h with h | h
      · cases h
      · obtain ⟨t', ht', heq⟩ := List.mem_map.mp h
        exact ⟨t', ht', Node.transition.inj heq⟩
  | binding d => cases List.mem_singleton.mp h
  | state d => cases List.mem_singleton.mp h

/-! ## Nodes -/

mutual

/-- A node of a state is its own, or that of a clause somewhere inside. -/
lemma StateDecl.mem_payloads : ∀ (d : StateDecl) {node : Node}, node ∈ d.payloads →
    node = .state d.head.state ∨ ∃ inner c, InBody d.body inner ∧ c ∈ inner ∧ node ∈ c.nodes
  | .mk head body span, node, h => by
      rw [StateDecl.payloads] at h
      rcases List.mem_cons.mp h with h | h
      · exact .inl h
      · exact .inr (mem_bodyPayloads body h)

/-- A node of a clause is its own, or that of a clause somewhere inside of a state. -/
lemma Clause.mem_payloads : ∀ (c : Clause) {node : Node}, node ∈ c.payloads →
    node ∈ c.nodes ∨ ∃ d inner c', c = .state d ∧ InBody d.body inner ∧ c' ∈ inner ∧
      node ∈ c'.nodes
  | .binding d, node, h => by rw [Clause.payloads] at h; exact .inl h
  | .invoke d, node, h => by rw [Clause.payloads] at h; exact .inl h
  | .transition d, node, h => by rw [Clause.payloads] at h; exact .inl h
  | .state d, node, h => by
      rw [Clause.payloads] at h
      rcases d.mem_payloads h with rfl | ⟨inner, c', hinner, hc', hnode⟩
      · exact .inl (List.mem_singleton_self _)
      · exact .inr ⟨d, inner, c', rfl, hinner, hc', hnode⟩

/-- A node of a body is that of a clause somewhere in it. -/
lemma mem_bodyPayloads : ∀ (body : List Clause) {node : Node}, node ∈ bodyPayloads body →
    ∃ inner c, InBody body inner ∧ c ∈ inner ∧ node ∈ c.nodes
  | [], node, h => by rw [bodyPayloads] at h; cases h
  | c :: rest, node, h => by
      rw [bodyPayloads] at h
      rcases List.mem_append.mp h with h | h
      · rcases c.mem_payloads h with hnode | ⟨d, inner, c', rfl, hinner, hc', hnode⟩
        · exact ⟨c :: rest, c, .self _, List.mem_cons_self, hnode⟩
        · exact ⟨inner, c', .state List.mem_cons_self hinner, hc', hnode⟩
      · obtain ⟨inner, c', hinner, hc', hnode⟩ := mem_bodyPayloads rest h
        cases hinner with
        | self => exact ⟨c :: rest, c', .self _, List.mem_cons_of_mem _ hc', hnode⟩
        | state hd hinner =>
            exact ⟨inner, c', .state (List.mem_cons_of_mem _ hd) hinner, hc', hnode⟩

end

/-- A node that stands in the body of a machine. -/
lemma MachineClause.mem_payloads {c : MachineClause} {node : Node} (h : node ∈ c.payloads) :
    (∃ d, c = .binding d ∧ node = .binding d.binding) ∨
      ∃ d, c = .state d ∧ (node = .state d.head.state ∨
        ∃ inner c', InBody d.body inner ∧ c' ∈ inner ∧ node ∈ c'.nodes) := by
  cases c with
  | binding d => exact .inl ⟨d, rfl, List.mem_singleton.mp h⟩
  | state d => exact .inr ⟨d, rfl, d.mem_payloads h⟩

/-- **Where the nodes of a chart come from.**  Machines aside, a node belongs to an import, is a
binding of the top level or of a machine, is a state of a machine, or stands in the body of a
state. -/
lemma mem_itemPayloads {items : List Item} {node : Node}
    (h : node ∈ items.flatMap Item.payloads) :
    (∃ d, .importDecl d ∈ items ∧ node ∈ Item.payloads (.importDecl d)) ∨
    (∃ d, .binding d ∈ items ∧ node = .binding d.binding) ∨
    (∃ m d, .machine m ∈ items ∧ .binding d ∈ m.body ∧ node = .binding d.binding) ∨
    (∃ m d, .machine m ∈ items ∧ .state d ∈ m.body ∧ node = .state d.head.state) ∨
    ∃ body c, StateBody items body ∧ c ∈ body ∧ node ∈ c.nodes := by
  obtain ⟨item, hitem, hnode⟩ := List.mem_flatMap.mp h
  cases item with
  | importDecl d => exact .inl ⟨d, hitem, hnode⟩
  | binding d => exact .inr (.inl ⟨d, hitem, List.mem_singleton.mp hnode⟩)
  | machine m =>
      obtain ⟨c, hc, hnode⟩ := List.mem_flatMap.mp hnode
      rcases MachineClause.mem_payloads hnode with
        ⟨d, rfl, rfl⟩ | ⟨d, rfl, rfl | ⟨inner, c', hinner, hc', hnode⟩⟩
      · exact .inr (.inr (.inl ⟨m, d, hitem, hc, rfl⟩))
      · exact .inr (.inr (.inr (.inl ⟨m, d, hitem, hc, rfl⟩)))
      · exact .inr (.inr (.inr (.inr ⟨inner, c', ⟨m, d, hitem, hc, hinner⟩, hc', hnode⟩)))

/-! ## Validity -/

/-- The parts of a body in which all is well. -/
lemma allValid_iff {body : List Clause} :
    allValid body = true ↔ ∀ c ∈ body, c.valid = true := by
  induction body with
  | nil => simp [allValid]
  | cons c rest ih => rw [allValid, Bool.and_eq_true, ih, List.forall_mem_cons]

lemma StateDecl.valid_iff {d : StateDecl} :
    d.valid = true ↔ distinct (innerHeads d.body) = true ∧ allValid d.body = true := by
  cases d with
  | mk head body span => rw [StateDecl.valid, Bool.and_eq_true]; rfl

/-- Inside a body in which all is well, all is well. -/
lemma InBody.valid {body inner : List Clause} (h : InBody body inner)
    (hvalid : allValid body = true) : allValid inner = true := by
  induction h with
  | self => exact hvalid
  | @state d body inner hd _ ih =>
      have hstate := allValid_iff.mp hvalid _ hd
      rw [Clause.valid] at hstate
      exact ih (StateDecl.valid_iff.mp hstate).2

/-- The bodies of the states of a valid chart. -/
lemma StateBody.valid {items : List Item} {body : List Clause} (h : StateBody items body)
    (hvalid : items.all Item.valid = true) : allValid body = true := by
  obtain ⟨m, d, hm, hd, hbody⟩ := h
  have hmachine := List.all_eq_true.mp hvalid _ hm
  rw [Item.valid, Bool.and_eq_true, List.all_eq_true] at hmachine
  have hstate : d.valid = true := hmachine.2 _ hd
  exact hbody.valid (StateDecl.valid_iff.mp hstate).2

/-- The transitions of a body in which all is well. -/
lemma valid_of_mem_transitionsOf {body : List Clause} (hvalid : allValid body = true)
    {t : TransitionDecl} (ht : t ∈ transitionsOf body) : t.valid = true := by
  obtain ⟨c, hc, ht⟩ := List.mem_flatMap.mp ht
  have hclause := allValid_iff.mp hvalid c hc
  cases c with
  | transition d =>
      rw [Clause.valid] at hclause
      exact List.mem_singleton.mp ht ▸ hclause
  | invoke d =>
      rw [Clause.valid] at hclause
      exact List.all_eq_true.mp hclause t ht
  | binding d => cases ht
  | state d => cases ht

end Statechart.Language
