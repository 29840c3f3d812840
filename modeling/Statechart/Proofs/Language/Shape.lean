import Statechart.Proofs.Language.Assembly

/-!
# The shape of a chart that was read

A forest says nothing about the text that it was read from.  Here the two are compared: which
tree stands for which declaration, and in which order.

* `Gathers` — what hangs below a state, given the trees of its clauses as they were written: the
  inner states, if there are any, are gathered below one machine at the place of the first.
* `StateDecl.Stands`, `Clause.Stands`, `Item.Stands` — a tree stands for a declaration.  The
  numbers of the nodes play no part in this.
* `Tree.Orderly` — what holds at each single node: its children were added in the order in which
  they hang below it, the states of a machine have different names, a state holds one machine at
  most, and the guards and actions of a transition are of the kinds that can be written there.
* **`read_shape`** — every chart that is read has all of this, and no node stands outside.
-/

namespace Statechart

/-! ## Nodes -/

namespace Reference

/-- Whether the reference is one that can be written as a guard. -/
def isGuard : Reference → Bool
  | named _ => true
  | inline (.guard _) => true
  | _ => false

/-- Whether the reference is one that can be written as an action. -/
def isAction : Reference → Bool
  | named _ => true
  | inline (.action _) => true
  | inline (.assign _) => true
  | _ => false

end Reference

namespace Tree

/-- The name of the topmost node, if it is a state. -/
def stateName? (t : Tree) : Option String :=
  match t.payload with
  | .state s => some s.name
  | _ => none

/-- The names of the states of a row. -/
def stateNames (ts : List Tree) : List String := ts.filterMap stateName?

/-- The names are those of the states alone. -/
lemma stateNames_filter (ts : List Tree) : stateNames (ts.filter isState) = stateNames ts := by
  rw [stateNames, stateNames, List.filterMap_filter]
  refine List.filterMap_congr fun t _ => ?_
  cases hp : t.payload <;> simp [isState, stateName?, Node.isState, Node.kind, hp]

/-- The nodes of a row were added one after the other. -/
def Ascending (ts : List Tree) : Prop := (ts.map id).Pairwise (· < ·)

lemma Ascending.filter {ts : List Tree} (h : Ascending ts) (p : Tree → Bool) :
    Ascending (ts.filter p) :=
  List.Pairwise.sublist (List.Sublist.map _ List.filter_sublist) h

/-- What holds at every node of a chart that was read. -/
structure Orderly (t : Tree) : Prop where
  ascending : Ascending t.children
  names : t.payload.isMachine = true → (stateNames t.children).Nodup
  machines : t.isState = true → t.children.countP (·.payload.isMachine) ≤ 1
  references : ∀ d, t.payload = .transition d →
    (∀ r ∈ d.guards, r.isGuard = true) ∧ ∀ r ∈ d.actions, r.isAction = true

/-- A node of one of the other kinds is orderly if its row is. -/
lemma orderly_of_ascending {t : Tree} (h : Ascending t.children)
    (hmachine : t.payload.kind ≠ .machine) (hstate : t.payload.kind ≠ .state)
    (htransition : t.payload.kind ≠ .transition) : t.Orderly where
  ascending := h
  names := fun hm => absurd (of_decide_eq_true hm) hmachine
  machines := fun hs => absurd (of_decide_eq_true hs) hstate
  references := fun d hd => absurd (by rw [hd]; rfl) htransition

/-- A machine is orderly if its row is and no name occurs twice in it. -/
lemma orderly_machine {id : NodeId} {m : Machine} {ts : List Tree} (h : Ascending ts)
    (hnames : (stateNames ts).Nodup) : (node id (.machine m) ts).Orderly where
  ascending := h
  names := fun _ => hnames
  machines := nofun
  references := nofun

/-- A state is orderly if its row is and holds one machine at most. -/
lemma orderly_state {id : NodeId} {s : State} {ts : List Tree} (h : Ascending ts)
    (hmachines : ts.countP (·.payload.isMachine) ≤ 1) : (node id (.state s) ts).Orderly where
  ascending := h
  names := nofun
  machines := fun _ => hmachines
  references := nofun

end Tree

namespace Language

open Statechart.Tree

/-! ## Trees that stand for declarations -/

/-- There is one leaf for each thing in a list, in order, with the given payload. -/
def Leaves {α : Type} (payload : α → Node) : List α → List Tree → Prop :=
  List.Forall₂ fun a t => t.payload = payload a ∧ t.children = []

/-- What hangs below a state whose clauses have the trees `row`, as they were written, and whose
inner states have the given heads. -/
inductive Gathers (heads : List StateHead) : List Tree → List Tree → Prop where
  /-- Without inner states there is no machine. -/
  | flat {row : List Tree} (none : ∀ t ∈ row, t.isState = false) : Gathers heads row row
  /-- One machine without a name stands at the place of the first inner state, and holds all of
  them. -/
  | nested {before after : List Tree} {first : Tree} {id : NodeId}
      (none : ∀ t ∈ before, t.isState = false) (some : first.isState = true) :
      Gathers heads (before ++ first :: after)
        (before ++ .node id (.machine ⟨Option.none, firstInitial heads, false⟩)
          ((first :: after).filter isState) :: after.filter (!isState ·))

mutual

/-- A tree stands for a state. -/
inductive StateDecl.Stands : StateDecl → Tree → Prop where
  | intro {head : StateHead} {body : List Clause} {span : Span} {id : NodeId}
      {row below : List Tree} (clauses : List.Forall₂ Clause.Stands body row)
      (gathers : Gathers (innerHeads body) row below) :
      StateDecl.Stands (.mk head body span) (.node id (.state head.state) below)

/-- A tree stands for a clause of a state. -/
inductive Clause.Stands : Clause → Tree → Prop where
  | binding {d : BindingDecl} {id : NodeId} :
      Clause.Stands (.binding d) (leaf id (.binding d.binding))
  | invoke {d : InvokeDecl} {id : NodeId} {row : List Tree}
      (transitions : Leaves (fun d => .transition (TransitionDecl.transition d)) d.transitions row) :
      Clause.Stands (.invoke d) (.node id (.invoke d.service) row)
  | transition {d : TransitionDecl} {id : NodeId} :
      Clause.Stands (.transition d) (leaf id (.transition d.transition))
  | state {d : StateDecl} {t : Tree} (state : StateDecl.Stands d t) : Clause.Stands (.state d) t

end

/-- A tree stands for a clause of a machine. -/
inductive MachineClause.Stands : MachineClause → Tree → Prop where
  | binding {d : BindingDecl} {id : NodeId} :
      MachineClause.Stands (.binding d) (leaf id (.binding d.binding))
  | state {d : StateDecl} {t : Tree} (state : d.Stands t) : MachineClause.Stands (.state d) t

/-- A tree stands for a declaration of the top level. -/
inductive Item.Stands : Item → Tree → Prop where
  | importDecl {d : ImportDecl} {id : NodeId} {row : List Tree}
      (specifiers : Leaves (fun s => .specifier (Located.value s) none) d.specifiers row) :
      Item.Stands (.importDecl d) (.node id (.importModule d.path) row)
  | binding {d : BindingDecl} {id : NodeId} :
      Item.Stands (.binding d) (leaf id (.binding d.binding))
  | machine {d : MachineDecl} {id : NodeId} {row : List Tree}
      (clauses : List.Forall₂ MachineClause.Stands d.body row) :
      Item.Stands (.machine d)
        (.node id (.machine ⟨d.name, firstInitial (stateHeads d.body), false⟩) row)

lemma forall₂_numbered {α : Type} {R : α → Tree → Prop} {tree : NodeId → α → Tree}
    (h : ∀ n a, R a (tree n a)) : ∀ (as : List α) (n : NodeId),
    List.Forall₂ R as (numbered tree n as)
  | [], _ => .nil
  | a :: as, n => .cons (h n a) (forall₂_numbered h as _)

/-- A clause that is not a state leaves what is gathered after it as it is. -/
lemma Gathers.cons {heads : List StateHead} {row below : List Tree} {t : Tree}
    (ht : t.isState = false) (h : Gathers heads row below) :
    Gathers heads (t :: row) (t :: below) := by
  cases h with
  | flat hnone => exact .flat (List.forall_mem_cons.mpr ⟨ht, hnone⟩)
  | nested hnone hsome => exact .nested (List.forall_mem_cons.mpr ⟨ht, hnone⟩) hsome

mutual

lemma StateDecl.stands_tree : ∀ (d : StateDecl) (n : NodeId), d.Stands (d.tree n)
  | .mk head body _, n => by
      obtain ⟨row, hrow, hgathers⟩ := stands_clauseTrees body (n + 1)
      rw [StateDecl.tree]
      exact .intro hrow hgathers

/-- The tree of a clause stands for it. -/
lemma Clause.stands_tree : ∀ (c : Clause) (n : NodeId), c.Stands (c.tree n)
  | .binding d, n => by rw [Clause.tree]; exact .binding
  | .invoke d, n => by
      rw [Clause.tree]
      exact .invoke (forall₂_numbered (fun _ _ => ⟨rfl, rfl⟩) _ _)
  | .transition d, n => by rw [Clause.tree]; exact .transition
  | .state d, n => by rw [Clause.tree]; exact .state (d.stands_tree n)

/-- What hangs below a state are the trees of its clauses, gathered. -/
lemma stands_clauseTrees : ∀ (body : List Clause) (n : NodeId),
    ∃ row, List.Forall₂ Clause.Stands body row ∧ Gathers (innerHeads body) row (clauseTrees n body)
  | [], n => ⟨[], .nil, by rw [clauseTrees]; exact .flat (by simp)⟩
  | c :: rest, n => by
      cases hc : c.state? with
      | none =>
          -- in front of the first inner state the row and what hangs below grow together
          obtain ⟨row, hrow, hgathers⟩ := stands_clauseTrees rest (n + (c.tree n).size)
          have hstate : (c.tree n).isState = false := by rw [c.isState_tree, hc]; rfl
          rw [clauseTrees_cons n hc, innerHeads_cons_of_none hc]
          exact ⟨_, .cons (c.stands_tree n) hrow, hgathers.cons hstate⟩
      | some d =>
          have hrow := stands_rowTrees rest (n + 1 + (c.tree (n + 1)).size)
          have hstate : (c.tree (n + 1)).isState = true := by rw [c.isState_tree, hc]; rfl
          refine ⟨_, .cons (c.stands_tree (n + 1)) hrow, ?_⟩
          have hnested := @Gathers.nested (innerHeads (c :: rest)) []
            (rowTrees (n + 1 + (c.tree (n + 1)).size) rest) (c.tree (n + 1)) n (by simp) hstate
          simpa [clauseTrees, hc, hstate] using hnested

/-- In a plain row there is one tree for each clause. -/
lemma stands_rowTrees : ∀ (body : List Clause) (n : NodeId),
    List.Forall₂ Clause.Stands body (rowTrees n body)
  | [], n => by rw [rowTrees]; exact .nil
  | c :: rest, n => by
      rw [rowTrees]
      exact .cons (c.stands_tree n) (stands_rowTrees rest _)

end

/-- **The tree of a declaration stands for it.** -/
lemma Item.stands_tree (item : Item) (n : NodeId) : item.Stands (item.tree n) := by
  cases item with
  | importDecl d => exact .importDecl (forall₂_numbered (fun _ _ => ⟨rfl, rfl⟩) _ _)
  | binding d => exact .binding
  | machine d =>
      refine .machine (forall₂_numbered (fun n c => ?_) _ _)
      cases c with
      | binding b => exact .binding
      | state s => exact .state (s.stands_tree n)

/-! ## Order -/

/-- A row whose first number is the least. -/
lemma ascending_cons {n : NodeId} {t : Tree} {ts : List Tree} (ht : t.id = n) (hrow : Ascending ts)
    (hlt : ∀ u ∈ ts, n < u.id) : Ascending (t :: ts) ∧ ∀ u ∈ t :: ts, n ≤ u.id := by
  refine ⟨List.pairwise_cons.mpr ⟨?_, hrow⟩, List.forall_mem_cons.mpr ⟨Nat.le_of_eq ht.symm, ?_⟩⟩
  · rw [ht]
    exact List.forall_mem_map.mpr hlt
  · exact fun u hu => Nat.le_of_lt (hlt u hu)

/-- Trees that are numbered one after the other stand in the order of their numbers. -/
lemma ascending_numbered {α : Type} {tree : NodeId → α → Tree} (h : ∀ n a, (tree n a).id = n) :
    ∀ (as : List α) (n : NodeId),
      Ascending (numbered tree n as) ∧ ∀ t ∈ numbered tree n as, n ≤ t.id
  | [], _ => ⟨.nil, by simp [numbered]⟩
  | a :: as, n => by
      obtain ⟨hrow, hle⟩ := ascending_numbered h as (n + (tree n a).size)
      have hlt : ∀ t ∈ numbered tree (n + (tree n a).size) as, n < t.id := fun t ht =>
        Nat.lt_of_lt_of_le (Nat.lt_add_of_pos_right (Nat.succ_pos _)) (hle t ht)
      rw [numbered]
      exact ascending_cons (h n a) hrow hlt

lemma StateDecl.id_tree (d : StateDecl) (n : NodeId) : (d.tree n).id = n := by
  cases d
  rw [StateDecl.tree, id_node]

lemma Clause.id_tree (n : NodeId) (c : Clause) : (c.tree n).id = n := by
  cases c with
  | state d => rw [Clause.tree, d.id_tree]
  | _ => rw [Clause.tree]; rfl

lemma rowTrees_eq_numbered : ∀ (body : List Clause) (n : NodeId),
    rowTrees n body = numbered Clause.tree n body
  | [], n => by rw [rowTrees, numbered]
  | c :: rest, n => by rw [rowTrees, numbered, rowTrees_eq_numbered rest]

lemma ascending_rowTrees (body : List Clause) (n : NodeId) :
    Ascending (rowTrees n body) ∧ ∀ t ∈ rowTrees n body, n ≤ t.id := by
  rw [rowTrees_eq_numbered]
  exact ascending_numbered Clause.id_tree body n

/-- What hangs below a state was added in the order in which it hangs there. -/
lemma ascending_clauseTrees : ∀ (body : List Clause) (n : NodeId),
    Ascending (clauseTrees n body) ∧ ∀ t ∈ clauseTrees n body, n ≤ t.id
  | [], n => by rw [clauseTrees]; exact ⟨.nil, by simp⟩
  | c :: rest, n => by
      cases hc : c.state? with
      | none =>
          obtain ⟨hrow, hle⟩ := ascending_clauseTrees rest (n + (c.tree n).size)
          rw [clauseTrees_cons n hc]
          exact ascending_cons (c.id_tree n) hrow fun u hu =>
            Nat.lt_of_lt_of_le (Nat.lt_add_of_pos_right (Nat.succ_pos _)) (hle u hu)
      | some d =>
          obtain ⟨hrow, hle⟩ := ascending_rowTrees (c :: rest) (n + 1)
          rw [clauseTrees_gathered n (by rw [hc]; rfl)]
          exact ascending_cons rfl (hrow.filter _) fun u hu => hle u (List.mem_of_mem_filter hu)

/-! ## Names and references -/

lemma Clause.stateName?_tree (c : Clause) (n : NodeId) :
    (c.tree n).stateName? = c.state?.map (·.head.name) := by
  cases c with
  | state d => cases d; simp only [Clause.tree, StateDecl.tree]; rfl
  | _ => simp only [Clause.tree]; rfl

/-- The states of a row have the names of the inner states. -/
lemma stateNames_rowTrees (body : List Clause) (n : NodeId) :
    stateNames (rowTrees n body) = (innerHeads body).map StateHead.name := by
  induction body generalizing n with
  | nil => rw [rowTrees]; rfl
  | cons c rest ih =>
      have ih := ih (n + (c.tree n).size)
      rw [stateNames] at ih ⊢
      rw [rowTrees, List.filterMap_cons, c.stateName?_tree, ih]
      cases hc : c.state? <;> simp [innerHeads, hc]

/-- The states of a machine have the names that were written. -/
lemma stateNames_machineClauses (body : List MachineClause) (n : NodeId) :
    stateNames (numbered MachineClause.tree n body) = (stateHeads body).map StateHead.name := by
  induction body generalizing n with
  | nil => rfl
  | cons c rest ih =>
      have hname : (c.tree n).stateName? = c.state?.map (·.head.name) := by
        cases c with
        | binding d => rfl
        | state d => cases d; simp only [MachineClause.tree, StateDecl.tree]; rfl
      have ih := ih (n + (c.tree n).size)
      rw [stateNames] at ih ⊢
      rw [numbered, List.filterMap_cons, hname, ih]
      cases hc : c.state? <;> simp [stateHeads, hc]

/-- No clause has a machine for its tree. -/
lemma Clause.isMachine_tree (c : Clause) (n : NodeId) : (c.tree n).payload.isMachine = false := by
  cases c with
  | state d => cases d; simp only [Clause.tree, StateDecl.tree]; rfl
  | _ => simp only [Clause.tree]; rfl

/-- No clause stands for a machine. -/
lemma isMachine_rowTrees (body : List Clause) (n : NodeId) :
    ∀ t ∈ rowTrees n body, t.payload.isMachine = false := by
  induction body generalizing n with
  | nil => rw [rowTrees]; simp
  | cons c rest ih =>
      rw [rowTrees]
      exact List.forall_mem_cons.mpr ⟨c.isMachine_tree n, ih _⟩

/-- There is one machine at most below a state. -/
lemma countP_clauseTrees (body : List Clause) (n : NodeId) :
    (clauseTrees n body).countP (·.payload.isMachine) ≤ 1 := by
  induction body generalizing n with
  | nil => rw [clauseTrees]; exact Nat.zero_le 1
  | cons c rest ih =>
      cases hc : c.state? with
      | none =>
          rw [clauseTrees_cons n hc, List.countP_cons_of_neg (by simp [c.isMachine_tree n])]
          exact ih _
      | some d =>
          have hnone : ((rowTrees (n + 1) (c :: rest)).filter (!isState ·)).countP
              (·.payload.isMachine) = 0 := List.countP_eq_zero.mpr fun t ht => by
            simp [isMachine_rowTrees _ _ t (List.mem_of_mem_filter ht)]
          rw [clauseTrees_gathered n (by rw [hc]; rfl), List.countP_cons, hnone]
          exact Nat.le_refl 1

/-- The guards and actions of a transition are of the kinds that can be written there. -/
lemma TransitionDecl.references (d : TransitionDecl) :
    (∀ r ∈ d.transition.guards, r.isGuard = true) ∧
      ∀ r ∈ d.transition.actions, r.isAction = true := by
  constructor
  · intro r hr
    obtain ⟨step, -, hstep⟩ := List.mem_filterMap.mp hr
    rcases step with (_ | _) | (_ | _) | _ <;> cases hstep <;> rfl
  · intro r hr
    obtain ⟨step, -, hstep⟩ := List.mem_filterMap.mp hr
    rcases step with (_ | _) | (_ | _) | _ <;> cases hstep <;> rfl

/-! ## Every node -/

lemma orderly_leaf {n : NodeId} {payload : Node} (hmachine : payload.kind ≠ .machine)
    (hstate : payload.kind ≠ .state) (htransition : payload.kind ≠ .transition) :
    ∀ u ∈ (leaf n payload).within, u.Orderly :=
  forall_within.mpr ⟨orderly_of_ascending .nil hmachine hstate htransition, by simp [leaf]⟩

lemma orderly_transition (n : NodeId) (d : TransitionDecl) :
    ∀ u ∈ (leaf n (.transition d.transition)).within, u.Orderly := by
  refine forall_within.mpr ⟨⟨.nil, nofun, nofun, fun t ht => ?_⟩, by simp [leaf]⟩
  cases ht
  exact d.references

/-- What is numbered one after the other is orderly if each tree is. -/
lemma orderly_numbered {α : Type} {tree : NodeId → α → Tree} : ∀ (as : List α) (n : NodeId),
    (∀ a ∈ as, ∀ n, ∀ u ∈ (tree n a).within, u.Orderly) →
    ∀ t ∈ numbered tree n as, ∀ u ∈ t.within, u.Orderly
  | [], _, _ => by simp [numbered]
  | a :: as, n, h => by
      obtain ⟨ha, has⟩ := List.forall_mem_cons.mp h
      exact List.forall_mem_cons.mpr ⟨ha n, orderly_numbered as _ has⟩

mutual

/-- All nodes of a valid state are orderly. -/
lemma StateDecl.orderly_tree : ∀ (d : StateDecl) (n : NodeId), d.valid = true →
    ∀ u ∈ (d.tree n).within, u.Orderly
  | .mk head body _, n, h => by
      rw [StateDecl.valid, Bool.and_eq_true] at h
      rw [StateDecl.tree]
      exact forall_within.mpr
        ⟨orderly_state (ascending_clauseTrees body (n + 1)).1 (countP_clauseTrees body (n + 1)),
          forall_allWithin.mpr (orderly_clauseTrees body (n + 1) h.1 h.2)⟩

/-- All nodes of a valid clause are orderly. -/
lemma Clause.orderly_tree : ∀ (c : Clause) (n : NodeId), c.valid = true →
    ∀ u ∈ (c.tree n).within, u.Orderly
  | .binding d, n, _ => by rw [Clause.tree]; exact orderly_leaf nofun nofun nofun
  | .invoke d, n, _ => by
      rw [Clause.tree, InvokeDecl.tree]
      refine forall_within.mpr ⟨orderly_of_ascending ?_ nofun nofun nofun, ?_⟩
      · exact (ascending_numbered (fun _ _ => rfl) _ _).1
      · exact forall_allWithin.mpr (orderly_numbered _ _ fun t _ n => orderly_transition n t)
  | .transition d, n, _ => by rw [Clause.tree]; exact orderly_transition n d
  | .state d, n, h => by
      rw [Clause.valid] at h
      rw [Clause.tree]
      exact d.orderly_tree n h

/-- So are those of a body, also the machine that holds the inner states, since these have different
names. -/
lemma orderly_clauseTrees : ∀ (body : List Clause) (n : NodeId),
    distinct (innerHeads body) = true → allValid body = true →
    ∀ t ∈ clauseTrees n body, ∀ u ∈ t.within, u.Orderly
  | [], n, _, _ => by rw [clauseTrees]; simp
  | c :: rest, n, hnames, h => by
      rw [allValid, Bool.and_eq_true] at h
      cases hc : c.state? with
      | none =>
          rw [innerHeads_cons_of_none hc] at hnames
          rw [clauseTrees_cons n hc]
          exact List.forall_mem_cons.mpr
            ⟨c.orderly_tree n h.1, orderly_clauseTrees rest _ hnames h.2⟩
      | some d =>
          have hrow : ∀ t ∈ rowTrees (n + 1) (c :: rest), ∀ u ∈ t.within, u.Orderly := by
            rw [rowTrees]
            exact List.forall_mem_cons.mpr
              ⟨c.orderly_tree (n + 1) h.1, orderly_rowTrees rest _ h.2⟩
          have hnodup : (stateNames ((rowTrees (n + 1) (c :: rest)).filter isState)).Nodup := by
            rw [stateNames_filter, stateNames_rowTrees]
            simpa [distinct] using hnames
          have hascending := (ascending_rowTrees (c :: rest) (n + 1)).1.filter isState
          rw [clauseTrees_gathered n (by rw [hc]; rfl)]
          refine List.forall_mem_cons.mpr ⟨forall_within.mpr ⟨?_, ?_⟩, fun t ht => ?_⟩
          · exact orderly_machine hascending hnodup
          · exact forall_allWithin.mpr fun t ht => hrow t (List.mem_of_mem_filter ht)
          · exact hrow t (List.mem_of_mem_filter ht)

/-- The same for the plain row. -/
lemma orderly_rowTrees : ∀ (body : List Clause) (n : NodeId), allValid body = true →
    ∀ t ∈ rowTrees n body, ∀ u ∈ t.within, u.Orderly
  | [], n, _ => by rw [rowTrees]; simp
  | c :: rest, n, h => by
      rw [allValid, Bool.and_eq_true] at h
      rw [rowTrees]
      exact List.forall_mem_cons.mpr ⟨c.orderly_tree n h.1, orderly_rowTrees rest _ h.2⟩

end

lemma Item.id_tree (n : NodeId) (item : Item) : (item.tree n).id = n := by
  cases item <;> rfl

/-- **All nodes of a valid declaration are orderly.** -/
lemma Item.orderly_tree (item : Item) (n : NodeId) (h : item.valid = true) :
    ∀ u ∈ (item.tree n).within, u.Orderly := by
  cases item with
  | importDecl d =>
      refine forall_within.mpr ⟨orderly_of_ascending ?_ nofun nofun nofun, ?_⟩
      · exact (ascending_numbered (fun _ _ => rfl) _ _).1
      · exact forall_allWithin.mpr
          (orderly_numbered _ _ fun s _ n => orderly_leaf nofun nofun nofun)
  | binding d => exact orderly_leaf nofun nofun nofun
  | machine d =>
      rw [Item.valid, Bool.and_eq_true] at h
      have hid : ∀ n (c : MachineClause), (c.tree n).id = n := fun n c => by
        cases c with
        | binding b => rfl
        | state s => exact s.id_tree n
      refine forall_within.mpr ⟨orderly_machine (ascending_numbered hid _ _).1 ?_, ?_⟩
      · rw [stateNames_machineClauses]
        simpa [distinct] using h.1
      · refine forall_allWithin.mpr (orderly_numbered _ _ fun c hc n => ?_)
        have hvalid := List.all_eq_true.mp h.2 c hc
        cases c with
        | binding b => exact orderly_leaf nofun nofun nofun
        | state s => exact s.orderly_tree n hvalid

/-- The trees of valid declarations are orderly. -/
lemma orderly_itemTrees {items : List Item} (h : items.all Item.valid = true) :
    ∀ t ∈ allWithin (itemTrees items), t.Orderly :=
  forall_allWithin.mpr (orderly_numbered items 0 fun item hitem n =>
    item.orderly_tree n (List.all_eq_true.mp h item hitem))

/-! ## Charts -/

/-- The shape of a chart that was read from the given declarations. -/
structure Shape (items : List Item) (f : Forest) (roots : List Tree) : Prop where
  /-- The links are those of an ordered forest. -/
  linked : f.Represents roots
  /-- Every node that was ever added stands in it exactly once. -/
  complete : (ids roots).Perm (List.range f.nodes.size)
  /-- There is one tree for each declaration, as they were written. -/
  source : List.Forall₂ Item.Stands items roots
  /-- Every node hangs below one of a kind that may hold it, and no machine is marked. -/
  kinds : allShaped none roots = true
  ascending : Ascending roots
  orderly : ∀ t ∈ allWithin roots, t.Orderly

/-- **The shape of every chart that is read.** -/
theorem read_shape {file : Nat} {text : String} {program : Program} {remarks : List Remark}
    (h : read file text = (.ok program, remarks)) :
    ∃ items roots, parse text = .ok items ∧ Shape items program.forest roots := by
  obtain ⟨items, hparse, hvalid, hrep, hsize, -⟩ := read_eq_ok h
  refine ⟨items, itemTrees items, hparse, ?_⟩
  exact
    { linked := hrep
      complete := by
        refine (List.subperm_of_subset hrep.distinct hrep.subset_range).perm_of_length_le ?_
        rw [List.length_range, hsize]
        exact Nat.le_refl _
      source := forall₂_numbered (fun n item => item.stands_tree n) items 0
      kinds := allShaped_itemTrees items
      ascending := (ascending_numbered Item.id_tree items 0).1
      orderly := orderly_itemTrees hvalid }

/-- Inner states that do not stand together, the second of them an initial one. -/
def apartStates : String :=
  "use'./m'\x7bf\x7dguard g=f machine m\x7bstate a\x7be=>a state b\x7b\x7d action h=f " ++
    "initial state c\x7bstate d\x7b\x7d\x7d invoke s\x7bdone=>b\x7d\x7d\x7d"

lemma apartStates_valid : (match parse apartStates with
    | .ok items => items.all Item.valid
    | .error _ => false) = true := by
  decide +kernel

/-- The inner states of a state are found below one machine also if they do not stand together. -/
theorem apartStates_shape : ∃ program remarks items roots,
    read 0 apartStates = (.ok program, remarks) ∧ parse apartStates = .ok items ∧
      Shape items program.forest roots := by
  have hvalid := apartStates_valid
  generalize hparse : parse apartStates = outcome at hvalid
  cases outcome with
  | error attempts => cases hvalid
  | ok items =>
      obtain ⟨program, remarks, hread⟩ := read_of_parse hparse hvalid 0
      obtain ⟨items', roots, hparse', hshape⟩ := read_shape hread
      obtain rfl : items' = items := Except.ok.inj (hparse'.symm.trans hparse)
      exact ⟨program, remarks, items', roots, hread, rfl, hshape⟩

end Language

end Statechart
