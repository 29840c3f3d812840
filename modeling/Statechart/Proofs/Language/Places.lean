import Statechart.Proofs.Language.Numbering

/-!
# The places of the nodes of a chart

Nodes are added one after another.  Here is which declaration each of them comes from: the spans of
the nodes of a declaration, in the order in which the nodes are added.

* `Item.places` — the spans of the nodes of a declaration, in that order.  The machine that gathers
  inner states is added just before the first of them, with the span of that one.

**`Item.length_places`** — a declaration has as many places as its tree has nodes.
-/

namespace Statechart.Language

open Statechart.Tree

/-! ## Places -/

/-- The spans of the nodes of an import. -/
def ImportDecl.places (d : ImportDecl) : List Span := d.span :: d.specifiers.map (·.span)

/-- The spans of the nodes of an invocation. -/
def InvokeDecl.places (d : InvokeDecl) : List Span := d.span :: d.transitions.map (·.span)

/-- The span of a clause. -/
def Clause.span : Clause → Span
  | .binding d => d.span
  | .invoke d => d.span
  | .transition d => d.span
  | .state d => d.span

mutual

/-- The spans of the nodes of a state, in the order in which they are added. -/
def StateDecl.places : StateDecl → List Span
  | .mk _ body span => span :: clausePlaces body

/-- The spans of the nodes of a clause by itself. -/
def Clause.places : Clause → List Span
  | .binding d => [d.span]
  | .invoke d => d.places
  | .transition d => [d.span]
  | .state d => d.places

/-- The spans of what hangs below a state, with those of the machine for its inner states. -/
def clausePlaces : List Clause → List Span
  | [] => []
  | c :: rest =>
    if c.state?.isSome then c.span :: (c.places ++ rowPlaces rest)
    else c.places ++ clausePlaces rest

/-- The spans of clauses in the order in which they are written. -/
def rowPlaces : List Clause → List Span
  | [] => []
  | c :: rest => c.places ++ rowPlaces rest

end

/-- The spans of the nodes of a clause of a machine. -/
def MachineClause.places : MachineClause → List Span
  | .binding d => [d.span]
  | .state d => d.places

/-- The spans of the nodes of a machine. -/
def MachineDecl.places (d : MachineDecl) : List Span :=
  d.span :: d.body.flatMap MachineClause.places

/-- The spans of the nodes of a declaration of the top level, in the order in which the nodes are
added. -/
def Item.places : Item → List Span
  | .importDecl d => d.places
  | .binding d => [d.span]
  | .machine d => d.places

/-! ## As many as there are nodes -/

lemma length_allEntries_cons (t : Tree) (ts : List Tree) :
    (allEntries (t :: ts)).length = t.size + (allEntries ts).length := by
  simp [Tree.size, Nat.add_right_comm]

/-- The nodes of a row are those of two parts of it. -/
lemma length_allEntries_filter (p : Tree → Bool) (ts : List Tree) :
    (allEntries (ts.filter p)).length + (allEntries (ts.filter (!p ·))).length =
      (allEntries ts).length := by
  induction ts with
  | nil => simp
  | cons t ts ih =>
      rw [length_allEntries_cons, ← ih]
      by_cases hp : p t = true
      · rw [List.filter_cons_of_pos hp, List.filter_cons_of_neg (by simp [hp]),
          length_allEntries_cons, Nat.add_assoc]
      · rw [List.filter_cons_of_neg hp, List.filter_cons_of_pos (by simp [hp]),
          length_allEntries_cons, Nat.add_left_comm]

/-- The nodes of a row, if each of its trees begins where the one before ends. -/
lemma length_allEntries_numbered {α : Type} {tree : NodeId → α → Tree} {m : α → List Span}
    (h : ∀ a n, (tree n a).size = (m a).length) (as : List α) (n : NodeId) :
    (allEntries (numbered tree n as)).length = (as.flatMap m).length := by
  induction as generalizing n with
  | nil => simp [numbered]
  | cons a as ih =>
      rw [numbered, length_allEntries_cons, h, ih, List.flatMap_cons, List.length_append]

lemma InvokeDecl.length_places (d : InvokeDecl) (n : NodeId) : (d.tree n).size = d.places.length := by
  have hrow := length_allEntries_numbered (m := fun t : TransitionDecl => [t.span])
    (fun t n => size_leaf n (.transition t.transition)) d.transitions (n + 1)
  rw [← List.map_eq_flatMap] at hrow
  rw [InvokeDecl.tree, Tree.size, children_node, hrow, InvokeDecl.places, List.length_cons]

mutual

lemma StateDecl.length_places : ∀ (d : StateDecl) (n : NodeId), (d.tree n).size = d.places.length
  | .mk head body span, n => by
      rw [StateDecl.tree, Tree.size, children_node, length_clausePlaces body, StateDecl.places,
        List.length_cons]

lemma Clause.length_places : ∀ (c : Clause) (n : NodeId), (c.tree n).size = c.places.length
  | .binding d, n => by rw [Clause.tree, Clause.places, size_leaf]; rfl
  | .invoke d, n => by rw [Clause.tree, Clause.places, d.length_places]
  | .transition d, n => by rw [Clause.tree, Clause.places, size_leaf]; rfl
  | .state d, n => by rw [Clause.tree, Clause.places, d.length_places]

/-- There are as many places below a state as there are nodes, with one for the machine that
gathers. -/
lemma length_clausePlaces : ∀ (body : List Clause) (n : NodeId),
    (allEntries (clauseTrees n body)).length = (clausePlaces body).length
  | [], n => by simp [clauseTrees, clausePlaces]
  | c :: rest, n => by
      cases hc : c.state?.isSome with
      | false =>
          have hnone : c.state? = none := by simpa using hc
          rw [clauseTrees_cons n hnone, clausePlaces, if_neg (by simp [hc]), length_allEntries_cons,
            c.length_places, length_clausePlaces rest, List.length_append]
      | true =>
          -- the machine has a place of its own, and gathers a part of the row
          have hparts := length_allEntries_filter isState (rowTrees (n + 1) (c :: rest))
          have hrow : (allEntries (rowTrees (n + 1) (c :: rest))).length =
              (c.places ++ rowPlaces rest).length := by
            rw [rowTrees, length_allEntries_cons, c.length_places, length_rowPlaces rest,
              List.length_append]
          rw [clauseTrees_gathered n hc, clausePlaces, if_pos hc, List.length_cons, ← hrow, ← hparts,
            length_allEntries_cons, Tree.size, children_node, Nat.add_right_comm]

/-- The same for the plain row. -/
lemma length_rowPlaces : ∀ (body : List Clause) (n : NodeId),
    (allEntries (rowTrees n body)).length = (rowPlaces body).length
  | [], n => by simp [rowTrees, rowPlaces]
  | c :: rest, n => by
      rw [rowTrees, rowPlaces, length_allEntries_cons, c.length_places, length_rowPlaces rest,
        List.length_append]

end

lemma MachineClause.length_places (c : MachineClause) (n : NodeId) :
    (c.tree n).size = c.places.length := by
  cases c with
  | binding d => exact size_leaf _ _
  | state d => exact d.length_places n

/-- **A declaration has as many places as its tree has nodes.** -/
lemma Item.length_places (item : Item) (n : NodeId) : (item.tree n).size = item.places.length := by
  cases item with
  | importDecl d =>
      have hrow := length_allEntries_numbered (m := fun s : Located String => [s.span])
        (fun s n => size_leaf n (.specifier s.value none)) d.specifiers (n + 1)
      rw [← List.map_eq_flatMap] at hrow
      rw [Item.tree, ImportDecl.tree, Tree.size, children_node, hrow, Item.places,
        ImportDecl.places, List.length_cons]
  | binding d => exact size_leaf _ _
  | machine d =>
      have hrow := length_allEntries_numbered MachineClause.length_places d.body (n + 1)
      rw [Item.tree, MachineDecl.tree, Tree.size, children_node, hrow, Item.places,
        MachineDecl.places, List.length_cons]

end Statechart.Language
