import Statechart.Proofs.Language.Numbering

/-!
# Declarations without their spans

Two texts of one chart differ in where things stand, so their declarations differ in spans and in
nothing else.  `bare` forgets the spans, and **nothing that a chart stands for depends on them**:
not its trees (`itemTrees_bare`), not whether it is accepted (`valid_bare`), not whether it updates
the context (`updates_bare`).
-/

namespace Statechart.Language

open Statechart.Tree

def BindingDecl.bare (d : BindingDecl) : BindingDecl :=
  { d with head := .point 0, span := .point 0 }

def Duration.bare (d : Duration) : Duration := { d with span := .point 0 }

def TriggerDecl.bare : TriggerDecl → TriggerDecl
  | immediate => immediate
  | delay d => delay d.bare
  | event name => event name

def TransitionDecl.bare (d : TransitionDecl) : TransitionDecl :=
  { d with trigger := d.trigger.bare, span := .point 0 }

def InvokeDecl.bare (d : InvokeDecl) : InvokeDecl :=
  { d with transitions := d.transitions.map TransitionDecl.bare, span := .point 0 }

def StateHead.bare (h : StateHead) : StateHead := { h with span := .point 0 }

mutual

def StateDecl.bare : StateDecl → StateDecl
  | .mk head body _ => .mk head.bare (bareBody body) (.point 0)

def Clause.bare : Clause → Clause
  | .binding d => .binding d.bare
  | .invoke d => .invoke d.bare
  | .state d => .state d.bare
  | .transition d => .transition d.bare

def bareBody : List Clause → List Clause
  | [] => []
  | c :: cs => c.bare :: bareBody cs

end

lemma bareBody_eq (body : List Clause) : bareBody body = body.map Clause.bare := by
  induction body with
  | nil => rfl
  | cons c cs ih => rw [bareBody, ih, List.map_cons]

def MachineClause.bare : MachineClause → MachineClause
  | binding d => binding d.bare
  | state d => state d.bare

def MachineDecl.bare (d : MachineDecl) : MachineDecl :=
  { d with body := d.body.map MachineClause.bare, span := .point 0 }

def ImportDecl.bare (d : ImportDecl) : ImportDecl :=
  { d with specifiers := d.specifiers.map (⟨·.value, .point 0⟩), span := .point 0 }

def Item.bare : Item → Item
  | importDecl d => importDecl d.bare
  | binding d => binding d.bare
  | machine d => machine d.bare

/-! ## Trees -/

lemma TransitionDecl.transition_bare (d : TransitionDecl) : d.bare.transition = d.transition := by
  obtain ⟨_ | _ | _, steps, target, span⟩ := d <;> rfl

/-- A row may be numbered before or after its parts are changed. -/
lemma numbered_map {α : Type} {tree : NodeId → α → Tree} {f : α → α}
    (h : ∀ n a, tree n (f a) = tree n a) (n : NodeId) (as : List α) :
    numbered tree n (as.map f) = numbered tree n as := by
  induction as generalizing n with
  | nil => rfl
  | cons a as ih => rw [List.map_cons, numbered, numbered, h, ih]

/-- The tree of an invocation does not depend on spans. -/
lemma InvokeDecl.tree_bare (n : NodeId) (d : InvokeDecl) : d.bare.tree n = d.tree n := by
  have hrow : ∀ (n : NodeId) (ts : List TransitionDecl),
      numbered (fun n t => leaf n (.transition t.transition)) n (ts.map TransitionDecl.bare) =
        numbered (fun n t => leaf n (.transition t.transition)) n ts :=
    numbered_map fun n t => by rw [TransitionDecl.transition_bare]
  exact congrArg (Tree.node n (.invoke d.service)) (hrow (n + 1) d.transitions)

lemma StateDecl.head_bare (d : StateDecl) : d.bare.head = d.head.bare := by
  cases d with
  | mk head body span => rw [StateDecl.bare]; rfl

lemma Clause.state?_bare (c : Clause) : c.bare.state? = c.state?.map StateDecl.bare := by
  cases c <;> rw [Clause.bare] <;> rfl

/-- The heads of inner states are found without spans, too. -/
lemma innerHeads_bare (body : List Clause) :
    innerHeads (bareBody body) = (innerHeads body).map StateHead.bare := by
  rw [bareBody_eq, innerHeads, innerHeads, List.filterMap_map, List.map_filterMap,
    List.map_filterMap, List.map_filterMap]
  refine List.filterMap_congr fun c _ => ?_
  simp only [Function.comp_apply, Clause.state?_bare, Option.map_map]
  congr 1
  funext d
  exact d.head_bare

lemma firstInitial_bare (heads : List StateHead) :
    firstInitial (heads.map StateHead.bare) = firstInitial heads := by
  rw [firstInitial, firstInitial, List.find?_map, Option.map_map]
  rfl

mutual

lemma StateDecl.tree_bare : ∀ (d : StateDecl) (n : NodeId), d.bare.tree n = d.tree n
  | .mk head body span, n => by
      rw [StateDecl.bare, StateDecl.tree, StateDecl.tree, clauseTrees_bare body]
      rfl

lemma Clause.tree_bare : ∀ (c : Clause) (n : NodeId), c.bare.tree n = c.tree n
  | .binding d, n => by rw [Clause.bare, Clause.tree, Clause.tree]; rfl
  | .invoke d, n => by rw [Clause.bare, Clause.tree, Clause.tree, d.tree_bare]
  | .state d, n => by rw [Clause.bare, Clause.tree, Clause.tree, d.tree_bare]
  | .transition d, n => by rw [Clause.bare, Clause.tree, Clause.tree, d.transition_bare]

/-- The trees below a state do not depend on spans. -/
lemma clauseTrees_bare : ∀ (body : List Clause) (n : NodeId),
    clauseTrees n (bareBody body) = clauseTrees n body
  | [], n => by rw [bareBody]
  | c :: rest, n => by
      have hheads := innerHeads_bare (c :: rest)
      have hrow := rowTrees_bare rest
      have hrest := clauseTrees_bare rest
      rw [bareBody] at hheads ⊢
      rw [clauseTrees, clauseTrees, hheads, firstInitial_bare, Clause.state?_bare, Option.isSome_map,
        c.tree_bare, c.tree_bare]
      simp only [hrow, hrest]

lemma rowTrees_bare : ∀ (body : List Clause) (n : NodeId),
    rowTrees n (bareBody body) = rowTrees n body
  | [], n => by rw [bareBody]
  | c :: rest, n => by
      rw [bareBody, rowTrees, rowTrees, c.tree_bare, rowTrees_bare rest]

end

lemma MachineClause.tree_bare (n : NodeId) (c : MachineClause) : c.bare.tree n = c.tree n := by
  cases c with
  | binding d => rfl
  | state d => exact d.tree_bare n

/-- The heads of the states of a machine are found without spans, too. -/
lemma stateHeads_bare (body : List MachineClause) :
    stateHeads (body.map MachineClause.bare) = (stateHeads body).map StateHead.bare := by
  rw [stateHeads, stateHeads, List.filterMap_map, List.map_filterMap, List.map_filterMap,
    List.map_filterMap]
  refine List.filterMap_congr fun c _ => ?_
  cases c with
  | binding d => rfl
  | state d => exact congrArg some d.head_bare

/-- **The tree of a declaration does not depend on spans.** -/
lemma Item.tree_bare (n : NodeId) (item : Item) : item.bare.tree n = item.tree n := by
  cases item with
  | importDecl d =>
      have hrow : ∀ (n : NodeId) (names : List (Located String)),
          numbered (fun n (s : Located String) => leaf n (.specifier s.value none)) n
            (names.map (⟨·.value, .point 0⟩)) =
          numbered (fun n (s : Located String) => leaf n (.specifier s.value none)) n names :=
        numbered_map fun _ _ => rfl
      exact congrArg (Tree.node n (.importModule d.path)) (hrow (n + 1) d.specifiers)
  | binding d => rfl
  | machine d =>
      have hinitial : firstInitial (stateHeads (d.body.map MachineClause.bare)) =
          firstInitial (stateHeads d.body) := by rw [stateHeads_bare, firstInitial_bare]
      have hrow := numbered_map MachineClause.tree_bare (n + 1) d.body
      exact congrArg₂ (fun initial => Tree.node n (.machine { name := d.name, initial := initial }))
        hinitial hrow

/-- **The trees of a chart do not depend on spans.** -/
lemma itemTrees_bare (items : List Item) : itemTrees (items.map Item.bare) = itemTrees items :=
  numbered_map Item.tree_bare 0 items

/-! ## Validity and updates -/

lemma TransitionDecl.valid_bare (d : TransitionDecl) : d.bare.valid = d.valid := by
  obtain ⟨_ | _ | _, steps, target, span⟩ := d <;> rfl

lemma distinct_bare (heads : List StateHead) :
    distinct (heads.map StateHead.bare) = distinct heads := by
  rw [distinct, distinct, List.map_map]
  rfl

mutual

lemma StateDecl.valid_bare : ∀ d : StateDecl, d.bare.valid = d.valid
  | .mk head body span => by
      rw [StateDecl.bare, StateDecl.valid, StateDecl.valid, innerHeads_bare, distinct_bare,
        allValid_bare body]

/-- Whether a clause is valid does not depend on spans. -/
lemma Clause.valid_bare : ∀ c : Clause, c.bare.valid = c.valid
  | .binding d => by rw [Clause.bare, Clause.valid, Clause.valid]
  | .invoke d => by
      rw [Clause.bare, Clause.valid, Clause.valid, InvokeDecl.bare, List.all_map]
      exact congrArg d.transitions.all (funext TransitionDecl.valid_bare)
  | .state d => by rw [Clause.bare, Clause.valid, Clause.valid, d.valid_bare]
  | .transition d => by rw [Clause.bare, Clause.valid, Clause.valid, d.valid_bare]

lemma allValid_bare : ∀ body : List Clause, allValid (bareBody body) = allValid body
  | [] => by rw [bareBody]
  | c :: rest => by rw [bareBody, allValid, allValid, c.valid_bare, allValid_bare rest]

end

/-- Whether a declaration is valid does not depend on spans. -/
lemma Item.valid_bare (item : Item) : item.bare.valid = item.valid := by
  cases item with
  | importDecl d => rfl
  | binding d => rfl
  | machine d =>
      have hclause : ∀ c : MachineClause, c.bare.valid = c.valid := by
        intro c
        cases c with
        | binding d => rfl
        | state d => exact d.valid_bare
      show (distinct (stateHeads (d.body.map MachineClause.bare)) &&
        (d.body.map MachineClause.bare).all MachineClause.valid) = _
      rw [stateHeads_bare, distinct_bare, List.all_map]
      exact congrArg (_ && d.body.all ·) (funext hclause)

mutual

lemma StateDecl.updates_bare : ∀ d : StateDecl, d.bare.updates = d.updates
  | .mk head body span => by
      rw [StateDecl.bare, StateDecl.updates, StateDecl.updates, anyUpdates_bare body]

/-- Whether a clause updates the context does not depend on spans. -/
lemma Clause.updates_bare : ∀ c : Clause, c.bare.updates = c.updates
  | .binding d => by rw [Clause.bare, Clause.updates, Clause.updates]; rfl
  | .invoke d => by
      rw [Clause.bare, Clause.updates, Clause.updates, InvokeDecl.bare, List.any_map]
      rfl
  | .state d => by rw [Clause.bare, Clause.updates, Clause.updates, d.updates_bare]
  | .transition d => by rw [Clause.bare, Clause.updates, Clause.updates]; rfl

lemma anyUpdates_bare : ∀ body : List Clause, anyUpdates (bareBody body) = anyUpdates body
  | [] => by rw [bareBody]
  | c :: rest => by rw [bareBody, anyUpdates, anyUpdates, c.updates_bare, anyUpdates_bare rest]

end

/-- Whether a declaration updates the context does not depend on spans. -/
lemma Item.updates_bare (item : Item) : item.bare.updates = item.updates := by
  cases item with
  | importDecl d => rfl
  | binding d => rfl
  | machine d =>
      have hclause : ∀ c : MachineClause, c.bare.updates = c.updates := by
        intro c
        cases c with
        | binding d => rfl
        | state d => exact d.updates_bare
      show (d.body.map MachineClause.bare).any MachineClause.updates = _
      rw [List.any_map]
      exact congrArg d.body.any (funext hclause)

end Statechart.Language
