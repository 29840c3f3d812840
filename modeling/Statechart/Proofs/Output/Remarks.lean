import Statechart.Proofs.Output.Hoisting

/-!
# What the walk says, tree by tree

The walk makes its remarks step by step.  Here they are put together by recursion on the trees, so
that what is said about a node can be found again in what is said about the chart.

* `rowRemarks` — all that is said about a row of trees after others.
* **`allRemarks_eq`** — the walk says just that.
* `enterRemarks_subset` — what is said on entering a node is part of it.
-/

namespace Statechart.Output

open Script

variable {locate : NodeId → Option Location}

mutual

/-- All that is said about a tree after others in its row. -/
def treeRemarks (locate : NodeId → Option Location) (parent : Option Node) (entered : List Tree) :
    Tree → List Remark
  | .node id payload children =>
    enterRemarks locate parent entered (.node id payload children) ++
      rowRemarks locate (some payload) [] children ++
      leaveRemarks locate parent (.node id payload children)
        ((pendingAfter {} entered).registerAll (Tree.bindingsIn [.node id payload children]))

/-- All that is said about a row of trees after others. -/
def rowRemarks (locate : NodeId → Option Location) (parent : Option Node) (entered : List Tree) :
    List Tree → List Remark
  | [] => []
  | t :: ts => treeRemarks locate parent entered t ++ rowRemarks locate parent (entered ++ [t]) ts

end

/-- What is said about a tree is said on entering it, below it, and on leaving it. -/
lemma treeRemarks_eq (parent : Option Node) (entered : List Tree) (t : Tree) :
    treeRemarks locate parent entered t =
      enterRemarks locate parent entered t ++ rowRemarks locate (some t.payload) [] t.children ++
        leaveRemarks locate parent t
          ((pendingAfter {} entered).registerAll (Tree.bindingsIn [t])) := by
  cases t
  rw [treeRemarks]
  rfl

/-- Below a node, nothing that is said depends on the bindings that wait. -/
lemma leaveRemarks_some (n : Node) (t : Tree) (bound bound' : Bindings) :
    leaveRemarks locate (some n) t bound = leaveRemarks locate (some n) t bound' := by
  simp [leaveRemarks]

/-! ## The walk through a row -/

namespace Position

/-- The steps of the walk in two parts. -/
lemma remarksWithin_add : ∀ (m n : Nat) (pos : Position),
    pos.remarksWithin locate (m + n) =
      pos.remarksWithin locate m ++ (pos.forward m).remarksWithin locate n
  | 0, n, pos => by rw [Nat.zero_add, remarksWithin, forward, List.nil_append]
  | m + 1, n, pos => by
      rw [Nat.add_right_comm, remarksWithin, remarksWithin, forward, remarksWithin_add m n,
        List.append_assoc]

lemma remarksWithin_one (pos : Position) : pos.remarksWithin locate 1 = pos.remarks locate := by
  rw [remarksWithin, remarksWithin, List.append_nil]

/-- What is said when a tree is left. -/
lemma remarks_leave (path : List Level) (entered rest : List Tree) (t : Tree) :
    remarks locate ⟨⟨entered, t, rest⟩ :: path, t.children, []⟩ =
      leaveRemarks locate (parentPayload path) t
        ((pendingAfter {} entered).registerAll (Tree.bindingsIn [t])) := by
  rw [remarks, pendingAt_children]
  cases path with
  | nil => rfl
  | cons l path => exact leaveRemarks_some _ _ _ _

mutual

/-- Two steps for each node of a tree say what is said about the tree. -/
lemma remarksWithin_tree : ∀ (t : Tree) (path : List Level) (entered rest : List Tree),
    remarksWithin locate (2 * t.entries.length) ⟨path, entered, t :: rest⟩ =
      treeRemarks locate (parentPayload path) entered t
  | .node id payload children, path, entered, rest => by
      have hrow := remarksWithin_row children (⟨entered, .node id payload children, rest⟩ :: path) [] []
      have hbelow := forward_trees children (⟨entered, .node id payload children, rest⟩ :: path) [] []
      rw [List.append_nil] at hrow
      rw [List.append_nil, List.nil_append] at hbelow
      have hleave := @remarks_leave locate path entered rest (.node id payload children)
      have hsteps : 2 * (Tree.node id payload children).entries.length =
          1 + (2 * (Tree.allEntries children).length + 1) := by
        rw [Tree.entries, List.length_cons]
        omega
      -- into the tree, through the row below it, and out again
      have hinside : (forward 1 ⟨path, entered, .node id payload children :: rest⟩) =
          ⟨⟨entered, .node id payload children, rest⟩ :: path, [], children⟩ := rfl
      rw [hsteps, remarksWithin_add, remarksWithin_add, hinside, hrow, hbelow, remarksWithin_one,
        remarksWithin_one, treeRemarks_eq, List.append_assoc]
      exact congrArg _ (congrArg _ hleave)

/-- **The walk through a row** says what the row is to say. -/
lemma remarksWithin_row : ∀ (ts : List Tree) (path : List Level) (entered rest : List Tree),
    remarksWithin locate (2 * (Tree.allEntries ts).length) ⟨path, entered, ts ++ rest⟩ =
      rowRemarks locate (parentPayload path) entered ts
  | [], path, entered, rest => by simp [remarksWithin, rowRemarks]
  | t :: ts, path, entered, rest => by
      rw [Tree.allEntries, List.length_append, Nat.mul_add, remarksWithin_add, List.cons_append,
        remarksWithin_tree t, forward_tree t, remarksWithin_row ts, rowRemarks]

end

end Position

/-- **The remarks of the walk** are those of the top-level trees. -/
lemma allRemarks_eq (roots : List Tree) : allRemarks locate roots =
    rowRemarks locate none [] roots ++ unusedRemarks (pendingAfter {} roots) := by
  have hrow := @Position.remarksWithin_row locate roots [] [] []
  rw [List.append_nil] at hrow
  have hsteps : (Position.start roots).stepsLeft = 2 * (Tree.allEntries roots).length := by
    simp [Position.stepsLeft, Position.start]
  rw [allRemarks, hsteps, Position.start, hrow]
  rfl

/-- What is said about a chart are log entries, warnings about nodes at their places, and a warning
about the chart as a whole. -/
lemma mem_allRemarks {roots : List Tree} {r : Remark} (h : r ∈ allRemarks locate roots) :
    IsWalkRemark locate r ∨ ∃ message, r = .general .warning message := by
  rcases List.mem_append.mp h with h | h
  · exact .inl (isWalkRemark_remarksWithin _ h)
  · rw [unusedRemarks] at h
    split at h
    · cases h
    · rcases List.mem_cons.mp h with rfl | h
      · exact .inl (.inl ⟨_, rfl⟩)
      · exact .inr ⟨_, List.mem_singleton.mp h⟩

lemma isMild_allRemarks (locate : NodeId → Option Location) (roots : List Tree) :
    ∀ r ∈ allRemarks locate roots, r.isMild = true := by
  intro r hr
  rcases mem_allRemarks hr with (⟨entry, rfl⟩ | ⟨id, message, rfl⟩) | ⟨message, rfl⟩ <;> rfl

/-! ## What is said on entering a node -/

/-- What is said on entering a tree is said about its row. -/
lemma enterRemarks_subset_row (parent : Option Node) (t : Tree) (after : List Tree) :
    ∀ before entered : List Tree, enterRemarks locate parent (entered ++ before) t ⊆
      rowRemarks locate parent entered (before ++ t :: after)
  | [], entered => by
      rw [List.append_nil, List.nil_append, rowRemarks, treeRemarks_eq, List.append_assoc,
        List.append_assoc]
      exact List.subset_append_left _ _
  | u :: before, entered => by
      have ih := enterRemarks_subset_row parent t after before (entered ++ [u])
      rw [List.append_assoc, List.singleton_append] at ih
      rw [List.cons_append, rowRemarks]
      exact List.Subset.trans ih (List.subset_append_right _ _)

/-- **What is said on entering a node** below another is said in the walk. -/
lemma enterRemarks_subset {u : Tree} {before after : List Tree} (ts : List Tree) :
    ∀ (parent : Option Node) (entered : List Tree), ∀ t ∈ Tree.allWithin ts,
      t.children = before ++ u :: after →
      enterRemarks locate (some t.payload) before u ⊆ rowRemarks locate parent entered ts := by
  induction ts using Tree.row_induction with
  | nil => simp
  | cons t ts below ih =>
      intro parent entered v hv hchildren
      rw [Tree.allWithin_cons, List.cons_append, List.mem_cons, List.mem_append] at hv
      rw [rowRemarks, treeRemarks_eq]
      have hbelow : rowRemarks locate (some t.payload) [] t.children ⊆
          enterRemarks locate parent entered t ++ rowRemarks locate (some t.payload) [] t.children ++
            leaveRemarks locate parent t
              ((pendingAfter {} entered).registerAll (Tree.bindingsIn [t])) ++
            rowRemarks locate parent (entered ++ [t]) ts := fun r hr => by
        simp [hr]
      rcases hv with rfl | hv | hv
      · have hrow := @enterRemarks_subset_row locate (some v.payload) u after before []
        rw [List.nil_append, ← hchildren] at hrow
        exact List.Subset.trans hrow hbelow
      · exact List.Subset.trans (below (some t.payload) [] v hv hchildren) hbelow
      · exact List.Subset.trans (ih parent (entered ++ [t]) v hv hchildren)
          (List.subset_append_right _ _)

end Statechart.Output
