import Statechart.Proofs.Chart.Rows

/-!
# Forests as trees

The links of a forest are read by functions that follow them one at a time.  What a sound forest
*is* can be said without links: a row of trees.

* `Tree` — a node with all that hangs below it.
* `Forest.LinksAll` — the links of a forest are those of a row of trees below one parent.
* `Forest.Represents` — a forest holds exactly the given trees: linked, live, and no node twice.
* `Tree.shaped` — the nesting that reading a chart produces: which kind of node may stand below
  which, and no machine marked as having its states open.

The chains that the functions of `Forest` compute are the rows of trees (`chain_first`).  A forest
that was put together row by row represents the trees that its rows hold
(`represents_of_holdsAll`).
-/

namespace Statechart

/-- A node with all that hangs below it. -/
inductive Tree where
  | node (id : NodeId) (payload : Node) (children : List Tree)

namespace Tree

/-- The number of the topmost node. -/
def id : Tree → NodeId
  | node id _ _ => id

/-- The payload of the topmost node. -/
def payload : Tree → Node
  | node _ payload _ => payload

/-- What hangs directly below the topmost node. -/
def children : Tree → List Tree
  | node _ _ children => children

@[simp] lemma id_node (id : NodeId) (n : Node) (cs : List Tree) : (node id n cs).id = id := rfl

@[simp] lemma payload_node (id : NodeId) (n : Node) (cs : List Tree) :
    (node id n cs).payload = n := rfl

@[simp] lemma children_node (id : NodeId) (n : Node) (cs : List Tree) :
    (node id n cs).children = cs := rfl

/-- Whether the topmost node is a state. -/
def isState (t : Tree) : Bool := t.payload.isState

/-- The number of the first tree in a row, as a link refers to it. -/
def first (ts : List Tree) : Option NodeId := ts.head?.map id

@[simp] lemma first_nil : first [] = none := rfl

@[simp] lemma first_cons (t : Tree) (ts : List Tree) : first (t :: ts) = some t.id := rfl

mutual

/-- What holds of an empty row, and of a row if it holds of the rest of the row and of what hangs
below its first tree, holds of every row. -/
lemma row_induction {P : List Tree → Prop} (nil : P [])
    (cons : ∀ t ts, P t.children → P ts → P (t :: ts)) : ∀ ts, P ts
  | [] => nil
  | t :: ts => cons t ts (children_induction nil cons t) (row_induction nil cons ts)

lemma children_induction {P : List Tree → Prop} (nil : P [])
    (cons : ∀ t ts, P t.children → P ts → P (t :: ts)) : ∀ t : Tree, P t.children
  | node _ _ children => row_induction nil cons children

end

mutual

/-- The numbers and payloads of all nodes, each node before those below it. -/
def entries : Tree → List (NodeId × Node)
  | node id payload children => (id, payload) :: allEntries children

/-- The numbers and payloads of a row of trees. -/
def allEntries : List Tree → List (NodeId × Node)
  | [] => []
  | t :: ts => t.entries ++ allEntries ts

end

lemma entries_eq (t : Tree) : t.entries = (t.id, t.payload) :: allEntries t.children := by
  cases t; rw [entries]; rfl

@[simp] lemma allEntries_nil : allEntries [] = [] := by rw [allEntries]

@[simp] lemma allEntries_cons (t : Tree) (ts : List Tree) :
    allEntries (t :: ts) = (t.id, t.payload) :: allEntries t.children ++ allEntries ts := by
  rw [allEntries, entries_eq]

/-- The topmost nodes of a row are among its entries. -/
lemma mem_allEntries {t : Tree} : ∀ {ts : List Tree}, t ∈ ts →
    (t.id, t.payload) ∈ allEntries ts
  | u :: us, h => by
      rw [allEntries_cons]
      rcases List.mem_cons.mp h with rfl | h
      · simp
      · exact List.mem_append_right _ (mem_allEntries h)

/-- The numbers of the topmost nodes stand in the order of the entries. -/
lemma map_id_sublist : ∀ ts : List Tree,
    (ts.map id).Sublist ((allEntries ts).map Prod.fst)
  | [] => by simp
  | t :: ts => by
      rw [allEntries_cons, List.map_cons, List.map_append, List.map_cons, List.cons_append]
      exact ((map_id_sublist ts).trans (List.sublist_append_right _ _)).cons_cons _

/-! ## Trees inside trees -/

mutual

/-- A tree and all trees inside it. -/
def within : Tree → List Tree
  | node id payload children => node id payload children :: allWithin children

/-- The trees of a row and all trees inside them. -/
def allWithin : List Tree → List Tree
  | [] => []
  | t :: ts => t.within ++ allWithin ts

end

@[simp] lemma allWithin_nil : allWithin [] = [] := by rw [allWithin]

/-- Trees are listed before those inside them. -/
lemma allWithin_cons (t : Tree) (ts : List Tree) :
    allWithin (t :: ts) = t :: allWithin t.children ++ allWithin ts := by
  cases t
  rw [allWithin, within]
  rfl

/-- What holds of all trees inside a tree holds of itself and of all inside its children. -/
lemma forall_within {P : Tree → Prop} {t : Tree} :
    (∀ u ∈ t.within, P u) ↔ P t ∧ ∀ u ∈ allWithin t.children, P u := by
  cases t
  simp [within]

/-- What holds of all trees inside a row holds of all inside each of its trees. -/
lemma forall_allWithin {P : Tree → Prop} {ts : List Tree} :
    (∀ u ∈ allWithin ts, P u) ↔ ∀ t ∈ ts, ∀ u ∈ t.within, P u := by
  induction ts with
  | nil => simp
  | cons t ts ih => simp [allWithin, or_imp, forall_and, ih]

/-- The same for the first tree of a row and the others. -/
lemma forall_allWithin_cons {P : Tree → Prop} {t : Tree} {ts : List Tree} :
    (∀ u ∈ allWithin (t :: ts), P u) ↔
      (P t ∧ ∀ u ∈ allWithin t.children, P u) ∧ ∀ u ∈ allWithin ts, P u := by
  rw [forall_allWithin, List.forall_mem_cons, forall_within, ← forall_allWithin]

/-! ## Shape -/

/-- The kinds of nodes that may hang below a node of the given kind, or at the top level. -/
def mayHold : Option Kind → Kind → Bool
  | none, k => k = .importModule || k = .binding || k = .machine
  | some .importModule, k => k = .specifier
  | some .machine, k => k = .state || k = .binding
  | some .state, k => k = .transition || k = .invoke || k = .binding || k = .machine
  | some .invoke, k => k = .transition
  | some _, _ => false

/-- Whether the node is not a machine with its `states` open. -/
def isUnopened : Node → Bool
  | .machine m => !m.hasStates
  | _ => true

mutual

/-- Whether a tree below a node of the given kind has the shape of a chart that was read. -/
def shaped (parent : Option Kind) : Tree → Bool
  | node _ payload children =>
    mayHold parent payload.kind && isUnopened payload && allShaped (some payload.kind) children

/-- Whether all trees of a row have the shape of a chart that was read. -/
def allShaped (parent : Option Kind) : List Tree → Bool
  | [] => true
  | t :: ts => t.shaped parent && allShaped parent ts

end

@[simp] lemma allShaped_nil (parent : Option Kind) : allShaped parent [] = true := by
  rw [allShaped]

/-- A row has the shape of a chart if its first tree fits and the others do. -/
lemma allShaped_cons {parent : Option Kind} {t : Tree} {ts : List Tree} :
    allShaped parent (t :: ts) = true ↔ mayHold parent t.payload.kind = true ∧
      isUnopened t.payload = true ∧ allShaped (some t.payload.kind) t.children = true ∧
      allShaped parent ts = true := by
  cases t
  simp [allShaped, shaped, and_assoc]

/-- Two rows that have the shape of a chart can be joined, and a row can be cut. -/
lemma allShaped_append {parent : Option Kind} {ts us : List Tree} :
    allShaped parent (ts ++ us) = true ↔
      allShaped parent ts = true ∧ allShaped parent us = true := by
  induction ts with
  | nil => simp
  | cons t ts ih => simp [allShaped_cons, ih, and_assoc]

/-- Each tree of a row fits below the parent, and its children fit below it. -/
lemma allShaped_of_mem {parent : Option Kind} {ts : List Tree} (h : allShaped parent ts = true)
    {t : Tree} (ht : t ∈ ts) : mayHold parent t.payload.kind = true ∧
      allShaped (some t.payload.kind) t.children = true := by
  obtain ⟨before, after, rfl⟩ := List.append_of_mem ht
  obtain ⟨hold, -, hchildren, -⟩ := allShaped_cons.mp (allShaped_append.mp h).2
  exact ⟨hold, hchildren⟩

end Tree

namespace Forest

/-! ## Links -/

mutual

/-- The links of a tree: its topmost node has the given parent and the given next sibling. -/
def LinksTree (f : Forest) (parent next : Option NodeId) : Tree → Prop
  | .node id _ children =>
    f.linksOf id = ⟨parent, Tree.first children, next⟩ ∧ f.LinksAll (some id) children

/-- The links of a row of trees below a parent, or at the top level. -/
def LinksAll (f : Forest) (parent : Option NodeId) : List Tree → Prop
  | [] => True
  | t :: ts => f.LinksTree parent (Tree.first ts) t ∧ f.LinksAll parent ts

end

@[simp] lemma linksAll_nil (f : Forest) (parent : Option NodeId) : f.LinksAll parent [] := by
  rw [LinksAll]; trivial

/-- The first tree of a row is linked to its first child and to the tree behind it. -/
lemma linksAll_cons {f : Forest} {parent : Option NodeId} {t : Tree} {ts : List Tree} :
    f.LinksAll parent (t :: ts) ↔ f.linksOf t.id = ⟨parent, Tree.first t.children, Tree.first ts⟩ ∧
      f.LinksAll (some t.id) t.children ∧ f.LinksAll parent ts := by
  cases t
  rw [LinksAll, LinksTree, and_assoc]
  rfl

/-- The topmost nodes of a row of trees are a row of siblings. -/
lemma rowLinked_of_linksAll {f : Forest} {parent : Option NodeId} : ∀ {ts : List Tree},
    f.LinksAll parent ts → f.RowLinked parent (ts.map Tree.id)
  | [], _ => trivial
  | t :: ts, hl => by
      rw [linksAll_cons] at hl
      refine ⟨by rw [Forest.parent, hl.1], ?_, rowLinked_of_linksAll hl.2.2⟩
      rw [nextSibling, hl.1, List.head?_map]
      rfl

/-- **The chain from the first of a row is the row.** -/
lemma chain_first {f : Forest} {parent : Option NodeId} {ts : List Tree}
    (hl : f.LinksAll parent ts) (hd : (ts.map Tree.id).Nodup) :
    f.chain (Tree.first ts) = ts.map Tree.id := by
  rw [Tree.first, ← List.head?_map]
  exact chain_head? (rowLinked_of_linksAll hl) hd

/-- Chains depend on nothing but the links. -/
lemma chain_congr {f g : Forest} (h : g.links = f.links) (start : Option NodeId) :
    g.chain start = f.chain start := by
  suffices ∀ bound start, g.chainWithin bound start = f.chainWithin bound start by
    rw [chain, chain, h, this]
  intro bound
  induction bound with
  | zero => intro start; rfl
  | succ bound ih =>
      intro start
      cases start with
      | none => rfl
      | some id => rw [chainWithin, chainWithin, ih, nextSibling, nextSibling, linksOf, linksOf, h]

/-! ## Payloads -/

@[simp] lemma links_setNode (f : Forest) (id : NodeId) (n : Node) :
    (f.setNode id n).links = f.links := by
  rw [setNode]; split <;> rfl

@[simp] lemma locations_setNode (f : Forest) (id : NodeId) (n : Node) :
    (f.setNode id n).locations = f.locations := by
  rw [setNode]; split <;> rfl

/-- A live node has a payload to rely upon. -/
lemma node_of_node? {f : Forest} {id : NodeId} {n : Node} (h : f.node? id = some n) :
    f.node id = .ok n := by
  rw [node?] at h
  rw [node]
  rcases hi : f.nodes[id]? with _ | _ | n'
  · rw [hi] at h; cases h
  · rw [hi] at h; cases h
  · rw [hi] at h; cases h; rfl

/-- A new payload of a live node is seen there and nowhere else. -/
lemma node?_setNode {f : Forest} {id : NodeId} {old : Node} (h : f.node? id = some old) (n : Node)
    (other : NodeId) :
    (f.setNode id n).node? other = if other = id then some n else f.node? other := by
  rw [setNode, h]
  rw [node?] at h ⊢
  by_cases heq : other = id
  · subst heq
    have hlt : other < f.nodes.size := by
      by_contra hlt
      rw [Array.getElem?_eq_none (Nat.not_lt.mp hlt)] at h
      cases h
    simp [hlt]
  · simp [heq, Ne.symm heq, node?]

/-- A live node can be destroyed, and nothing else changes. -/
lemma destroy_of_live {f : Forest} {id : NodeId} {n : Node} (h : f.node? id = some n) :
    ∃ g, f.destroy id = .ok g ∧ g.links = f.links ∧ g.locations = f.locations ∧
      ∀ other, g.node? other = if other = id then none else f.node? other := by
  have hpayload : f.nodes[id]? = some (some n) := by
    rw [node?] at h
    rcases hi : f.nodes[id]? with _ | _ | n'
    · rw [hi] at h; cases h
    · rw [hi] at h; cases h
    · rw [hi] at h; cases h; rfl
  refine ⟨{ f with nodes := f.nodes.setIfInBounds id none }, by rw [destroy, hpayload], rfl, rfl,
    fun other => ?_⟩
  simp only [node?]
  by_cases heq : other = id
  · subst heq
    rw [if_pos rfl, Array.getElem?_setIfInBounds, if_pos rfl]
    split <;> rfl
  · rw [if_neg heq, Array.getElem?_setIfInBounds, if_neg (Ne.symm heq)]

/-- A forest holds exactly the given trees. -/
structure Represents (f : Forest) (roots : List Tree) : Prop where
  body : f.body = Tree.first roots
  linked : f.LinksAll none roots
  live : ∀ entry ∈ Tree.allEntries roots, f.node? entry.1 = some entry.2
  distinct : ((Tree.allEntries roots).map Prod.fst).Nodup

/-- The nodes of the trees are nodes of the forest. -/
lemma Represents.subset_range {f : Forest} {roots : List Tree} (h : f.Represents roots) :
    (Tree.allEntries roots).map Prod.fst ⊆ List.range f.nodes.size := by
  intro id hid
  obtain ⟨x, hx, rfl⟩ := List.mem_map.mp hid
  have hlive := h.live x hx
  rw [List.mem_range]
  by_contra hlt
  rw [Forest.node?, Array.getElem?_eq_none (Nat.not_lt.mp hlt)] at hlive
  cases hlive

/-! ## Rows that hold trees -/

mutual

/-- The payload and the rows of a forest are those of a tree. -/
def Holds (f : Forest) : Tree → Prop
  | .node id payload children =>
    f.node? id = some payload ∧ f.rowOf (some id) = children.map Tree.id ∧ f.HoldsAll children

/-- The payloads and the rows of a forest are those of all trees of a row. -/
def HoldsAll (f : Forest) : List Tree → Prop
  | [] => True
  | t :: ts => f.Holds t ∧ f.HoldsAll ts

end

section Holds

variable {f g : Forest}

@[simp] lemma holdsAll_nil : f.HoldsAll [] := by
  rw [HoldsAll]; trivial

/-- The payload and the row of the first tree, and those of the others. -/
lemma holdsAll_cons {t : Tree} {ts : List Tree} :
    f.HoldsAll (t :: ts) ↔ (f.node? t.id = some t.payload ∧
      f.rowOf (some t.id) = t.children.map Tree.id ∧ f.HoldsAll t.children) ∧
      f.HoldsAll ts := by
  cases t
  rw [HoldsAll, Holds]
  rfl

/-- Trees of two rows are held one by one. -/
lemma holdsAll_append {ts us : List Tree} :
    f.HoldsAll (ts ++ us) ↔ f.HoldsAll ts ∧ f.HoldsAll us := by
  induction ts with
  | nil => simp
  | cons t ts ih => simp only [List.cons_append, holdsAll_cons, ih, and_assoc]

mutual

/-- A tree stays where it is as long as its payloads and its rows do. -/
lemma Holds.congr : ∀ {t : Tree}, f.Holds t →
    (∀ entry ∈ t.entries, g.node? entry.1 = f.node? entry.1 ∧
      g.rowOf (some entry.1) = f.rowOf (some entry.1)) → g.Holds t
  | .node id payload children, h, hg => by
      rw [Tree.entries] at hg
      rw [Holds] at h ⊢
      obtain ⟨hnode, hrow⟩ := hg _ List.mem_cons_self
      refine ⟨hnode.trans h.1, hrow.trans h.2.1, h.2.2.congr fun entry hentry => ?_⟩
      exact hg entry (List.mem_cons_of_mem _ hentry)

/-- The same for a row of trees. -/
lemma HoldsAll.congr : ∀ {ts : List Tree}, f.HoldsAll ts →
    (∀ entry ∈ Tree.allEntries ts, g.node? entry.1 = f.node? entry.1 ∧
      g.rowOf (some entry.1) = f.rowOf (some entry.1)) → g.HoldsAll ts
  | [], _, _ => holdsAll_nil
  | t :: ts, h, hg => by
      rw [Tree.allEntries] at hg
      rw [HoldsAll] at h ⊢
      exact ⟨h.1.congr fun entry hentry => hg entry (List.mem_append_left _ hentry),
        h.2.congr fun entry hentry => hg entry (List.mem_append_right _ hentry)⟩

end

mutual

/-- All nodes of a tree that is held are live. -/
lemma Holds.live : ∀ {t : Tree}, f.Holds t →
    ∀ entry ∈ t.entries, f.node? entry.1 = some entry.2
  | .node id payload children, h, entry, hentry => by
      rw [Tree.entries] at hentry
      rw [Holds] at h
      rcases List.mem_cons.mp hentry with rfl | hentry
      · exact h.1
      · exact h.2.2.live entry hentry

/-- Trees that are held are live. -/
lemma HoldsAll.live : ∀ {ts : List Tree}, f.HoldsAll ts →
    ∀ entry ∈ Tree.allEntries ts, f.node? entry.1 = some entry.2
  | [], _, entry, hentry => by simp at hentry
  | t :: ts, h, entry, hentry => by
      rw [Tree.allEntries] at hentry
      rw [HoldsAll] at h
      rcases List.mem_append.mp hentry with hentry | hentry
      · exact h.1.live entry hentry
      · exact h.2.live entry hentry

end

mutual

/-- The links of a tree that is held, given those of its topmost node to the outside. -/
lemma Sound.linksTree (hr : f.Sound) : ∀ {t : Tree} {parent next : Option NodeId},
    f.Holds t → f.parent t.id = parent → f.nextSibling t.id = next →
    f.LinksTree parent next t
  | .node id payload children, parent, next, h, hparent, hnext => by
      rw [Holds] at h
      rw [LinksTree]
      constructor
      · have hchild : f.firstChild id = Tree.first children := by
          rw [hr.child, h.2.1, List.head?_map]; rfl
        rw [← hparent, ← hnext, ← hchild]
        rfl
      · exact hr.linksAll h.2.2 (h.2.1 ▸ hr.linked (some id))

/-- The links of trees that are held below a row of siblings. -/
lemma Sound.linksAll (hr : f.Sound) : ∀ {ts : List Tree} {parent : Option NodeId},
    f.HoldsAll ts → f.RowLinked parent (ts.map Tree.id) → f.LinksAll parent ts
  | [], _, _, _ => linksAll_nil f _
  | t :: ts, parent, h, hl => by
      rw [HoldsAll] at h
      rw [LinksAll]
      refine ⟨hr.linksTree h.1 hl.1 ?_, hr.linksAll h.2 hl.2.2⟩
      rw [hl.2.1, List.head?_map]
      rfl

end

/-- **A forest represents the trees that its rows hold.** -/
lemma represents_of_holdsAll (hr : f.Sound) {roots : List Tree}
    (hroots : f.rowOf none = roots.map Tree.id) (h : f.HoldsAll roots)
    (hd : ((Tree.allEntries roots).map Prod.fst).Nodup) : f.Represents roots where
  body := by rw [hr.body, hroots, List.head?_map]; rfl
  linked := hr.linksAll h (hroots ▸ hr.linked none)
  live := h.live
  distinct := hd

end Holds

end Forest

end Statechart
