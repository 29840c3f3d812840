import Statechart.Proofs.Chart.Chains

/-!
# Forests as rows of siblings

A forest that is being put together is a row of siblings for every parent, and a row of
top-level nodes.

* `Forest.Rows` — the rows of a whole forest, as a function of the parent.  They are its chains, and
  only nodes that were added are in them.
* `Forest.Sound` — the forest has rows; they are then found by following its links.
* **Growing** — adding a node leaves the rows as they are, and linking a loose node in makes one
  row longer by that node, at its end (`Rows.appendTo`, `Rows.pushRoot`).
-/

namespace Statechart.Forest

/-- The rows of a forest: the top-level nodes, and the children of every node.  Nodes that are in
no row have been added and are not linked in yet. -/
structure Rows (f : Forest) (rows : Option NodeId → List NodeId) : Prop where
  body : f.body = (rows none).head?
  child : ∀ id, f.firstChild id = (rows (some id)).head?
  linked : ∀ parent, f.RowLinked parent (rows parent)
  nodup : ∀ parent, (rows parent).Nodup
  bound : ∀ parent, ∀ id ∈ rows parent, id < f.nodes.size
  fresh : ∀ id, f.nodes.size ≤ id → rows (some id) = []
  loose : ∀ id, (∀ parent, id ∉ rows parent) → f.parent id = none ∧ f.nextSibling id = none

namespace Rows

variable {f g : Forest} {rows : Option NodeId → List NodeId}

/-- Rows are chains. -/
lemma chains (h : f.Rows rows) : f.Chains rows :=
  ⟨h.body, h.child, h.linked, h.nodup, h.loose⟩

/-- Chains in which only nodes that were added stand are rows. -/
lemma of_chains (h : f.Chains rows) (hbound : ∀ parent, ∀ id ∈ rows parent, id < f.nodes.size)
    (hfresh : ∀ id, f.nodes.size ≤ id → rows (some id) = []) : f.Rows rows :=
  ⟨h.body, h.child, h.linked, h.nodup, hbound, hfresh, h.loose⟩

/-- The empty forest has empty rows. -/
lemma empty : ({} : Forest).Rows fun _ => [] :=
  of_chains .empty (fun _ _ h => nomatch h) fun _ _ => rfl

/-- The rows depend on the links and on the number of nodes, and on nothing else. -/
lemma congr (h : f.Rows rows) (hl : g.links = f.links) (hb : g.body = f.body)
    (hs : g.nodes.size = f.nodes.size) : g.Rows rows :=
  of_chains (h.chains.congr hl hb) (by rw [hs]; exact h.bound) (by rw [hs]; exact h.fresh)

/-- A node that is added is in no row, and nothing is below it. -/
lemma add (h : f.Rows rows) (n : Node) : (f.add n).1.Rows rows := by
  have hsize : (f.add n).1.nodes.size = f.nodes.size + 1 := Array.size_push _
  refine of_chains (h.chains.congr rfl rfl) (fun parent id hid => ?_) fun id hid => ?_
  · rw [hsize]; exact Nat.lt_succ_of_lt (h.bound parent id hid)
  · rw [hsize] at hid; exact h.fresh id (by omega)

/-- **One row grows.**  A loose node `c` that is linked in at the end of the row of `parent`
makes that row longer, and changes no other. -/
lemma concat (h : f.Rows rows) {parent : Option NodeId} {c : NodeId}
    (hc : ∀ other, c ∉ rows other) (hlt : c < f.nodes.size)
    (hp : ∀ id, parent = some id → id < f.nodes.size)
    (hg : LinkedIn f g parent (rows parent) c) :
    g.Rows (Function.update rows parent (rows parent ++ [c])) := by
  refine of_chains (h.chains.concat hc hg) (fun other id hid => ?_) fun id hid => ?_
  · rw [hg.nodes]
    rcases Chains.mem_update.mp hid with hid | ⟨-, rfl⟩
    · exact h.bound other id hid
    · exact hlt
  · rw [hg.nodes] at hid
    rw [Function.update_of_ne fun heq => Nat.not_lt.mpr hid (hp id heq.symm)]
    exact h.fresh id hid

lemma nodes_appendTo (f : Forest) (p c : NodeId) : (f.appendTo p c).nodes = f.nodes := by
  rw [Forest.appendTo]; split <;> rfl

/-- **A loose node that is appended becomes the last child.** -/
lemma appendTo (h : f.Rows rows) {p c : NodeId} (hp : p < f.nodes.size) (hlt : c < f.nodes.size)
    (hc : ∀ other, c ∉ rows other) :
    (f.appendTo p c).Rows (Function.update rows (some p) (rows (some p) ++ [c])) :=
  h.concat hc hlt (fun _ heq => Option.some.inj heq ▸ hp) (h.chains.linkedIn_appendTo hc)

/-- **A loose node that is pushed becomes the last top-level node.** -/
lemma pushRoot (h : f.Rows rows) {c : NodeId} (hlt : c < f.nodes.size)
    (hc : ∀ other, c ∉ rows other) :
    (f.pushRoot c).Rows (Function.update rows none (rows none ++ [c])) :=
  h.concat hc hlt (fun _ heq => nomatch heq) (h.chains.linkedIn_pushRoot hc)

/-- **The rows of a forest are those that are found by following links.** -/
lemma eq_rowOf (h : f.Rows rows) : f.rowOf = rows := h.chains.eq_rowOf

end Rows

/-- The links of a forest are those of rows of siblings. -/
def Sound (f : Forest) : Prop := f.Rows f.rowOf

lemma Rows.sound {f : Forest} {rows : Option NodeId → List NodeId} (h : f.Rows rows) : f.Sound := by
  rw [Sound, h.eq_rowOf]
  exact h

end Statechart.Forest
