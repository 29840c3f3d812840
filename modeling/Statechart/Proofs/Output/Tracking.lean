import Statechart.Proofs.Output.Progress
import Statechart.Proofs.Output.Visiting

/-!
# The emitter at a position

* `Tracks` — the emitter is in the state that a position asks for.
* `Follows` — a part of the walk ends well, in the state that the next position asks for, after
  the given operations and remarks.

What the emitter reads from the forest — the parent of a node, the nodes after it, the nodes below
it — is what the position shows of the trees, as long as it tracks the position.
-/

namespace Statechart.Output

open Script

/-- The emitter is in the state that a position in the trees of a forest asks for. -/
structure Tracks (f : Forest) (pos : Position) (e : Emitter) : Prop where
  links : e.forest.links = f.links
  locations : e.forest.locations = f.locations
  live : ∀ x ∈ pos.live, e.forest.node? x.1 = some x.2
  scopes : e.scope :: e.enclosing = scopesAt pos.path pos.entered pos.ahead
  bindings : e.bindings = pendingAt pos.path pos.entered
  containers : e.writer.containers = containersAt pos.path pos.entered pos.ahead

/-- A part of the walk ends well and does what it is said to do. -/
def Follows {α : Type} (x : Emission α) (a : α) (e : Emitter) (f : Forest) (next : Position)
    (ops : List Operation) (rs : List Remark) : Prop :=
  ∃ e', x e = .ok a e' ∧ e.writer.applyAll ops = .ok e'.writer ∧ e'.remarks = e.remarks ++ rs ∧
    Tracks f next e'

/-! ## Reading the forest -/

section reading

variable {f : Forest} {roots : List Tree} (rep : f.Represents roots)
variable {path : List Level} {entered rest : List Tree} {t : Tree} {e : Emitter}

lemma location_eq (h : e.forest.locations = f.locations) : e.forest.location = f.location := by
  funext id
  rw [Forest.location, Forest.location, h]

lemma linksOf_eq (h : e.forest.links = f.links) (id : NodeId) :
    e.forest.linksOf id = f.linksOf id := by
  rw [Forest.linksOf, Forest.linksOf, h]

include rep

/-- The links of a tree in a row. -/
lemma linksOf_row (hr : Position.RowIn roots path (entered ++ t :: rest)) :
    f.linksOf t.id = ⟨parentId path, Tree.first t.children, Tree.first rest⟩ :=
  (Forest.linksAll_cons.mp
    (Position.linksAll_right (Position.linksAll_row rep.linked hr))).1

/-- Within a tree, the nodes below the topmost one are linked below it. -/
lemma linksAll_children (hr : Position.RowIn roots path (entered ++ t :: rest)) :
    f.LinksAll (some t.id) t.children :=
  (Forest.linksAll_cons.mp
    (Position.linksAll_right (Position.linksAll_row rep.linked hr))).2.1

lemma linksAll_rest (hr : Position.RowIn roots path (entered ++ t :: rest)) :
    f.LinksAll (parentId path) rest :=
  (Forest.linksAll_cons.mp
    (Position.linksAll_right (Position.linksAll_row rep.linked hr))).2.2

/-- No node occurs twice in a tree and what comes after it. -/
lemma nodup_from (hr : Position.RowIn roots path (entered ++ t :: rest)) :
    ((Tree.allEntries (t :: rest)).map Prod.fst).Nodup := by
  refine (Position.nodup_row rep.distinct [] hr).sublist (List.Sublist.map _ ?_)
  rw [Position.allEntries_append, List.append_assoc]
  exact (List.sublist_append_left _ _).trans (List.sublist_append_right _ _)

lemma nodup_ids_rest (hr : Position.RowIn roots path (entered ++ t :: rest)) :
    (rest.map Tree.id).Nodup := by
  refine (nodup_from rep hr).sublist ((Tree.map_id_sublist rest).trans (List.Sublist.map _ ?_))
  rw [Tree.allEntries_cons]
  exact List.sublist_append_right _ _

/-- The children of a tree have different numbers. -/
lemma nodup_ids_children (hr : Position.RowIn roots path (entered ++ t :: rest)) :
    (t.children.map Tree.id).Nodup := by
  refine (nodup_from rep hr).sublist
    ((Tree.map_id_sublist t.children).trans (List.Sublist.map _ ?_))
  rw [Tree.allEntries_cons]
  exact (List.sublist_cons_self _ _).trans (List.sublist_append_left _ _)

/-- The nodes after a node are the topmost ones of the rest of its row. -/
lemma following_eq (hr : Position.RowIn roots path (entered ++ t :: rest))
    (h : e.forest.links = f.links) : e.forest.following t.id = rest.map Tree.id := by
  rw [Forest.following, Forest.chain_congr h, Forest.nextSibling, linksOf_eq h,
    linksOf_row rep hr]
  exact Forest.chain_first (linksAll_rest rep hr) (nodup_ids_rest rep hr)

/-- The nodes below a node are the topmost ones of its children. -/
lemma children_eq (hr : Position.RowIn roots path (entered ++ t :: rest))
    (h : e.forest.links = f.links) : e.forest.children t.id = t.children.map Tree.id := by
  rw [Forest.children, Forest.chain_congr h, Forest.firstChild, linksOf_eq h, linksOf_row rep hr]
  exact Forest.chain_first (linksAll_children rep hr) (nodup_ids_children rep hr)

/-- The node above a node of a row is the one that the row hangs below. -/
lemma parentNode?_eq (hr : Position.RowIn roots path (entered ++ t :: rest))
    (h : e.forest.links = f.links) {seen : List Tree}
    (live : ∀ x ∈ Position.liveAbove path seen, e.forest.node? x.1 = some x.2) :
    e.forest.parentNode? t.id =
      path.head?.map fun l => Position.marked seen l.tree.payload := by
  rw [Forest.parentNode?, Forest.parent, linksOf_eq h, linksOf_row rep hr]
  cases path with
  | nil => rfl
  | cons l path =>
      rw [parentId_cons, Option.bind_some]
      exact live _ List.mem_cons_self

/-- Whether a node belongs to an invocation is seen at the node that its row hangs below. -/
lemma inInvoke_eq (hr : Position.RowIn roots path (entered ++ t :: rest))
    (h : e.forest.links = f.links) {seen : List Tree}
    (live : ∀ x ∈ Position.liveAbove path seen, e.forest.node? x.1 = some x.2) :
    Emission.inInvoke e.forest t.id = (parentPayload path).any Node.isInvoke := by
  rw [Emission.inInvoke, parentNode?_eq rep hr h live]
  cases path with
  | nil => rfl
  | cons l path => simp [Node.isInvoke]

/-- Whether a machine is nested is seen there as well. -/
lemma isNestedMachine_eq (hr : Position.RowIn roots path (entered ++ t :: rest))
    (h : e.forest.links = f.links) {seen : List Tree}
    (live : ∀ x ∈ Position.liveAbove path seen, e.forest.node? x.1 = some x.2) {n : Node}
    (hnode : e.forest.node? t.id = some n) (hn : n.isMachine = true) :
    e.forest.isNestedMachine t.id = (parentPayload path).any Node.isState := by
  rw [Forest.isNestedMachine, hnode, Option.any_some, hn, Bool.true_and,
    parentNode?_eq rep hr h live]
  cases path with
  | nil => rfl
  | cons l path => simp [Node.isState]

end reading

/-- Looking for a state among live nodes. -/
lemma hasState_eq {f : Forest} {ts : List Tree} (h : ∀ t ∈ ts, f.node? t.id = some t.payload) :
    Emission.hasState f (ts.map Tree.id) = .ok (ts.any Tree.isState) := by
  induction ts with
  | nil => rfl
  | cons t ts ih =>
      have ht := Forest.node_of_node? (h t List.mem_cons_self)
      have ih := ih fun u hu => h u (List.mem_cons_of_mem _ hu)
      rw [List.map_cons, Emission.hasState, ht, List.any_cons, Tree.isState]
      cases hs : t.payload.isState <;> simp [hs, ih]

/-- Looking for the first live node that writes something. -/
lemma firstWriting_eq {f : Forest} {ts : List Tree}
    (h : ∀ t ∈ ts, f.node? t.id = some t.payload) :
    Emission.firstWriting f (ts.map Tree.id) = .ok (Tree.firstWriting ts) := by
  induction ts with
  | nil => rfl
  | cons t ts ih =>
      have ht := Forest.node_of_node? (h t List.mem_cons_self)
      have ih := ih fun u hu => h u (List.mem_cons_of_mem _ hu)
      rw [List.map_cons, Emission.firstWriting, ht, Tree.firstWriting_cons]
      cases hp : t.payload <;> simp [Node.kind, ih]

/-- The names of live specifiers. -/
lemma filterMap_specifiers {f : Forest} {ts : List Tree}
    (h : ∀ t ∈ ts, f.node? t.id = some t.payload) :
    ((ts.map Tree.id).filterMap fun child =>
      match f.node? child with
      | some (.specifier imported _) => some imported
      | _ => none) = specifierNames ts := by
  rw [List.filterMap_map, specifierNames]
  refine List.filterMap_congr fun t ht => ?_
  rw [Function.comp_apply, h t ht]
  cases t.payload <;> rfl

end Statechart.Output
