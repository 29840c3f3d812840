import Statechart.Chart.Outline
import Statechart.Proofs.Chart.Growing

/-!
# The lines of an outline

The outline of a forest is written by functions that follow links and count levels down.  Here it
is said without them: one line for each node of the trees, in the order of `Tree.ids`.

* `Tree.allLines` — the lines of a row of trees, each with the number of its node.
* **`Forest.outline_eq`** — the outline is made of these lines.
-/

namespace Statechart

namespace Tree

mutual

/-- The lines of a tree at the given depth, each with the number of its node. -/
def lines (depth : Nat) : Tree → List (NodeId × String)
  | node id payload children =>
    (id, Forest.outlineIndent depth ++ payload.text ++ "\n") :: allLines (depth + 1) children

/-- The lines of a row of trees. -/
def allLines (depth : Nat) : List Tree → List (NodeId × String)
  | [] => []
  | t :: ts => t.lines depth ++ allLines depth ts

end

@[simp] lemma allLines_nil (depth : Nat) : allLines depth [] = [] := by rw [allLines]

/-- The line of the first tree, those below it one level deeper, and those of the others. -/
lemma allLines_cons (depth : Nat) (t : Tree) (ts : List Tree) :
    allLines depth (t :: ts) =
      (t.id, Forest.outlineIndent depth ++ t.payload.text ++ "\n") ::
        allLines (depth + 1) t.children ++ allLines depth ts := by
  cases t
  rw [allLines, lines]
  rfl

/-- There is one line for each node, in order. -/
lemma map_fst_allLines (ts : List Tree) (depth : Nat) :
    (allLines depth ts).map Prod.fst = ids ts := by
  induction ts using row_induction generalizing depth with
  | nil => simp
  | cons t ts hchildren hrest => simp [allLines_cons, hchildren, hrest]

/-- The numbers of the nodes that something hangs below. -/
def inner (ts : List Tree) : List NodeId :=
  ((allWithin ts).filter fun t => !t.children.isEmpty).map id

lemma map_id_allWithin (ts : List Tree) : (allWithin ts).map id = ids ts := by
  induction ts using row_induction with
  | nil => simp
  | cons t ts hchildren hrest => simp [allWithin_cons, hchildren, hrest]

lemma inner_sublist (ts : List Tree) : (inner ts).Sublist (ids ts) := by
  rw [inner, ← map_id_allWithin]
  exact List.filter_sublist.map _

lemma inner_cons (t : Tree) (ts : List Tree) :
    inner (t :: ts) = (if t.children.isEmpty then [] else t.id :: inner t.children) ++ inner ts := by
  by_cases h : t.children = []
  · simp [inner, allWithin_cons, h]
  · simp [inner, allWithin_cons, h]

end Tree

namespace Forest

variable {f : Forest} {roots : List Tree}

/-- A node that something hangs below has its links stored. -/
lemma lt_size_of_mem_inner {parent : Option NodeId} {ts : List Tree} (h : f.LinksAll parent ts) :
    ∀ id ∈ Tree.inner ts, id < f.links.size := by
  induction ts using Tree.row_induction generalizing parent with
  | nil => simp [Tree.inner]
  | cons t ts hchildren hrest =>
      rw [linksAll_cons] at h
      obtain ⟨hlinks, hbelow, hafter⟩ := h
      rw [Tree.inner_cons]
      refine List.forall_mem_append.mpr ⟨?_, hrest hafter⟩
      cases hc : t.children with
      | nil => simp
      | cons u us =>
          rw [hc] at hbelow hchildren hlinks
          refine List.forall_mem_cons.mpr ⟨?_, hchildren hbelow⟩
          by_contra hlt
          have hdefault : f.linksOf t.id = default := by
            rw [linksOf, SideTable.get, Array.getD_eq_getD_getElem?,
              Array.getElem?_eq_none (Nat.not_lt.mp hlt), Option.getD_none]
          rw [hdefault] at hlinks
          cases hlinks

/-- The outline of a row has the lines of its trees if there are levels enough.  Only trees with
something below them use up a level. -/
lemma outlineWithin_eq (ts : List Tree) : ∀ {parent : Option NodeId} (bound depth : Nat),
    f.LinksAll parent ts → (∀ entry ∈ Tree.allEntries ts, f.node? entry.1 = some entry.2) →
    (Tree.ids ts).Nodup → (Tree.inner ts).length ≤ bound →
    String.join ((ts.map Tree.id).map (f.outlineWithin (bound + 1) depth)) =
      String.join ((Tree.allLines depth ts).map Prod.snd) := by
  induction ts using Tree.row_induction with
  | nil => intros; simp
  | cons t ts hchildren hrest =>
      intro parent bound depth hlinks hlive hdistinct hbound
      rw [linksAll_cons] at hlinks
      obtain ⟨hlink, hbelow, hafter⟩ := hlinks
      rw [Tree.allEntries_cons] at hlive
      obtain ⟨hself, hlive⟩ := List.forall_mem_cons.mp hlive
      obtain ⟨hlivebelow, hliveafter⟩ := List.forall_mem_append.mp hlive
      rw [Tree.ids_cons, List.cons_append, List.nodup_cons, List.nodup_append] at hdistinct
      obtain ⟨-, hdistinctbelow, hdistinctafter, -⟩ := hdistinct
      rw [Tree.inner_cons, List.length_append] at hbound
      have hrow := hrest bound depth hafter hliveafter hdistinctafter (by omega)
      have hchain : f.children t.id = t.children.map Tree.id := by
        rw [children, firstChild, hlink]
        exact chain_first hbelow (hdistinctbelow.sublist (Tree.map_id_sublist _))
      have hinside : String.join ((t.children.map Tree.id).map (f.outlineWithin bound (depth + 1))) =
          String.join ((Tree.allLines (depth + 1) t.children).map Prod.snd) := by
        cases hc : t.children with
        | nil => simp
        | cons u us =>
            rw [hc] at hbound hbelow hlivebelow hdistinctbelow hchildren
            simp only [List.isEmpty_cons, Bool.false_eq_true, if_false, List.length_cons] at hbound
            obtain ⟨bound, rfl⟩ : ∃ m, bound = m + 1 := ⟨bound - 1, by omega⟩
            exact hchildren bound (depth + 1) hbelow hlivebelow hdistinctbelow (by omega)
      rw [List.map_cons, List.map_cons, String.join_cons, hrow, Tree.allLines_cons, outlineWithin,
        hself]
      simp only [hchain, hinside, List.map_cons, List.map_append, List.cons_append, String.join_cons,
        String.join_append]
      rw [String.append_assoc]

/-- **The outline of a forest** has one line for each node of its trees, in order. -/
lemma outline_eq (h : f.Represents roots) :
    f.outline = String.join ((Tree.allLines 0 roots).map Prod.snd) := by
  have hroots : f.roots = roots.map Tree.id := by
    rw [Forest.roots, h.body]
    exact chain_first h.linked (h.distinct.sublist (Tree.map_id_sublist _))
  have hinner : (Tree.inner roots).length ≤ f.links.size := by
    have hsub : Tree.inner roots ⊆ List.range f.links.size := fun id hid =>
      List.mem_range.mpr (lt_size_of_mem_inner h.linked id hid)
    have hdistinct : (Tree.inner roots).Nodup := h.distinct.sublist (Tree.inner_sublist roots)
    simpa using (List.subperm_of_subset hdistinct hsub).length_le
  rw [outline, hroots]
  exact outlineWithin_eq roots f.links.size 0 h.linked h.live h.distinct hinner

end Forest

end Statechart
