import Statechart.Proofs.Chart.Outline

/-!
# Looking nodes up in a forest

A forest that represents trees answers every question about a node as the tree of that node does.

* `Tree.mem_allWithin` — every tree inside a row is one of the row, or stands below another.
* `Forest.Represents.node?_eq`, `children_eq`, `roots_eq`, `parent_root`, `parent_child` — payload,
  children and parent of a node.
-/

namespace Statechart

namespace Tree

/-- A tree inside a row is one of the row, or hangs directly below a tree inside the row. -/
lemma mem_allWithin {t : Tree} {ts : List Tree} :
    t ∈ allWithin ts ↔ t ∈ ts ∨ ∃ u ∈ allWithin ts, t ∈ u.children := by
  induction ts using row_induction with
  | nil => simp
  | cons u us hchildren hrest =>
      simp only [allWithin_cons, List.cons_append, List.mem_cons, List.mem_append, hchildren, hrest]
      constructor
      · rintro (rfl | (h | ⟨v, hv, h⟩) | h | ⟨v, hv, h⟩)
        · exact .inl (.inl rfl)
        · exact .inr ⟨u, .inl rfl, h⟩
        · exact .inr ⟨v, .inr (.inl hv), h⟩
        · exact .inl (.inr h)
        · exact .inr ⟨v, .inr (.inr hv), h⟩
      · rintro ((rfl | h) | ⟨v, rfl | hv | hv, h⟩)
        · exact .inl rfl
        · exact .inr (.inr (.inl h))
        · exact .inr (.inl (.inl h))
        · exact .inr (.inl (.inr ⟨v, hv, h⟩))
        · exact .inr (.inr (.inr ⟨v, hv, h⟩))

/-- Every node of a row is that of a tree inside it. -/
lemma exists_tree {ts : List Tree} {id : NodeId} (h : id ∈ ids ts) :
    ∃ t ∈ allWithin ts, t.id = id := by
  rw [← map_id_allWithin] at h
  exact List.mem_map.mp h

/-- What is inside a tree is inside the row, in the order of the row. -/
lemma allWithin_children_sublist {t : Tree} {ts : List Tree} (h : t ∈ allWithin ts) :
    (allWithin t.children).Sublist (allWithin ts) := by
  induction ts using row_induction with
  | nil => simp at h
  | cons u us hchildren hrest =>
      rw [allWithin_cons, List.cons_append, List.mem_cons, List.mem_append] at h
      rw [allWithin_cons, List.cons_append]
      refine List.Sublist.cons _ ?_
      rcases h with rfl | h | h
      · exact List.sublist_append_left _ _
      · exact (hchildren h).trans (List.sublist_append_left _ _)
      · exact (hrest h).trans (List.sublist_append_right _ _)

lemma ids_children_sublist {t : Tree} {ts : List Tree} (h : t ∈ allWithin ts) :
    (ids t.children).Sublist (ids ts) := by
  rw [← map_id_allWithin, ← map_id_allWithin]
  exact (allWithin_children_sublist h).map id

/-- The shape of a row is that of every row inside it. -/
lemma allShaped_within {parent : Option Kind} {ts : List Tree} (h : allShaped parent ts = true) :
    ∀ t ∈ allWithin ts, allShaped (some t.payload.kind) t.children = true := by
  induction ts using row_induction generalizing parent with
  | nil => simp
  | cons t ts hchildren hrest =>
      obtain ⟨-, -, hbelow, hafter⟩ := allShaped_cons.mp h
      rw [allWithin_cons, List.cons_append, List.forall_mem_cons, List.forall_mem_append]
      exact ⟨hbelow, hchildren hbelow, hrest hafter⟩

end Tree

namespace Forest

variable {f : Forest} {roots : List Tree}

/-- The links of every tree inside a row that is linked. -/
lemma linksAll_within {parent : Option NodeId} {ts : List Tree} (h : f.LinksAll parent ts) :
    (∀ t ∈ ts, f.parent t.id = parent) ∧
      ∀ t ∈ Tree.allWithin ts, f.firstChild t.id = Tree.first t.children ∧
        f.LinksAll (some t.id) t.children := by
  induction ts using Tree.row_induction generalizing parent with
  | nil => simp
  | cons t ts hchildren hrest =>
      rw [linksAll_cons] at h
      obtain ⟨hlinks, hbelow, hafter⟩ := h
      have hchild : f.firstChild t.id = Tree.first t.children := by rw [firstChild, hlinks]
      refine ⟨List.forall_mem_cons.mpr ⟨by rw [Forest.parent, hlinks], (hrest hafter).1⟩, ?_⟩
      rw [Tree.allWithin_cons, List.cons_append, List.forall_mem_cons, List.forall_mem_append]
      exact ⟨⟨hchild, hbelow⟩, (hchildren hbelow).2, (hrest hafter).2⟩

namespace Represents

variable (h : f.Represents roots)

include h

/-- If the trees have as many nodes as the forest, every node of the forest is one of them. -/
lemma mem_ids (hsize : f.nodes.size = (Tree.ids roots).length) {id : NodeId}
    (hid : id < f.nodes.size) : id ∈ Tree.ids roots := by
  have hle : (List.range f.nodes.size).length ≤ (Tree.ids roots).length :=
    Nat.le_of_eq (List.length_range.trans hsize)
  exact ((List.subperm_of_subset h.distinct h.subset_range).perm_of_length_le hle).mem_iff.mpr
    (List.mem_range.mpr hid)

lemma roots_eq : f.roots = roots.map Tree.id := by
  rw [Forest.roots, h.body]
  exact chain_first h.linked (h.distinct.sublist (Tree.map_id_sublist _))

lemma parent_root {t : Tree} (ht : t ∈ roots) : f.parent t.id = none :=
  (linksAll_within h.linked).1 t ht

lemma parent_child {t u : Tree} (hu : u ∈ Tree.allWithin roots) (ht : t ∈ u.children) :
    f.parent t.id = some u.id :=
  (linksAll_within ((linksAll_within h.linked).2 u hu).2).1 t ht

/-- The children of a node are the roots of the trees below it. -/
lemma children_eq {t : Tree} (ht : t ∈ Tree.allWithin roots) :
    f.children t.id = t.children.map Tree.id := by
  obtain ⟨hchild, hlinks⟩ := (linksAll_within h.linked).2 t ht
  have hdistinct : (Tree.ids t.children).Nodup :=
    List.Nodup.sublist (Tree.ids_children_sublist ht) h.distinct
  rw [Forest.children, hchild]
  exact chain_first hlinks (hdistinct.sublist (Tree.map_id_sublist _))

/-- The payload of a node is that of its tree. -/
lemma node?_eq {t : Tree} (ht : t ∈ Tree.allWithin roots) : f.node? t.id = some t.payload := by
  -- the entries are those of the trees inside the row
  have hentries : ∀ ts : List Tree, ∀ u ∈ Tree.allWithin ts,
      (u.id, u.payload) ∈ Tree.allEntries ts := by
    intro ts
    induction ts using Tree.row_induction with
    | nil => simp
    | cons v vs hchildren hrest =>
        intro u hu
        rw [Tree.allWithin_cons, List.cons_append, List.mem_cons, List.mem_append] at hu
        rw [Tree.allEntries_cons, List.cons_append, List.mem_cons, List.mem_append]
        rcases hu with rfl | hu | hu
        · exact .inl rfl
        · exact .inr (.inl (hchildren u hu))
        · exact .inr (.inr (hrest u hu))
  exact h.live _ (hentries roots t ht)

end Represents

end Forest

end Statechart
