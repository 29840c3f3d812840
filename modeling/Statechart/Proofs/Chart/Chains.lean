import Mathlib.Data.List.Nodup
import Mathlib.Data.List.Perm.Subperm
import Mathlib.Logic.Function.Basic
import Statechart.Chart.Forest

/-!
# Chains of siblings

The links of a forest make up a chain of siblings for every parent, and a chain of top-level nodes.

* `Forest.RowLinked` — the links along one row: one parent, and each node linked to the next.
  The chain that the functions of `Forest` compute with a bound is the row (`chain_head?`),
  because a row without repetition is never longer than the bound.
* `Forest.LinkedIn` — what changes when a node is linked in at the end of a row: the parent of that
  node, and one link to it.
* `Forest.Chains` — the rows of a whole forest, as a function of the parent.  The nodes may have any
  numbers, also such as were never added.

**`Chains.concat`** — linking a loose node in makes one row longer by that node, at its end.  This
is what each of the three ways to link a node in does (`Chains.linkedIn_appendTo`,
`Chains.linkedIn_pushRoot`, `Chains.linkedIn_after`).
-/

namespace Statechart.Forest

/-! ## One row -/

/-- The links along a row of siblings: one parent, and each node linked to the next. -/
def RowLinked (f : Forest) (parent : Option NodeId) : List NodeId → Prop
  | [] => True
  | id :: rest => f.parent id = parent ∧ f.nextSibling id = rest.head? ∧ f.RowLinked parent rest

/-- The nodes of a row have the parent of the row. -/
lemma RowLinked.parent_eq {f : Forest} {parent : Option NodeId} : ∀ {row : List NodeId},
    f.RowLinked parent row → ∀ id ∈ row, f.parent id = parent
  | _ :: _, h, id, hid => by
      rcases List.mem_cons.mp hid with rfl | hid
      · exact h.1
      · exact h.2.2.parent_eq id hid

/-- A row is linked in every forest with the same links along it. -/
lemma RowLinked.congr {f g : Forest} {parent : Option NodeId} : ∀ {row : List NodeId},
    f.RowLinked parent row →
    (∀ id ∈ row, g.parent id = f.parent id ∧ g.nextSibling id = f.nextSibling id) →
    g.RowLinked parent row
  | [], _, _ => trivial
  | id :: _, h, hg => by
      obtain ⟨hparent, hnext⟩ := hg id List.mem_cons_self
      refine ⟨hparent.trans h.1, hnext.trans h.2.1, h.2.2.congr fun x hx => ?_⟩
      exact hg x (List.mem_cons_of_mem _ hx)

/-- The end of a row is a row. -/
lemma RowLinked.suffix {f : Forest} {parent : Option NodeId} {before row : List NodeId}
    (h : f.RowLinked parent (before ++ row)) : f.RowLinked parent row := by
  induction before with
  | nil => exact h
  | cons _ _ ih => exact ih h.2.2

/-- A node with a next sibling has stored links. -/
lemma lt_size_of_next {f : Forest} {id next : NodeId} (h : f.nextSibling id = some next) :
    id < f.links.size := by
  by_contra hlt
  have hdef : f.linksOf id = default := by
    have hnone : f.links.entries[id]? = none := Array.getElem?_eq_none (Nat.not_lt.mp hlt)
    rw [linksOf, SideTable.get, Array.getD_eq_getD_getElem?, hnone]
    rfl
  rw [nextSibling, hdef] at h
  exact nomatch h

/-- All nodes of a row but the last have stored links. -/
lemma lt_size_of_mem_dropLast {f : Forest} {parent : Option NodeId} : ∀ {row : List NodeId},
    f.RowLinked parent row → ∀ id ∈ row.dropLast, id < f.links.size
  | [], _, id, h => by simp at h
  | [_], _, id, h => by simp at h
  | x :: y :: rest, hl, id, h => by
      simp only [List.dropLast_cons_cons, List.mem_cons] at h
      rcases h with rfl | h
      · exact lt_size_of_next hl.2.1
      · exact lt_size_of_mem_dropLast hl.2.2 id h

/-- A row without repetition is not longer than the bound of `chain`. -/
lemma RowLinked.length_le {f : Forest} {parent : Option NodeId} {row : List NodeId}
    (hl : f.RowLinked parent row) (hd : row.Nodup) : row.length ≤ f.links.size + 1 := by
  have hsub : row.dropLast ⊆ List.range f.links.size := fun id h =>
    List.mem_range.mpr (lt_size_of_mem_dropLast hl id h)
  have hnd : row.dropLast.Nodup := hd.sublist (List.dropLast_sublist _)
  have hlen := (List.subperm_of_subset hnd hsub).length_le
  simp only [List.length_dropLast, List.length_range] at hlen
  omega

/-- The chain that begins with a row is that row, if the bound is as long. -/
lemma chainWithin_head? {f : Forest} {parent : Option NodeId} : ∀ {row : List NodeId} {bound : Nat},
    f.RowLinked parent row → row.length ≤ bound → f.chainWithin bound row.head? = row
  | [], bound, _, _ => by cases bound <;> rfl
  | _ :: _, 0, _, h => by simp at h
  | id :: rest, bound + 1, hl, h => by
      rw [List.head?_cons, chainWithin, hl.2.1]
      rw [chainWithin_head? hl.2.2 (by simpa using h)]

/-- **The chain from the first of a row is the row.** -/
lemma chain_head? {f : Forest} {parent : Option NodeId} {row : List NodeId}
    (hl : f.RowLinked parent row) (hd : row.Nodup) : f.chain row.head? = row :=
  chainWithin_head? hl (hl.length_le hd)

/-! ## Linking one node in -/

section Setters

-- each setter changes one link of one node
variable (f : Forest) (id x : NodeId) (link : Option NodeId)

/-- Only the parent of this one node changes. -/
lemma linksOf_setParent : (f.setParent id link).linksOf x =
    ⟨if x = id then link else f.parent x, f.firstChild x, f.nextSibling x⟩ := by
  rw [setParent, linksOf_setLinks]
  by_cases hx : x = id
  · subst hx; rw [if_pos rfl, if_pos rfl]; rfl
  · rw [if_neg hx, if_neg hx]; rfl

/-- Only the first child of this one node changes. -/
lemma linksOf_setChild : (f.setChild id link).linksOf x =
    ⟨f.parent x, if x = id then link else f.firstChild x, f.nextSibling x⟩ := by
  rw [setChild, linksOf_setLinks]
  by_cases hx : x = id
  · subst hx; rw [if_pos rfl, if_pos rfl]; rfl
  · rw [if_neg hx, if_neg hx]; rfl

/-- Only the next sibling of this one node changes. -/
lemma linksOf_setNext : (f.setNext id link).linksOf x =
    ⟨f.parent x, f.firstChild x, if x = id then link else f.nextSibling x⟩ := by
  rw [setNext, linksOf_setLinks]
  by_cases hx : x = id
  · subst hx; rw [if_pos rfl, if_pos rfl]; rfl
  · rw [if_neg hx, if_neg hx]; rfl

end Setters

section After

variable {f : Forest} {parent : Option NodeId} {first : NodeId} {rest : List NodeId} {c : NodeId}

/-- The last node of a row is found from its first. -/
lemma lastFrom_eq (hl : f.RowLinked parent (first :: rest)) (hd : (first :: rest).Nodup) :
    (first :: rest).getLast? = some (f.lastFrom first) := by
  have hchain : f.chain (some first) = first :: rest := chain_head? hl hd
  rw [lastFrom, hchain, List.getLastD_cons, List.getLast?_cons, List.getLastD_eq_getLast?]

/-- What `after` changes: the last node of the row gets a next sibling, and the new node the parent
of the row. -/
lemma linksOf_after (hl : f.RowLinked parent (first :: rest)) (hd : (first :: rest).Nodup)
    (x : NodeId) :
    (f.after first c).linksOf x = ⟨if x = c then parent else f.parent x, f.firstChild x,
      if (first :: rest).getLast? = some x then some c else f.nextSibling x⟩ := by
  have hlast : (first :: rest).getLast? = some x ↔ x = f.lastFrom first := by
    rw [lastFrom_eq hl hd, Option.some.injEq, eq_comm]
  rw [after, linksOf_setParent]
  simp only [Forest.parent, firstChild, nextSibling, linksOf_setNext, hlast, ← hl.1]

end After

/-- A row that gets one more node at its end. -/
lemma RowLinked.concat {f g : Forest} {parent : Option NodeId} {c : NodeId}
    (hparent : g.parent c = parent) (hnext : g.nextSibling c = none) : ∀ {row : List NodeId},
    f.RowLinked parent row → row.Nodup →
    (∀ id ∈ row, g.parent id = f.parent id ∧
      g.nextSibling id = if row.getLast? = some id then some c else f.nextSibling id) →
    g.RowLinked parent (row ++ [c])
  | [], _, _, _ => ⟨hparent, hnext, trivial⟩
  | [x], h, _, hg => by
      obtain ⟨hp, hn⟩ := hg x List.mem_cons_self
      rw [List.getLast?_singleton, if_pos rfl] at hn
      exact ⟨hp.trans h.1, hn, hparent, hnext, trivial⟩
  | x :: y :: rest, h, hd, hg => by
      obtain ⟨hp, hn⟩ := hg x List.mem_cons_self
      have hlast : (x :: y :: rest).getLast? = (y :: rest).getLast? := List.getLast?_cons_cons
      have hx : (y :: rest).getLast? ≠ some x := fun heq =>
        (List.nodup_cons.mp hd).1 (List.mem_of_getLast? heq)
      rw [hlast, if_neg hx] at hn
      refine ⟨hp.trans h.1, hn.trans h.2.1, ?_⟩
      refine RowLinked.concat hparent hnext h.2.2 (List.nodup_cons.mp hd).2 fun id hid => ?_
      rw [← hlast]
      exact hg id (List.mem_cons_of_mem _ hid)

/-- **What linking a node in changes.**  From `f` to `g`, the node `c` was linked in below `target`,
at the end of `row`: it has another parent, and one link leads to it, from the last node of the row
or, if the row was empty, from above. -/
structure LinkedIn (f g : Forest) (target : Option NodeId) (row : List NodeId) (c : NodeId) :
    Prop where
  parent : ∀ x, g.parent x = if x = c then target else f.parent x
  next : ∀ x, g.nextSibling x = if row.getLast? = some x then some c else f.nextSibling x
  child : ∀ x, g.firstChild x = if target = some x ∧ row = [] then some c else f.firstChild x
  body : g.body = if target = none ∧ row = [] then some c else f.body
  nodes : g.nodes = f.nodes
  locations : g.locations = f.locations

/-! ## All chains -/

/-- The chains of a forest: the top-level nodes, and the children of every node.  Nodes that are in
no chain are not linked to anything above or beside them. -/
structure Chains (f : Forest) (rows : Option NodeId → List NodeId) : Prop where
  body : f.body = (rows none).head?
  child : ∀ id, f.firstChild id = (rows (some id)).head?
  linked : ∀ parent, f.RowLinked parent (rows parent)
  nodup : ∀ parent, (rows parent).Nodup
  loose : ∀ id, (∀ parent, id ∉ rows parent) → f.parent id = none ∧ f.nextSibling id = none

/-- The row of a parent, as it is found by following links. -/
def rowOf (f : Forest) : Option NodeId → List NodeId
  | none => f.roots
  | some id => f.children id

namespace Chains

variable {f g : Forest} {rows : Option NodeId → List NodeId} {parent : Option NodeId} {c : NodeId}

/-- No node is in two rows. -/
lemma eq_of_mem (h : f.Chains rows) {other : Option NodeId} {id : NodeId}
    (hp : id ∈ rows parent) (ho : id ∈ rows other) : parent = other := by
  rw [← (h.linked parent).parent_eq id hp, (h.linked other).parent_eq id ho]

/-- The empty forest has empty chains. -/
lemma empty : ({} : Forest).Chains fun _ => [] where
  body := rfl
  child _ := rfl
  linked _ := trivial
  nodup _ := List.nodup_nil
  loose _ _ := ⟨rfl, rfl⟩

/-- **The chains of a forest are those that are found by following links.** -/
lemma eq_rowOf (h : f.Chains rows) : f.rowOf = rows := by
  funext parent
  cases parent with
  | none => rw [rowOf, roots, h.body, chain_head? (h.linked none) (h.nodup none)]
  | some id => rw [rowOf, children, h.child, chain_head? (h.linked _) (h.nodup _)]

/-- The chains depend on the links and on nothing else. -/
lemma congr (h : f.Chains rows) (hl : g.links = f.links) (hb : g.body = f.body) :
    g.Chains rows := by
  have hlinks : ∀ id, g.linksOf id = f.linksOf id := fun id => by rw [linksOf, linksOf, hl]
  constructor
  case body => rw [hb]; exact h.body
  case child => intro id; rw [firstChild, hlinks]; exact h.child id
  case linked =>
    intro parent
    refine (h.linked parent).congr fun id _ => ?_
    rw [Forest.parent, Forest.parent, nextSibling, nextSibling, hlinks]
    exact ⟨rfl, rfl⟩
  case nodup => exact h.nodup
  case loose =>
    intro id hid
    rw [Forest.parent, nextSibling, hlinks]
    exact h.loose id hid

/-- A row of the longer chains, with the new node at its end or as it was. -/
lemma update_apply {rows : Option NodeId → List NodeId} (other : Option NodeId) :
    Function.update rows parent (rows parent ++ [c]) other =
      rows other ++ if parent = other then [c] else [] := by
  by_cases ho : parent = other
  · subst ho
    rw [Function.update_self, if_pos rfl]
  · rw [Function.update_of_ne (Ne.symm ho), if_neg ho, List.append_nil]

/-- A node is in a row of the longer chains if it was in that row, or is the new one. -/
lemma mem_update {rows : Option NodeId → List NodeId} {other : Option NodeId} {id : NodeId} :
    id ∈ Function.update rows parent (rows parent ++ [c]) other ↔
      id ∈ rows other ∨ other = parent ∧ id = c := by
  rw [update_apply]
  by_cases ho : parent = other
  · simp [ho]
  · simp [ho, Ne.symm ho]

/-- The first node of a row of the longer chains. -/
lemma head?_update {rows : Option NodeId → List NodeId} (other : Option NodeId) :
    (Function.update rows parent (rows parent ++ [c]) other).head? =
      if parent = other ∧ rows parent = [] then some c else (rows other).head? := by
  rw [update_apply]
  by_cases ho : parent = other
  · subst ho
    cases rows parent <;> simp
  · simp [ho]

/-- **One row grows.**  A loose node that is linked in at the end of a row makes that row longer,
and changes no other. -/
lemma concat (h : f.Chains rows) (hc : ∀ other, c ∉ rows other)
    (hg : LinkedIn f g parent (rows parent) c) :
    g.Chains (Function.update rows parent (rows parent ++ [c])) := by
  have hcnext : g.nextSibling c = none := by
    rw [hg.next, if_neg fun heq => hc parent (List.mem_of_getLast? heq)]
    exact (h.loose c hc).2
  have hold : ∀ x ≠ c, g.parent x = f.parent x := fun x hx => by rw [hg.parent, if_neg hx]
  constructor
  case body => rw [head?_update, hg.body, h.body]
  case child =>
    intro x
    rw [head?_update, hg.child, h.child]
  case linked =>
    intro other
    by_cases ho : other = parent
    · subst ho
      rw [Function.update_self]
      refine RowLinked.concat (by rw [hg.parent, if_pos rfl]) hcnext (h.linked _) (h.nodup _)
        fun id hid => ⟨hold id fun heq => hc _ (heq ▸ hid), hg.next id⟩
    · rw [Function.update_of_ne ho]
      refine (h.linked other).congr fun id hid => ⟨hold id fun heq => hc _ (heq ▸ hid), ?_⟩
      rw [hg.next, if_neg fun heq => ho (h.eq_of_mem hid (List.mem_of_getLast? heq))]
  case nodup =>
    intro other
    by_cases ho : other = parent
    · subst ho
      rw [Function.update_self]
      exact (h.nodup _).append (List.nodup_singleton c) (by simpa using hc _)
    · rw [Function.update_of_ne ho]; exact h.nodup other
  case loose =>
    intro id hid
    have hidc : id ≠ c := fun heq => hid parent (mem_update.mpr (.inr ⟨rfl, heq⟩))
    have hrow : ∀ other, id ∉ rows other := fun other hmem =>
      hid other (mem_update.mpr (.inl hmem))
    rw [hold id hidc, hg.next, if_neg fun heq => hrow _ (List.mem_of_getLast? heq)]
    exact h.loose id hrow

/-! ### Three ways to link a node in -/

/-- Behind a sibling, wherever that one stands in its row. -/
lemma linkedIn_after (h : f.Chains rows) {s : NodeId} (hs : s ∈ rows parent) (c : NodeId) :
    LinkedIn f (f.after s c) parent (rows parent) c := by
  obtain ⟨before, rest, hrow⟩ := List.append_of_mem hs
  have hl : f.RowLinked parent (s :: rest) := (hrow ▸ h.linked parent).suffix
  have hd : (s :: rest).Nodup := (hrow ▸ h.nodup parent).of_append_right
  have hlinks := fun x => linksOf_after (c := c) hl hd x
  have hlast : (rows parent).getLast? = (s :: rest).getLast? := by
    rw [hrow, List.getLast?_append_of_ne_nil _ (List.cons_ne_nil _ _)]
  have hne : rows parent ≠ [] := by rw [hrow]; simp
  constructor
  case parent => intro x; rw [Forest.parent, hlinks]
  case next => intro x; rw [nextSibling, hlinks, hlast]
  case child => intro x; rw [if_neg fun heq => hne heq.2, firstChild, hlinks]
  case body => rw [if_neg fun heq => hne heq.2]; rfl
  case nodes => rfl
  case locations => rfl

/-- Below a parent.  The parent of the new node is set first, and then once more if it has a
sibling. -/
lemma linkedIn_appendTo (h : f.Chains rows) {p c : NodeId} (hc : ∀ other, c ∉ rows other) :
    LinkedIn f (f.appendTo p c) (some p) (rows (some p)) c := by
  have hset := fun y => linksOf_setParent f c y (some p)
  have hfirst : (f.setParent c (some p)).firstChild p = (rows (some p)).head? := by
    rw [firstChild, hset]
    exact h.child p
  cases hrow : rows (some p) with
  | nil =>
      -- the first child of `p`: the links of `p` change, and no sibling does
      have hlinks : ∀ x, (f.appendTo p c).linksOf x = ⟨if x = c then some p else f.parent x,
          if x = p then some c else f.firstChild x, f.nextSibling x⟩ := by
        intro x
        rw [Forest.appendTo, hfirst, hrow]
        show ((f.setParent c (some p)).setChild p (some c)).linksOf x = _
        rw [linksOf_setChild, Forest.parent, firstChild, nextSibling, hset]
      constructor
      case parent => intro x; rw [Forest.parent, hlinks]
      case next => intro x; rw [nextSibling, hlinks]; rfl
      case child => intro x; rw [firstChild, hlinks]; simp [eq_comm]
      case body => rw [Forest.appendTo, hfirst, hrow]; rfl
      case nodes => rw [Forest.appendTo, hfirst, hrow]; rfl
      case locations => rw [Forest.appendTo, hfirst, hrow]; rfl
  | cons first rest =>
      have hl : (f.setParent c (some p)).RowLinked (some p) (first :: rest) := by
        refine RowLinked.congr (hrow ▸ h.linked (some p)) fun id hid => ?_
        have hne : id ≠ c := fun heq => hc (some p) (by rw [hrow, ← heq]; exact hid)
        rw [Forest.parent, nextSibling, hset, if_neg hne]
        exact ⟨rfl, rfl⟩
      have heq : f.appendTo p c = (f.setParent c (some p)).after first c := by
        rw [Forest.appendTo, hfirst, hrow]
        rfl
      have hlinks : ∀ x, (f.appendTo p c).linksOf x =
          ⟨if x = c then some p else f.parent x, f.firstChild x,
            if (first :: rest).getLast? = some x then some c else f.nextSibling x⟩ := by
        intro x
        rw [heq, linksOf_after hl (hrow ▸ h.nodup (some p)), Forest.parent, nextSibling, firstChild,
          hset]
        by_cases hx : x = c
        · simp only [hx, if_true]
        · simp only [hx, if_false]
      constructor
      case parent => intro x; rw [Forest.parent, hlinks]
      case next => intro x; rw [nextSibling, hlinks]
      case child => intro x; rw [firstChild, hlinks]; simp
      case body => rw [heq]; simp; rfl
      case nodes => rw [heq]; rfl
      case locations => rw [heq]; rfl

/-- At the top level. -/
lemma linkedIn_pushRoot (h : f.Chains rows) (hc : ∀ other, c ∉ rows other) :
    LinkedIn f (f.pushRoot c) none (rows none) c := by
  cases hrow : rows none with
  | nil =>
      have heq : f.pushRoot c = { f with body := some c } := by
        rw [Forest.pushRoot, h.body, hrow]
        rfl
      rw [heq]
      constructor
      case parent =>
        intro x
        by_cases hx : x = c
        · subst hx; rw [if_pos rfl]; exact (h.loose x hc).1
        · rw [if_neg hx]; rfl
      case next => intro x; rfl
      case child => intro x; simp; rfl
      case body => rfl
      case nodes => rfl
      case locations => rfl
  | cons first rest =>
      have heq : f.pushRoot c = f.after first c := by
        rw [Forest.pushRoot, h.body, hrow]
        rfl
      rw [heq, ← hrow]
      exact h.linkedIn_after (by rw [hrow]; exact List.mem_cons_self) c

end Chains

end Statechart.Forest
