import Statechart.Proofs.Chart.Lookup
import Statechart.Proofs.Language.Extents
import Statechart.Proofs.Language.Occurrence
import Statechart.Proofs.Output.Entries

/-!
# From a declaration to its node and its entry

A state stands in a machine below other states.  Their names lead to its object in the
configuration of the machine, and its node is among those of the chart.

* `Inside` — one state is another, or stands inside it, with the names on the way.
* `Stands` — a state of a chart, with its machine and the names on the way.

**`Stands.address`** — the tree of a state, where it is located, and the way to its object.
**`mem_clauseTrees`** — the tree of a clause below its state, and where it is located.
-/

namespace Statechart.Language

open Statechart.Tree Output Script

/-! ## States inside states -/

/-- A state is another one, or stands inside it.  The names are those of the states around it, from
outside to inside, and its own. -/
inductive Inside : StateDecl → List String → StateDecl → Prop
  | self (d : StateDecl) : Inside d [d.head.name] d
  | state {d e inner : StateDecl} {names : List String} :
      .state e ∈ d.body → Inside e names inner → Inside d (d.head.name :: names) inner

/-- A state of a machine of a chart. -/
def Stands (items : List Item) (m : MachineDecl) (names : List String) (d : StateDecl) : Prop :=
  .machine m ∈ items ∧ ∃ e, .state e ∈ m.body ∧ Inside e names d

lemma Inside.inBody {d e : StateDecl} {names : List String} (h : Inside d names e) :
    InBody d.body e.body := by
  induction h with
  | self d => exact .self d.body
  | state he _ ih => exact .state he ih

lemma Stands.stateBody {items : List Item} {m : MachineDecl} {names : List String} {d : StateDecl}
    (h : Stands items m names d) : StateBody items d.body := by
  obtain ⟨hm, e, he, hinside⟩ := h
  exact ⟨m, e, hm, he, hinside.inBody⟩

/-! ## Trees -/

section trees

variable {locate : NodeId → Option Span}

/-- The tree of one of several declarations that are numbered one after the other. -/
lemma mem_numbered {α : Type} {tree : NodeId → α → Tree} {m : α → List Span}
    (hsize : ∀ a n, (tree n a).size = (m a).length) {as : List α} {a : α} (ha : a ∈ as)
    {n : NodeId} (hagrees : Agrees locate n (as.flatMap m)) :
    ∃ k, tree k a ∈ numbered tree n as ∧ Agrees locate k (m a) := by
  induction as generalizing n with
  | nil => simp at ha
  | cons b bs ih =>
      rw [List.flatMap_cons, agrees_append, ← hsize b n] at hagrees
      rw [numbered]
      rcases List.mem_cons.mp ha with rfl | hrest
      · exact ⟨n, List.mem_cons_self, hagrees.1⟩
      · obtain ⟨k, hmem, hk⟩ := ih hrest hagrees.2
        exact ⟨k, List.mem_cons_of_mem _ hmem, hk⟩

/-- The tree of a clause in its row, and where its nodes are located. -/
lemma mem_rowTrees {body : List Clause} {c : Clause} (hc : c ∈ body) {n : NodeId}
    (hagrees : Agrees locate n (rowPlaces body)) :
    ∃ k, c.tree k ∈ rowTrees n body ∧ Agrees locate k c.places := by
  induction body generalizing n with
  | nil => simp at hc
  | cons b rest ih =>
      rw [rowPlaces, agrees_append, ← b.length_places n] at hagrees
      rw [rowTrees]
      rcases List.mem_cons.mp hc with rfl | hrest
      · exact ⟨n, List.mem_cons_self, hagrees.1⟩
      · obtain ⟨k, hmem, hk⟩ := ih hrest hagrees.2
        exact ⟨k, List.mem_cons_of_mem _ hmem, hk⟩

/-- The row of all clauses from the first inner state on. -/
lemma agrees_rowPlaces {c : Clause} {rest : List Clause} (hc : c.state?.isSome = true) {n : NodeId}
    (hagrees : Agrees locate n (clausePlaces (c :: rest))) :
    Agrees locate (n + 1) (rowPlaces (c :: rest)) := by
  rw [clausePlaces, hc, if_pos rfl] at hagrees
  rw [rowPlaces]
  exact hagrees.2

/-- **The tree of a clause that is no state** hangs below the tree of its state. -/
lemma mem_clauseTrees {body : List Clause} {c : Clause} (hc : c ∈ body) (hstate : c.state? = none)
    {n : NodeId} (hagrees : Agrees locate n (clausePlaces body)) :
    ∃ k, c.tree k ∈ clauseTrees n body ∧ Agrees locate k c.places := by
  induction body generalizing n with
  | nil => simp at hc
  | cons b rest ih =>
      cases hb : b.state?.isSome with
      | false =>
          have hnone : b.state? = none := by simpa using hb
          rw [clausePlaces, hb, if_neg (by simp), agrees_append, ← b.length_places n] at hagrees
          rw [clauseTrees_cons n hnone]
          rcases List.mem_cons.mp hc with rfl | hrest
          · exact ⟨n, List.mem_cons_self, hagrees.1⟩
          · obtain ⟨k, hmem, hk⟩ := ih hrest hagrees.2
            exact ⟨k, List.mem_cons_of_mem _ hmem, hk⟩
      | true =>
          obtain ⟨k, hmem, hk⟩ := mem_rowTrees hc (agrees_rowPlaces hb hagrees)
          have hother : (!(c.tree k).isState) = true := by simp [c.isState_tree, hstate]
          rw [clauseTrees_gathered n hb]
          exact ⟨k, List.mem_cons_of_mem _ (List.mem_filter.mpr ⟨hmem, hother⟩), hk⟩

/-- The tree of an inner state hangs below a machine. -/
lemma mem_clauseTrees_state {body : List Clause} {d : StateDecl} (hd : .state d ∈ body) {n : NodeId}
    (hagrees : Agrees locate n (clausePlaces body)) :
    ∃ t ∈ clauseTrees n body, ∃ m, t.payload = .machine m ∧
      ∃ k, d.tree k ∈ t.children ∧ Agrees locate k d.places := by
  induction body generalizing n with
  | nil => simp at hd
  | cons b rest ih =>
      cases hb : b.state?.isSome with
      | false =>
          have hnone : b.state? = none := by simpa using hb
          rw [clausePlaces, hb, if_neg (by simp), agrees_append, ← b.length_places n] at hagrees
          rw [clauseTrees_cons n hnone]
          rcases List.mem_cons.mp hd with rfl | hrest
          · simp [Clause.state?] at hnone
          · obtain ⟨t, ht, hrow⟩ := ih hrest hagrees.2
            exact ⟨t, List.mem_cons_of_mem _ ht, hrow⟩
      | true =>
          obtain ⟨k, hmem, hk⟩ := mem_rowTrees hd (agrees_rowPlaces hb hagrees)
          have hstate : ((Clause.state d).tree k).isState = true := (Clause.state d).isState_tree k
          rw [Clause.places] at hk
          rw [clauseTrees_gathered n hb]
          refine ⟨_, List.mem_cons_self, _, rfl, k, ?_, hk⟩
          have hin := List.mem_filter.mpr ⟨hmem, hstate⟩
          rwa [Clause.tree] at hin

end trees

/-! ## States -/

section states

variable {locate : NodeId → Option Span}

lemma StateDecl.payload_tree (d : StateDecl) (n : NodeId) :
    (d.tree n).payload = .state d.head.state := by
  cases d
  rw [StateDecl.tree]
  rfl

lemma StateDecl.children_tree (d : StateDecl) (n : NodeId) :
    (d.tree n).children = clauseTrees (n + 1) d.body := by
  cases d
  rw [StateDecl.tree]
  rfl

lemma StateDecl.agrees_body (d : StateDecl) {n : NodeId} (h : Agrees locate n d.places) :
    Agrees locate (n + 1) (clausePlaces d.body) := by
  cases d
  rw [StateDecl.places] at h
  exact h.2

/-- **The way to a state** from the properties that its outermost state is among. -/
lemma Inside.address {d e : StateDecl} {names : List String} (h : Inside d names e)
    {row : List Tree} {ps : List (String × Value)} {n : NodeId} (hd : d.tree n ∈ row)
    (hps : ("states", .object (stateProperties row)) ∈ ps) (hagrees : Agrees locate n d.places) :
    ∃ k, e.tree k ∈ allWithin row ∧ Agrees locate k e.places ∧
      (Value.object ps).Follows (statePath names)
        (stateObject e.head.state (clauseTrees (k + 1) e.body)) := by
  induction h generalizing row ps n with
  | self d =>
      have hfollows := follows_stateObject hd (d.payload_tree n) hps
      rw [d.children_tree] at hfollows
      exact ⟨n, Tree.mem_allWithin.mpr (.inl hd), hagrees, hfollows⟩
  | @state d e inner names he _ ih =>
      obtain ⟨t, ht, m, hm, k, hk, hplaces⟩ := mem_clauseTrees_state he (d.agrees_body hagrees)
      have hstates : ("states", .object (stateProperties t.children)) ∈
          finalProperty d.head.state ++
            (sections (clauseTrees (n + 1) d.body)).flatMap Section.properties :=
        List.mem_append_right _ (mem_sections_machine ht hm rfl hk (e.payload_tree k))
      obtain ⟨k', hinner, hplaces', hrest⟩ := ih hk hstates hplaces
      have hfirst := follows_stateObject hd (d.payload_tree n) hps
      rw [d.children_tree] at hfirst
      have htin : t ∈ allWithin row := by
        have hbelow := allWithin_children_sublist (Tree.mem_allWithin.mpr (.inl hd))
        rw [d.children_tree] at hbelow
        exact hbelow.subset (Tree.mem_allWithin.mpr (.inl ht))
      exact ⟨k', (allWithin_children_sublist htin).subset hinner, hplaces', hfirst.append hrest⟩

/-- **The address of a state**: its tree is one of the chart and is located where the state is
written, and the names lead to its object. -/
lemma Stands.address {items : List Item} {m : MachineDecl} {names : List String} {d : StateDecl}
    (h : Stands items m names d) (hagrees : Agrees locate 0 (items.flatMap Item.places)) :
    ∃ t ∈ itemTrees items, ∃ machine k, t.payload = .machine machine ∧ machine.name = m.name ∧
      d.tree k ∈ allWithin (itemTrees items) ∧ Agrees locate k d.places ∧
      (configuration machine t.children).Follows (statePath names)
        (stateObject d.head.state (clauseTrees (k + 1) d.body)) := by
  obtain ⟨hm, e, he, hinside⟩ := h
  obtain ⟨n, ht, hplaces⟩ := mem_numbered Item.length_places hm hagrees
  obtain ⟨n', he', hplaces'⟩ := mem_numbered MachineClause.length_places he hplaces.2
  have hstates := mem_machineProperties he' (e.payload_tree n')
    { name := m.name, initial := firstInitial (stateHeads m.body) }
  obtain ⟨k, hk, hdplaces, hfollows⟩ := hinside.address he' hstates hplaces'
  have hin := allWithin_children_sublist (Tree.mem_allWithin.mpr (.inl ht))
  exact ⟨m.tree n, ht, _, k, rfl, rfl, hin.subset hk, hdplaces, hfollows⟩

end states

end Statechart.Language
