import Statechart.Proofs.Language.Placing
import Statechart.Proofs.Language.Shape

/-!
# Nodes lie as their declarations do

The spans of declarations follow each other and nest.  So do the locations of the nodes that the
declarations add, with one exception: the machine that gathers the inner states of a state has the
location of the first of them, and all of them lie inside the state.

* `Tree.Lies` — the trees of a row are located one behind the other between two offsets.
* `Tree.Gathered` — a machine for inner states: it has the location of the first of them.
* `Tree.Settled` — what hangs below a node lies inside it, and so does what is gathered there.
* `Agrees` — the nodes from a given number on are located at the given spans.

**`settled_itemTrees`** — this holds of every chart whose regions are laid.
-/

namespace Statechart

namespace Tree

variable {locate : NodeId → Option Span}

/-- The trees of a row are located one behind the other between two offsets, and no location is
empty. -/
def Lies (locate : NodeId → Option Span) : Nat → Nat → List Tree → Prop
  | _, _, [] => True
  | lo, hi, t :: ts => ∃ s, locate t.id = some s ∧ lo ≤ s.start ∧ s.start < s.stop ∧ s.stop ≤ hi ∧
      Lies locate s.stop hi ts

/-- There may be more room on both sides. -/
lemma Lies.mono {lo lo' hi hi' : Nat} (hlo : lo ≤ lo') (hhi : hi' ≤ hi) {ts : List Tree}
    (h : Lies locate lo' hi' ts) : Lies locate lo hi ts := by
  induction ts generalizing lo lo' with
  | nil => trivial
  | cons t ts ih =>
      obtain ⟨s, hs, hstart, hlt, hstop, hrest⟩ := h
      exact ⟨s, hs, by omega, hlt, by omega, ih (Nat.le_refl _) hrest⟩

/-- A part of a row lies as the row does. -/
lemma Lies.sublist {hi : Nat} {ts us : List Tree} (hsub : us.Sublist ts) {lo : Nat}
    (h : Lies locate lo hi ts) : Lies locate lo hi us := by
  induction hsub generalizing lo with
  | slnil => trivial
  | cons t _ ih =>
      obtain ⟨s, -, hstart, hlt, -, hrest⟩ := h
      exact ih (hrest.mono (by omega) (Nat.le_refl _))
  | cons_cons t _ ih =>
      obtain ⟨s, hs, hstart, hlt, hstop, hrest⟩ := h
      exact ⟨s, hs, hstart, hlt, hstop, ih hrest⟩

/-- A machine that gathers states: it is located where the first of them is, and they lie in a row
between the two offsets. -/
def Gathered (locate : NodeId → Option Span) (lo hi : Nat) (m : Tree) : Prop :=
  (∃ first rest, m.children = first :: rest ∧ locate m.id = locate first.id) ∧
    Lies locate lo hi m.children

/-- What hangs below a node lies inside the location of the node.  Machines are left out here; what
a machine below a state has gathered lies inside the state. -/
structure Settled (locate : NodeId → Option Span) (t : Tree) : Prop where
  inside : t.payload.isMachine = false → ∀ s, locate t.id = some s →
    Lies locate s.start s.stop t.children
  gathered : t.isState = true → ∀ s, locate t.id = some s →
    ∀ m ∈ t.children, m.payload.isMachine = true → Gathered locate s.start s.stop m

/-- The tree is located at the span, and all that is in it is settled. -/
def Sits (locate : NodeId → Option Span) (s : Span) (t : Tree) : Prop :=
  locate t.id = some s ∧ ∀ u ∈ t.within, u.Settled locate

/-- A leaf has nothing inside. -/
lemma sits_leaf {n : NodeId} {payload : Node} {s : Span} (h : locate n = some s) :
    Sits locate s (leaf n payload) := by
  refine ⟨h, forall_within.mpr ⟨⟨?_, ?_⟩, by simp [leaf]⟩⟩
  · intro _ s' _
    trivial
  · intro _ s' _ m hm
    simp [leaf] at hm

/-- A node that is neither a machine nor a state sits where it is located, if what hangs below it
lies there. -/
lemma sits_node {n : NodeId} {payload : Node} {ts : List Tree} {s : Span} (hn : locate n = some s)
    (hstate : payload.isState = false) (hlies : Lies locate s.start s.stop ts)
    (hts : ∀ t ∈ ts, ∀ u ∈ t.within, u.Settled locate) : Sits locate s (.node n payload ts) := by
  refine ⟨hn, forall_within.mpr ⟨⟨?_, ?_⟩, forall_allWithin.mpr hts⟩⟩
  · intro _ s' hs'
    obtain rfl := Option.some.inj (hn.symm.trans hs')
    exact hlies
  · intro hs
    exact absurd hs (by simp [isState, hstate])

/-- Of a machine nothing is asked but that what hangs below it is settled. -/
lemma settled_machine {n : NodeId} {m : Machine} {ts : List Tree}
    (hts : ∀ t ∈ ts, ∀ u ∈ t.within, u.Settled locate) :
    ∀ u ∈ (Tree.node n (.machine m) ts).within, u.Settled locate := by
  refine forall_within.mpr ⟨⟨?_, ?_⟩, forall_allWithin.mpr hts⟩
  · intro hother
    exact absurd hother (by simp [Node.isMachine, Node.kind])
  · intro hother
    exact absurd hother (by simp [isState, Node.isState, Node.kind])

/-- **A row whose states are gathered.**  A machine takes the place of the first state of the row,
and all states of the row go below it.  They lie where the row did, and so does what is left. -/
lemma lies_gathered {n : NodeId} {m : Machine} {first : Tree} {rest : List Tree} {lo hi : Nat}
    (hn : locate n = locate first.id) (hfirst : first.isState = true)
    (hlies : Lies locate lo hi (first :: rest)) :
    Lies locate lo hi (.node n (.machine m) ((first :: rest).filter isState) ::
        (first :: rest).filter (!isState ·)) ∧
      Gathered locate lo hi (.node n (.machine m) ((first :: rest).filter isState)) := by
  have hstates : (first :: rest).filter isState = first :: rest.filter isState :=
    List.filter_cons_of_pos hfirst
  have hothers : (first :: rest).filter (!isState ·) = rest.filter (!isState ·) :=
    List.filter_cons_of_neg (by simp [hfirst])
  refine ⟨?_, ⟨_, _, hstates, hn⟩, hlies.sublist List.filter_sublist⟩
  obtain ⟨s, hs, hstart, hlt, hstop, hrest⟩ := hlies
  refine ⟨s, hn.trans hs, hstart, hlt, hstop, ?_⟩
  rw [hothers]
  exact hrest.sublist List.filter_sublist

end Tree

namespace Language

open Statechart.Tree

variable {locate : NodeId → Option Span}

/-! ## Numbers and spans -/

/-- The nodes from `n` on are located at the given spans. -/
def Agrees (locate : NodeId → Option Span) (n : NodeId) : List Span → Prop
  | [] => True
  | s :: spans => locate n = some s ∧ Agrees locate (n + 1) spans

/-- The spans of two parts, the second numbered on from the first. -/
lemma agrees_append {n : NodeId} {xs ys : List Span} :
    Agrees locate n (xs ++ ys) ↔ Agrees locate n xs ∧ Agrees locate (n + xs.length) ys := by
  induction xs generalizing n with
  | nil => simp [Agrees]
  | cons x xs ih =>
      simp only [List.cons_append, Agrees, ih, List.length_cons, and_assoc, Nat.add_assoc,
        Nat.add_comm 1]

/-- A table of locations agrees with its own entries. -/
lemma agrees_getElem? (before spans : List Span) :
    Agrees (fun id => (before ++ spans)[id]?) before.length spans := by
  induction spans generalizing before with
  | nil => trivial
  | cons s spans ih =>
      refine ⟨by simp, ?_⟩
      have hrest := ih (before ++ [s])
      simpa using hrest

lemma agrees_self (spans : List Span) : Agrees (fun id => spans[id]?) 0 spans :=
  agrees_getElem? [] spans

/-! ## Declarations -/

/-- What is numbered one after the other lies in a row, if each part is located where it is laid. -/
lemma lies_numbered {α : Type} {tree : NodeId → α → Tree} {m : α → List Span} {region : α → Region}
    {Q : Tree → Prop} (hsize : ∀ a n, (tree n a).size = (m a).length) : ∀ (as : List α),
    (∀ a ∈ as, ∀ n lo hi, Agrees locate n (m a) → Laid lo hi [region a] →
      locate (tree n a).id = some (region a).span ∧ Q (tree n a)) →
    ∀ {n lo hi}, Agrees locate n (as.flatMap m) → Laid lo hi (as.map region) →
      Lies locate lo hi (numbered tree n as) ∧ ∀ t ∈ numbered tree n as, Q t
  | [], _, n, lo, hi, _, _ => ⟨trivial, by simp [numbered]⟩
  | a :: as, hsits, n, lo, hi, hagrees, hlaid => by
      obtain ⟨ha, has⟩ := List.forall_mem_cons.mp hsits
      rw [List.flatMap_cons, agrees_append] at hagrees
      obtain ⟨hstart, hlt, hinner, hrest⟩ := laid_cons.mp hlaid
      have hfirst := ha n lo (region a).span.stop hagrees.1
        (laid_cons.mpr ⟨hstart, hlt, hinner, laid_nil.mpr (Nat.le_refl _)⟩)
      have hagrees' := hagrees.2
      rw [← hsize a n] at hagrees'
      obtain ⟨hlies, hall⟩ := lies_numbered hsize as has hagrees' hrest
      exact ⟨⟨_, hfirst.1, hstart, hlt, hrest.le, hlies⟩,
        List.forall_mem_cons.mpr ⟨hfirst.2, hall⟩⟩

/-- Leaves in a row below a node. -/
lemma lies_leaves {α : Type} {payload : α → Node} {span : α → Span} {region : α → Region}
    (hspan : ∀ a, (region a).span = span a) (as : List α) {n : NodeId} {lo hi : Nat}
    (hagrees : Agrees locate n (as.map span)) (hlaid : Laid lo hi (as.map region)) :
    Lies locate lo hi (numbered (fun n a => leaf n (payload a)) n as) ∧
      ∀ t ∈ numbered (fun n a => leaf n (payload a)) n as, ∀ u ∈ t.within, u.Settled locate := by
  rw [List.map_eq_flatMap] at hagrees
  refine lies_numbered (fun a n => size_leaf n (payload a)) as ?_ hagrees hlaid
  intro a _ n lo hi ha _
  rw [hspan]
  exact sits_leaf ha.1

/-- The transitions of an invocation lie inside it. -/
lemma InvokeDecl.sits_tree (d : InvokeDecl) {n : NodeId} {lo hi : Nat}
    (hagrees : Agrees locate n d.places) (hlaid : Laid lo hi [d.region]) :
    Sits locate d.span (d.tree n) := by
  obtain ⟨-, -, hinner, -⟩ := laid_cons.mp hlaid
  obtain ⟨hlies, hsettled⟩ := lies_leaves (fun _ => rfl) d.transitions hagrees.2 hinner
  exact sits_node hagrees.1 rfl hlies hsettled

lemma Clause.span_region (c : Clause) : c.region.span = c.span := by
  cases c with
  | state d => cases d; rw [Clause.region, StateDecl.region]; rfl
  | _ => rw [Clause.region]; rfl

mutual

/-- The trees below a state lie inside it. -/
lemma StateDecl.sits_tree : ∀ (d : StateDecl) {n : NodeId} {lo hi : Nat},
    Agrees locate n d.places → Laid lo hi [d.region] → Sits locate d.span (d.tree n)
  | .mk head body span, n, lo, hi, hagrees, hlaid => by
      rw [StateDecl.places] at hagrees
      rw [StateDecl.region] at hlaid
      obtain ⟨-, -, hinner, -⟩ := laid_cons.mp hlaid
      obtain ⟨hhead, hlt, -, hbody⟩ := laid_cons.mp hinner
      -- the clauses lie behind the head
      have hstart : span.start ≤ head.span.stop := Nat.le_trans hhead (Nat.le_of_lt hlt)
      obtain ⟨hlies, hsettled, hmachines⟩ := lies_clauseTrees body hagrees.2 hbody
      rw [StateDecl.tree]
      refine ⟨hagrees.1, forall_within.mpr ⟨⟨?_, ?_⟩, forall_allWithin.mpr hsettled⟩⟩
      · intro _ s hs
        obtain rfl := Option.some.inj (hagrees.1.symm.trans hs)
        exact hlies.mono hstart (Nat.le_refl _)
      · intro _ s hs m hm hmachine
        obtain rfl := Option.some.inj (hagrees.1.symm.trans hs)
        obtain ⟨hfirst, hgathered⟩ := hmachines m hm hmachine
        exact ⟨hfirst, hgathered.mono hstart (Nat.le_refl _)⟩

/-- The tree of a clause lies as the clause does. -/
lemma Clause.sits_tree : ∀ (c : Clause) {n : NodeId} {lo hi : Nat},
    Agrees locate n c.places → Laid lo hi [c.region] → Sits locate c.span (c.tree n)
  | .binding d, n, lo, hi, hagrees, _ => by
      rw [Clause.places] at hagrees
      rw [Clause.tree]
      exact sits_leaf hagrees.1
  | .transition d, n, lo, hi, hagrees, _ => by
      rw [Clause.places] at hagrees
      rw [Clause.tree]
      exact sits_leaf hagrees.1
  | .invoke d, n, lo, hi, hagrees, hlaid => by
      rw [Clause.places] at hagrees
      rw [Clause.region] at hlaid
      rw [Clause.tree]
      exact d.sits_tree hagrees hlaid
  | .state d, n, lo, hi, hagrees, hlaid => by
      rw [Clause.places] at hagrees
      rw [Clause.region] at hlaid
      rw [Clause.tree]
      exact d.sits_tree hagrees hlaid

/-- What hangs below a state lies in a row, and its inner states are gathered. -/
lemma lies_clauseTrees : ∀ (body : List Clause) {n : NodeId} {lo hi : Nat},
    Agrees locate n (clausePlaces body) → Laid lo hi (bodyRegions body) →
    Lies locate lo hi (clauseTrees n body) ∧
      (∀ t ∈ clauseTrees n body, ∀ u ∈ t.within, u.Settled locate) ∧
      ∀ m ∈ clauseTrees n body, m.payload.isMachine = true → Gathered locate lo hi m
  | [], n, lo, hi, _, _ => by
      rw [clauseTrees]
      exact ⟨trivial, by simp, by simp⟩
  | c :: rest, n, lo, hi, hagrees, hlaid => by
      rw [bodyRegions] at hlaid
      obtain ⟨hstart, hlt, hinner, hrest⟩ := laid_cons.mp hlaid
      have hregion : Laid lo c.region.span.stop [c.region] :=
        laid_cons.mpr ⟨hstart, hlt, hinner, laid_nil.mpr (Nat.le_refl _)⟩
      rw [c.span_region] at hstart hlt hrest
      rw [clausePlaces] at hagrees
      cases hc : c.state?.isSome with
      | false =>
          have hnone : c.state? = none := by simpa using hc
          rw [hc, if_neg (by simp), agrees_append, ← c.length_places n] at hagrees
          have hfirst := c.sits_tree hagrees.1 hregion
          obtain ⟨hlies, hsettled, hmachines⟩ := lies_clauseTrees rest hagrees.2 hrest
          have hlow : lo ≤ c.span.stop := Nat.le_trans hstart (Nat.le_of_lt hlt)
          rw [clauseTrees_cons n hnone]
          refine ⟨⟨_, hfirst.1, hstart, hlt, hrest.le, hlies⟩,
            List.forall_mem_cons.mpr ⟨hfirst.2, hsettled⟩, List.forall_mem_cons.mpr ⟨?_, ?_⟩⟩
          · intro hmachine
            exact absurd hmachine (by simp [c.isMachine_tree n])
          · intro m hm hmachine
            obtain ⟨hgathered, hbetween⟩ := hmachines m hm hmachine
            exact ⟨hgathered, hbetween.mono hlow (Nat.le_refl _)⟩
      | true =>
          rw [hc, if_pos rfl] at hagrees
          obtain ⟨hmachine, hrow⟩ := hagrees
          rw [agrees_append, ← c.length_places (n + 1)] at hrow
          have hfirst := c.sits_tree hrow.1 hregion
          obtain ⟨hlies, hsettled⟩ := lies_rowTrees rest hrow.2 hrest
          have hstate : (c.tree (n + 1)).isState = true := by rw [c.isState_tree, hc]
          have hnone := isMachine_rowTrees (c :: rest) (n + 1)
          rw [rowTrees] at hnone
          -- the row as it is written, of which the inner states are one part
          have hall := List.forall_mem_cons.mpr ⟨hfirst.2, hsettled⟩
          obtain ⟨hrow', hgathered⟩ := lies_gathered (hmachine.trans hfirst.1.symm) hstate
            ⟨_, hfirst.1, hstart, hlt, hrest.le, hlies⟩
          rw [clauseTrees_gathered n hc, rowTrees]
          refine ⟨hrow', List.forall_mem_cons.mpr ⟨?_, ?_⟩, List.forall_mem_cons.mpr ⟨?_, ?_⟩⟩
          · exact settled_machine fun t ht => hall t (List.mem_of_mem_filter ht)
          · exact fun t ht => hall t (List.mem_of_mem_filter ht)
          · exact fun _ => hgathered
          · intro m hm hmachine'
            exact absurd hmachine' (by simp [hnone m (List.mem_of_mem_filter hm)])

/-- The trees of a plain row lie as its clauses do. -/
lemma lies_rowTrees : ∀ (body : List Clause) {n : NodeId} {lo hi : Nat},
    Agrees locate n (rowPlaces body) → Laid lo hi (bodyRegions body) →
    Lies locate lo hi (rowTrees n body) ∧
      ∀ t ∈ rowTrees n body, ∀ u ∈ t.within, u.Settled locate
  | [], n, lo, hi, _, _ => by
      rw [rowTrees]
      exact ⟨trivial, by simp⟩
  | c :: rest, n, lo, hi, hagrees, hlaid => by
      rw [bodyRegions] at hlaid
      obtain ⟨hstart, hlt, hinner, hrest⟩ := laid_cons.mp hlaid
      rw [rowPlaces, agrees_append, ← c.length_places n] at hagrees
      have hfirst := c.sits_tree hagrees.1
        (laid_cons.mpr ⟨hstart, hlt, hinner, laid_nil.mpr (Nat.le_refl _)⟩)
      obtain ⟨hlies, hsettled⟩ := lies_rowTrees rest hagrees.2 hrest
      rw [c.span_region] at hstart hlt hrest hlies
      rw [rowTrees]
      exact ⟨⟨_, hfirst.1, hstart, hlt, hrest.le, hlies⟩,
        List.forall_mem_cons.mpr ⟨hfirst.2, hsettled⟩⟩

end

/-! ## Charts -/

/-- A declaration of the top level sits where it is written, and what hangs below it lies inside it,
also below a machine. -/
lemma Item.sits_tree (item : Item) {n : NodeId} {lo hi : Nat}
    (hagrees : Agrees locate n item.places) (hlaid : Laid lo hi [item.region]) :
    Sits locate item.region.span (item.tree n) ∧
      Lies locate item.region.span.start item.region.span.stop (item.tree n).children := by
  obtain ⟨-, -, hinner, -⟩ := laid_cons.mp hlaid
  cases item with
  | binding d => exact ⟨sits_leaf hagrees.1, trivial⟩
  | importDecl d =>
      obtain ⟨hlies, hsettled⟩ := lies_leaves (fun _ => rfl) d.specifiers hagrees.2 hinner
      exact ⟨sits_node hagrees.1 rfl hlies hsettled, hlies⟩
  | machine d =>
      have hbody : ∀ c ∈ d.body, ∀ n lo hi, Agrees locate n c.places → Laid lo hi [c.region] →
          Sits locate c.region.span (c.tree n) := by
        intro c _ n lo hi hagrees hlaid
        cases c with
        | binding b => exact sits_leaf hagrees.1
        | state s =>
            have hspan : s.region.span = s.span := by cases s; rw [StateDecl.region]; rfl
            rw [MachineClause.region, hspan]
            exact s.sits_tree hagrees hlaid
      obtain ⟨hlies, hsettled⟩ := lies_numbered (Q := fun t => ∀ u ∈ t.within, u.Settled locate)
        MachineClause.length_places d.body hbody hagrees.2 hinner
      exact ⟨sits_node hagrees.1 rfl hlies hsettled, hlies⟩

/-- **The nodes of a chart lie as its declarations do.** -/
lemma settled_itemTrees (items : List Item) {hi : Nat}
    (hagrees : Agrees locate 0 (items.flatMap Item.places))
    (hlaid : Laid 0 hi (items.map Item.region)) :
    Lies locate 0 hi (itemTrees items) ∧
      (∀ t ∈ itemTrees items, ∀ s, locate t.id = some s →
        Lies locate s.start s.stop t.children) ∧
      ∀ t ∈ allWithin (itemTrees items), t.Settled locate := by
  have hitems : ∀ item ∈ items, ∀ n lo hi, Agrees locate n item.places →
      Laid lo hi [item.region] → locate (item.tree n).id = some item.region.span ∧
        ((∀ s, locate (item.tree n).id = some s →
            Lies locate s.start s.stop (item.tree n).children) ∧
          ∀ u ∈ (item.tree n).within, u.Settled locate) := by
    intro item _ n lo hi hagrees hlaid
    obtain ⟨⟨hspan, hsettled⟩, hlies⟩ := item.sits_tree hagrees hlaid
    refine ⟨hspan, ?_, hsettled⟩
    intro s hs
    obtain rfl := Option.some.inj (hspan.symm.trans hs)
    exact hlies
  obtain ⟨hlies, hall⟩ := lies_numbered (Q := fun t => (∀ s, locate t.id = some s →
    Lies locate s.start s.stop t.children) ∧ ∀ u ∈ t.within, u.Settled locate)
    Item.length_places items hitems hagrees hlaid
  exact ⟨hlies, fun t ht => (hall t ht).1, forall_allWithin.mpr fun t ht => (hall t ht).2⟩

end Language

end Statechart
