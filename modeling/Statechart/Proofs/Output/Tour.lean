import Statechart.Proofs.Chart.Outline
import Statechart.Proofs.Output.Sparing

/-!
# The tour of the walk

Whatever the nodes of a forest are, the walk comes by each of them twice: on the way down, before
all that is below it, and on the way up, after all of that.  It has no memory of where it was, and
finds its way by the links of nodes that it is about to destroy.

* `Tree.allTour` — the tour through a row of trees; the nodes are entered in the order of
  `Tree.ids` and left in the order of `Tree.allPostorder`.
* `Position.tour` — the part of the tour that is still ahead.
* `Toured` — what a part of the tour has done to the forest: exactly the nodes that were left are
  gone.
* **`walk_tours`** — every number of steps of the walk makes as many steps of the tour, unless a
  writer stops it, and all nodes that a step looks at are live.  The walk ends with the tour.
-/

namespace Statechart

open Output (Phase)

/-! ## Tours -/

namespace Tree

mutual

/-- The tour through a tree. -/
def tour : Tree → List (Phase × NodeId)
  | node id _ children => (.entering, id) :: (allTour children ++ [(.leaving, id)])

/-- The tour through a row of trees. -/
def allTour : List Tree → List (Phase × NodeId)
  | [] => []
  | t :: ts => t.tour ++ allTour ts

end

mutual

/-- The numbers of all nodes, each node after those below it. -/
def postorder : Tree → List NodeId
  | node id _ children => allPostorder children ++ [id]

/-- The numbers of a row of trees, each node after those below it. -/
def allPostorder : List Tree → List NodeId
  | [] => []
  | t :: ts => t.postorder ++ allPostorder ts

end

@[simp] lemma allTour_nil : allTour [] = [] := by rw [allTour]

/-- The tour comes by the first tree, all below it, the first tree again, and then the others. -/
lemma allTour_cons (t : Tree) (ts : List Tree) :
    allTour (t :: ts) =
      (.entering, t.id) :: (allTour t.children ++ (.leaving, t.id) :: allTour ts) := by
  cases t
  rw [allTour, tour]
  simp

@[simp] lemma allPostorder_nil : allPostorder [] = [] := by rw [allPostorder]

lemma allPostorder_cons (t : Tree) (ts : List Tree) :
    allPostorder (t :: ts) = allPostorder t.children ++ t.id :: allPostorder ts := by
  cases t
  rw [allPostorder, postorder]
  simp

/-- The nodes that a tour comes by in one of the phases, in order. -/
def visits (phase : Phase) (stops : List (Phase × NodeId)) : List NodeId :=
  (stops.filter (·.1 = phase)).map Prod.snd

lemma visits_append (phase : Phase) (xs ys : List (Phase × NodeId)) :
    visits phase (xs ++ ys) = visits phase xs ++ visits phase ys := by
  rw [visits, List.filter_append, List.map_append]
  rfl

@[simp] lemma visits_cons (phase other : Phase) (id : NodeId) (stops : List (Phase × NodeId)) :
    visits phase ((other, id) :: stops) =
      if other = phase then id :: visits phase stops else visits phase stops := by
  by_cases h : other = phase <;> simp [visits, h]

/-- The nodes that are visited in a phase. -/
lemma mem_visits {phase : Phase} {stops : List (Phase × NodeId)} {id : NodeId} :
    id ∈ visits phase stops ↔ (phase, id) ∈ stops := by
  simp only [visits, List.mem_map, List.mem_filter, decide_eq_true_eq]
  constructor
  · rintro ⟨⟨p, i⟩, ⟨hmem, rfl⟩, rfl⟩
    exact hmem
  · intro hmem
    exact ⟨(phase, id), ⟨hmem, rfl⟩, rfl⟩

/-- **Nodes are entered before those below them.** -/
lemma visits_entering_allTour (ts : List Tree) : visits .entering (allTour ts) = ids ts := by
  induction ts using row_induction with
  | nil => rw [allTour_nil, ids_nil]; rfl
  | cons t ts hchildren hrest =>
      simp [allTour_cons, visits_append, hchildren, hrest]

/-- **Nodes are left after those below them.** -/
lemma visits_leaving_allTour (ts : List Tree) :
    visits .leaving (allTour ts) = allPostorder ts := by
  induction ts using row_induction with
  | nil => rw [allTour_nil, allPostorder_nil]; rfl
  | cons t ts hchildren hrest =>
      simp [allTour_cons, allPostorder_cons, visits_append, hchildren, hrest]

/-- The two orders differ, but not in the nodes. -/
lemma allPostorder_perm (ts : List Tree) : (allPostorder ts).Perm (ids ts) := by
  induction ts using row_induction with
  | nil => rw [allPostorder_nil, ids_nil]
  | cons t ts hchildren hrest =>
      rw [allPostorder_cons, ids_cons]
      exact List.perm_middle.trans ((hchildren.append hrest).cons t.id)

/-- A tour comes by every node twice. -/
lemma length_allTour (ts : List Tree) : (allTour ts).length = 2 * (ids ts).length := by
  induction ts using row_induction with
  | nil => rw [allTour_nil, ids_nil]; rfl
  | cons t ts hchildren hrest =>
      rw [allTour_cons, ids_cons]
      simp only [List.length_cons, List.length_append, hchildren, hrest]
      omega

lemma leaving_mem_allTour {ts : List Tree} {id : NodeId} :
    (Phase.leaving, id) ∈ allTour ts ↔ id ∈ ids ts := by
  rw [← mem_visits, visits_leaving_allTour, (allPostorder_perm ts).mem_iff]

end Tree

namespace Output

/-! ## Positions -/

namespace Position

/-- The part of the tour that is still ahead. -/
def tour (pos : Position) : List (Phase × NodeId) :=
  Tree.allTour pos.ahead ++
    pos.path.flatMap fun l => (Phase.leaving, l.tree.id) :: Tree.allTour l.after

lemma tour_start (roots : List Tree) : (start roots).tour = Tree.allTour roots := by
  simp [tour, start]

lemma head?_tour (pos : Position) : pos.tour.head? = pos.place := by
  obtain ⟨_ | ⟨l, path⟩, entered, _ | ⟨t, rest⟩⟩ := pos <;>
    simp [tour, place, Tree.allTour_cons]

/-- A step of the walk is a step of the tour. -/
lemma tour_next (pos : Position) : pos.next.tour = pos.tour.tail := by
  obtain ⟨_ | ⟨l, path⟩, entered, _ | ⟨t, rest⟩⟩ := pos <;>
    simp [tour, next, Tree.allTour_cons]

lemma tour_forward (steps : Nat) (pos : Position) :
    (pos.forward steps).tour = pos.tour.drop steps := by
  induction steps generalizing pos with
  | zero => rfl
  | succ steps ih => rw [forward, ih, tour_next, List.drop_tail]

/-- What is ahead at a place begins with that place. -/
lemma tour_eq_cons {pos : Position} {phase : Phase} {id : NodeId}
    (h : pos.place = some (phase, id)) : pos.tour = (phase, id) :: pos.next.tour := by
  rw [tour_next]
  exact List.eq_cons_of_mem_head? (by rw [head?_tour, h]; rfl)

/-- The nodes of the rest of the row have not been left. -/
lemma leaving_mem_tour_of_ahead {pos : Position} {id : NodeId} (h : id ∈ Tree.ids pos.ahead) :
    (Phase.leaving, id) ∈ pos.tour :=
  List.mem_append_left _ (Tree.leaving_mem_allTour.mpr h)

/-- The node that the row hangs below has not been left. -/
lemma leaving_mem_tour_of_parent {pos : Position} {id : NodeId} (h : parentId pos.path = some id) :
    (Phase.leaving, id) ∈ pos.tour := by
  obtain ⟨_ | ⟨l, path⟩, entered, ahead⟩ := pos
  · cases h
  · cases h
    exact List.mem_append_right _ List.mem_cons_self

end Position

/-! ## What a part of the tour has done -/

/-- The emitter after a part of the tour.  Nodes that were left are gone, and machines may have
been marked; nothing else has changed in the forest `f`. -/
structure Toured (f : Forest) (done : List (Phase × NodeId)) (start e : Emitter) : Prop where
  links : e.forest.links = f.links
  locations : e.forest.locations = f.locations
  body : e.forest.body = f.body
  size : e.forest.nodes.size = f.nodes.size
  payloads : ∀ id, (e.forest.node? id).map Node.unmarked =
    if (Phase.leaving, id) ∈ done then none else (f.node? id).map Node.unmarked
  said : ∃ rs, e.remarks.toList = start.remarks.toList ++ rs ∧ ∀ r ∈ rs, f.Sites r

namespace Toured

variable {f : Forest} {done : List (Phase × NodeId)} {start e e' : Emitter}

/-- Nothing is gone before the first step. -/
lemma nil (h : e.forest = f) : Toured f [] e e where
  links := by rw [h]
  locations := by rw [h]
  body := by rw [h]
  size := by rw [h]
  payloads := fun id => by rw [h, if_neg List.not_mem_nil]
  said := ⟨[], (List.append_nil _).symm, by simp⟩

/-- Nothing is done by what spares the forest. -/
lemma spares (h : Toured f done start e) (hs : Spares e e') : Toured f done start e' where
  links := hs.links.trans h.links
  locations := hs.locations.trans h.locations
  body := hs.body.trans h.body
  size := hs.size.trans h.size
  payloads := fun id => (hs.payloads id).trans (h.payloads id)
  said := by
    obtain ⟨rs, hrs, hsites⟩ := h.said
    obtain ⟨rs', hrs', hsites'⟩ := hs.said
    refine ⟨rs ++ rs', by rw [hrs', hrs, List.append_assoc], ?_⟩
    refine List.forall_mem_append.mpr ⟨hsites, fun r hr j hj => hsites' r hr j fun id => ?_⟩
    rw [Forest.location, h.locations]
    exact hj id

/-- Entering a node does not count for the forest. -/
lemma entering (h : Toured f done start e) (id : NodeId) :
    Toured f (done ++ [(.entering, id)]) start e :=
  { h with payloads := fun other => by simpa using h.payloads other }

/-- A node that is left is gone. -/
lemma leaving (h : Toured f done start e) {id : NodeId} {n : Node} {g : Forest}
    (hn : e.forest.node? id = some n) (hg : e.forest.destroy id = .ok g) :
    Toured f (done ++ [(.leaving, id)]) start { e with forest := g } := by
  obtain ⟨g', hg', hlinks, hlocations, hnodes⟩ := Forest.destroy_of_live hn
  obtain rfl : g' = g := Except.ok.inj (hg'.symm.trans hg)
  have hfields : g'.body = e.forest.body ∧ g'.nodes.size = e.forest.nodes.size := by
    rw [Forest.destroy] at hg
    split at hg <;> cases hg
    exact ⟨rfl, Array.size_setIfInBounds⟩
  refine ⟨hlinks.trans h.links, hlocations.trans h.locations, hfields.1.trans h.body,
    hfields.2.trans h.size, fun other => ?_, h.said⟩
  show (g'.node? other).map _ = _
  rw [hnodes]
  by_cases heq : other = id
  · rw [if_pos heq, heq, if_pos (by simp)]
    rfl
  · rw [if_neg heq, h.payloads]
    simp [heq]

/-- A node that is ahead of the walk is not behind it. -/
lemma isSome_node? {roots : List Tree} (rep : f.Represents roots) (h : Toured f done start e)
    {ahead : List (Phase × NodeId)} (htour : done ++ ahead = Tree.allTour roots) {id : NodeId}
    (hid : (Phase.leaving, id) ∈ ahead) : (e.forest.node? id).isSome = true := by
  have hnodup : (Tree.visits .leaving (done ++ ahead)).Nodup := by
    rw [htour, Tree.visits_leaving_allTour]
    exact (Tree.allPostorder_perm roots).nodup_iff.mpr rep.distinct
  rw [Tree.visits_append] at hnodup
  have hnot : (Phase.leaving, id) ∉ done := fun hdone =>
    (List.disjoint_of_nodup_append hnodup) (Tree.mem_visits.mpr hdone) (Tree.mem_visits.mpr hid)
  have hmem : id ∈ Tree.ids roots := by
    rw [← Tree.leaving_mem_allTour, ← htour]
    exact List.mem_append_right _ hid
  obtain ⟨entry, hentry, rfl⟩ := List.mem_map.mp hmem
  have hpayload := h.payloads entry.1
  rw [if_neg hnot, rep.live entry hentry] at hpayload
  cases hnode : e.forest.node? entry.1 with
  | none => rw [hnode] at hpayload; cases hpayload
  | some n => rfl

/-- Once the tour is done, none of its nodes is live. -/
lemma node?_eq_none {roots : List Tree} (h : Toured f (Tree.allTour roots) start e) {id : NodeId}
    (hid : id ∈ Tree.ids roots) : e.forest.node? id = none := by
  have hpayload := h.payloads id
  rw [if_pos (Tree.leaving_mem_allTour.mpr hid)] at hpayload
  exact Option.map_eq_none_iff.mp hpayload

end Toured

/-! ## Steps -/

section steps

variable {f : Forest} {roots : List Tree} (rep : f.Represents roots)
variable {done : List (Phase × NodeId)} {start e : Emitter}
include rep

/-- **All nodes that a step looks at are live.** -/
lemma ready_of_toured {pos : Position} (hin : pos.In roots)
    (htour : done ++ pos.tour = Tree.allTour roots) (h : Toured f done start e) {phase : Phase}
    {id : NodeId} (hplace : pos.place = some (phase, id)) : Ready e.forest phase id := by
  have hlive : ∀ x, (Phase.leaving, x) ∈ pos.tour → (e.forest.node? x).isSome = true :=
    fun x hx => h.isSome_node? rep htour hx
  have hids : ∀ {ts : List Tree} {x : NodeId}, x ∈ ts.map Tree.id → x ∈ Tree.ids ts :=
    fun hx => (Tree.map_id_sublist _).subset hx
  obtain ⟨path, entered, ahead⟩ := pos
  rcases ahead with _ | ⟨t, rest⟩
  · cases path with
    | nil => cases hplace
    | cons l path =>
        -- the row of the node that is left is the one above
        cases hplace
        obtain ⟨before, t, after⟩ := l
        have hr : Position.RowIn roots path (before ++ t :: after) := hin.2
        have hlater : ∀ x, (Phase.leaving, x) ∈ Position.tour ⟨path, before, after⟩ →
            (e.forest.node? x).isSome = true := fun x hx => hlive x (by
          simp only [Position.tour, Tree.allTour_nil, List.nil_append, List.flatMap_cons,
            List.cons_append] at hx ⊢
          exact List.mem_cons_of_mem _ hx)
        refine ⟨hlive _ (by simp [Position.tour]), fun above habove => ?_, fun x hx => ?_, nofun⟩
        · rw [Forest.parent, linksOf_eq h.links, linksOf_row rep hr] at habove
          exact hlater above (Position.leaving_mem_tour_of_parent habove)
        · rw [following_eq rep hr h.links] at hx
          exact hlater x (Position.leaving_mem_tour_of_ahead (hids hx))
  · cases hplace
    have hr : Position.RowIn roots path (entered ++ t :: rest) := hin
    refine ⟨hlive _ (Position.leaving_mem_tour_of_ahead (by simp)), fun above habove => ?_,
      fun x hx => ?_, fun _ x hx => ?_⟩
    · rw [Forest.parent, linksOf_eq h.links, linksOf_row rep hr] at habove
      exact hlive above (Position.leaving_mem_tour_of_parent habove)
    · rw [following_eq rep hr h.links] at hx
      exact hlive x (Position.leaving_mem_tour_of_ahead (by simp [hids hx]))
    · rw [children_eq rep hr h.links] at hx
      exact hlive x (Position.leaving_mem_tour_of_ahead (by simp [hids hx]))

/-- **One step of the walk is one step of the tour.** -/
lemma passes_step {pos : Position} (hin : pos.In roots)
    (htour : done ++ pos.tour = Tree.allTour roots) (h : Toured f done start e) {phase : Phase}
    {id : NodeId} (hplace : pos.place = some (phase, id)) :
    Emission.Passes (Emission.step phase id) e fun place e' =>
      place = pos.next.place ∧ Toured f (done ++ [(phase, id)]) start e' := by
  have hready := ready_of_toured rep hin htour h hplace
  obtain ⟨path, entered, ahead⟩ := pos
  rcases ahead with _ | ⟨t, rest⟩
  · cases path with
    | nil => cases hplace
    | cons l path =>
        cases hplace
        obtain ⟨before, t, after⟩ := l
        have hr : Position.RowIn roots path (before ++ t :: after) := hin.2
        refine (Emission.passes_step_leaving hready).mono ?_
        rintro place e' ⟨⟨mid, g, hspares, hg, rfl⟩, rfl⟩
        obtain ⟨n, hn⟩ := Option.isSome_iff_exists.mp (hspares.ready hready).self
        refine ⟨?_, (h.spares hspares).leaving hn hg⟩
        rw [Forest.nextSibling, Forest.parent, linksOf_eq h.links, linksOf_row rep hr]
        cases after with
        | nil => cases path <;> rfl
        | cons u after => rfl
  · cases hplace
    have hr : Position.RowIn roots path (entered ++ t :: rest) := hin
    refine (Emission.passes_step_entering hready).mono ?_
    rintro place e' ⟨hspares, rfl⟩
    refine ⟨?_, (h.spares hspares).entering t.id⟩
    rw [Forest.firstChild, linksOf_eq h.links, linksOf_row rep hr]
    cases hc : t.children <;> simp [Position.next, Position.place, hc]

/-- **Any number of steps of the walk are as many steps of the tour.** -/
lemma passes_stepsFrom (steps : Nat) {pos : Position} (hin : pos.In roots)
    (htour : done ++ pos.tour = Tree.allTour roots) (h : Toured f done start e) :
    Emission.Passes (Emission.stepsFrom steps pos.place) e fun place e' =>
      place = (pos.forward steps).place ∧ Toured f (done ++ pos.tour.take steps) start e' := by
  induction steps generalizing pos done e with
  | zero =>
      refine Emission.passes_of_ok rfl ⟨rfl, ?_⟩
      rwa [List.take_zero, List.append_nil]
  | succ steps ih =>
      rcases hplace : pos.place with _ | ⟨phase, id⟩
      · have hdone : pos.tour = [] := by
          rw [← List.head?_eq_none_iff, Position.head?_tour, hplace]
        rw [Emission.stepsFrom_none]
        refine Emission.passes_of_ok rfl ⟨?_, ?_⟩
        · rw [← Position.head?_tour, Position.tour_forward, hdone]
          simp
        · rwa [hdone, List.take_nil, List.append_nil]
      · have hcons := Position.tour_eq_cons hplace
        refine (passes_step rep hin htour h hplace).bind ?_
        rintro place e₁ ⟨rfl, h₁⟩
        have htour₁ : (done ++ [(phase, id)]) ++ pos.next.tour = Tree.allTour roots := by
          rw [← htour, hcons, List.append_assoc]
          rfl
        refine (ih hin.next htour₁ h₁).mono ?_
        rintro place e₂ ⟨rfl, h₂⟩
        refine ⟨rfl, ?_⟩
        rwa [hcons, List.take_succ_cons, ← List.singleton_append, ← List.append_assoc]

end steps

/-! ## The whole walk -/

section walk

variable {f : Forest} {roots : List Tree} (rep : f.Represents roots) {e : Emitter}
include rep

/-- A number of steps from the beginning. -/
lemma passes_stepsFrom_body (he : e.forest = f) (steps : Nat) :
    Emission.Passes (Emission.stepsFrom steps (f.body.map fun id => (.entering, id))) e
      fun place e' => place = (Tree.allTour roots)[steps]? ∧
        Toured f ((Tree.allTour roots).take steps) e e' ∧
        ∀ phase id, place = some (phase, id) → Ready e'.forest phase id := by
  have hin := Position.in_start roots
  have htour : [] ++ (Position.start roots).tour = Tree.allTour roots := Position.tour_start roots
  rw [place_start rep]
  refine (passes_stepsFrom rep steps hin htour (Toured.nil he)).mono ?_
  rintro place e' ⟨rfl, h⟩
  rw [List.nil_append, Position.tour_start] at h
  have hahead : ((Position.start roots).forward steps).tour = (Tree.allTour roots).drop steps := by
    rw [Position.tour_forward, Position.tour_start]
  refine ⟨?_, h, fun phase id hplace => ?_⟩
  · rw [← Position.head?_tour, hahead, List.head?_drop]
  · refine ready_of_toured rep (hin.forward steps) ?_ h hplace
    rw [hahead, List.take_append_drop]

/-- The walk makes as many steps as the tour has. -/
lemma walk_eq_stepsFrom (he : e.forest = f) :
    Emission.walk e = (Emission.stepsFrom (Tree.allTour roots).length
      (f.body.map fun id => (.entering, id)) >>= fun _ => pure ()) e := by
  have hsteps := passes_stepsFrom_body rep he (Tree.allTour roots).length
  have hlength : (Tree.allTour roots).length ≤ Emission.walkBound f := by
    have hle := stepsLeft_le_walkBound rep
    rw [Tree.length_allTour]
    simpa [Position.stepsLeft, Position.start, Tree.ids] using hle
  obtain ⟨bound, hbound⟩ := Nat.exists_eq_add_of_le' hlength
  rw [Emission.walk, Emission.get_bind, he, hbound, Emission.walkWithin_add]
  cases hrun : Emission.stepsFrom (Tree.allTour roots).length
      (f.body.map fun id => (.entering, id)) e with
  | ok place e' =>
      have hplace : place = none := by rw [(hsteps.ends place e' hrun).1, List.getElem?_length]
      rw [Emission.bind_of_ok hrun, Emission.bind_of_ok hrun, hplace]
      cases bound <;> rfl
  | error fault e' =>
      show EStateM.bind _ _ e = EStateM.bind _ _ e
      rw [EStateM.bind, EStateM.bind, hrun]

end walk

/-- **The walk comes by every node exactly twice and destroys it the second time.**  This holds for
nodes of any kinds, as long as no writer stops the walk.

The tour enters the nodes in the order of the lines of the outline, and leaves each of them after
all that is below it.  After any number of steps the walk is where the tour is, exactly the nodes
that were left are gone, nothing else has changed but marks of machines, and the nodes that the
next step looks at are live.  The walk has as many steps as the tour, and none of the nodes is live
at its end.  All that was said can be placed by a journal that knows the places of the nodes. -/
theorem walk_tours {f : Forest} {roots : List Tree} (rep : f.Represents roots) {e : Emitter}
    (he : e.forest = f) :
    ((Tree.allTour roots).length = 2 * (Tree.ids roots).length ∧
      Tree.visits .entering (Tree.allTour roots) = Tree.ids roots ∧
      Tree.visits .leaving (Tree.allTour roots) = Tree.allPostorder roots ∧
      (Tree.allPostorder roots).Perm (Tree.ids roots) ∧ (Tree.ids roots).Nodup) ∧
    (f.outline = String.join ((Tree.allLines 0 roots).map Prod.snd) ∧
      (Tree.allLines 0 roots).map Prod.fst = Tree.ids roots) ∧
    (∀ steps, Emission.Passes
      (Emission.stepsFrom steps (f.body.map fun id => (.entering, id))) e fun place e' =>
        place = (Tree.allTour roots)[steps]? ∧ Toured f ((Tree.allTour roots).take steps) e e' ∧
        ∀ phase id, place = some (phase, id) → Ready e'.forest phase id) ∧
    Emission.walk e = (Emission.stepsFrom (Tree.allTour roots).length
      (f.body.map fun id => (.entering, id)) >>= fun _ => pure ()) e ∧
    Emission.Passes Emission.walk e fun _ e' =>
      Toured f (Tree.allTour roots) e e' ∧ (∀ id ∈ Tree.ids roots, e'.forest.node? id = none) ∧
      ∃ rs, e'.remarks.toList = e.remarks.toList ++ rs ∧
        ∀ j : Journal, j.Locates f → ∃ j', Reporting.noteAll rs j = .ok () j' := by
  refine ⟨⟨Tree.length_allTour roots, Tree.visits_entering_allTour roots,
    Tree.visits_leaving_allTour roots, Tree.allPostorder_perm roots, rep.distinct⟩,
    ⟨Forest.outline_eq rep, Tree.map_fst_allLines roots 0⟩, passes_stepsFrom_body rep he,
    walk_eq_stepsFrom rep he, ?_⟩
  refine Emission.Passes.congr ?_ (walk_eq_stepsFrom rep he)
  refine (passes_stepsFrom_body rep he (Tree.allTour roots).length).bind ?_
  rintro place e' ⟨-, h, -⟩
  rw [List.take_length] at h
  obtain ⟨rs, hrs, hsites⟩ := h.said
  refine Emission.passes_of_ok rfl
    ⟨h, fun id hid => h.node?_eq_none hid, rs, hrs, fun j hj => ?_⟩
  obtain ⟨j', hnote, -⟩ := Reporting.noteAll_of_places fun r hr => hsites r hr j hj
  exact ⟨j', hnote⟩

/-- Nodes where reading a chart would never put them. -/
def mixedTrees : List Tree :=
  [.node 2 (.specifier "a" none)
    [.node 0 (.machine { name := some "m" })
      [.node 3 (.transition { trigger := .event "GO", target := "b" })
        [.node 4 (.binding ⟨.guard, "g", .delay 7⟩) []],
        .node 1 (.importModule "./c") []]]]

/-- The same nodes with links, and a node that is not linked to them. -/
def mixed : Forest where
  nodes := #[some (.machine { name := some "m" }), some (.importModule "./c"),
    some (.specifier "a" none), some (.transition { trigger := .event "GO", target := "b" }),
    some (.binding ⟨.guard, "g", .delay 7⟩), some (.invoke "s")]
  links := ⟨#[⟨some 2, some 3, none⟩, ⟨some 0, none, none⟩, ⟨none, some 0, none⟩,
    ⟨some 0, some 4, some 1⟩, ⟨some 3, none, none⟩]⟩
  body := some 2

/-- The links of the example are those of its trees. -/
lemma mixed_represents : mixed.Represents mixedTrees where
  body := rfl
  linked := by
    simp only [mixedTrees, Forest.linksAll_cons, Forest.linksAll_nil, Tree.id_node,
      Tree.children_node, Tree.first_cons, Tree.first_nil, and_true]
    decide
  live := by decide
  distinct := by decide

lemma mixed_walk :
    Emission.walk.endsWith { forest := mixed } (fun e => e.forest.liveNodes = 1) = true := by
  decide +kernel

/-- The node that is not linked to the others is the only one that is left. -/
theorem walk_tours_mixed : mixed.Represents mixedTrees ∧ ∃ e,
    Emission.walk { forest := mixed } = .ok () e ∧ e.forest.liveNodes = 1 ∧
      ∀ id ∈ [2, 0, 3, 4, 1], e.forest.node? id = none := by
  obtain ⟨-, -, -, -, hwalk⟩ := walk_tours mixed_represents (e := { forest := mixed }) rfl
  obtain ⟨u, e, hrun, hlive, htoured⟩ := hwalk.exists_ok mixed_walk
  exact ⟨mixed_represents, e, hrun, of_decide_eq_true hlive, htoured.2.1⟩

end Output

end Statechart
