import Statechart.Proofs.Output.Leaving

/-!
# The whole walk

From what one step does, what any number of steps does, by induction on the number.

* `Position.operations`, `Position.remarks` — what is written and said in a step.
* `step_follows` — one step of the walk, from any position.
* `stepsFrom` — a number of steps; `walkWithin_add` says that the walk is made of them.
* **`stepsFrom_follows`** — the emitter tracks the position after every number of steps.
* **`walk_follows`** — the walk over a forest of trees ends well.
-/

namespace Statechart.Output

open Script

/-! ## Positions -/

namespace Position

/-- What is written in the step from a position. -/
def operations : Position → List Operation
  | ⟨path, entered, t :: _⟩ => enterOperations (parentPayload path) entered t
  | ⟨l :: path, entered, []⟩ =>
    leaveOperations (parentPayload path) l.tree l.after (pendingAt (l :: path) entered)
  | ⟨[], _, []⟩ => []

/-- What is said in the step from a position. -/
def remarks (locate : NodeId → Option Location) : Position → List Remark
  | ⟨path, entered, t :: _⟩ => enterRemarks locate (parentPayload path) entered t
  | ⟨l :: path, entered, []⟩ =>
    leaveRemarks locate (parentPayload path) l.tree (pendingAt (l :: path) entered)
  | ⟨[], _, []⟩ => []

/-- The number of steps from a position to the end of the walk. -/
def stepsLeft (pos : Position) : Nat :=
  2 * (Tree.allEntries pos.ahead).length +
    pos.path.foldr (fun l steps => 1 + 2 * (Tree.allEntries l.after).length + steps) 0

/-- What is said in a number of steps. -/
def remarksWithin (locate : NodeId → Option Location) : Nat → Position → List Remark
  | 0, _ => []
  | steps + 1, pos => pos.remarks locate ++ remarksWithin locate steps pos.next

/-- The position at the end of a row of top-level trees. -/
def finish (roots : List Tree) : Position := ⟨[], roots, []⟩

/-- The walk is done only at the end. -/
lemma eq_finish {roots : List Tree} {pos : Position} (hin : pos.In roots)
    (h : pos.place = none) : pos = finish roots := by
  obtain ⟨path, entered, ahead⟩ := pos
  rcases ahead with _ | ⟨t, rest⟩
  · cases path with
    | nil =>
        have hentered : entered = roots := by simpa [In, RowIn] using hin
        rw [hentered, finish]
    | cons l path => cases h
  · cases h

/-- Every step leaves one step less. -/
lemma stepsLeft_next {pos : Position} (h : pos.place ≠ none) :
    pos.stepsLeft = pos.next.stepsLeft + 1 := by
  obtain ⟨path, entered, ahead⟩ := pos
  rcases ahead with _ | ⟨t, rest⟩
  · cases path with
    | nil => exact absurd rfl h
    | cons l path =>
        simp only [stepsLeft, next, Tree.allEntries_nil, List.length_nil, List.foldr_cons]
        omega
  · simp only [stepsLeft, next, Tree.allEntries_cons, List.length_cons, List.length_append,
      List.foldr_cons]
    omega

/-- From every position the walk comes to an end. -/
lemma place_forward_stepsLeft : ∀ (steps : Nat) {pos : Position}, pos.stepsLeft = steps →
    (pos.forward steps).place = none
  | 0, pos, h => by
      by_contra hplace
      have hnext := stepsLeft_next (show pos.place ≠ none from hplace)
      omega
  | steps + 1, pos, h => by
      have hplace : pos.place ≠ none := by
        intro hplace
        obtain ⟨_ | ⟨l, path⟩, entered, _ | ⟨t, rest⟩⟩ := pos
        · cases h
        all_goals cases hplace
      have hnext := stepsLeft_next hplace
      exact place_forward_stepsLeft steps (by omega)

/-- At the end nothing moves any more. -/
lemma next_of_place {pos : Position} (h : pos.place = none) : pos.next = pos := by
  obtain ⟨_ | ⟨l, path⟩, entered, _ | ⟨t, rest⟩⟩ := pos
  · rfl
  all_goals cases h

lemma remarks_of_place (locate : NodeId → Option Location) {pos : Position}
    (h : pos.place = none) : pos.remarks locate = [] := by
  obtain ⟨_ | ⟨l, path⟩, entered, _ | ⟨t, rest⟩⟩ := pos
  · rfl
  all_goals cases h

/-- The first of the remaining operations are those of the next step. -/
lemma remaining_eq {roots : List Tree} {pos : Position} (hin : pos.In roots) :
    remaining pos.path pos.entered pos.ahead =
      pos.operations ++ remaining pos.next.path pos.next.entered pos.next.ahead := by
  obtain ⟨path, entered, ahead⟩ := pos
  rcases ahead with _ | ⟨t, rest⟩
  · cases path with
    | nil => simp [operations, next]
    | cons l path =>
        obtain ⟨before, t, after⟩ := l
        obtain rfl : entered = t.children := by simpa using hin.1
        exact remaining_leave path before after t
  · exact remaining_enter path entered rest t

end Position

/-! ## One step -/

namespace Emission

/-- A step that enters a node goes on to its first child, or else leaves it. -/
lemma step_entering {id : NodeId} {e e' : Emitter} (h : enter id e = .ok () e') :
    step .entering id e =
      .ok (match e'.forest.firstChild id with
        | some child => some (.entering, child)
        | none => some (.leaving, id)) e' := by
  rw [step, bind_of_ok h, get_bind]
  cases e'.forest.firstChild id <;> rfl

/-- A step that leaves a node destroys it and goes on to the next one, or else upwards. -/
lemma step_leaving {id : NodeId} {e e' : Emitter} {g : Forest} (h : leave id e = .ok () e')
    (hg : e'.forest.destroy id = .ok g) :
    step .leaving id e =
      .ok (match (e'.forest.linksOf id).next with
        | some next => some (.entering, next)
        | none => (e'.forest.linksOf id).parent.map fun parent => (.leaving, parent))
        { e' with forest := g } := by
  have hdestroy : destroy id e' = .ok () { e' with forest := g } := by
    rw [destroy, get_bind, hg]
    rfl
  rw [step, bind_of_ok h, get_bind, bind_of_ok hdestroy]
  cases (e'.forest.linksOf id).next <;> rfl

end Emission

section steps

variable {f : Forest} {roots : List Tree} (rep : f.Represents roots)
variable (shape : Tree.allShaped none roots = true)
include rep shape

/-- A step in front of a tree enters it, and goes on below it. -/
lemma step_entering_follows {path : List Level} {entered rest : List Tree} {t : Tree} {e : Emitter}
    (hr : Position.RowIn roots path (entered ++ t :: rest))
    (tr : Tracks f ⟨path, entered, t :: rest⟩ e) :
    Follows (Emission.step .entering t.id) (Position.next ⟨path, entered, t :: rest⟩).place e f
      (Position.next ⟨path, entered, t :: rest⟩)
      (Position.operations ⟨path, entered, t :: rest⟩)
      (Position.remarks f.location ⟨path, entered, t :: rest⟩) := by
  obtain ⟨e', henter, hw, hremarks, tr'⟩ := enters rep shape hr tr
  refine ⟨e', ?_, hw, hremarks, tr'⟩
  rw [Emission.step_entering henter, Forest.firstChild, linksOf_eq tr'.links, linksOf_row rep hr]
  cases hc : t.children <;> simp [Position.next, Position.place, hc]

/-- A step at the end of a tree leaves it and destroys its topmost node.  The walk goes on with the
next tree, or one level up. -/
lemma step_leaving_follows {path : List Level} {entered rest : List Tree} {t : Tree} {e : Emitter}
    (hr : Position.RowIn roots path (entered ++ t :: rest))
    (tr : Tracks f ⟨⟨entered, t, rest⟩ :: path, t.children, []⟩ e) :
    Follows (Emission.step .leaving t.id)
      (Position.next ⟨⟨entered, t, rest⟩ :: path, t.children, []⟩).place e f
      (Position.next ⟨⟨entered, t, rest⟩ :: path, t.children, []⟩)
      (Position.operations ⟨⟨entered, t, rest⟩ :: path, t.children, []⟩)
      (Position.remarks f.location ⟨⟨entered, t, rest⟩ :: path, t.children, []⟩) := by
  obtain ⟨e', hleave, hw, hremarks, hforest, hscopes, hbindings⟩ := leaves rep shape hr tr
  obtain ⟨hnode, hrest, habove⟩ := live_behind tr
  obtain ⟨g, hg, hlinks, hlocations, hothers⟩ := Forest.destroy_of_live hnode
  rw [tr.bindings] at hw hremarks
  refine ⟨{ e' with forest := g }, ?_, hw, hremarks, ?_⟩
  · rw [Emission.step_leaving hleave (by rw [hforest, hg]), hforest, linksOf_eq tr.links,
      linksOf_row rep hr]
    cases rest with
    | nil => cases path <;> rfl
    | cons u rest => rfl
  · refine ⟨hlinks.trans tr.links, hlocations.trans tr.locations, ?_, hscopes, hbindings, ?_⟩
    · -- all nodes that stay live have other numbers than the one that is destroyed
      have hin : Position.In roots ⟨⟨entered, t, rest⟩ :: path, t.children, []⟩ := ⟨by simp, hr⟩
      have hnodup := Position.nodup_live rep.distinct hin
      simp only [Position.live, Position.liveAbove, Tree.allEntries_nil, List.nil_append,
        List.map_cons, List.nodup_cons] at hnodup
      intro x hx
      have hother : x.1 ≠ t.id := fun heq => hnodup.1 (heq ▸ List.mem_map_of_mem hx)
      rw [hothers, if_neg hother]
      rcases List.mem_append.mp hx with hx | hx
      · exact hrest x hx
      · exact habove x hx
    · have hfit := fitAll_leave shape (pendingAt (⟨entered, t, rest⟩ :: path) t.children) hr
      rw [← tr.containers] at hfit
      exact containers_of_applyAll hfit hw

/-- **One step of the walk**, from any position. -/
lemma step_follows {pos : Position} {e : Emitter} (hin : pos.In roots) (tr : Tracks f pos e)
    {phase : Phase} {id : NodeId} (hplace : pos.place = some (phase, id)) :
    Follows (Emission.step phase id) pos.next.place e f pos.next pos.operations
      (pos.remarks f.location) := by
  obtain ⟨path, entered, ahead⟩ := pos
  rcases ahead with _ | ⟨t, rest⟩
  · cases path with
    | nil => cases hplace
    | cons l path =>
        obtain ⟨before, t, after⟩ := l
        obtain rfl : entered = t.children := by simpa using hin.1
        cases hplace
        exact step_leaving_follows rep shape hin.2 tr
  · cases hplace
    exact step_entering_follows rep shape hin tr

end steps

/-! ## Any number of steps -/

namespace Emission

/-- A number of steps, or less if the walk is done before. -/
def stepsFrom : Nat → Option (Phase × NodeId) → Emission (Option (Phase × NodeId))
  | 0, place => return place
  | _ + 1, none => return none
  | steps + 1, some (phase, id) => do
    let place ← step phase id
    stepsFrom steps place

/-- No steps are made where the walk is done. -/
lemma stepsFrom_none (steps : Nat) : stepsFrom steps none = return none := by
  cases steps <;> rfl

/-- The walk is made of steps: a number of them, and the rest. -/
lemma walkWithin_add (bound : Nat) : ∀ (steps : Nat) (place : Option (Phase × NodeId)),
    walkWithin (bound + steps) place = (do walkWithin bound (← stepsFrom steps place))
  | 0, place => by rw [stepsFrom, pure_bind, Nat.add_zero]
  | steps + 1, none => by
      rw [stepsFrom, pure_bind]
      cases bound <;> rfl
  | steps + 1, some (phase, id) => by
      rw [← Nat.add_assoc, walkWithin, stepsFrom, bind_assoc]
      exact congrArg _ (funext fun place => walkWithin_add bound steps place)

end Emission

/-- The walk begins in front of the first tree. -/
lemma place_start {f : Forest} {roots : List Tree} (rep : f.Represents roots) :
    (f.body.map fun id => (Phase.entering, id)) = (Position.start roots).place := by
  rw [rep.body]
  cases roots <;> rfl

/-- The trees of a forest have no more nodes than the forest. -/
lemma length_entries_le {f : Forest} {roots : List Tree} (rep : f.Represents roots) :
    (Tree.allEntries roots).length ≤ f.nodes.size := by
  simpa using (List.subperm_of_subset rep.distinct rep.subset_range).length_le

/-- The bound of the walk is large enough. -/
lemma stepsLeft_le_walkBound {f : Forest} {roots : List Tree} (rep : f.Represents roots) :
    (Position.start roots).stepsLeft ≤ Emission.walkBound f := by
  have hsteps : (Position.start roots).stepsLeft = 2 * (Tree.allEntries roots).length := by
    simp [Position.stepsLeft, Position.start]
  have hlength := length_entries_le rep
  calc (Position.start roots).stepsLeft = 2 * (Tree.allEntries roots).length := hsteps
    _ ≤ (f.nodes.size + 1) * 2 := by omega
    _ ≤ (f.nodes.size + 1) * (f.links.size + 2) := Nat.mul_le_mul_left _ (by omega)

section run

variable {f : Forest} {roots : List Tree} (rep : f.Represents roots)
variable (shape : Tree.allShaped none roots = true)
include rep shape

/-- **The emitter tracks the position after every number of steps.** -/
lemma stepsFrom_follows : ∀ (steps : Nat) {pos : Position} {e : Emitter}, pos.In roots →
    Tracks f pos e → ∃ e',
      Emission.stepsFrom steps pos.place e = .ok (pos.forward steps).place e' ∧
      Tracks f (pos.forward steps) e' ∧
      e.writer.applyAll (remaining pos.path pos.entered pos.ahead) =
        e'.writer.applyAll (remaining (pos.forward steps).path (pos.forward steps).entered
          (pos.forward steps).ahead) ∧
      e'.remarks = e.remarks ++ pos.remarksWithin f.location steps
  | 0, pos, e, _, tr => ⟨e, rfl, tr, rfl, by simp [Position.remarksWithin]⟩
  | steps + 1, pos, e, hin, tr => by
      rcases hplace : pos.place with _ | ⟨phase, id⟩
      · obtain ⟨e', hsteps, tr', hw, hremarks⟩ := stepsFrom_follows steps hin tr
        rw [hplace, Emission.stepsFrom_none] at hsteps
        rw [Emission.stepsFrom_none, Position.forward, Position.remarksWithin,
          Position.next_of_place hplace, Position.remarks_of_place _ hplace, List.nil_append]
        exact ⟨e', hsteps, tr', hw, hremarks⟩
      · obtain ⟨e₁, hstep, hw₁, hremarks₁, tr₁⟩ := step_follows rep shape hin tr hplace
        obtain ⟨e', hsteps, tr', hw, hremarks⟩ := stepsFrom_follows steps hin.next tr₁
        refine ⟨e', ?_, tr', ?_, ?_⟩
        · rw [Emission.stepsFrom, Emission.bind_of_ok hstep]
          exact hsteps
        · rw [Position.remaining_eq hin, Writer.applyAll_append_of_ok hw₁]
          exact hw
        · rw [hremarks, hremarks₁, Emitter.append_append_remarks]
          rfl

/-- **The walk over a forest of trees ends well**: it writes what is to be written for the trees,
and closes all that it has opened. -/
theorem walk_follows {e : Emitter} (hforest : e.forest = f)
    (tr : Tracks f (Position.start roots) e) : ∃ e',
      Emission.walk e = .ok () e' ∧ Tracks f (Position.finish roots) e' ∧
      e.writer.applyAll (rootOperations [] roots) = .ok e'.writer ∧
      e'.remarks = e.remarks ++
        (Position.start roots).remarksWithin f.location (Position.start roots).stepsLeft := by
  have hin := Position.in_start roots
  obtain ⟨e', hsteps, tr', hw, hremarks⟩ :=
    stepsFrom_follows rep shape (Position.start roots).stepsLeft hin tr
  have hplace := @Position.place_forward_stepsLeft _ (Position.start roots) rfl
  rw [Position.eq_finish (hin.forward _) hplace] at hsteps tr' hw
  refine ⟨e', ?_, tr', hw, hremarks⟩
  obtain ⟨bound, hbound⟩ := Nat.exists_eq_add_of_le' (stepsLeft_le_walkBound rep)
  rw [Emission.walk, Emission.get_bind, hforest, hbound, place_start rep, Emission.walkWithin_add,
    Emission.bind_of_ok hsteps]
  cases bound <;> rfl

end run

end Statechart.Output
