import Statechart.Proofs.Output.Module

/-!
# Container discipline

What is open at any moment of the walk, said in terms of the nodes around the current one and of
the flags that the emitter keeps.

* `stackAt` — the open containers: for each node around the position, the ones that it has open.
  A state has the container of a batch open exactly if the flag of the batch is set.
* `Disciplined` — the containers are these, at most one batch is open, the scopes that are kept
  have none open, and there is one of them for every machine around.
* **`walk_disciplined`** — this holds after every number of steps, none of which fails, and in the
  end nothing is open.
-/

namespace Statechart.Output

open Script

/-- The containers of the batches that are open. -/
def openBatches (flags : BatchFlags) : List Container :=
  (if flags.on then [.object] else []) ++ (if flags.always then [.array true] else []) ++
    (if flags.delay then [.object] else [])

/-- The open containers in a row below a path, the innermost first.  There is one scope for each
machine on the path, the innermost first, and a scope outside of all machines. -/
def stackAt : List Scope → List Level → List Tree → List Tree → List Container
  | _, [], _, _ => []
  | scopes, l :: path, entered, ahead =>
    match l.tree.payload with
    | .machine _ =>
      -- `states` is open from the first state to the last, and the configuration all the time
      (if entered.any Tree.isState && ahead.any Tree.isState then [.object] else []) ++
        (if path.isEmpty then [.object] else []) ++ stackAt scopes.tail path l.entered l.ahead
    | .state _ =>
      openBatches (scopes.headD {}).isOpen ++ .object :: stackAt scopes path l.entered l.ahead
    | .invoke _ => .object :: stackAt scopes path l.entered l.ahead
    | _ => stackAt scopes path l.entered l.ahead

/-- The machines on a path. -/
def machinesOn (path : List Level) : Nat :=
  path.countP fun l => l.tree.payload.isMachine

/-- What is open at a position is what it should be. -/
structure Disciplined (pos : Position) (e : Emitter) : Prop where
  frames : e.writer.containers =
    stackAt (e.scope :: e.enclosing) pos.path pos.entered pos.ahead
  oneBatch : ∀ a b, e.scope.isOpen.get a = true → e.scope.isOpen.get b = true → a = b
  kept : ∀ scope ∈ e.enclosing, scope.isOpen = {}
  depth : e.enclosing.length = machinesOn pos.path

/-! ## Scopes -/

/-- There is a scope for each machine on the path, and one more. -/
lemma length_scopesAt (path : List Level) (entered ahead : List Tree) :
    (scopesAt path entered ahead).length = machinesOn path + 1 := by
  induction path generalizing entered ahead with
  | nil => rfl
  | cons l path ih =>
      cases hl : l.tree.payload <;>
        simp [scopesAt, hl, machinesOn, Node.isMachine, Node.kind] at ih ⊢ <;> simp [ih]

/-- Only the flag of the open batch is set. -/
lemma eq_some_of_flagsOf {batch : Option Batch} {b : Batch}
    (h : (flagsOf batch).get b = true) : batch = some b := by
  rcases batch with _ | (_ | _ | _) <;> cases b <;> first | rfl | cases h

/-- At most one batch is open in the innermost scope. -/
lemma isOpen_scopesAt (path : List Level) (entered ahead : List Tree) :
    ∃ b, ((scopesAt path entered ahead).headD {}).isOpen = flagsOf b := by
  induction path generalizing entered ahead with
  | nil => exact ⟨none, rfl⟩
  | cons l path ih =>
      cases hl : l.tree.payload with
      | machine m => exact ⟨none, by simp [scopesAt, hl]⟩
      | state s => exact ⟨sharedBatch entered ahead, by simp [scopesAt, hl]⟩
      | _ => simpa only [scopesAt, hl] using ih l.entered l.ahead

/-! ## Containers -/

lemma openBatches_flagsOf (b : Option Batch) :
    openBatches (flagsOf b) = b.toList.map batchContainer := by
  rcases b with _ | (_ | _ | _) <;> rfl

/-- The stack around a machine does not depend on the scope inside of it. -/
lemma stackAt_cons_machine {l : Level} {m : Machine} (hl : l.tree.payload = .machine m)
    (scope scope' : Scope) (scopes : List Scope) (path : List Level) (entered ahead : List Tree) :
    stackAt (scope :: scopes) (l :: path) entered ahead =
      stackAt (scope' :: scopes) (l :: path) entered ahead := by
  simp [stackAt, hl]

lemma stackAt_state {l : Level} {s : State} (hl : l.tree.payload = .state s)
    (scopes : List Scope) (path : List Level) (entered ahead : List Tree) :
    stackAt scopes (l :: path) entered ahead =
      openBatches (scopes.headD {}).isOpen ++
        .object :: stackAt scopes path l.entered l.ahead := by
  simp only [stackAt, hl]

/-! ## Along a path -/

section closed

variable {roots : List Tree} (shape : Tree.allShaped none roots = true)
include shape

/-- No batch is open around a machine. -/
lemma closed_around {path : List Level} {before after : List Tree} {t : Tree} {m : Machine}
    (hr : Position.RowIn roots path (before ++ t :: after)) (ht : t.payload = .machine m) :
    ((scopesAt path (before ++ [t]) (t :: after)).headD {}).isOpen = {} := by
  have hold := mayHold_row shape hr
  have hk : t.payload.kind ≠ .binding := by simp [ht, Node.kind]
  rw [ht] at hold
  rcases above_machine hold with hp | ⟨s, hp⟩
  · rw [eq_nil_of_parentPayload hp]
    rfl
  · obtain ⟨l, outer, rfl, hl⟩ := eq_cons_of_parentPayload hp
    simp [scopesAt, hl, sharedBatch_concat_cons _ _ hk, ht, batchOf]

/-- No batch is open in the scopes that are kept. -/
lemma closed_kept : ∀ {path : List Level} {row : List Tree} (entered ahead : List Tree),
    Position.RowIn roots path row →
    ∀ scope ∈ (scopesAt path entered ahead).tail, scope.isOpen = {}
  | [], _, _, _, _, scope, h => nomatch h
  | l :: path, row, entered, ahead, hr, scope, h => by
      have ih := closed_kept l.entered l.ahead hr.2
      cases hl : l.tree.payload with
      | machine m =>
          simp only [scopesAt, hl, List.tail_cons] at h
          have hhead := closed_around shape hr.2 hl
          cases hscopes : scopesAt path l.entered l.ahead with
          | nil => exact absurd hscopes (scopesAt_ne_nil _ _ _)
          | cons first others =>
              rw [hscopes] at h ih
              rcases List.mem_cons.mp h with rfl | h
              · rw [show scopesAt path (l.before ++ [l.tree]) (l.tree :: l.after) = _ from hscopes]
                  at hhead
                exact hhead
              · exact ih scope h
      | state s =>
          simp only [scopesAt, hl, List.tail_cons] at h
          exact ih scope h
      | _ =>
          simp only [scopesAt, hl] at h
          exact ih scope h

/-- **The stack that the flags describe is the one that the position asks for.** -/
lemma stackAt_scopesAt : ∀ {path : List Level} {row : List Tree} (entered ahead : List Tree),
    Position.RowIn roots path row →
    stackAt (scopesAt path entered ahead) path entered ahead = containersAt path entered ahead
  | [], _, _, _, _ => rfl
  | l :: path, row, entered, ahead, hr => by
      have ih := stackAt_scopesAt l.entered l.ahead hr.2
      have hold := mayHold_row shape hr.2
      cases hl : l.tree.payload with
      | machine m =>
          have hempty : path.isEmpty = !(parentPayload path).isSome := by cases path <;> rfl
          simp only [stackAt, scopesAt, hl, List.tail_cons, ih, containersAt, ownContainers, hempty]
          cases (parentPayload path).isSome <;> simp
      | state s =>
          rw [hl] at hold
          obtain ⟨m, hp⟩ := above_state hold
          obtain ⟨l', outer, rfl, hl'⟩ := eq_cons_of_parentPayload hp
          have hinner : stackAt (scopesAt (l :: l' :: outer) entered ahead) (l' :: outer) l.entered
              l.ahead = containersAt (l' :: outer) l.entered l.ahead := by
            rw [← ih]
            simp only [scopesAt, hl, hl', List.tail_cons]
            exact stackAt_cons_machine hl' _ _ _ _ _ _
          have hscope : (scopesAt (l :: l' :: outer) entered ahead).headD {} =
              ⟨flagsOf (sharedBatch entered ahead), batchesIn entered⟩ := by
            simp only [scopesAt, hl, List.headD_cons]
          rw [stackAt_state hl, hinner, hscope, openBatches_flagsOf]
          simp [containersAt, ownContainers, hl]
      | invoke service => simp [stackAt, scopesAt, hl, ih, containersAt, ownContainers]
      | _ => simp [stackAt, scopesAt, hl, ih, containersAt, ownContainers]

/-! ## The walk -/

/-- An emitter that tracks a position is disciplined. -/
lemma disciplined_of_tracks {f : Forest} {pos : Position} {e : Emitter} (hin : pos.In roots)
    (tr : Tracks f pos e) : Disciplined pos e where
  frames := by
    rw [tr.containers, tr.scopes]
    exact (stackAt_scopesAt shape _ _ hin).symm
  oneBatch := by
    obtain ⟨batch, hbatch⟩ := isOpen_scopesAt pos.path pos.entered pos.ahead
    rw [← tr.scopes, List.headD_cons] at hbatch
    intro a b ha hb
    rw [hbatch] at ha hb
    exact Option.some.inj ((eq_some_of_flagsOf ha).symm.trans (eq_some_of_flagsOf hb))
  kept := by
    have hkept := closed_kept shape pos.entered pos.ahead hin
    rw [← tr.scopes] at hkept
    exact hkept
  depth := by
    have hlength := length_scopesAt pos.path pos.entered pos.ahead
    rw [← tr.scopes] at hlength
    exact Nat.succ.inj hlength

end closed

/-- **Container discipline.**  For every forest of trees of the shape that reading a chart produces,
every number of steps of the walk is made without a fault and leaves the emitter disciplined; in
particular a machine is never left without a scope to go back to.  The walk goes on from there, and
it ends with all containers closed. -/
theorem walk_disciplined {p : Program} {roots : List Tree} (rep : p.forest.Represents roots)
    (shape : Tree.allShaped none roots = true) (library : Library) :
    ∃ start, Emission.writeAll (headerOperations p library) { forest := p.forest } = .ok () start ∧
      (∀ steps, ∃ e,
        Emission.stepsFrom steps (p.forest.body.map fun id => (.entering, id)) start =
          .ok ((Position.start roots).forward steps).place e ∧
        Disciplined ((Position.start roots).forward steps) e ∧
        (∀ l outer, ((Position.start roots).forward steps).path = l :: outer →
          l.tree.payload.isMachine = true → e.enclosing ≠ []) ∧
        (steps ≤ Emission.walkBound p.forest →
          Emission.walk start = Emission.walkWithin (Emission.walkBound p.forest - steps)
            ((Position.start roots).forward steps).place e)) ∧
      ∃ e, Emission.walk start = .ok () e ∧ e.writer.frames = [] ∧ e.enclosing = [] := by
  have hheader := applyAll_header rep library
  generalize (if roots.isEmpty then "" else headerText p.usesAssign library) = header at hheader
  have hbody : (p.forest.body.map fun id => (Phase.entering, id)) =
      (Position.start roots).place := place_start rep
  have tr := tracks_start rep (w := ({} : Writer).put header) rfl
  refine ⟨_, Emission.writeAll_of_ok hheader, fun steps => ?_, ?_⟩
  · obtain ⟨e, hsteps, tr', -⟩ := stepsFrom_follows rep shape steps (Position.in_start roots) tr
    have discipline := disciplined_of_tracks shape ((Position.in_start roots).forward steps) tr'
    refine ⟨e, by rw [hbody]; exact hsteps, discipline, ?_, ?_⟩
    · intro l outer hpath hmachine hnone
      have hdepth := discipline.depth
      rw [hnone, hpath, machinesOn, List.countP_cons_of_pos (by simpa using hmachine)] at hdepth
      cases hdepth
    · intro hle
      rw [Emission.walk, Emission.get_bind]
      show Emission.walkWithin (Emission.walkBound p.forest) (p.forest.body.map _) _ = _
      rw [hbody]
      nth_rewrite 1 [← Nat.sub_add_cancel hle]
      rw [Emission.walkWithin_add]
      exact Emission.bind_of_ok hsteps
  · obtain ⟨e, hwalk, tr', -⟩ := walk_follows rep shape
      (e := ({ forest := p.forest } : Emitter).withWriter (({} : Writer).put header)) rfl tr
    have hscopes : e.scope :: e.enclosing = [{}] := tr'.scopes
    exact ⟨e, hwalk, List.map_eq_nil_iff.mp tr'.containers, (List.cons.inj hscopes).2⟩

/-- In front of the second of two events, with a binding between them. -/
theorem walk_disciplined_toggle :
    toggle.forest.Represents toggleTrees ∧ Tree.allShaped none toggleTrees = true ∧
      ∃ start e, Emission.writeAll (headerOperations toggle .package) { forest := toggle.forest } =
          .ok () start ∧
        Emission.stepsFrom 8 (toggle.forest.body.map fun id => (.entering, id)) start =
          .ok (some (.entering, 5)) e ∧
        Disciplined ((Position.start toggleTrees).forward 8) e := by
  obtain ⟨start, hstart, hsteps, -⟩ :=
    walk_disciplined toggle_represents (by decide) .package
  obtain ⟨e, he, discipline, -⟩ := hsteps 8
  exact ⟨toggle_represents, by decide, start, e, hstart, he, discipline⟩

end Statechart.Output
