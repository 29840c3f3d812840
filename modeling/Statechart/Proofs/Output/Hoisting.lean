import Statechart.Proofs.Output.Module

/-!
# Bindings and the machines that take them

Bindings are collected while the walk goes down into a machine, at any depth, and before it comes
to one.  The exit of a top-level machine takes all that was collected; no other exit takes
anything.  So the bindings of a chart fall into pieces, one for each top-level machine and one for
what is left over.

* `piecesFrom` — the pieces, in the order of the trees.
* `Collects` — what waits in the emitter is a piece, guards and actions each in order.
* `optionsText`, `textWith` — the module, with the options of each machine written for its piece.
* `unusedWarning` — what is reported about the last piece.

**`rootsText_eq_textWith`**, **`collects_exit`**, **`filter_isGeneral`** — the text, the bindings at
each exit and the report are those of the pieces.
-/

namespace Statechart

/-- The remark is about the chart as a whole. -/
def Remark.isGeneral : Remark → Bool
  | general _ _ => true
  | _ => false

namespace Output

open Script

/-! ## Pieces -/

/-- The bindings of some trees, without the nodes that declare them. -/
def contents (ts : List Tree) : List Binding :=
  (Tree.bindingsIn ts).map fun (kind, h) => ⟨kind, h.name, h.value⟩

@[simp] lemma contents_nil : contents [] = [] := by
  simp [contents, Tree.bindingsIn]

lemma contents_append (ts us : List Tree) : contents (ts ++ us) = contents ts ++ contents us := by
  rw [contents, bindingsIn_append, List.map_append]
  rfl

lemma contents_cons (t : Tree) (ts : List Tree) : contents (t :: ts) = contents [t] ++ contents ts :=
  contents_append [t] ts

/-- The pieces of some top-level trees, when the given bindings wait: one for each machine, and
the one that is left over. -/
def piecesFrom (waiting : List Binding) : List Tree → List (List Binding)
  | [] => [waiting]
  | t :: ts =>
    if t.payload.isMachine then (waiting ++ contents [t]) :: piecesFrom [] ts
    else piecesFrom (waiting ++ contents [t]) ts

/-- There is always a last piece. -/
lemma piecesFrom_ne_nil (waiting : List Binding) (ts : List Tree) :
    piecesFrom waiting ts ≠ [] := by
  induction ts generalizing waiting with
  | nil => exact List.cons_ne_nil _ _
  | cons t ts ih =>
      rw [piecesFrom]
      split
      · exact List.cons_ne_nil _ _
      · exact ih _

/-! ## Collecting -/

/-- What waits is a list of bindings: the guards and the actions, each in order. -/
structure Collects (bound : Bindings) (piece : List Binding) : Prop where
  guards : (bound.guards.map fun h => (h.name, h.value)) =
    (piece.filter (·.kind = .guard)).map fun b => (b.name, b.value)
  actions : (bound.actions.map fun h => (h.name, h.value)) =
    (piece.filter (·.kind = .action)).map fun b => (b.name, b.value)

lemma collects_nil : Collects {} [] := ⟨rfl, rfl⟩

/-- More bindings are collected in order. -/
lemma Collects.registerAll {bound : Bindings} {piece : List Binding} (h : Collects bound piece)
    (added : List (BindingKind × Hoisted)) :
    Collects (bound.registerAll added)
      (piece ++ added.map fun x => ⟨x.1, x.2.name, x.2.value⟩) where
  guards := by
    simp only [Bindings.registerAll, List.map_append, List.filter_append, h.guards, List.filter_map,
      List.map_map]
    rfl
  actions := by
    simp only [Bindings.registerAll, List.map_append, List.filter_append, h.actions, List.filter_map,
      List.map_map]
    rfl

lemma Collects.trees {bound : Bindings} {piece : List Binding} (h : Collects bound piece)
    (ts : List Tree) : Collects (bound.registerAll (Tree.bindingsIn ts)) (piece ++ contents ts) :=
  h.registerAll _

/-- What waits at the end is the last piece. -/
lemma collects_pendingAfter : ∀ (ts : List Tree) {bound : Bindings} {waiting : List Binding},
    Collects bound waiting → Collects (pendingAfter bound ts)
      ((piecesFrom waiting ts).getLast (piecesFrom_ne_nil waiting ts))
  | [], bound, waiting, h => h
  | t :: ts, bound, waiting, h => by
      rw [pendingAfter]
      by_cases ht : t.payload.isMachine = true
      · have ih := collects_pendingAfter ts collects_nil
        simpa only [piecesFrom, ht, if_true, List.getLast_cons (piecesFrom_ne_nil [] ts)] using ih
      · have ih := collects_pendingAfter ts (h.trees [t])
        simpa only [piecesFrom, ht, Bool.false_eq_true, if_false] using ih

/-- **What waits when a top-level machine is left** is its piece. -/
lemma collects_exit {t : Tree} (ht : t.payload.isMachine = true) (after : List Tree) :
    ∀ (before : List Tree) {bound : Bindings} {waiting : List Binding}, Collects bound waiting →
      ∃ piece, (piecesFrom waiting (before ++ t :: after))[
          before.countP (·.payload.isMachine)]? = some piece ∧
        Collects ((pendingAfter bound before).registerAll (Tree.bindingsIn [t])) piece
  | [], bound, waiting, h => by
      refine ⟨waiting ++ contents [t], ?_, h.trees [t]⟩
      rw [List.nil_append, piecesFrom, if_pos ht]
      rfl
  | u :: before, bound, waiting, h => by
      rw [List.cons_append, piecesFrom, pendingAfter]
      by_cases hu : u.payload.isMachine = true
      · obtain ⟨piece, hpiece, hcollects⟩ := collects_exit ht after before collects_nil
        rw [if_pos hu, if_pos hu, List.countP_cons_of_pos (p := fun t : Tree => t.payload.isMachine) hu]
        exact ⟨piece, hpiece, hcollects⟩
      · obtain ⟨piece, hpiece, hcollects⟩ :=
          collects_exit ht after before (h.trees [u])
        rw [if_neg hu, if_neg hu, List.countP_cons_of_neg (p := fun t : Tree => t.payload.isMachine) hu]
        exact ⟨piece, hpiece, hcollects⟩

/-! ## The text -/

/-- The entry of a guard in the options, if it is bound to an identifier. -/
def guardEntryOf (b : Binding) : Option (String × Value) :=
  match b.kind, b.value with
  | .guard, .identifier name => some (b.name, .token name)
  | _, _ => none

/-- The entry of an action in the options, if it is bound to an identifier or an update. -/
def actionEntryOf (b : Binding) : Option (String × Value) :=
  match b.kind, b.value with
  | .action, .identifier name => some (b.name, .token name)
  | .action, .assign a => some (b.name, updateOf a)
  | _, _ => none

/-- The options for a piece: a map of the guards if there is a guard, and after it a map of the
actions if there is an action. -/
def pieceOptions (piece : List Binding) : Value :=
  .object
    ((if piece.any (·.kind = .guard) then [("guards", .object (piece.filterMap guardEntryOf))]
      else []) ++
      (if piece.any (·.kind = .action) then [("actions", .object (piece.filterMap actionEntryOf))]
      else []))

/-- The options as they are written after the configuration of a machine.  There are none for an
empty piece. -/
def optionsText (piece : List Binding) : String :=
  if piece.isEmpty then "" else ", " ++ (pieceOptions piece).layout 0

/-- The text of a top-level machine up to its options. -/
def configurationText (m : Machine) (children : List Tree) : String :=
  (match m.name with
    | some name => "\nexport const " ++ name ++ " = "
    | none => "\nexport default ") ++ "Machine(" ++
    (Value.object (machineProperties m (stateProperties children))).layout 0

/-- The text of top-level trees, where each machine takes the next of the given options.  Nothing
is written for bindings. -/
def textWith (options : List String) : List Tree → String
  | [] => ""
  | t :: ts =>
    match t.payload with
    | .importModule path => importText path t.children ++ textWith options ts
    | .machine m =>
      configurationText m t.children ++ options.headD "" ++ ");" ++ textWith options.tail ts
    | _ => textWith options ts

lemma any_kind (kind : BindingKind) (piece : List Binding) :
    (piece.filter (·.kind = kind)).isEmpty = !piece.any (·.kind = kind) := by
  induction piece with
  | nil => rfl
  | cons b piece ih => by_cases hb : b.kind = kind <;> simp [hb, ih]

section collects

variable {bound : Bindings} {piece : List Binding}

/-- There is a guard or an action exactly if there is one in the piece. -/
lemma Collects.isEmpty_guards (h : Collects bound piece) :
    bound.guards.isEmpty = !piece.any (·.kind = .guard) := by
  rw [← any_kind, ← List.isEmpty_map, h.guards, List.isEmpty_map]

lemma Collects.isEmpty_actions (h : Collects bound piece) :
    bound.actions.isEmpty = !piece.any (·.kind = .action) := by
  rw [← any_kind, ← List.isEmpty_map, h.actions, List.isEmpty_map]

/-- Nothing waits exactly if the piece is empty. -/
lemma Collects.isEmpty_eq (h : Collects bound piece) : bound.isEmpty = piece.isEmpty := by
  rw [Bindings.isEmpty, h.isEmpty_guards, h.isEmpty_actions]
  rcases piece with _ | ⟨b, piece⟩
  · rfl
  · cases hkind : b.kind <;> simp [hkind]

/-- The bindings of one kind have the same entries in a piece and in what waits, if an entry is
made from the name and the value alone. -/
lemma filterMap_entries {kind : BindingKind} {hs : List Hoisted}
    {entry : Hoisted → Option (String × Value)} {entryOf : Binding → Option (String × Value)}
    (h : (hs.map fun h => (h.name, h.value)) =
      (piece.filter (·.kind = kind)).map fun b => (b.name, b.value))
    (hself : ∀ h h' : Hoisted, h.name = h'.name → h.value = h'.value → entry h = entry h')
    (hkind : ∀ b, entryOf b = if b.kind = kind then entry ⟨b.name, b.value, 0⟩ else none) :
    hs.filterMap entry = piece.filterMap entryOf := by
  have hleft : hs.filterMap entry =
      (hs.map fun h => (h.name, h.value)).filterMap fun p => entry ⟨p.1, p.2, 0⟩ := by
    rw [List.filterMap_map]
    exact List.filterMap_congr fun h _ => hself _ _ rfl rfl
  rw [hleft, h, List.filterMap_map, List.filterMap_filter]
  refine List.filterMap_congr fun b _ => ?_
  rw [hkind]
  by_cases hb : b.kind = kind <;> simp [hb]

/-- The options of what waits are those of the piece. -/
lemma Collects.optionsValue_eq (h : Collects bound piece) :
    optionsValue bound = pieceOptions piece := by
  have hguards : bound.guards.filterMap guardEntry = piece.filterMap guardEntryOf := by
    refine filterMap_entries h.guards ?_ ?_
    · rintro ⟨n, v, o⟩ ⟨_, _, o'⟩ rfl rfl; rfl
    · rintro ⟨_ | _, name, _ | _ | _ | _ | _⟩ <;> rfl
  have hactions : bound.actions.filterMap actionEntry = piece.filterMap actionEntryOf := by
    refine filterMap_entries h.actions ?_ ?_
    · rintro ⟨n, v, o⟩ ⟨_, _, o'⟩ rfl rfl; rfl
    · rintro ⟨_ | _, name, _ | _ | _ | _ | _⟩ <;> rfl
  rw [optionsValue, pieceOptions, hguards, hactions, h.isEmpty_guards, h.isEmpty_actions]
  cases piece.any (·.kind = .guard) <;> cases piece.any (·.kind = .action) <;> rfl

/-- The names of what waits are those of the piece, guards first. -/
lemma Collects.names_eq (h : Collects bound piece) : bound.names =
    ((piece.filter (·.kind = .guard)) ++ (piece.filter (·.kind = .action))).map Binding.name := by
  have hguards := congrArg (List.map Prod.fst) h.guards
  have hactions := congrArg (List.map Prod.fst) h.actions
  rw [List.map_map, List.map_map] at hguards hactions
  rw [Bindings.names, List.map_append, List.map_append]
  exact congrArg₂ _ hguards hactions

end collects

/-- The text of a machine is that of its configuration, with the options of a piece after it. -/
lemma Collects.machineText_eq {bound : Bindings} {piece : List Binding} (h : Collects bound piece)
    (m : Machine) (children : List Tree) :
    machineText m children bound =
      configurationText m children ++ optionsText piece ++ ");" := by
  have hmachine : machineText m children bound = configurationText m children ++
      (if bound.isEmpty then "" else ", " ++ (optionsValue bound).layout 0) ++ ");" := rfl
  rw [hmachine, h.isEmpty_eq, h.optionsValue_eq, optionsText]

/-- **Each machine is written with the options of its piece.** -/
lemma rootsText_eq_textWith : ∀ {ts : List Tree} {bound : Bindings} {waiting : List Binding},
    Tree.allShaped none ts = true → Collects bound waiting →
    rootsText bound ts = textWith ((piecesFrom waiting ts).map optionsText) ts
  | [], _, _, _, _ => rfl
  | t :: ts, bound, waiting, hshape, h => by
      obtain ⟨hold, -, hchildren, hrest⟩ := Tree.allShaped_cons.mp hshape
      cases ht : t.payload with
      | machine m =>
          have hpiece := h.trees [t]
          have hmachine : (Node.machine m).isMachine = true := rfl
          simp only [rootsText, textWith, piecesFrom, ht, hmachine, if_true, List.map_cons,
            List.tail_cons, List.headD_cons, hpiece.machineText_eq,
            rootsText_eq_textWith hrest collects_nil]
      | importModule path =>
          rw [ht] at hchildren
          have hnone : contents [t] = [] := by
            rw [contents, bindingsIn_singleton, ht, bindingsIn_import hchildren]
            rfl
          have hmachine : (Node.importModule path).isMachine = false := rfl
          simp only [rootsText, textWith, piecesFrom, ht, hmachine, hnone, List.append_nil,
            Bool.false_eq_true, if_false, rootsText_eq_textWith hrest h]
      | binding b =>
          have hmachine : (Node.binding b).isMachine = false := rfl
          simp only [rootsText, textWith, piecesFrom, ht, hmachine, Bool.false_eq_true, if_false]
          exact rootsText_eq_textWith hrest (h.trees [t])
      | _ => simp [ht, Tree.mayHold, Node.kind] at hold

/-! ## The report -/

/-- What is reported about a piece that no machine takes: one warning that names the guards and
then the actions. -/
def unusedWarning (piece : List Binding) : List Remark :=
  if piece.isEmpty then []
  else
    [.general .warning ("bindings declared outside of any machine are ignored: " ++
      String.intercalate ", " (((piece.filter (·.kind = .guard)) ++
        (piece.filter (·.kind = .action))).map Binding.name))]

/-- **The last piece is reported**, and nothing else is said about the chart as a whole. -/
lemma filter_isGeneral (locate : NodeId → Option Location) (roots : List Tree) :
    (allRemarks locate roots).filter Remark.isGeneral =
      unusedWarning ((piecesFrom [] roots).getLast (piecesFrom_ne_nil [] roots)) := by
  have hcollects := collects_pendingAfter roots collects_nil
  have hwalk : ((Position.start roots).remarksWithin locate (Position.start roots).stepsLeft).filter
      Remark.isGeneral = [] := by
    refine List.filter_eq_nil_iff.mpr fun r hr => ?_
    rcases isWalkRemark_remarksWithin _ hr with ⟨entry, rfl⟩ | ⟨id, message, rfl⟩
    · exact Bool.false_ne_true
    · exact Bool.false_ne_true
  rw [allRemarks, List.filter_append, hwalk, List.nil_append, unusedRemarks, unusedWarning,
    hcollects.isEmpty_eq, hcollects.names_eq]
  cases (List.getLast (piecesFrom [] roots) (piecesFrom_ne_nil [] roots)).isEmpty <;> rfl

/-! ## The exits -/

namespace Position

lemma forward_add : ∀ (m n : Nat) (pos : Position),
    pos.forward (m + n) = (pos.forward m).forward n
  | 0, n, pos => by rw [Nat.zero_add, forward]
  | m + 1, n, pos => by rw [Nat.add_right_comm, forward, forward, forward_add m n]

mutual

/-- Two steps for each node of a tree lead past the tree. -/
lemma forward_tree : ∀ (t : Tree) (path : List Level) (entered rest : List Tree),
    forward (2 * t.entries.length) ⟨path, entered, t :: rest⟩ = ⟨path, entered ++ [t], rest⟩
  | .node id payload children, path, entered, rest => by
      have hbelow := forward_trees children (⟨entered, .node id payload children, rest⟩ :: path) [] []
      rw [List.append_nil, List.nil_append] at hbelow
      have hsteps : 2 * (Tree.node id payload children).entries.length =
          1 + 2 * (Tree.allEntries children).length + 1 := by
        rw [Tree.entries, List.length_cons]
        omega
      rw [hsteps, forward_add, forward_add]
      show forward 1 (forward _ ⟨⟨entered, .node id payload children, rest⟩ :: path, [], children⟩) = _
      rw [hbelow]
      rfl

/-- **The walk goes through a row**: two steps for each node, and it is behind the row. -/
lemma forward_trees : ∀ (ts : List Tree) (path : List Level) (entered rest : List Tree),
    forward (2 * (Tree.allEntries ts).length) ⟨path, entered, ts ++ rest⟩ =
      ⟨path, entered ++ ts, rest⟩
  | [], path, entered, rest => by simp [forward]
  | t :: ts, path, entered, rest => by
      rw [Tree.allEntries, List.length_append, Nat.mul_add, forward_add, List.cons_append,
        forward_tree t, forward_trees ts, List.append_assoc]
      rfl

end

/-- The walk comes to the exit of every top-level tree. -/
lemma forward_exit (before after : List Tree) (t : Tree) : ∃ steps,
    (start (before ++ t :: after)).forward steps = ⟨[⟨before, t, after⟩], t.children, []⟩ := by
  have hbefore := forward_trees before [] [] (t :: after)
  have hbelow := forward_trees t.children [⟨before, t, after⟩] [] []
  rw [List.append_nil, List.nil_append] at hbelow
  refine ⟨2 * (Tree.allEntries before).length + 1 + 2 * (Tree.allEntries t.children).length, ?_⟩
  rw [forward_add, forward_add, start, hbefore]
  exact hbelow

end Position

section exits

variable {f : Forest} {roots : List Tree} (rep : f.Represents roots)
variable (shape : Tree.allShaped none roots = true)
include rep shape

/-- **A top-level machine takes its piece.** -/
lemma exit_topLevel {start : Emitter} (tr : Tracks f (Position.start roots) start)
    {before after : List Tree} {t : Tree} (hroots : roots = before ++ t :: after)
    (ht : t.payload.isMachine = true) : ∃ piece steps e place e',
      (piecesFrom [] roots)[before.countP (·.payload.isMachine)]? = some piece ∧
      Emission.stepsFrom steps (Position.start roots).place start = .ok (some (.leaving, t.id)) e ∧
      Collects e.bindings piece ∧
      Emission.step .leaving t.id e = .ok place e' ∧ e'.bindings = {} := by
  obtain ⟨piece, hpiece, hcollects⟩ := collects_exit ht after before collects_nil
  obtain ⟨steps, hsteps⟩ := Position.forward_exit before after t
  rw [← hroots] at hpiece hsteps
  have hin := (Position.in_start roots).forward steps
  obtain ⟨e, hrun, tr', -⟩ := stepsFrom_follows rep shape steps (Position.in_start roots) tr
  rw [hsteps] at hin hrun tr'
  obtain ⟨e', hstep, -, -, tr''⟩ := step_follows rep shape hin tr' rfl
  refine ⟨piece, steps, e, _, e', hpiece, hrun, ?_, hstep, ?_⟩
  · rw [tr'.bindings, pendingAt_children]
    exact hcollects
  · have hafter : e'.bindings = pendingAt [] (before ++ [t]) := tr''.bindings
    rw [hafter, pendingAt_leave [] before after t, ht]
    rfl

/-- **No exit below the top level takes anything.** -/
lemma exit_nested {start e : Emitter} (tr : Tracks f (Position.start roots) start) {steps : Nat}
    {id : NodeId}
    (hrun : Emission.stepsFrom steps (Position.start roots).place start =
      .ok (some (.leaving, id)) e) (hparent : f.parent id ≠ none) :
    ∃ place e', Emission.step .leaving id e = .ok place e' ∧ e'.bindings = e.bindings := by
  have hin := (Position.in_start roots).forward steps
  obtain ⟨e₁, hrun₁, tr', -⟩ := stepsFrom_follows rep shape steps (Position.in_start roots) tr
  rw [hrun] at hrun₁
  generalize (Position.start roots).forward steps = pos at hin hrun₁ tr'
  obtain ⟨hplace, rfl⟩ := EStateM.Result.ok.inj hrun₁
  obtain ⟨e', hstep, -, -, tr''⟩ := step_follows rep shape hin tr' hplace.symm
  refine ⟨_, e', hstep, ?_⟩
  obtain ⟨path, entered, ahead⟩ := pos
  rcases ahead with _ | ⟨t, rest⟩
  · rcases path with _ | ⟨l, path⟩
    · cases hplace
    · obtain rfl : id = l.tree.id := by cases hplace; rfl
      rw [Forest.parent, Position.linksOf_level rep.linked hin] at hparent
      have hpath : path.isEmpty = false := by
        cases path
        · exact absurd rfl hparent
        · rfl
      obtain ⟨before, t, after⟩ := l
      obtain rfl : entered = t.children := by simpa using hin.1
      have hafter : e'.bindings = pendingAt path (before ++ [t]) := tr''.bindings
      rw [hafter, tr'.bindings, pendingAt_leave path before after t, hpath]
      rfl
  · cases hplace

end exits

end Output

end Statechart
