import Mathlib.Data.List.DropRight
import Statechart.Proofs.Language.Payloads
import Statechart.Proofs.Output.Code
import Statechart.Proofs.Output.Runs
import Statechart.Proofs.Report.Hearing

/-!
# What a module is warned of

The walk warns of what it cannot write and of what is lost in what it writes.  Here is what it is to
warn of, read off the trees of the chart without a walk.

* `importWarning` — imports that bring in nothing.
* `transitionWarnings` — transitions that answer no invocation, and those that begin a run of a
  class that had one before (`startsOf`).
* `guardWarnings` — guards that a machine takes and that are bound to an update.

**`reports_allRemarks`** — the walk warns of this and of nothing else, each once.
**`nodup_topics`** — no two warnings are about the same node.
-/

namespace Statechart.Output

open Script

/-! ## What there is to warn of -/

/-- A warning about a node, at the place of the node. -/
def nodeWarning (locate : NodeId → Option Location) (id : NodeId) (message : String) : Remark :=
  .node id (locate id) .warning message

/-- The warning about an import, if it has no specifiers. -/
def importWarning (locate : NodeId → Option Location) (t : Tree) : Option Remark :=
  match t.payload with
  | .importModule _ =>
    if t.children.isEmpty then
      some (nodeWarning locate t.id "imports without specifiers are not supported")
    else none
  | _ => none

/-- What is said about a transition that does not answer the invocation it belongs to. -/
def unansweredMessage : Trigger → String
  | .event name => "`" ++ name ++ "` is not supported inside invoke, expected `done` or `error`"
  | _ => "only `done` and `error` transitions are supported inside invoke"

/-- The warning about a transition below an invocation, unless it answers the invocation. -/
def unansweredWarning (locate : NodeId → Option Location) (t : Tree) : Option Remark :=
  match t.payload with
  | .transition u =>
    if (answerOf u.trigger).isSome then none
    else some (nodeWarning locate t.id (unansweredMessage u.trigger))
  | _ => none

/-- The warnings about transitions directly below a node.  Below a state, every run of a class after
the first is warned of. -/
def transitionWarnings (locate : NodeId → Option Location) (t : Tree) : List Remark :=
  match t.payload with
  | .invoke _ => t.children.filterMap (unansweredWarning locate)
  | .state _ => [Batch.on, Batch.always, Batch.delay].flatMap fun b =>
      (startsOf b t.children).tail.map fun u => nodeWarning locate u.id (repeatedMessage b)
  | _ => []

/-- The warning about a binding that a machine takes, if it is a guard and its value an update. -/
def guardWarning (locate : NodeId → Option Location) :
    BindingKind × Hoisted → Option Remark
  | (.guard, h) =>
    if h.value.isAssign then
      some (nodeWarning locate h.origin ("guard `" ++ h.name ++ "` must be bound to an identifier"))
    else none
  | (.action, _) => none

/-- The warnings about the bindings of some trees, at any depth, if machines take them. -/
def guardWarnings (locate : NodeId → Option Location) (ts : List Tree) : List Remark :=
  (Tree.bindingsIn ts).filterMap (guardWarning locate)

/-- The top-level trees up to the last machine. -/
def upToLastMachine (roots : List Tree) : List Tree :=
  roots.rdropWhile fun t => !t.payload.isMachine

/-- The top-level trees after the last machine. -/
def afterLastMachine (roots : List Tree) : List Tree :=
  roots.rtakeWhile fun t => !t.payload.isMachine

/-- All that a chart is warned of. -/
def expectedWarnings (locate : NodeId → Option Location) (roots : List Tree) : List Remark :=
  roots.filterMap (importWarning locate) ++ (Tree.allWithin roots).flatMap (transitionWarnings locate) ++
    guardWarnings locate (upToLastMachine roots) ++ unusedWarning (contents (afterLastMachine roots))

/-! ## Reports -/

/-- The reports among some remarks. -/
def reports (rs : List Remark) : List Remark := rs.filter (!·.isLog)

@[simp] lemma reports_nil : reports [] = [] := rfl

@[simp] lemma reports_append (rs ss : List Remark) :
    reports (rs ++ ss) = reports rs ++ reports ss := List.filter_append ..

@[simp] lemma reports_log (entry : Log.Entry) (rs : List Remark) :
    reports (.log entry :: rs) = reports rs := rfl

section refusals

variable {locate : NodeId → Option Location}

lemma refusals_eq_nil {α : Type} {origin : α → NodeId} {value : α → Except String Value}
    {as : List α} (h : ∀ a ∈ as, ∃ v, value a = .ok v) : refusals locate origin value as = [] := by
  refine List.flatMap_eq_nil_iff.mpr fun a ha => ?_
  obtain ⟨v, hv⟩ := h a ha
  rw [hv]

/-- Nothing is refused in a transition that can be written. -/
lemma transitionRefusals_eq_nil {u : Transition} (id : NodeId)
    (h : (Node.transition u).isWritable = true) : transitionRefusals locate id u = [] := by
  rw [Node.isWritable, Bool.and_eq_true, List.all_eq_true, List.all_eq_true] at h
  have hguard : ∀ r ∈ u.guards, ∃ v, guardValue r = .ok v := fun r hr => by
    have hr := h.1 r hr
    rcases r with _ | (_ | _ | _ | _ | _) <;> first | exact ⟨_, rfl⟩ | cases hr
  have haction : ∀ r ∈ u.actions, ∃ v, actionValue r = .ok v := fun r hr => by
    have hr := h.2 r hr
    rcases r with _ | (_ | _ | _ | _ | _) <;> first | exact ⟨_, rfl⟩ | cases hr
  rw [transitionRefusals, refusals_eq_nil hguard, refusals_eq_nil haction, List.append_nil]

end refusals

/-! ## One row -/

section row

variable {locate : NodeId → Option Location} {entered row : List Tree} {t : Tree}

/-- What is reported on entering the trees of a row below a node. -/
def enterReports (locate : NodeId → Option Location) (parent : Node) :
    List Tree → List Tree → List Remark
  | _, [] => []
  | entered, t :: ts =>
    reports (enterRemarks locate (some parent) entered t) ++
      enterReports locate parent (entered ++ [t]) ts

/-- The warnings of two rows, of which the second is entered behind the first. -/
lemma enterReports_append (parent : Node) (ts us : List Tree) : ∀ entered : List Tree,
    enterReports locate parent entered (ts ++ us) =
      enterReports locate parent entered ts ++ enterReports locate parent (entered ++ ts) us := by
  induction ts with
  | nil => intro entered; rw [List.append_nil]; rfl
  | cons t ts ih =>
      intro entered
      rw [List.cons_append, enterReports, enterReports, ih, List.append_assoc, List.append_assoc,
        List.singleton_append]

/-- A node that is neither an import nor a transition is entered without a report. -/
lemma reports_enter_other {parent : Option Node} (himport : t.payload.kind ≠ .importModule)
    (htransition : t.payload.kind ≠ .transition) :
    reports (enterRemarks locate parent entered t) = [] := by
  rw [enterRemarks]
  cases hp : t.payload <;> simp_all [Node.kind]

/-- Inside an invocation, a transition is warned of if it does not answer it. -/
lemma reports_enter_invoke {service : String} {u : Transition} (ht : t.payload = .transition u)
    (hw : t.payload.isWritable = true) :
    reports (enterRemarks locate (some (.invoke service)) entered t) =
      (unansweredWarning locate t).toList := by
  rw [ht] at hw
  have hinvoke : (some (Node.invoke service)).any Node.isInvoke = true := rfl
  have hanswer := answerKey_eq u.trigger
  rw [enterRemarks, unansweredWarning, ht, reports_log]
  simp only [hinvoke, if_true, ← hanswer]
  cases hkey : Emission.answerKey u.trigger with
  | ok key => rw [transitionRefusals_eq_nil t.id hw]; rfl
  | error message =>
      have hmessage : message = unansweredMessage u.trigger := by
        cases htrigger : u.trigger with
        | event name =>
            rw [htrigger, Emission.answerKey] at hkey
            split at hkey
            · cases hkey
            · split at hkey
              · cases hkey
              · exact (Except.error.inj hkey).symm
        | immediate => rw [htrigger] at hkey; exact (Except.error.inj hkey).symm
        | delay n => rw [htrigger] at hkey; exact (Except.error.inj hkey).symm
      rw [hmessage]
      rfl

/-- Below a state, a transition is warned of if its class was closed and is opened again. -/
lemma reports_enter_state {s : State} {u : Transition} (ht : t.payload = .transition u)
    (hw : t.payload.isWritable = true) :
    reports (enterRemarks locate (some (.state s)) entered t) =
      if sharedBatch entered [t] = none ∧
          (batchesIn entered).get (.ofTrigger u.trigger) = true then
        [nodeWarning locate t.id (repeatedMessage (.ofTrigger u.trigger))]
      else [] := by
  rw [ht] at hw
  have hinvoke : (some (Node.state s)).any Node.isInvoke = false := rfl
  rw [enterRemarks, ht, reports_log]
  simp only [hinvoke, transitionRefusals_eq_nil t.id hw, List.append_nil, Bool.false_eq_true,
    if_false]
  split <;> rfl

/-- Below an invocation, all transitions are reported that do not answer it. -/
lemma enterReports_invoke {service : String}
    (hshape : Tree.allShaped (some .invoke) row = true)
    (hw : ∀ node ∈ Tree.payloads row, node.isWritable = true) : ∀ entered : List Tree,
    enterReports locate (.invoke service) entered row =
      row.filterMap (unansweredWarning locate) := by
  induction row with
  | nil => exact fun _ => rfl
  | cons t ts ih =>
      intro entered
      obtain ⟨hold, -, -, hrest⟩ := Tree.allShaped_cons.mp hshape
      rw [Tree.forall_payloads_cons] at hw
      rw [enterReports, ih hrest hw.2.2, List.filterMap_eq_flatMap_toList,
        List.filterMap_eq_flatMap_toList, List.flatMap_cons]
      congr 1
      cases ht : t.payload with
      | transition u => exact reports_enter_invoke ht hw.1
      | _ => simp [ht, Tree.mayHold, Node.kind] at hold

/-- More for one class is more for all of them, in some order. -/
lemma flatMap_batches {β : Type} {f g : Batch → List β} {b : Batch} {added : List β}
    (hb : g b = f b ++ added) (hothers : ∀ c, c ≠ b → g c = f c) :
    ([Batch.on, Batch.always, Batch.delay].flatMap f ++ added).Perm
      ([Batch.on, Batch.always, Batch.delay].flatMap g) := by
  have hswap : ∀ as bs : List β, (as ++ bs ++ added).Perm (as ++ added ++ bs) := fun as bs => by
    rw [List.append_assoc, List.append_assoc]
    exact List.perm_append_comm.append_left as
  simp only [List.flatMap_cons, List.flatMap_nil, List.append_nil]
  cases b with
  | on =>
      rw [hb, hothers .always (by decide), hothers .delay (by decide)]
      exact hswap _ _
  | always =>
      rw [hb, hothers .on (by decide), hothers .delay (by decide), List.append_assoc]
      exact (hswap _ _).append_left _
  | delay =>
      rw [hb, hothers .on (by decide), hothers .always (by decide), List.append_assoc,
        List.append_assoc]

/-- Below a state, all transitions are reported that begin a run after the first of their class. -/
lemma enterReports_state {s : State} (hshape : Tree.allShaped (some .state) row = true)
    (hw : ∀ node ∈ Tree.payloads row, node.isWritable = true) :
    (enterReports locate (.state s) [] row).Perm
      ([Batch.on, Batch.always, Batch.delay].flatMap fun b =>
        (startsOf b row).tail.map fun u => nodeWarning locate u.id (repeatedMessage b)) := by
  induction row using List.reverseRecOn with
  | nil => exact .nil
  | append_singleton row t ih =>
      obtain ⟨hrow, ht⟩ := Tree.allShaped_append.mp hshape
      rw [Tree.payloads_append, List.forall_mem_append] at hw
      have hown : t.payload.isWritable = true := hw.2 _ (by simp)
      have ih := ih hrow hw.1
      rw [enterReports_append, List.nil_append, enterReports, enterReports, List.append_nil]
      by_cases hkind : t.payload.kind = .transition
      · cases hp : t.payload with
        | transition u =>
            -- only the runs of one class have changed
            have hbatch : batchOf t.payload = some (.ofTrigger u.trigger) := by rw [hp]; rfl
            have hothers : ∀ b, b ≠ .ofTrigger u.trigger →
                startsOf b (row ++ [t]) = startsOf b row := fun b hb =>
              startsOf_concat_other (by rw [hbatch]; simpa using hb.symm)
            rw [reports_enter_state hp hown]
            refine (ih.append_right _).trans ?_
            refine flatMap_batches (b := .ofTrigger u.trigger) ?_ fun b hb => by rw [hothers b hb]
            rw [tail_startsOf_concat hbatch, List.map_append]
            split <;> rfl
        | _ => rw [hp] at hkind; cases hkind
      · have himport : t.payload.kind ≠ .importModule := fun himport => by
          obtain ⟨hold, -⟩ := Tree.allShaped_cons.mp ht
          rw [himport] at hold
          cases hold
        have hnone : batchOf t.payload = none := batchOf_eq_none hkind
        have hstarts : ∀ b, startsOf b (row ++ [t]) = startsOf b row := fun b =>
          startsOf_concat_other (by simp [hnone])
        rw [reports_enter_other himport hkind, List.append_nil]
        simp only [hstarts]
        exact ih

/-- Below other nodes, nothing is reported. -/
lemma enterReports_other {parent : Node} (hinvoke : parent.kind ≠ .invoke)
    (hstate : parent.kind ≠ .state)
    (hshape : Tree.allShaped (some parent.kind) row = true) : ∀ entered : List Tree,
    enterReports locate parent entered row = [] := by
  induction row with
  | nil => exact fun _ => rfl
  | cons t ts ih =>
      intro entered
      obtain ⟨hold, -, -, hrest⟩ := Tree.allShaped_cons.mp hshape
      rw [enterReports, ih hrest, List.append_nil]
      refine reports_enter_other ?_ ?_ <;> intro hkind <;> rw [hkind] at hold <;>
        cases hp : parent.kind <;> simp_all [Tree.mayHold]

/-- **What is reported on entering the trees below a node.** -/
lemma enterReports_perm {t : Tree}
    (hshape : Tree.allShaped (some t.payload.kind) t.children = true)
    (hw : ∀ node ∈ Tree.payloads t.children, node.isWritable = true) :
    (enterReports locate t.payload [] t.children).Perm (transitionWarnings locate t) := by
  rw [transitionWarnings]
  cases hp : t.payload with
  | invoke service =>
      rw [hp] at hshape
      rw [enterReports_invoke hshape hw]
  | state s =>
      rw [hp] at hshape
      exact enterReports_state hshape hw
  | _ =>
      rw [hp] at hshape
      rw [enterReports_other (by simp [Node.kind]) (by simp [Node.kind]) hshape]

end row

/-! ## Rows in rows -/

section rows

variable {locate : NodeId → Option Location}

/-- Below a node, nothing is reported on leaving a tree. -/
lemma reports_leave_some (n : Node) (t : Tree) (bound : Bindings) :
    reports (leaveRemarks locate (some n) t bound) = [] := by
  rw [leaveRemarks, reports_log]
  cases t.payload <;> rfl

/-- What is reported about the trees of a row, and about all trees inside them. -/
lemma reports_row (locate : NodeId → Option Location) {ts : List Tree} :
    ∀ (parent : Node) (entered : List Tree),
    Tree.allShaped (some parent.kind) ts = true →
    (∀ node ∈ Tree.payloads ts, node.isWritable = true) →
    (reports (rowRemarks locate (some parent) entered ts)).Perm
      (enterReports locate parent entered ts ++
        (Tree.allWithin ts).flatMap (transitionWarnings locate)) := by
  induction ts using Tree.row_induction with
  | nil =>
      intro parent entered _ _
      rw [rowRemarks, enterReports, Tree.allWithin_nil]
      exact .nil
  | cons t ts below rest =>
      intro parent entered hshape hw
      obtain ⟨-, -, hchildren, hrest⟩ := Tree.allShaped_cons.mp hshape
      rw [Tree.forall_payloads_cons] at hw
      have hbelow := (below t.payload [] hchildren hw.2.1).trans
        ((enterReports_perm hchildren hw.2.1).append_right _)
      have hafter := rest parent (entered ++ [t]) hrest hw.2.2
      rw [rowRemarks, treeRemarks_eq, reports_append, reports_append, reports_append,
        reports_leave_some, List.append_nil, enterReports, Tree.allWithin_cons, List.flatMap_append,
        List.flatMap_cons, List.append_assoc, List.append_assoc]
      refine List.Perm.append_left _ ((hbelow.append hafter).trans ?_)
      -- the reports on entering the rest of the row come first
      rw [← List.append_assoc, ← List.append_assoc]
      exact List.perm_append_comm.append_right _

/-- What is reported about the top-level trees on leaving them. -/
def leaveReports (locate : NodeId → Option Location) : List Tree → List Tree → List Remark
  | _, [] => []
  | entered, t :: ts =>
    reports (leaveRemarks locate none t
      ((pendingAfter {} entered).registerAll (Tree.bindingsIn [t]))) ++
      leaveReports locate (entered ++ [t]) ts

/-- The same when the trees are left. -/
lemma leaveReports_append (ts us : List Tree) : ∀ entered : List Tree,
    leaveReports locate entered (ts ++ us) =
      leaveReports locate entered ts ++ leaveReports locate (entered ++ ts) us := by
  induction ts with
  | nil => intro entered; rw [List.append_nil]; rfl
  | cons t ts ih =>
      intro entered
      rw [List.cons_append, leaveReports, leaveReports, ih, List.append_assoc, List.append_assoc,
        List.singleton_append]

/-- An import brings in nothing exactly if nothing hangs below it. -/
lemma isEmpty_specifierNames {row : List Tree}
    (h : Tree.allShaped (some .importModule) row = true) :
    (specifierNames row).isEmpty = row.isEmpty := by
  cases row with
  | nil => rfl
  | cons t ts =>
      obtain ⟨hold, -⟩ := Tree.allShaped_cons.mp h
      cases hp : t.payload with
      | specifier imported renamed => simp [specifierNames, hp]
      | _ => simp [hp, Tree.mayHold, Node.kind] at hold

/-- What is reported on entering a top-level tree. -/
lemma reports_enter_root {t : Tree} {entered : List Tree} (h : Tree.allShaped none [t] = true) :
    reports (enterRemarks locate none entered t) = (importWarning locate t).toList := by
  obtain ⟨hold, -, hchildren, -⟩ := Tree.allShaped_cons.mp h
  by_cases himport : t.payload.kind = .importModule
  · cases hp : t.payload with
    | importModule path =>
        rw [hp] at hchildren
        rw [enterRemarks, hp, reports_log, importWarning, hp]
        simp only [isEmpty_specifierNames hchildren]
        cases t.children.isEmpty <;> rfl
    | _ => rw [hp] at himport; cases himport
  · have htransition : t.payload.kind ≠ .transition := fun htransition => by
      rw [htransition] at hold
      cases hold
    rw [reports_enter_other himport htransition, importWarning]
    cases hp : t.payload with
    | importModule path => rw [hp] at himport; exact absurd rfl himport
    | _ => rfl

/-- **What is reported about top-level trees.** -/
lemma reports_roots {ts : List Tree} : ∀ entered : List Tree, Tree.allShaped none ts = true →
    (∀ node ∈ Tree.payloads ts, node.isWritable = true) →
    (reports (rowRemarks locate none entered ts)).Perm
      (ts.filterMap (importWarning locate) ++
        (Tree.allWithin ts).flatMap (transitionWarnings locate) ++ leaveReports locate entered ts) := by
  induction ts with
  | nil =>
      intro entered _ _
      rw [rowRemarks, Tree.allWithin_nil]
      exact .nil
  | cons t ts ih =>
      intro entered hshape hw
      have hown : Tree.allShaped none [t] = true := by
        obtain ⟨hold, hopen, hchildren, -⟩ := Tree.allShaped_cons.mp hshape
        exact Tree.allShaped_cons.mpr ⟨hold, hopen, hchildren, Tree.allShaped_nil _⟩
      obtain ⟨-, -, hchildren, hrest⟩ := Tree.allShaped_cons.mp hshape
      rw [Tree.forall_payloads_cons] at hw
      have hbelow := (reports_row locate t.payload [] hchildren hw.2.1).trans
        ((enterReports_perm hchildren hw.2.1).append_right _)
      have hafter := ih (entered ++ [t]) hrest hw.2.2
      rw [rowRemarks, treeRemarks_eq, reports_append, reports_append, reports_append,
        reports_enter_root hown, leaveReports, Tree.allWithin_cons, List.flatMap_append,
        List.flatMap_cons, List.filterMap_eq_flatMap_toList, List.flatMap_cons,
        ← List.filterMap_eq_flatMap_toList]
      refine List.perm_iff_count.mpr fun r => ?_
      have hbelow := hbelow.count_eq r
      have hafter := hafter.count_eq r
      simp only [List.count_append] at hbelow hafter ⊢
      omega

end rows

/-! ## Bindings -/

section bindings

variable {locate : NodeId → Option Location}

/-- What waits after some top-level trees are the bindings after the last machine. -/
lemma pendingAfter_eq (ts : List Tree) :
    pendingAfter {} ts = ({} : Bindings).registerAll (Tree.bindingsIn (afterLastMachine ts)) := by
  induction ts using List.reverseRecOn with
  | nil => rfl
  | append_singleton ts t ih =>
      rw [pendingAfter_concat, afterLastMachine, List.rtakeWhile_concat]
      cases ht : t.payload.isMachine with
      | true => rfl
      | false =>
          rw [ih, ← registerAll_append, ← bindingsIn_append]
          rfl

/-- The values of bindings in a chart that can be written. -/
lemma isWritable_of_mem_bindingsIn {ts : List Tree}
    (hw : ∀ node ∈ Tree.payloads ts, node.isWritable = true) :
    ∀ x ∈ Tree.bindingsIn ts, (Node.binding ⟨x.1, x.2.name, x.2.value⟩).isWritable = true := by
  intro x hx
  exact hw _ (mem_payloads_of_mem_contents (List.mem_map_of_mem hx))

/-- No action is refused, and only guards that are updates are. -/
lemma reports_hoisted (locate : NodeId → Option Location) {added : List (BindingKind × Hoisted)}
    (hw : ∀ x ∈ added, (Node.binding ⟨x.1, x.2.name, x.2.value⟩).isWritable = true) :
    reports (refusals locate Hoisted.origin hoistedGuard ((added.filter (·.1 = .guard)).map Prod.snd) ++
      refusals locate Hoisted.origin hoistedAction ((added.filter (·.1 = .action)).map Prod.snd)) =
      added.filterMap (guardWarning locate) := by
  have hactions : refusals locate Hoisted.origin hoistedAction
      ((added.filter (·.1 = .action)).map Prod.snd) = [] := by
    refine refusals_eq_nil fun h hh => ?_
    obtain ⟨⟨kind, h⟩, hx, rfl⟩ := List.mem_map.mp hh
    have hvalue := hw _ (List.mem_of_mem_filter hx)
    obtain ⟨name, _ | _ | _ | _ | _, origin⟩ := h <;> first | exact ⟨_, rfl⟩ | cases hvalue
  rw [hactions, List.append_nil]
  clear hactions
  induction added with
  | nil => rfl
  | cons x added ih =>
      obtain ⟨hx, hrest⟩ := List.forall_mem_cons.mp hw
      obtain ⟨_ | _, name, value, origin⟩ := x
      · rw [List.filter_cons_of_pos (by simp), List.map_cons, refusals, List.flatMap_cons,
          reports_append, ← refusals, ih hrest, List.filterMap_eq_flatMap_toList,
          List.filterMap_eq_flatMap_toList, List.flatMap_cons]
        congr 1
        cases value <;> first | rfl | cases hx
      · rw [List.filter_cons_of_neg (by simp), ih hrest]
        rfl

/-- What is reported on leaving a top-level tree. -/
lemma reports_leave_root {t : Tree} {added : List (BindingKind × Hoisted)}
    (hw : ∀ x ∈ added, (Node.binding ⟨x.1, x.2.name, x.2.value⟩).isWritable = true) :
    reports (leaveRemarks locate none t (({} : Bindings).registerAll added)) =
      if t.payload.isMachine then added.filterMap (guardWarning locate) else [] := by
  rw [leaveRemarks, reports_log]
  cases t.payload with
  | machine m =>
      have hreports := reports_hoisted locate hw
      have hlog : ∀ entry, reports [.log entry] = [] := fun _ => rfl
      have hmachine : (Node.machine m).isMachine = true := rfl
      simp only [Option.isSome_none, Bool.false_eq_true, if_false, hmachine, if_true]
      rw [reports_append, hlog, List.append_nil]
      exact hreports
  | _ => rfl

/-- **What is reported on leaving the top-level trees** is about the bindings that machines take. -/
lemma leaveReports_eq {ts : List Tree} (hw : ∀ node ∈ Tree.payloads ts, node.isWritable = true) :
    leaveReports locate [] ts = guardWarnings locate (upToLastMachine ts) := by
  induction ts using List.reverseRecOn with
  | nil => rfl
  | append_singleton ts t ih =>
      have hbindings := isWritable_of_mem_bindingsIn hw
      rw [Tree.payloads_append, List.forall_mem_append] at hw
      -- what the machines have taken, and what waits for this tree
      have hsplit : upToLastMachine ts ++ afterLastMachine ts = ts :=
        List.rdropWhile_append_rtakeWhile
      have hadded : ∀ x ∈ Tree.bindingsIn (afterLastMachine ts ++ [t]),
          (Node.binding ⟨x.1, x.2.name, x.2.value⟩).isWritable = true := fun x hx => by
        refine hbindings x ?_
        rw [← hsplit, List.append_assoc, bindingsIn_append]
        exact List.mem_append_right _ hx
      rw [leaveReports_append, ih hw.1, List.nil_append, leaveReports, leaveReports,
        List.append_nil, pendingAfter_eq, ← registerAll_append, ← bindingsIn_append,
        reports_leave_root hadded, upToLastMachine, upToLastMachine, List.rdropWhile_concat]
      cases t.payload.isMachine with
      | false => rw [if_neg (by simp), List.append_nil, if_pos (by simp)]
      | true =>
          rw [if_pos rfl, if_neg (by simp), guardWarnings, guardWarnings, ← List.filterMap_append,
            ← bindingsIn_append, ← List.append_assoc]
          exact congrArg (fun us => (Tree.bindingsIn (us ++ [t])).filterMap _) hsplit

/-- What is reported about the bindings after the last machine. -/
lemma reports_unusedRemarks (ts : List Tree) :
    reports (unusedRemarks (pendingAfter {} ts)) =
      unusedWarning (contents (afterLastMachine ts)) := by
  have hcollects : Collects (pendingAfter {} ts) (contents (afterLastMachine ts)) := by
    rw [pendingAfter_eq]
    exact collects_nil.trees (afterLastMachine ts)
  rw [unusedRemarks, unusedWarning, hcollects.isEmpty_eq, hcollects.names_eq]
  cases (contents (afterLastMachine ts)).isEmpty <;> rfl

end bindings

/-! ## The walk -/

section walk

variable {locate : NodeId → Option Location} {roots : List Tree}

/-- **The walk reports what there is to warn of**, each once, and nothing else. -/
lemma reports_allRemarks (hshape : Tree.allShaped none roots = true)
    (hw : ∀ node ∈ Tree.payloads roots, node.isWritable = true) :
    (reports (allRemarks locate roots)).Perm (expectedWarnings locate roots) := by
  rw [allRemarks_eq, reports_append, reports_unusedRemarks, expectedWarnings,
    ← leaveReports_eq hw]
  exact (reports_roots [] hshape hw).append_right _

/-- The nodes that some remarks are about. -/
def subjects (rs : List Remark) : List NodeId := (rs.filterMap Remark.topic?).map Prod.fst

@[simp] lemma subjects_append (rs ss : List Remark) :
    subjects (rs ++ ss) = subjects rs ++ subjects ss := by
  simp [subjects]

@[simp] lemma subjects_log (entry : Log.Entry) (rs : List Remark) :
    subjects (.log entry :: rs) = subjects rs := rfl

/-- Entries of the log are about no node. -/
lemma subjects_reports (rs : List Remark) : subjects (reports rs) = subjects rs := by
  induction rs with
  | nil => rfl
  | cons r rs ih =>
      cases r with
      | log entry => exact ih
      | node id location severity message => exact congrArg (id :: ·) ih
      | _ => exact ih

/-- The nodes that are not bindings, in order. -/
def otherIds (ts : List Tree) : List NodeId :=
  ((Tree.allEntries ts).filter (·.2.kind ≠ .binding)).map Prod.fst

lemma otherIds_cons (t : Tree) (ts : List Tree) :
    otherIds (t :: ts) =
      (if t.payload.kind = .binding then [] else [t.id]) ++ otherIds t.children ++ otherIds ts := by
  by_cases ht : t.payload.kind = .binding <;> simp [otherIds, ht]

/-- A node is the subject of at most one remark on entering it, and a binding of none. -/
lemma subjects_enter {parent : Option Node} {entered : List Tree} {t : Tree}
    (hw : t.payload.isWritable = true) :
    (subjects (enterRemarks locate parent entered t)).Sublist
      (if t.payload.kind = .binding then [] else [t.id]) := by
  have hwarning : ∀ message, subjects (warning locate t.id message) = [t.id] := fun _ => rfl
  rw [enterRemarks, subjects_log]
  cases hp : t.payload with
  | importModule path =>
      simp only [Node.kind]
      split
      · exact (hwarning _).symm ▸ List.Sublist.refl _
      · exact List.nil_sublist _
  | transition u =>
      rw [hp] at hw
      simp only [Node.kind, transitionRefusals_eq_nil t.id hw, List.append_nil]
      split
      · cases Emission.answerKey u.trigger with
        | ok key => exact List.nil_sublist _
        | error message => exact (hwarning _).symm ▸ List.Sublist.refl _
      · split
        · exact (hwarning _).symm ▸ List.Sublist.refl _
        · exact List.nil_sublist _
  | _ => exact List.nil_sublist _

/-- The remarks about a row are about nodes of the row, each in its turn. -/
lemma subjects_row {ts : List Tree} : ∀ {parent : Node} {entered : List Tree},
    (∀ node ∈ Tree.payloads ts, node.isWritable = true) →
    (subjects (rowRemarks locate (some parent) entered ts)).Sublist (otherIds ts) := by
  induction ts using Tree.row_induction with
  | nil =>
      intro parent entered _
      rw [rowRemarks]
      exact List.nil_sublist _
  | cons t ts below rest =>
      intro parent entered hw
      rw [Tree.forall_payloads_cons] at hw
      have hleave : subjects (leaveRemarks locate (some parent) t
          ((pendingAfter {} entered).registerAll (Tree.bindingsIn [t]))) = [] := by
        rw [← subjects_reports, reports_leave_some]
        rfl
      rw [rowRemarks, treeRemarks_eq, otherIds_cons, subjects_append, subjects_append,
        subjects_append, hleave, List.append_nil]
      exact ((subjects_enter hw.1).append (below hw.2.1)).append (rest hw.2.2)

/-- The remarks about top-level trees: some about nodes that are not bindings, each in its turn, and
those on leaving. -/
lemma subjects_roots (locate : NodeId → Option Location) {ts : List Tree} :
    ∀ entered : List Tree,
    (∀ node ∈ Tree.payloads ts, node.isWritable = true) →
    ∃ others, others.Sublist (otherIds ts) ∧ (subjects (rowRemarks locate none entered ts)).Perm
      (others ++ subjects (leaveReports locate entered ts)) := by
  induction ts with
  | nil =>
      intro entered _
      rw [rowRemarks]
      exact ⟨[], List.nil_sublist _, .nil⟩
  | cons t ts ih =>
      intro entered hw
      rw [Tree.forall_payloads_cons] at hw
      obtain ⟨others, hothers, hperm⟩ := ih (entered ++ [t]) hw.2.2
      refine ⟨subjects (enterRemarks locate none entered t) ++
        subjects (rowRemarks locate (some t.payload) [] t.children) ++ others, ?_, ?_⟩
      · rw [otherIds_cons]
        exact ((subjects_enter hw.1).append (subjects_row hw.2.1)).append hothers
      · rw [rowRemarks, treeRemarks_eq, leaveReports, subjects_append, subjects_append,
          subjects_append, subjects_append, subjects_reports]
        refine List.perm_iff_count.mpr fun id => ?_
        have hperm := hperm.count_eq id
        simp only [List.count_append] at hperm ⊢
        omega

/-- The numbers of the nodes that declare bindings. -/
lemma map_origin_bindingsIn (ts : List Tree) : (Tree.bindingsIn ts).map (·.2.origin) =
    ((Tree.allEntries ts).filter (·.2.kind = .binding)).map Prod.fst := by
  rw [Tree.bindingsIn]
  induction Tree.allEntries ts with
  | nil => rfl
  | cons entry entries ih =>
      obtain ⟨id, payload⟩ := entry
      cases payload with
      | binding b => exact congrArg (id :: ·) ih
      | _ => exact ih

/-- The warnings about guards are about the nodes that declare them, each in its turn. -/
lemma subjects_guardWarnings (ts : List Tree) : (subjects (guardWarnings locate ts)).Sublist
    (((Tree.allEntries ts).filter (·.2.kind = .binding)).map Prod.fst) := by
  rw [← map_origin_bindingsIn, guardWarnings]
  induction Tree.bindingsIn ts with
  | nil => exact List.nil_sublist _
  | cons x xs ih =>
      obtain ⟨_ | _, name, value, origin⟩ := x
      · by_cases hvalue : value.isAssign = true
        · rw [List.filterMap_cons_some (by rw [guardWarning, if_pos hvalue])]
          exact ih.cons_cons origin
        · rw [List.filterMap_cons_none (by rw [guardWarning, if_neg hvalue])]
          exact ih.cons origin
      · exact ih.cons origin

/-- Every node is the subject of at most one remark. -/
lemma subperm_subjects (locate : NodeId → Option Location)
    (hw : ∀ node ∈ Tree.payloads roots, node.isWritable = true) :
    (subjects (allRemarks locate roots)).Subperm (Tree.ids roots) := by
  have hunused : subjects (unusedRemarks (pendingAfter {} roots)) = [] := by
    rw [unusedRemarks]
    split <;> rfl
  obtain ⟨others, hothers, hperm⟩ := subjects_roots locate [] hw
  rw [leaveReports_eq hw] at hperm
  rw [allRemarks_eq, subjects_append, hunused, List.append_nil]
  -- the nodes fall into bindings and others
  have hsplit : (otherIds roots ++
      ((Tree.allEntries roots).filter (·.2.kind = .binding)).map Prod.fst).Perm (Tree.ids roots) := by
    rw [otherIds, ← List.map_append, Tree.ids]
    refine List.Perm.map _ (List.perm_append_comm.trans ?_)
    have hparts := List.filter_append_perm (fun entry : NodeId × Node => entry.2.kind = .binding)
      (Tree.allEntries roots)
    simpa using hparts
  have hpart : (Tree.bindingsIn (upToLastMachine roots)).Sublist (Tree.bindingsIn roots) := by
    have hroots : upToLastMachine roots ++ afterLastMachine roots = roots :=
      List.rdropWhile_append_rtakeWhile
    have happend := bindingsIn_append (upToLastMachine roots) (afterLastMachine roots)
    rw [hroots] at happend
    exact happend ▸ List.sublist_append_left _ _
  have hguards : (subjects (guardWarnings locate (upToLastMachine roots))).Sublist
      (((Tree.allEntries roots).filter (·.2.kind = .binding)).map Prod.fst) := by
    refine (subjects_guardWarnings _).trans ?_
    rw [← map_origin_bindingsIn, ← map_origin_bindingsIn]
    exact hpart.map _
  exact (hperm.subperm.trans (hothers.append hguards).subperm).trans hsplit.subperm

/-- **No two remarks are about the same node.** -/
lemma nodup_topics (hw : ∀ node ∈ Tree.payloads roots, node.isWritable = true)
    (hids : (Tree.ids roots).Nodup) :
    ((allRemarks locate roots).filterMap Remark.topic?).Nodup := by
  obtain ⟨ids, hperm, hsub⟩ := subperm_subjects locate hw
  have hsubjects : (subjects (allRemarks locate roots)).Nodup :=
    hperm.nodup_iff.mp (hids.sublist hsub)
  exact List.Nodup.of_map Prod.fst hsubjects

end walk

end Statechart.Output
