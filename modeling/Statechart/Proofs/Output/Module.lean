import Statechart.Compile
import Statechart.Proofs.Output.Run
import Statechart.Proofs.Output.Translation
import Statechart.Proofs.Report.Noting

/-!
# The module that is emitted

The walk, its header and its end, put together: what is emitted for a forest of trees is the text
that the recursive translation gives for the trees.

* `applyAll_rootOperations` — the operations of the walk write the text of the trees.
* **`Output.generate_eq`** — the whole emission, with all that is said on the way.
* **`generate_eq_moduleText`** — the same with a journal, which can show what is said.
-/

namespace Statechart

namespace Output

open Script

/-! ## The text of the trees -/

/-- Nothing is written for the specifiers of an import: the import has named them already. -/
lemma rowOperations_import (path : String) : ∀ (entered ts : List Tree),
    Tree.allShaped (some .importModule) ts = true →
    rowOperations (.importModule path) entered ts = []
  | entered, [], _ => rowOperations_nil _ _
  | entered, .node id payload children :: ts, h => by
      obtain ⟨hold, -, hchildren, hrest⟩ := Tree.allShaped_cons.mp h
      cases payload with
      | specifier imported renamed =>
          obtain rfl : children = [] := eq_nil_of_allShaped (by simp [Node.kind]) hchildren
          rw [rowOperations_cons, rowOperations_import path _ ts hrest, Tree.children_node,
            rowOperations_nil]
          rfl
      | _ => simp [Tree.mayHold, Node.kind] at hold

/-- There are no bindings below an import. -/
lemma bindingsIn_import : ∀ {ts : List Tree}, Tree.allShaped (some .importModule) ts = true →
    Tree.bindingsIn ts = []
  | [], _ => rfl
  | .node id payload children :: ts, h => by
      obtain ⟨hold, -, hchildren, hrest⟩ := Tree.allShaped_cons.mp h
      cases payload with
      | specifier imported renamed =>
          obtain rfl : children = [] := eq_nil_of_allShaped (by simp [Node.kind]) hchildren
          rw [← List.singleton_append, bindingsIn_append, bindingsIn_singleton,
            bindingsIn_import hrest]
          rfl
      | _ => simp [Tree.mayHold, Node.kind] at hold

section root

variable {t : Tree} {entered ts : List Tree} {bound : Bindings}

/-- A top-level machine is one call with its configuration and its options. -/
lemma machine_operations {m : Machine} (ht : t.payload = .machine m)
    (h : Tree.allShaped (some .machine) t.children = true) :
    enterOperations none entered t ++ rowOperations t.payload [] t.children ++
        leaveOperations none t ts bound =
      [.raw (Emission.exportText m), .startCall "Machine"] ++
        (Value.object (machineProperties m (stateProperties t.children))).operations ++
        (if bound.isEmpty then [] else .raw ", " :: (optionsValue bound).operations) ++
        [.endCall, .raw ";"] := by
  rw [ht, rowOperations_machine m [] t.children h, Value.operations,
    operations_machineProperties h]
  simp [enterOperations, leaveOperations, ht]

/-- The operations for a top-level machine write its text. -/
lemma applyAll_machine {m : Machine} (ht : t.payload = .machine m)
    (h : Tree.allShaped (some .machine) t.children = true) {w : Writer} (hdepth : w.depth = 0) :
    w.applyAll (enterOperations none entered t ++ rowOperations t.payload [] t.children ++
        leaveOperations none t ts bound) =
      .ok (w.put (machineText m t.children bound)) := by
  have hopen : w.applyAll [.raw (Emission.exportText m), .startCall "Machine"] =
      .ok (w.put (Emission.exportText m ++ "Machine(")) := by
    simp [Writer.applyAll, Writer.apply, Writer.put, String.append_assoc]
  rw [machine_operations ht h, List.append_assoc, List.append_assoc,
    Writer.applyAll_append_of_ok hopen,
    Writer.applyAll_append_of_ok (Writer.applyAll_operations _ _)]
  have htext : machineText m t.children bound = Emission.exportText m ++ "Machine(" ++
      (Value.object (machineProperties m (stateProperties t.children))).layout 0 ++
      (if bound.isEmpty then "" else ", " ++ (optionsValue bound).layout 0) ++ ");" := rfl
  rw [htext]
  by_cases hbound : bound.isEmpty = true
  · simp [hbound, Writer.applyAll, Writer.apply, Writer.put, hdepth, String.append_assoc]
  · rw [if_neg hbound, List.cons_append, Writer.applyAll_cons_of_ok (by rw [Writer.apply]),
      Writer.applyAll_append_of_ok (Writer.applyAll_operations _ _)]
    simp [hbound, Writer.applyAll, Writer.apply, Writer.put, hdepth, String.append_assoc]

/-- An import is one line, or nothing. -/
lemma applyAll_import {path : String} (ht : t.payload = .importModule path)
    (h : Tree.allShaped (some .importModule) t.children = true) (w : Writer) :
    w.applyAll (enterOperations none entered t ++ rowOperations t.payload [] t.children ++
        leaveOperations none t ts bound) =
      .ok (w.put (importText path t.children)) := by
  rw [ht, rowOperations_import path [] t.children h]
  by_cases hempty : (specifierNames t.children).isEmpty = true
  · simp [enterOperations, leaveOperations, ht, importText, hempty, Writer.put]
  · simp [enterOperations, leaveOperations, ht, importText, hempty, Writer.put, Writer.applyAll,
      Writer.apply, String.append_assoc]

end root

/-- **The operations of the walk write the text of the trees.** -/
lemma applyAll_rootOperations : ∀ (entered ts : List Tree) {w : Writer},
    Tree.allShaped none ts = true → w.depth = 0 →
    w.applyAll (rootOperations entered ts) =
      .ok (w.put (rootsText (pendingAfter {} entered) ts))
  | entered, [], w, _, _ => by simp [rootOperations, rootsText, Writer.put]
  | entered, t :: ts, w, h, hdepth => by
      obtain ⟨hold, -, hchildren, hrest⟩ := Tree.allShaped_cons.mp h
      have ih : ∀ u : Writer, u.depth = 0 → u.applyAll (rootOperations (entered ++ [t]) ts) =
            .ok (u.put (rootsText (pendingAfter {} (entered ++ [t])) ts)) :=
        fun u hu => applyAll_rootOperations _ ts hrest hu
      rw [pendingAfter_concat] at ih
      rw [rootOperations, rootsText]
      cases ht : t.payload with
      | machine m =>
          rw [ht] at hchildren
          rw [← ht, Writer.applyAll_append_of_ok (applyAll_machine ht hchildren hdepth),
            ih (w.put _) hdepth]
          simp [Writer.put, String.append_assoc, ht, Node.isMachine, Node.kind]
      | importModule path =>
          rw [ht] at hchildren
          -- only specifiers hang below an import, so no binding comes from there
          have hnone : Tree.bindingsIn [t] = [] := by
            rw [bindingsIn_singleton, ht]
            exact bindingsIn_import hchildren
          rw [← ht, Writer.applyAll_append_of_ok (applyAll_import ht hchildren w),
            ih (w.put _) hdepth, hnone]
          simp [Writer.put, String.append_assoc, ht, Node.isMachine, Node.kind]
      | binding b =>
          rw [ht] at hchildren
          rw [eq_nil_of_allShaped (by simp [Node.kind]) hchildren, rowOperations_nil]
          simpa [enterOperations, leaveOperations, ht, Node.isMachine, Node.kind] using ih w hdepth
      | _ => simp [ht, Tree.mayHold, Node.kind] at hold

/-! ## Remarks -/

/-- The remark is an entry for the log, or a warning about a node at the place of the node. -/
def IsWalkRemark (locate : NodeId → Option Location) (r : Remark) : Prop :=
  (∃ entry, r = .log entry) ∨ ∃ id message, r = .node id (locate id) .warning message

section remarks

variable {locate : NodeId → Option Location} {r : Remark}

/-- A warning about a node has the location of that node. -/
lemma isWalkRemark_warning {id : NodeId} {message : String} (h : r ∈ warning locate id message) :
    IsWalkRemark locate r := by
  rw [warning, List.mem_cons, List.mem_singleton] at h
  rcases h with rfl | rfl
  · exact .inl ⟨_, rfl⟩
  · exact .inr ⟨_, _, rfl⟩

/-- So has a warning about a value that cannot be written. -/
lemma isWalkRemark_refusals {α : Type} {origin : α → NodeId} {value : α → Except String Value}
    {as : List α} (h : r ∈ refusals locate origin value as) : IsWalkRemark locate r := by
  obtain ⟨a, -, ha⟩ := List.mem_flatMap.mp h
  cases hv : value a with
  | ok v => rw [hv] at ha; cases ha
  | error message =>
      rw [hv] at ha
      exact isWalkRemark_warning ha

lemma isWalkRemark_transitionRefusals {id : NodeId} {u : Transition}
    (h : r ∈ transitionRefusals locate id u) : IsWalkRemark locate r := by
  rcases List.mem_append.mp h with h | h <;> exact isWalkRemark_refusals h

/-- What is said when a node is entered points to a node or nowhere. -/
lemma isWalkRemark_enterRemarks {parent : Option Node} {entered : List Tree} {t : Tree}
    (h : r ∈ enterRemarks locate parent entered t) : IsWalkRemark locate r := by
  rw [enterRemarks, List.mem_cons] at h
  rcases h with rfl | h
  · exact .inl ⟨_, rfl⟩
  · cases ht : t.payload with
    | importModule path =>
        simp only [ht] at h
        split at h
        · exact isWalkRemark_warning h
        · cases h
    | transition u =>
        simp only [ht] at h
        split at h
        · cases hk : Emission.answerKey u.trigger with
          | ok key => rw [hk] at h; exact isWalkRemark_transitionRefusals h
          | error message => rw [hk] at h; exact isWalkRemark_warning h
        · rcases List.mem_append.mp h with h | h
          · split at h
            · exact isWalkRemark_warning h
            · cases h
          · exact isWalkRemark_transitionRefusals h
    | binding b =>
        simp only [ht, List.mem_singleton] at h
        exact .inl ⟨_, h⟩
    | _ => simp [ht] at h

/-- The same when a node is left. -/
lemma isWalkRemark_leaveRemarks {parent : Option Node} {t : Tree} {bound : Bindings}
    (h : r ∈ leaveRemarks locate parent t bound) : IsWalkRemark locate r := by
  rw [leaveRemarks, List.mem_cons] at h
  rcases h with rfl | h
  · exact .inl ⟨_, rfl⟩
  · cases ht : t.payload with
    | machine m =>
        simp only [ht] at h
        split at h
        · cases h
        · rcases List.mem_append.mp h with h | h
          · rcases List.mem_append.mp h with h | h <;> exact isWalkRemark_refusals h
          · exact .inl ⟨_, List.mem_singleton.mp h⟩
    | _ => simp [ht] at h

/-- All that is said during the walk are log entries and warnings about nodes. -/
lemma isWalkRemark_remarksWithin : ∀ (steps : Nat) {pos : Position},
    r ∈ pos.remarksWithin locate steps → IsWalkRemark locate r
  | 0, _, h => nomatch h
  | steps + 1, ⟨path, entered, ahead⟩, h => by
      rw [Position.remarksWithin] at h
      rcases List.mem_append.mp h with h | h
      · rcases ahead with _ | ⟨t, rest⟩
        · cases path with
          | nil => cases h
          | cons l path => exact isWalkRemark_leaveRemarks h
        · exact isWalkRemark_enterRemarks h
      · exact isWalkRemark_remarksWithin steps h

end remarks

/-- What is said about bindings that no machine has taken. -/
def unusedRemarks (bound : Bindings) : List Remark :=
  if bound.isEmpty then []
  else
    [.log ⟨.debug, .emission, "bindings declared outside of any machine are ignored: " ++
        String.intercalate ", " bound.names⟩,
      .general .warning ("bindings declared outside of any machine are ignored: " ++
        String.intercalate ", " bound.names)]

/-- All that is said about top-level trees. -/
def allRemarks (locate : NodeId → Option Location) (roots : List Tree) : List Remark :=
  (Position.start roots).remarksWithin locate (Position.start roots).stepsLeft ++
    unusedRemarks (pendingAfter {} roots)

/-! ## The whole emission -/

lemma eq_of_isEmpty {b : Bindings} (h : b.isEmpty = true) : b = {} := by
  obtain ⟨guards, actions⟩ := b
  simpa [Bindings.isEmpty] using h

/-- At the end, what no machine has taken is reported and forgotten. -/
lemma reportUnused_eq (e : Emitter) :
    Emission.reportUnused e = .ok () ({ e with bindings := {} }.say (unusedRemarks e.bindings)) := by
  rw [Emission.reportUnused, Emission.get_bind, unusedRemarks]
  by_cases hempty : e.bindings.isEmpty = true
  · obtain ⟨forest, writer, bindings, scope, enclosing, remarks⟩ := e
    cases eq_of_isEmpty hempty
    rw [if_pos hempty, Emitter.say_nil]
    rfl
  · rw [if_neg hempty, if_pos (by simpa using hempty)]
    show (do Emission.log _ _ _; Emission.remark _; modify _ : Emission Unit) e = _
    rw [Emission.bind_of_ok (Emission.log_eq _ _ _ e),
      Emission.bind_of_ok (Emission.remark_eq _ _), Emitter.say_say]
    rfl

/-- If all containers are closed, there is nothing to note. -/
lemma noteOpenFrames_eq {e : Emitter} (h : e.writer.containers = []) :
    Emission.noteOpenFrames e = .ok () e := by
  have hframes : e.writer.openFrames = 0 := by
    rw [Writer.openFrames, List.map_eq_nil_iff.mp h]
    rfl
  rw [Emission.noteOpenFrames, Emission.get_bind, hframes]
  rfl

lemma applyAll_line (w : Writer) (before text after : String) :
    w.applyAll [.raw before, .string text, .raw after] =
      .ok (w.put (before ++ quote text ++ after)) := by
  simp [Writer.applyAll, Writer.apply, Writer.put, String.append_assoc]

/-- The header is written before the walk. -/
lemma applyAll_header {p : Program} {roots : List Tree} (rep : p.forest.Represents roots)
    (library : Library) : ({} : Writer).applyAll (headerOperations p library) =
      .ok (({} : Writer).put (if roots.isEmpty then "" else headerText p.usesAssign library)) := by
  rw [headerOperations, rep.body]
  cases roots with
  | nil => simp [Writer.put]
  | cons t ts =>
      rw [if_pos (show (Tree.first (t :: ts)).isSome = true from rfl),
        if_neg (show ¬(t :: ts).isEmpty = true by simp)]
      exact applyAll_line _ _ _ _

/-- At the start nothing is open, entered or collected. -/
lemma tracks_start {f : Forest} {roots : List Tree} (rep : f.Represents roots) {w : Writer}
    (hw : w.containers = []) : Tracks f (Position.start roots) { forest := f, writer := w } where
  links := rfl
  locations := rfl
  live := by simpa [Position.live, Position.liveAbove, Position.start] using rep.live
  scopes := rfl
  bindings := rfl
  containers := hw

/-- **What is emitted for a forest of trees**: the module of the trees, and remarks. -/
theorem generate_eq {p : Program} {roots : List Tree} (rep : p.forest.Represents roots)
    (shape : Tree.allShaped none roots = true) (library : Library) :
    generate p library = (.ok (moduleText p.usesAssign library roots),
      allRemarks p.forest.location roots) := by
  have hheader := applyAll_header rep library
  generalize htext : (if roots.isEmpty then "" else headerText p.usesAssign library) = header
    at hheader
  obtain ⟨e, hwalk, tr, hw, hremarks⟩ := walk_follows rep shape
    (e := ({ forest := p.forest } : Emitter).withWriter (({} : Writer).put header)) rfl
    (tracks_start rep rfl)
  rw [applyAll_rootOperations [] roots shape rfl] at hw
  have hend : e.writer.text = moduleText p.usesAssign library roots := by
    rw [← Except.ok.inj hw, moduleText, htext]
    simp [Emitter.withWriter, Writer.put, pendingAfter]
  have hrun : emission p library { forest := p.forest } =
      .ok (moduleText p.usesAssign library roots)
        ({ e with bindings := {} }.say (unusedRemarks e.bindings)) := by
    have hquiet : Emission.noteOpenFrames
        ({ e with bindings := {} }.say (unusedRemarks e.bindings)) = .ok () _ :=
      noteOpenFrames_eq tr.containers
    rw [emission, Emission.bind_of_ok (Emission.writeAll_of_ok (e := { forest := p.forest }) hheader),
      Emission.bind_of_ok hwalk, Emission.bind_of_ok (reportUnused_eq e),
      Emission.bind_of_ok hquiet, Emission.get_bind, ← hend]
    rfl
  have hbindings : e.bindings = pendingAfter {} roots := tr.bindings
  rw [generate, hrun, allRemarks, hbindings]
  simp [hremarks, Emitter.withWriter]

end Output

/-- The journal can show every location that a forest has recorded. -/
def Journal.Locates (j : Journal) (f : Forest) : Prop := ∀ id, j.Places (f.location id)

/-- What is said about a forest can be taken in by a journal that can show its locations. -/
lemma noteAll_allRemarks {j : Journal} {f : Forest} (h : j.Locates f) (roots : List Tree) :
    ∃ j', Reporting.noteAll (Output.allRemarks f.location roots) j = .ok () j' ∧
      j'.files = j.files := by
  refine Reporting.noteAll_of_places fun r hr => ?_
  rcases List.mem_append.mp hr with hr | hr
  · rcases Output.isWalkRemark_remarksWithin _ hr with ⟨entry, rfl⟩ | ⟨id, message, rfl⟩
    · trivial
    · exact h id
  · rw [Output.unusedRemarks] at hr
    split at hr
    · cases hr
    · simp only [List.mem_cons, List.not_mem_nil, or_false] at hr
      rcases hr with rfl | rfl <;> trivial

/-- **The walk refines the recursive translation.**  For every forest of trees of the shape that
reading a chart produces, and every journal that can show the locations in it, a module is
emitted, and it is the text that the trees are translated to. -/
theorem generate_eq_moduleText {p : Program} {roots : List Tree} {j : Journal}
    (rep : p.forest.Represents roots) (shape : Tree.allShaped none roots = true)
    (known : j.Locates p.forest) (library : Output.Library) :
    ∃ j', generate p library j =
      .ok (Output.moduleText p.usesAssign library roots) j' := by
  obtain ⟨j', hnotes, -⟩ := noteAll_allRemarks known roots
  refine ⟨j', ?_⟩
  rw [generate, Output.generate_eq rep shape library]
  show EStateM.bind (Reporting.noteAll _) (fun _ => pure _) j = _
  rw [EStateM.bind, hnotes]
  rfl

/-! ### An example -/

/-- A chart with transitions of two classes around a binding, an invocation and inner states. -/
def toggleTrees : List Tree :=
  [.node 0 (.binding ⟨.action, "log", .identifier "logger"⟩) [],
    .node 1 (.machine { name := some "toggle", initial := some "off" })
      [.node 2 (.state ⟨"off", false⟩)
        [.node 3 (.transition { trigger := .event "TOGGLE", target := "on" }) [],
          .node 4 (.binding ⟨.guard, "ready", .identifier "isReady"⟩) [],
          .node 5 (.transition
            { trigger := .event "STOP", target := "off", guards := [.named "ready"] }) [],
          .node 6 (.transition { trigger := .immediate, target := "on" }) [],
          .node 7 (.invoke "load")
            [.node 8 (.transition { trigger := .event "done", target := "on" }) []],
          .node 9 (.machine { initial := some "idle" }) [.node 10 (.state ⟨"idle", false⟩) []]],
        .node 11 (.state ⟨"on", true⟩) []],
    .node 12 (.importModule "./names") [.node 13 (.specifier "load" none) []]]

/-- The same chart with links, and the place of its first node. -/
def toggle : Program where
  forest :=
    { nodes := ((Tree.allEntries toggleTrees).map fun entry => some entry.2).toArray
      links := ⟨#[⟨none, none, some 1⟩, ⟨none, some 2, some 12⟩, ⟨some 1, some 3, some 11⟩,
        ⟨some 2, none, some 4⟩, ⟨some 2, none, some 5⟩, ⟨some 2, none, some 6⟩,
        ⟨some 2, none, some 7⟩, ⟨some 2, some 8, some 9⟩, ⟨some 7, none, none⟩,
        ⟨some 2, some 10, none⟩, ⟨some 9, none, none⟩, ⟨some 1, none, none⟩,
        ⟨none, some 13, none⟩, ⟨some 12, none, none⟩]⟩
      locations := ⟨#[some ⟨⟨0, 20⟩, 0⟩]⟩
      body := some 0 }

/-- The links of the example are those of its trees. -/
lemma toggle_represents : toggle.forest.Represents toggleTrees where
  body := rfl
  linked := by
    simp only [toggleTrees, Forest.linksAll_cons, Forest.linksAll_nil, Tree.id_node,
      Tree.children_node, Tree.first_cons, Tree.first_nil, and_true, true_and]
    decide
  live := by decide
  distinct := by decide

/-- The journal of a reader of the chart. -/
def toggleJournal : Journal := { files := #[⟨"toggle.chart", "action log = logger\n"⟩] }

/-- The journal of the example can place all locations of its forest. -/
lemma toggleJournal_locates : toggleJournal.Locates toggle.forest := by
  intro id
  cases id with
  | zero => exact ⟨_, rfl, by decide⟩
  | succ id =>
      have hnone : toggle.forest.location (id + 1) = none := by
        simp [Forest.location, SideTable.get, toggle, show (default : Option Location) = none from rfl]
      rw [hnone]
      trivial

/-- The module of the chart.  The guard is declared inside a state and the action in front of the
machine; both end up in the options, the second argument of the call. -/
def toggleText : String :=
  String.intercalate "\n" [
    "import \x7b Machine \x7d from 'xstate';", "", "export const toggle = Machine(\x7b",
    "  initial: 'off',", "  states: \x7b", "    off: \x7b", "      on: \x7b",
    "        TOGGLE: 'on',", "        STOP: \x7b", "          target: 'off',",
    "          cond: 'ready'", "        \x7d", "      \x7d,", "      always: [", "        \x7b",
    "          target: 'on'", "        \x7d", "      ],", "      invoke: \x7b",
    "        src: load,", "        onDone: 'on'", "      \x7d,", "      initial: 'idle',",
    "      states: \x7b", "        idle: \x7b", "", "        \x7d", "      \x7d", "    \x7d,",
    "    on: \x7b", "      type: 'final'", "    \x7d", "  \x7d", "\x7d, \x7b", "  guards: \x7b",
    "    ready: isReady", "  \x7d,", "  actions: \x7b", "    log: logger", "  \x7d",
    "\x7d);import \x7b load \x7d from './names';", ""]

/-- The text of the example, with both a guard and an action among its options. -/
theorem generate_toggle :
    toggle.forest.Represents toggleTrees ∧ Tree.allShaped none toggleTrees = true ∧
      toggleJournal.Locates toggle.forest ∧
      Output.moduleText false .package toggleTrees = toggleText ∧
      ∃ j', generate toggle .package toggleJournal = .ok toggleText j' := by
  have htext : Output.moduleText toggle.usesAssign .package toggleTrees = toggleText := by
    decide +kernel
  have hgenerate := generate_eq_moduleText toggle_represents (by decide) toggleJournal_locates
    .package
  rw [htext] at hgenerate
  exact ⟨toggle_represents, by decide, toggleJournal_locates, htext, hgenerate⟩

end Statechart
