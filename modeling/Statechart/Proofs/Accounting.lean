import Statechart.Proofs.Output.Inventory
import Statechart.Proofs.Output.Legibility
import Statechart.Proofs.Transcript

/-!
# What becomes of a chart

Emitting a module is no place for surprises: whatever a chart declares is in the module, or there is
a warning about it.  The warnings are those that can be read off the chart, and the items of the
module are those that can be read off the chart.

**`generate_accounts`** — all warnings, where they are, and all items of the module.
-/

namespace Statechart

open Statechart.Language Output

/-- Remarks that are not errors are counted as warnings, log entries aside. -/
lemma countP_warning {rs : List Remark} (h : ∀ r ∈ rs, r.isMild = true) :
    rs.countP (·.severity? = some .error) = 0 ∧
      rs.countP (·.severity? = some .warning) = (reports rs).length := by
  refine ⟨Remark.countP_error h, ?_⟩
  rw [reports, ← List.countP_eq_length_filter]
  refine List.countP_congr fun r hr => ?_
  rw [Remark.severity?_of_isMild (h r hr)]
  cases r.isLog <;> simp

/-- **What becomes of a chart.**  A chart was read with a new journal.  Then its module is emitted,
and no error is added.  The warnings that are added are the expected ones, each once: no two of them
are about the same node, and a warning about a node has the location of the node.  The module can
be read, and after the statement that takes the runtime from the library it has the expected items
and no others, each as often as it is declared.

All that is asked of the text is that its byte offsets can be told apart. -/
theorem generate_accounts {source : SourceFile} {coloured : Bool} {program : Program} {j : Journal}
    (hsize : byteLength source.content.toList + 1 < Report.offsetCount)
    (h : parse source { coloured := coloured } = .ok (.ok program) j) (library : Library) :
    ∃ items said text ss j',
      Language.parse source.content = .ok items ∧
      program.forest.Represents (itemTrees items) ∧
      generate program library j = .ok text j' ∧
      Heard j j' said j.shown ∧
      (reports said).Perm (expectedWarnings program.forest.location (itemTrees items)) ∧
      (subjects said).Nodup ∧
      (∀ id ∈ subjects said, (program.forest.location id).isSome = true) ∧
      j'.errors = j.errors ∧
      j'.warnings =
        j.warnings + (expectedWarnings program.forest.location (itemTrees items)).length ∧
      readModule text = some ss ∧
      (ss.tail.flatMap Statement.constructs).Perm (expectedConstructs (itemTrees items)) := by
  obtain ⟨items, hitems, hrep, hlocated, hrun⟩ := generate_eq_withAll source library _ hsize rfl h
  have hshape := allShaped_itemTrees items
  have hwritable := isWritable_itemTrees items
  have hreports : (reports (allRemarks program.forest.location (itemTrees items))).Perm
      (expectedWarnings program.forest.location (itemTrees items)) :=
    reports_allRemarks hshape hwritable
  have hsubjects := subperm_subjects program.forest.location hwritable
  have hheard := heard_withAll j (allRemarks program.forest.location (itemTrees items))
  obtain ⟨herrors, hwarnings⟩ :=
    countP_warning (isMild_allRemarks program.forest.location (itemTrees items))
  refine ⟨items, _, _, _, _, hitems, hrep, hrun, hheard, hreports, ?_, fun id hid => ?_, ?_, ?_,
    readModule_moduleText hitems _ library, ?_⟩
  · obtain ⟨ids, hperm, hsub⟩ := hsubjects
    exact hperm.nodup_iff.mp (hrep.distinct.sublist hsub)
  · exact hlocated id (List.mem_range.mp (hrep.subset_range (hsubjects.subset hid)))
  · rw [hheard.errors, herrors, Nat.add_zero]
  · rw [hheard.warnings, hwarnings, hreports.length_eq]
  · rw [← List.map_tail, List.flatMap_map]
    simp only [Statement.constructs_flat]
    exact constructs_statements _ library hshape hwritable

/-- A chart with a warning of each sort. -/
def warnedChart : String :=
  "use './x' machine m\x7binitial state a\x7bgo=>a invoke f\x7bdone=>b later=>b\x7d stop=>b " ++
    "guard g=assign(x)\x7d final state b\x7b\x7d\x7d action late=y"

/-- What is left of the chart in its module. -/
def warnedConstructs : List Construct :=
  [.machine "m", .initial "a",
    .state "a", .transition .on "go" ⟨["a"], [], []⟩, .transition .on "stop" ⟨["b"], [], []⟩,
    .invoke "f", .answer "onDone" ⟨["b"], [], []⟩,
    .state "b", .mark "final"]

/-- The nodes that the example is warned of, and the items of its module. -/
lemma warnedChart_expected : (match Language.parse warnedChart, (read 0 warnedChart).1 with
    | .ok items, .ok program => items.all Item.valid &&
      decide ((expectedWarnings program.forest.location (itemTrees items)).map
        (fun r => r.topic?.map Prod.fst) = [some 0, some 7, some 6, some 8, none]) &&
      decide (expectedConstructs (itemTrees items) = warnedConstructs)
    | _, _ => false) = true := by
  decide +kernel

/-- Five warnings are added, four of them about nodes, and everything else is in the module. -/
theorem generate_warnedChart : ∃ program j text j' ss,
    parse ⟨"m.lucy", warnedChart⟩ {} = .ok (.ok program) j ∧
      generate program .package j = .ok text j' ∧ j'.errors = j.errors ∧
      j'.warnings = j.warnings + 5 ∧ readModule text = some ss ∧
      (ss.tail.flatMap Statement.constructs).Perm warnedConstructs := by
  have hexpected := warnedChart_expected
  have hsize : byteLength warnedChart.toList + 1 < Report.offsetCount := by decide +kernel
  generalize hitems : Language.parse warnedChart = outcome at hexpected
  generalize hresult : read 0 warnedChart = result at hexpected
  obtain ⟨result, remarks⟩ := result
  cases outcome with
  | error attempts => cases hexpected
  | ok items =>
      cases result with
      | error rejection => cases hexpected
      | ok program =>
          simp only [Bool.and_eq_true, decide_eq_true_eq] at hexpected
          obtain ⟨⟨hvalid, hwarned⟩, hconstructs⟩ := hexpected
          obtain ⟨program', j, -, hparse, -, -⟩ :=
            compile_of_parse ⟨"m.lucy", warnedChart⟩ hitems hvalid hsize .package {}
          obtain ⟨_, _, hread, -⟩ := parse_eq_ok hparse
          obtain rfl : program = program' :=
            Except.ok.inj (Prod.mk.inj (hresult.symm.trans hread)).1
          obtain ⟨items', -, text, ss, j', hitems', -, hrun, -, -, -, -, herrors, hwarnings, hss,
            hperm⟩ := @generate_accounts ⟨"m.lucy", warnedChart⟩ _ _ _ hsize hparse .package
          obtain rfl : items = items' := Except.ok.inj (hitems.symm.trans hitems')
          have hlength := congrArg List.length hwarned
          rw [List.length_map] at hlength
          exact ⟨program, j, text, j', ss, hparse, hrun, herrors, by rw [hwarnings, hlength]; rfl,
            hss, hconstructs ▸ hperm⟩

end Statechart
