import Statechart.Proofs.Transcript

/-!
# Compilations with one journal

A journal serves many compilations.  What is left of one in the next?  The number of the file is
another one, and what was reported before about a node is not reported again.  Nothing else: not the
module, not the errors, and not the text of what is reported.

* `map_refile_allRemarks`, `readingRemarks_refile`, `emittingRemarks_refile` — under another file
  number the same is said.
* `shown_refile` — and it appears in the same way.

**`compile_independent`** — a compilation with any journal, next to one with a new journal.
-/

namespace Statechart

namespace Output

/-! ## The walk under another file number -/

section refile

variable {locate : NodeId → Option Location} (n : Nat)

/-- The places of nodes in another file. -/
def refiled (n : Nat) (locate : NodeId → Option Location) (id : NodeId) : Option Location :=
  (locate id).map (Location.refile n)

lemma map_refile_warning (id : NodeId) (message : String) :
    (warning locate id message).map (Remark.refile n) = warning (refiled n locate) id message := rfl

/-- The warnings about values that cannot be written, under another file number. -/
lemma map_refile_refusals {α : Type} (origin : α → NodeId) (value : α → Except String Script.Value)
    (as : List α) : (refusals locate origin value as).map (Remark.refile n) =
      refusals (refiled n locate) origin value as := by
  rw [refusals, List.map_flatMap, refusals]
  refine List.flatMap_congr fun a _ => ?_
  cases value a with
  | ok v => rfl
  | error message => exact map_refile_warning n _ _

lemma map_refile_transitionRefusals (id : NodeId) (u : Transition) :
    (transitionRefusals locate id u).map (Remark.refile n) =
      transitionRefusals (refiled n locate) id u := by
  rw [transitionRefusals, List.map_append, map_refile_refusals, map_refile_refusals]
  rfl

/-- The same for what is said when a node is entered. -/
lemma map_refile_enterRemarks (parent : Option Node) (entered : List Tree) (t : Tree) :
    (enterRemarks locate parent entered t).map (Remark.refile n) =
      enterRemarks (refiled n locate) parent entered t := by
  rw [enterRemarks, enterRemarks, List.map_cons]
  congr 1
  cases t.payload with
  | importModule path => dsimp only; split <;> rfl
  | transition u =>
      dsimp only
      split
      · cases Emission.answerKey u.trigger with
        | ok key => exact map_refile_transitionRefusals n _ _
        | error message => rfl
      · rw [List.map_append, map_refile_transitionRefusals]
        congr 1
        split <;> rfl
  | _ => rfl

/-- The same for what is said when a node is left. -/
lemma map_refile_leaveRemarks (parent : Option Node) (t : Tree) (bound : Bindings) :
    (leaveRemarks locate parent t bound).map (Remark.refile n) =
      leaveRemarks (refiled n locate) parent t bound := by
  rw [leaveRemarks, leaveRemarks, List.map_cons]
  congr 1
  cases t.payload with
  | machine m =>
      dsimp only
      split
      · rfl
      · rw [List.map_append, List.map_append, map_refile_refusals, map_refile_refusals]
        rfl
  | _ => rfl

/-- The same for all that is said about a row of trees. -/
lemma map_refile_rowRemarks (ts : List Tree) : ∀ (parent : Option Node) (entered : List Tree),
    (rowRemarks locate parent entered ts).map (Remark.refile n) =
      rowRemarks (refiled n locate) parent entered ts := by
  induction ts using Tree.row_induction with
  | nil => intro parent entered; rw [rowRemarks, rowRemarks]; rfl
  | cons t ts below rest =>
      intro parent entered
      rw [rowRemarks, rowRemarks, treeRemarks_eq, treeRemarks_eq, List.map_append, List.map_append,
        List.map_append, map_refile_enterRemarks, below, map_refile_leaveRemarks, rest]

/-- **What is said about trees** is the same for every file. -/
lemma map_refile_allRemarks (roots : List Tree) :
    (allRemarks locate roots).map (Remark.refile n) = allRemarks (refiled n locate) roots := by
  rw [allRemarks_eq, allRemarks_eq, List.map_append, map_refile_rowRemarks]
  congr 1
  rw [unusedRemarks]
  split <;> rfl

end refile

end Output

/-! ## Both halves under another file number -/

section halves

variable (source : SourceFile) (library : Output.Library) (m n : Nat)

lemma readingResult_refile :
    readingResult source n = (readingResult source m).map (Program.refile n) := by
  unfold readingResult
  rw [Language.read_refile m n]
  cases (Language.read m source.content).1 <;> rfl

/-- The same is said while a text is read. -/
lemma readingRemarks_refile :
    readingRemarks source n = (readingRemarks source m).map (Remark.refile n) := by
  unfold readingRemarks
  rw [Language.read_refile m n]
  generalize Language.read m source.content = outcome
  obtain ⟨result, remarks⟩ := outcome
  rw [List.map_append]
  cases result <;> rfl

/-- The same is said while a chart is emitted, and the module is the same. -/
lemma emitting_refile :
    emittingRemarks library (readingResult source n) =
        (emittingRemarks library (readingResult source m)).map (Remark.refile n) ∧
      emittingResult library (readingResult source n) =
        emittingResult library (readingResult source m) := by
  have hrefile := readingResult_refile source m n
  cases hresult : readingResult source m with
  | error error =>
      rw [hresult] at hrefile
      rw [hrefile]
      exact ⟨rfl, rfl⟩
  | ok program =>
      rw [hresult] at hrefile
      -- both programs have the trees of the declarations
      obtain ⟨items, hitems, -, -, -, hgenerate⟩ := generate_of_readingResult hresult library
      obtain ⟨items', hitems', -, -, -, hgenerate'⟩ := generate_of_readingResult hrefile library
      obtain rfl : items = items' := Except.ok.inj (hitems.symm.trans hitems')
      have hlocate : (program.refile n).forest.location =
          Output.refiled n program.forest.location := funext (program.forest.location_refile n)
      rw [hrefile, Except.map, emittingRemarks, emittingRemarks, emittingResult, emittingResult,
        hgenerate, hgenerate', hlocate, Output.map_refile_allRemarks]
      exact ⟨rfl, rfl⟩

end halves

/-! ## Two journals -/

section journals

variable {j f : Journal}

/-- Whether something is news does not depend on the file. -/
lemma news_refile (j : Journal) (n : Nat) (rs : List Remark) :
    j.news (rs.map (Remark.refile n)) = (j.news rs).map (Remark.refile n) := by
  rw [Journal.news, Journal.news, List.filter_map]
  congr 1
  refine List.filter_congr fun r _ => ?_
  simp [Journal.hasReported]

/-- **A report shows the same** if both journals have the same text under the two numbers. -/
lemma reportFor_refile {location : Option Location} {m n : Nat} {source : SourceFile}
    (hcoloured : j.coloured = f.coloured) (hj : j.files[n]? = some source)
    (hf : f.files[m]? = some source) (hl : ∀ l ∈ location, l.file = m) (severity : Severity)
    (message : String) : j.reportFor (location.map (Location.refile n)) severity message =
      f.reportFor location severity message := by
  have hlayout : j.layout (location.map (Location.refile n)) severity message =
      f.layout location severity message := by
    cases location with
    | none => rfl
    | some l =>
        have hleft : j.files[(l.refile n).file]? = some source := hj
        have hright : f.files[l.file]? = some source := by rw [hl l rfl, hf]
        rw [Option.map_some, Journal.layout, Journal.layout, hleft, hright]
        rfl
  rw [Journal.reportFor, Journal.reportFor, hlayout, hcoloured]

/-- **A remark appears in the same way** in two journals that have its file under two numbers. -/
lemma shown_refile {r : Remark} {m n : Nat} {source : SourceFile}
    (hcoloured : j.coloured = f.coloured) (hj : j.files[n]? = some source)
    (hf : f.files[m]? = some source) (hr : ∀ l ∈ r.location, l.file = m) :
    j.shown (r.refile n) = f.shown r := by
  cases r with
  | log entry => rfl
  | span location severity message =>
      exact congrArg Notice.text (reportFor_refile hcoloured hj hf hr severity message)
  | node id location severity message =>
      exact congrArg Notice.text (reportFor_refile hcoloured hj hf hr severity message)
  | general severity message =>
      exact congrArg Notice.text (reportFor_refile hcoloured hj hf hr severity message)

end journals

/-! ## Compilations -/

/-- What is said after a file was taken in. -/
lemma heard_addFile (j : Journal) (source : SourceFile) (said : List Remark) :
    Heard j ((j.addFile source).1.withAll said) said (j.addFile source).1.shown :=
  have h := heard_withAll (j.addFile source).1 said
  ⟨h.notices, h.errors, h.warnings, h.reported⟩

/-- What is heard under another file number is the same. -/
lemma Heard.refile {before after : Journal} {said : List Remark} {shown shown' : Remark → Notice}
    {n : Nat} (h : Heard before after (said.map (Remark.refile n)) shown)
    (hshown : ∀ r ∈ said, shown (r.refile n) = shown' r) : Heard before after said shown' where
  notices := by
    rw [h.notices, List.map_map]
    exact congrArg _ (congrArg _ (List.map_congr_left hshown))
  errors := by
    rw [h.errors, List.countP_map]
    simp [Function.comp_def]
  warnings := by
    rw [h.warnings, List.countP_map]
    simp [Function.comp_def]
  reported topic := by
    rw [h.reported, List.filterMap_map]
    simp

/-- Together with what a journal had reported, the topics of what is news are all topics. -/
lemma topics_news (j : Journal) (rs : List Remark) (topic : NodeId × String) :
    (topic ∈ j.reported ∨ topic ∈ (j.news rs).filterMap Remark.topic?) ↔
      topic ∈ j.reported ∨ topic ∈ rs.filterMap Remark.topic? := by
  refine or_congr_right' fun hold => ?_
  rw [List.mem_filterMap, List.mem_filterMap]
  refine exists_congr fun r => ?_
  rw [Journal.news, List.mem_filter, and_assoc]
  refine and_congr_right fun _ => and_iff_right_of_imp fun hr => ?_
  simp [Journal.hasReported, hr, hold]

/-- **Compilations that share a journal are independent.**  A chart is compiled with a new journal
and with one that has any history.  The result is the same, and so is the number of errors that are
added.  What is said while the chart is read appears as with the new journal, and so does what is
said later and is not about a node.  A warning about a node appears and is counted unless the same
was reported before about that number.  In the end the journal remembers what it did before and all
that the new journal does.

All that is asked of the text is that its byte offsets can be told apart. -/
theorem compile_independent (source : SourceFile) (library : Output.Library) (j : Journal)
    (hsize : byteLength source.content.toList + 1 < Report.offsetCount) :
    ∃ read result reading emitting freshRead fresh after,
      parse source { coloured := j.coloured } = .ok read freshRead ∧
      compile source library { coloured := j.coloured } = .ok result fresh ∧
      Heard { coloured := j.coloured } freshRead reading fresh.shown ∧
      Heard { coloured := j.coloured } fresh (reading ++ emitting) fresh.shown ∧
      (∀ r ∈ reading, r.topic? = none) ∧
      (emitting.filterMap Remark.topic?).Nodup ∧
      (∀ r ∈ emitting, r.severity? ≠ some .error) ∧
      compile source library j = .ok result after ∧
      Heard j after (reading ++ emitting.filter (!j.hasReported ·)) fresh.shown ∧
      after.errors = j.errors + fresh.errors ∧
      (∀ topic, topic ∈ after.reported ↔ topic ∈ j.reported ∨ topic ∈ fresh.reported) ∧
      after.files = j.files.push source := by
  -- the two runs, and what they add to their journals
  obtain ⟨hread, hfresh⟩ := compile_eq_withAll source library { coloured := j.coloured } hsize
  obtain ⟨-, hrun⟩ := compile_eq_withAll source library j hsize
  have hzero : ({ coloured := j.coloured } : Journal).files.size = 0 := rfl
  obtain ⟨hemitting, hresult⟩ := emitting_refile source library 0 j.files.size
  rw [hzero] at hread hfresh
  rw [readingRemarks_refile source 0, hemitting, hresult, news_refile, ← List.map_append] at hrun
  -- from here on, only a few facts about what is said are needed
  have hplace : ∀ r ∈ readingRemarks source 0 ++ emittingRemarks library (readingResult source 0),
      ∀ l ∈ r.location, l.file = 0 := fun r hr l hl => (liesIn_remarks library hr l hl).1
  have hnone := topic?_readingRemarks source 0
  have hmild : ∀ r ∈ emittingRemarks library (readingResult source 0),
      r.severity? ≠ some .error := fun r hr => by
    rw [Remark.severity?_of_isMild ((emittingRemarks_mild source 0 library).2 r hr)]
    cases r.isLog <;> simp
  have hnodup := (emittingRemarks_mild source 0 library).1
  generalize emittingResult library (readingResult source 0) = result at hfresh hrun
  generalize emittingRemarks library (readingResult source 0) = emitting at *
  generalize readingRemarks source 0 = reading at *
  generalize readingResult source 0 = read at *
  have hfile : ∀ i : Journal, (i.addFile source).1.files[i.files.size]? = some source := fun _ =>
    Array.getElem?_push_size
  have hall : (Journal.addFile { coloured := j.coloured } source).1.news emitting = emitting :=
    Journal.news_of_reported rfl emitting
  rw [hall] at hfresh
  have hshown : ((Journal.addFile { coloured := j.coloured } source).1.withAll
      (reading ++ emitting)).shown = (Journal.addFile { coloured := j.coloured } source).1.shown :=
    Journal.shown_congr rfl rfl
  have hnews : (j.addFile source).1.news emitting = j.news emitting := rfl
  rw [hnews] at hrun
  have hheard := (heard_addFile j source
    ((reading ++ j.news emitting).map (Remark.refile j.files.size))).refile
      fun r hr => shown_refile (f := (Journal.addFile { coloured := j.coloured } source).1) rfl
        (hfile j) (hfile { coloured := j.coloured })
        (hplace r ((List.Sublist.append_left List.filter_sublist reading).subset hr))
  refine ⟨read, result, reading, emitting, _, _, _, hread, hfresh, ?_, ?_, hnone, hnodup, hmild,
    hrun, ?_, ?_, ?_, rfl⟩
  · rw [hshown]
    exact heard_addFile _ source reading
  · rw [hshown]
    exact heard_addFile _ source (reading ++ emitting)
  · rw [hshown]
    exact hheard
  · -- no error is about a node, so none is left out
    have hnone : ∀ rs : List Remark, rs ⊆ emitting →
        rs.countP (·.severity? = some .error) = 0 := fun rs hrs =>
      List.countP_eq_zero.mpr fun r hr => by simpa using hmild r (hrs hr)
    have hsubset : j.news emitting ⊆ emitting := List.filter_sublist.subset
    rw [hheard.errors, (heard_addFile _ source (reading ++ emitting)).errors, List.countP_append,
      List.countP_append, hnone _ (List.Subset.refl _), hnone _ hsubset, Nat.zero_add]
  · intro topic
    rw [hheard.reported, (heard_addFile _ source (reading ++ emitting)).reported,
      List.filterMap_append, List.filterMap_append, List.filterMap_eq_nil_iff.mpr hnone,
      List.nil_append, List.nil_append, topics_news]
    exact or_congr_right (or_iff_right List.not_mem_nil).symm

/-- An import that brings in nothing. -/
def emptyImport : SourceFile := ⟨"names.chart", "use './names'"⟩

/-- A journal that has counted an error and has warned of an import before. -/
def usedJournal : Journal where
  files := #[emptyImport]
  reported := [(0, "imports without specifiers are not supported")]
  errors := 1
  warnings := 1

/-- The number of reports among the notices. -/
def Journal.reports (j : Journal) : Nat :=
  j.notices.toList.countP fun notice => notice matches .text _

/-- The warnings that are counted and the reports that are shown after a run, whatever its end. -/
def warningsAfter {α : Type} (x : Reporting α) (j : Journal) : Nat × Nat :=
  match x j with
  | .ok _ j' => (j'.warnings, j'.reports)
  | .error _ j' => (j'.warnings, j'.reports)

/-- A new journal counts the warning and shows it.  The other one has it already, and neither
counts it again nor shows it. -/
theorem compile_usedJournal :
    byteLength emptyImport.content.toList + 1 < Report.offsetCount ∧
      ∃ result fresh after, compile emptyImport .package {} = .ok result fresh ∧
        fresh.warnings = 1 ∧ fresh.reports = 1 ∧
        compile emptyImport .package usedJournal = .ok result after ∧
        after.warnings = usedJournal.warnings ∧ after.reports = 0 ∧
        after.errors = 1 + fresh.errors ∧ after.files = #[emptyImport, emptyImport] := by
  have hsize : byteLength emptyImport.content.toList + 1 < Report.offsetCount := by decide
  obtain ⟨-, result, -, -, -, fresh, after, -, hfresh, -, -, -, -, -, hrun, -, herrors, -, hfiles⟩ :=
    compile_independent emptyImport .package usedJournal hsize
  have hfirst : warningsAfter (compile emptyImport .package) { coloured := false } = (1, 1) := by
    decide +kernel
  have hagain : warningsAfter (compile emptyImport .package) usedJournal = (1, 0) := by
    decide +kernel
  rw [warningsAfter, show compile emptyImport .package { coloured := false } = _ from hfresh]
    at hfirst
  rw [warningsAfter, hrun] at hagain
  obtain ⟨hcounted, hshown⟩ := Prod.mk.inj hfirst
  obtain ⟨hsame, hsilent⟩ := Prod.mk.inj hagain
  exact ⟨hsize, result, fresh, after, hfresh, hcounted, hshown, hrun, hsame, hsilent, herrors,
    hfiles⟩

end Statechart
