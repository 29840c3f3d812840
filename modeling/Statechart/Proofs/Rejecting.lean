import Statechart.Proofs.Language.Offences
import Statechart.Proofs.Transcript

/-!
# Charts that are rejected

A chart is read as a whole or not at all.  If it is rejected, then one error is counted and shown,
with the words that the result has too, and no module is written.  If it is accepted, no error is
counted.  Among several reasons to reject a chart it is the one that begins first that is given.

* `RejectedFor` — what the journal and the result have of a rejection.
* `errors_of_parse`, `rejectedFor_of_parse` — the two ways in which reading ends.
* `compile_of_rejected` — what is left to do after a rejection.

**`parse_allOrNothing`** — reading ends in one way or the other, and when it ends in which.
-/

namespace Statechart

section rejecting

variable {source : SourceFile} {library : Output.Library} {j j₁ : Journal}

/-! ## What is said -/

/-- Nothing that is said while a chart is read is an error, whether it is accepted or not. -/
lemma isMild_read (file : Nat) (text : String) :
    ∀ r ∈ (Language.read file text).2, r.isMild = true := by
  cases hparse : Language.parse text with
  | ok items => exact (Language.read_of_offences hparse file).1
  | error attempts =>
      rw [Language.read_of_error hparse]
      exact fun r hr => absurd hr List.not_mem_nil

/-- What reading a chart adds to a journal, if it comes to an end. -/
lemma heard_of_parse {result : Except CompileError Program} (h : parse source j = .ok result j₁) :
    result = readingResult source j.files.size ∧
      Heard j j₁ (readingRemarks source j.files.size) j₁.shown := by
  obtain ⟨hresult, hnotes⟩ := noteAll_of_parse h
  have hj₁ := Reporting.eq_withAll_of_noteAll (topic?_readingRemarks source _) hnotes
  have hheard := heard_withAll (j.addFile source).1 (readingRemarks source j.files.size)
  have hshown : j₁.shown = (j.addFile source).1.shown := by
    rw [hj₁]
    exact Journal.shown_congr rfl rfl
  rw [← hj₁, ← hshown] at hheard
  exact ⟨hresult, hheard.notices, hheard.errors, hheard.warnings, hheard.reported⟩

/-! ## Accepted or rejected -/

/-- What the journal and the result have of a rejection: one more error, which is the last thing
that is shown, and whose words are those of the result. -/
structure RejectedFor (source : SourceFile) (j j₁ : Journal) (e : CompileError)
    (r : Language.Rejection) : Prop where
  result : e = .rejected source.name r.message
  errors : j₁.errors = j.errors + 1
  heard : ∃ said, (∀ s ∈ said, s.severity? ≠ some .error) ∧
    Heard j j₁ (said ++ [.span ⟨r.span, j.files.size⟩ .error r.message]) j₁.shown

/-- If a chart is accepted, no error is counted. -/
lemma errors_of_parse {program : Program} (h : parse source j = .ok (.ok program) j₁) :
    j₁.errors = j.errors := by
  obtain ⟨hresult, hheard⟩ := heard_of_parse h
  have hread := readingResult_eq_ok.mp hresult.symm
  have herrors := hheard.errors
  unfold readingRemarks at herrors
  rw [hread, List.countP_append, Remark.countP_error (isMild_read _ _)] at herrors
  exact herrors

/-- If a chart is rejected, one error is counted. -/
lemma rejectedFor_of_parse {e : CompileError} (h : parse source j = .ok (.error e) j₁) :
    ∃ r, (Language.read j.files.size source.content).1 = .error r ∧
      RejectedFor source j j₁ e r := by
  obtain ⟨hresult, hheard⟩ := heard_of_parse h
  unfold readingResult at hresult
  unfold readingRemarks at hheard
  have hmild := isMild_read j.files.size source.content
  generalize Language.read j.files.size source.content = outcome at hresult hheard hmild ⊢
  obtain ⟨outcome, said⟩ := outcome
  cases outcome with
  | ok program => cases hresult
  | error r =>
      refine ⟨r, rfl, Except.error.inj hresult, ?_, said,
        fun s hs => Remark.severity?_ne_error (hmild s hs), hheard⟩
      have herrors := hheard.errors
      rw [List.countP_append, Remark.countP_error hmild] at herrors
      exact herrors

/-- After a rejection there is only an entry for the log. -/
lemma compile_of_rejected {e : CompileError} (h : parse source j = .ok (.error e) j₁)
    (library : Output.Library) :
    compile source library j = .ok none (j₁.log .error .program e.message) := by
  rw [compile, Reporting.bind_of_ok h]
  rfl

/-- A chart that follows the grammar is rejected exactly if it has an offence. -/
lemma error_iff_offends {result : Except CompileError Program} {items : List Language.Item}
    (h : parse source j = .ok result j₁) (hitems : Language.parse source.content = .ok items) :
    (∃ e, result = .error e) ↔ ∃ r, Language.Offends items r := by
  obtain ⟨hresult, -⟩ := heard_of_parse h
  unfold readingResult at hresult
  rw [hresult]
  rcases (Language.read_of_offences hitems j.files.size).2 with
    ⟨⟨program, hread⟩, hnone⟩ | ⟨r, rest, hread, hsome⟩
  · have hoffends : ¬ ∃ r, Language.Offends items r := by
      rintro ⟨r, hr⟩
      have hmem := Language.mem_offences.mpr hr
      rw [hnone] at hmem
      exact List.not_mem_nil hmem
    rw [hread]
    exact iff_of_false (by simp) hoffends
  · rw [hread]
    refine iff_of_true ⟨_, rfl⟩ ⟨r, (Language.foremost_of_offences hitems hsome).1⟩

/-- A chart that follows the grammar is rejected for what begins first. -/
lemma foremost_of_read {file : Nat} {text : String} {items : List Language.Item}
    {r : Language.Rejection} (h : (Language.read file text).1 = .error r)
    (hitems : Language.parse text = .ok items) : Language.Foremost items r := by
  rcases (Language.read_of_offences hitems file).2 with
    ⟨⟨program, hread⟩, -⟩ | ⟨r', rest, hread, hsome⟩
  · rw [hread] at h
    cases h
  · rw [hread] at h
    obtain rfl := Except.error.inj h
    exact Language.foremost_of_offences hitems hsome

end rejecting

/-! ## Reading -/

/-- **A chart is read as a whole or not at all.**  A text that is not too long is always read to an
end.  If it is accepted, no error is counted.  If it is rejected, exactly one error is counted and
shown, with the words of the result, and the compilation ends without a module: all that follows is
an entry in the log.  A chart that follows the grammar is rejected exactly if a state has the name
of an earlier state of its machine or a delay is not below the limit, and then for the one of these
that begins first. -/
theorem parse_allOrNothing (source : SourceFile) (library : Output.Library) (j : Journal) :
    (byteLength source.content.toList + 1 < Report.offsetCount →
      ∃ result j₁, parse source j = .ok result j₁) ∧
    ∀ result j₁, parse source j = .ok result j₁ →
      (∀ program, result = .ok program → j₁.errors = j.errors) ∧
      (∀ e, result = .error e →
        compile source library j = .ok none (j₁.log .error .program e.message) ∧
        ∃ r, RejectedFor source j j₁ e r ∧
          ∀ items, Language.parse source.content = .ok items → Language.Foremost items r) ∧
      ∀ items, Language.parse source.content = .ok items →
        ((∃ e, result = .error e) ↔ ∃ r, Language.Offends items r) := by
  refine ⟨fun hsize => ⟨_, _, (compile_eq_withAll source library j hsize).1⟩, ?_⟩
  intro result j₁ hparse
  refine ⟨?_, ?_, fun items hitems => error_iff_offends hparse hitems⟩
  · rintro program rfl
    exact errors_of_parse hparse
  · rintro e rfl
    obtain ⟨r, hread, hrejected⟩ := rejectedFor_of_parse hparse
    exact ⟨compile_of_rejected hparse library, r, hrejected,
      fun items hitems => foremost_of_read hread hitems⟩

/-- Inside a state there are two states of one name, each with a delay that is too long, and the
machine has two states of one name as well. -/
def tangledChart : SourceFile :=
  ⟨"tangled.chart",
    "machine m \x7b state a \x7b state b \x7b delay(18446744073709552s) => c \x7d " ++
    "state b \x7b delay(18446744073709551616) => c \x7d \x7d state a \x7b go => a \x7d \x7d"⟩

/-- The offences of the chart, in its order. -/
lemma offences_tangledChart : ((Language.parse tangledChart.content).toOption.map
    (·.flatMap Language.Item.offences)) =
      some [.delayTooLong "18446744073709552s" ⟨38, 56⟩, .duplicateState "b" ⟨65, 72⟩,
        .delayTooLong "18446744073709551616" ⟨81, 101⟩, .duplicateState "a" ⟨112, 119⟩] := by
  decide +kernel

/-- The first delay is reported and nothing else is. -/
theorem parse_tangledChart :
    byteLength tangledChart.content.toList + 1 < Report.offsetCount ∧
      ∃ j₁, parse tangledChart {} =
        .ok (.error (.rejected "tangled.chart" "delay `18446744073709552s` is too large")) j₁ ∧
      j₁.errors = 1 ∧ ∃ j₂, compile tangledChart .package {} = .ok none j₂ := by
  have hsize : byteLength tangledChart.content.toList + 1 < Report.offsetCount := by decide +kernel
  obtain ⟨hends, hway⟩ := parse_allOrNothing tangledChart .package {}
  obtain ⟨result, j₁, hparse⟩ := hends hsize
  obtain ⟨-, hrejects, hiff⟩ := hway result j₁ hparse
  obtain ⟨items, hitems, hoffences⟩ := Option.map_eq_some_iff.mp offences_tangledChart
  have hitems : Language.parse tangledChart.content = .ok items := by
    cases hcontent : Language.parse tangledChart.content with
    | ok found =>
        rw [hcontent] at hitems
        exact congrArg Except.ok (Option.some.inj hitems)
    | error attempts =>
        rw [hcontent] at hitems
        cases hitems
  have hmem : ∀ r, Language.Offends items r ↔ r ∈ items.flatMap Language.Item.offences :=
    fun r => Language.mem_offences.symm
  rw [hoffences] at hmem
  have hfirst := (hmem _).mpr List.mem_cons_self
  obtain ⟨e, rfl⟩ := (hiff items hitems).mpr ⟨_, hfirst⟩
  obtain ⟨hcompile, r, hrejected, hforemost⟩ := hrejects e rfl
  obtain ⟨hoffends, hothers⟩ := hforemost items hitems
  -- nothing among the offences begins before the first of them
  have hr : r = .delayTooLong "18446744073709552s" ⟨38, 56⟩ := by
    rcases hothers _ hfirst with heq | hlt
    · exact heq.symm
    · have hcases := (hmem r).mp hoffends
      simp only [List.mem_cons, List.not_mem_nil, or_false] at hcases
      rcases hcases with rfl | rfl | rfl | rfl
      · rfl
      all_goals exact absurd hlt (by decide)
  refine ⟨hsize, j₁, ?_, hrejected.errors, _, hcompile⟩
  rw [hparse, hrejected.result, hr]
  rfl

end Statechart
