import Statechart.Proofs.Language.Assembly
import Statechart.Proofs.Output.Module

/-!
# The steps of a compilation

* `parse_eq_ok`, `generate_eq_ok`, `compile_eq_ok` — what a compilation consists of that ends well.

**`moduleText_of_compile`** — the module is that of the declarations, whatever the journal.
-/

namespace Statechart

/-! ## Compilations that end well -/

/-- Reading notes the remarks, and then only adds to the log. -/
lemma parse_eq_ok {source : SourceFile} {program : Program} {j j' : Journal}
    (h : parse source j = .ok (.ok program) j') : ∃ remarks j₁,
      Language.read j.files.size source.content = (.ok program, remarks) ∧
      Reporting.noteAll remarks (j.addFile source).1 = .ok () j₁ ∧
      j'.warnings = j₁.warnings ∧ j'.reported = j₁.reported := by
  rw [parse] at h
  obtain ⟨file, j₀, hfile, h⟩ := Reporting.bind_eq_ok h
  cases hfile
  generalize hread : Language.read (j.addFile source).2 source.content = outcome at h
  obtain ⟨result, remarks⟩ := outcome
  obtain ⟨⟨⟩, j₁, hnotes, h⟩ := Reporting.bind_eq_ok h
  cases result with
  | error rejection =>
      obtain ⟨⟨⟩, j₂, -, h⟩ := Reporting.bind_eq_ok h
      cases h
  | ok program =>
      obtain ⟨⟨⟩, j₂, hlog, h⟩ := Reporting.bind_eq_ok h
      cases hlog
      cases h
      exact ⟨remarks, j₁, hread, hnotes, rfl, rfl⟩

/-- Emitting notes the remarks. -/
lemma generate_eq_ok {program : Program} {library : Output.Library} {text : String}
    {j j' : Journal} (h : generate program library j = .ok text j') : ∃ remarks,
      Output.generate program library = (.ok text, remarks) ∧
      Reporting.noteAll remarks j = .ok () j' := by
  rw [generate] at h
  generalize Output.generate program library = outcome at h
  obtain ⟨result, remarks⟩ := outcome
  obtain ⟨⟨⟩, j₁, hnotes, h⟩ := Reporting.bind_eq_ok h
  cases result with
  | error fault => cases h
  | ok text =>
      cases h
      exact ⟨remarks, rfl, hnotes⟩

/-- A chart that compiles is read and emitted. -/
lemma compile_eq_ok {source : SourceFile} {library : Output.Library} {text : String}
    {j j' : Journal} (h : compile source library j = .ok (some text) j') : ∃ program j₁,
      parse source j = .ok (.ok program) j₁ ∧ generate program library j₁ = .ok text j' := by
  rw [compile] at h
  obtain ⟨result, j₁, hparse, h⟩ := Reporting.bind_eq_ok h
  cases result with
  | error error =>
      obtain ⟨⟨⟩, j₂, -, h⟩ := Reporting.bind_eq_ok h
      cases h
  | ok program =>
      obtain ⟨text, j₂, hgenerate, h⟩ := Reporting.bind_eq_ok h
      cases h
      exact ⟨program, j₁, hparse, hgenerate⟩

/-- **A chart that compiles has a module that depends on its declarations only.** -/
lemma moduleText_of_compile {source : SourceFile} {library : Output.Library} {text : String}
    {j j' : Journal} (h : compile source library j = .ok (some text) j') : ∃ items,
      Language.parse source.content = .ok items ∧ items.all Language.Item.valid = true ∧
      text = Output.moduleText (items.any Language.Item.updates) library
        (Language.itemTrees items) := by
  obtain ⟨program, j₁, hparse, hgenerate⟩ := compile_eq_ok h
  obtain ⟨remarks, j₂, hread, -, -, -⟩ := parse_eq_ok hparse
  obtain ⟨emitted, hemit, -⟩ := generate_eq_ok hgenerate
  obtain ⟨items, hitems, hvalid, rep, -, huses⟩ := Language.read_eq_ok hread
  rw [Output.generate_eq rep (Language.allShaped_itemTrees items) library, huses,
    Prod.mk.injEq] at hemit
  exact ⟨items, hitems, hvalid, (Except.ok.inj hemit.1).symm⟩

end Statechart
