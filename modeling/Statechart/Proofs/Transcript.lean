import Statechart.Proofs.Compilation
import Statechart.Proofs.Language.Refiling
import Statechart.Proofs.Output.Warnings

/-!
# All that a compilation says

A compilation takes the text in as a file, says what there is to say while it is read, and then what
there is to say while the module is emitted.  What it says is known in advance, and so is its
result.

* `readingRemarks`, `emittingRemarks` — what is said in the two halves.
* `parse_eq_noteAll`, `compile_eq_noteAll` — a compilation is noting what there is to say.
* `liesIn_remarks` — all that is said points into the text.

**`compile_eq_withAll`** — the result of a compilation, and what it adds to a journal.
**`compile_of_parse`** — a valid chart compiles.
-/

namespace Statechart

/-! ## Two halves -/

/-- What is said while a chart is read, and about the outcome. -/
def readingRemarks (source : SourceFile) (file : Nat) : List Remark :=
  (Language.read file source.content).2 ++
    match (Language.read file source.content).1 with
    | .error rejection => [.span ⟨rejection.span, file⟩ .error rejection.message]
    | .ok program =>
      [.log ⟨.info, .reading, "parsed `" ++ source.name ++ "` into " ++
        toString program.forest.liveNodes ++ " nodes"⟩]

/-- The outcome of reading a chart. -/
def readingResult (source : SourceFile) (file : Nat) : Except CompileError Program :=
  match (Language.read file source.content).1 with
  | .error rejection => .error (.rejected source.name rejection.message)
  | .ok program => .ok program

/-- What is said after a chart was read: while its module is emitted, or that there is none. -/
def emittingRemarks (library : Output.Library) :
    Except CompileError Program → List Remark
  | .error error => [.log ⟨.error, .program, error.message⟩]
  | .ok program => (Output.generate program library).2

/-- The module of a chart that was read. -/
def emittingResult (library : Output.Library) : Except CompileError Program → Option String
  | .error _ => none
  | .ok program => (Output.generate program library).1.toOption

section noting

variable {source : SourceFile} {library : Output.Library} {j j₁ j₂ : Journal}

/-- Remarks are taken in one row after another. -/
lemma noteAll_append (rs ss : List Remark) :
    Reporting.noteAll (rs ++ ss) = (do Reporting.noteAll rs; Reporting.noteAll ss) := by
  induction rs with
  | nil => simp [Reporting.noteAll]
  | cons r rs ih => simp [Reporting.noteAll, ih]

/-- Remarks are taken in one half after the other. -/
lemma noteAll_append_eq_ok {rs ss : List Remark} :
    Reporting.noteAll (rs ++ ss) j = .ok () j₂ ↔
      ∃ j₁, Reporting.noteAll rs j = .ok () j₁ ∧ Reporting.noteAll ss j₁ = .ok () j₂ := by
  rw [noteAll_append]
  constructor
  · intro h
    obtain ⟨⟨⟩, j₁, hrs, hss⟩ := Reporting.bind_eq_ok h
    exact ⟨j₁, hrs, hss⟩
  · rintro ⟨j₁, hrs, hss⟩
    rw [Reporting.bind_of_ok hrs, hss]

/-- **Reading a chart is noting what there is to say**, whether all of it can be noted or not. -/
lemma parse_eq_noteAll (source : SourceFile) (j : Journal) :
    parse source j = (do
      Reporting.noteAll (readingRemarks source j.files.size)
      return readingResult source j.files.size) (j.addFile source).1 := by
  have hfile : Reporting.addFile source j = .ok j.files.size (j.addFile source).1 := rfl
  rw [parse, Reporting.bind_of_ok hfile]
  unfold readingRemarks readingResult
  generalize Language.read j.files.size source.content = outcome
  obtain ⟨result, remarks⟩ := outcome
  cases result with
  | error rejection => simp [noteAll_append, Reporting.noteAll, Reporting.note]
  | ok program =>
      simp [noteAll_append, Reporting.noteAll, Reporting.note, Reporting.log, Journal.log]

lemma parse_of_noteAll
    (h : Reporting.noteAll (readingRemarks source j.files.size) (j.addFile source).1 = .ok () j₁) :
    parse source j = .ok (readingResult source j.files.size) j₁ := by
  rw [parse_eq_noteAll, Reporting.bind_of_ok h]
  rfl

/-- A chart that was read is one of which all was noted. -/
lemma noteAll_of_parse {result : Except CompileError Program}
    (h : parse source j = .ok result j₁) :
    result = readingResult source j.files.size ∧
      Reporting.noteAll (readingRemarks source j.files.size) (j.addFile source).1 = .ok () j₁ := by
  rw [parse_eq_noteAll] at h
  obtain ⟨⟨⟩, j', hnotes, hpure⟩ := Reporting.bind_eq_ok h
  cases hpure
  exact ⟨rfl, hnotes⟩

/-- Emitting a module is noting what there is to say. -/
lemma generate_of_noteAll {program : Program} {text : String}
    (htext : (Output.generate program library).1 = .ok text)
    (h : Reporting.noteAll (Output.generate program library).2 j₁ = .ok () j₂) :
    generate program library j₁ = .ok text j₂ := by
  rw [generate]
  generalize Output.generate program library = outcome at h htext ⊢
  obtain ⟨result, remarks⟩ := outcome
  dsimp only at h htext ⊢
  rw [Reporting.bind_of_ok h, htext]
  rfl

end noting

/-! ## What is said -/

section remarks

variable {source : SourceFile} {file : Nat} {program : Program}

/-- A text has a program exactly if it can be read. -/
lemma readingResult_eq_ok : readingResult source file = .ok program ↔
    (Language.read file source.content).1 = .ok program := by
  unfold readingResult
  cases (Language.read file source.content).1 with
  | error rejection => simp
  | ok program => simp

/-- The module of a chart that was read, and what is said about it. -/
lemma generate_of_readingResult (h : readingResult source file = .ok program)
    (library : Output.Library) : ∃ items, Language.parse source.content = .ok items ∧
      items.all Language.Item.valid = true ∧
      program.forest.Represents (Language.itemTrees items) ∧
      program.usesAssign = items.any Language.Item.updates ∧
      Output.generate program library =
        (.ok (Output.moduleText (items.any Language.Item.updates) library
          (Language.itemTrees items)),
        Output.allRemarks program.forest.location (Language.itemTrees items)) := by
  have hresult := readingResult_eq_ok.mp h
  generalize hread : Language.read file source.content = outcome at hresult
  obtain ⟨result, remarks⟩ := outcome
  obtain rfl : result = .ok program := hresult
  obtain ⟨items, hitems, hvalid, rep, -, huses⟩ := Language.read_eq_ok hread
  refine ⟨items, hitems, hvalid, rep, huses, ?_⟩
  rw [Output.generate_eq rep (Language.allShaped_itemTrees items) library, huses]

/-- Something that comes to an end by noting, and what is done after it. -/
lemma bind_of_noteAll {α β : Type} {x : Reporting α} {f : α → Reporting β} {rs : List Remark} {a : α}
    {j j' : Journal} (h : x j = (do Reporting.noteAll rs; return a) j') :
    (x >>= f) j = (do Reporting.noteAll rs; f a) j' := by
  cases hnotes : Reporting.noteAll rs j' with
  | ok _ j₁ =>
      rw [Reporting.bind_of_ok hnotes] at h ⊢
      exact Reporting.bind_of_ok h
  | error fault j₁ =>
      rw [Reporting.bind_of_error hnotes] at h ⊢
      exact Reporting.bind_of_error h

/-- **Compiling a chart is noting what there is to say in both halves**, whether all of it can be
noted or not. -/
lemma compile_eq_noteAll (source : SourceFile) (library : Output.Library) (j : Journal) :
    compile source library j = (do
      Reporting.noteAll (readingRemarks source j.files.size ++
        emittingRemarks library (readingResult source j.files.size))
      return emittingResult library (readingResult source j.files.size)) (j.addFile source).1 := by
  rw [compile, bind_of_noteAll (parse_eq_noteAll source j), noteAll_append]
  cases hresult : readingResult source j.files.size with
  | error error =>
      simp [emittingRemarks, emittingResult, Reporting.noteAll, Reporting.note, Reporting.log,
        Journal.log]
  | ok program =>
      obtain ⟨items, -, -, -, -, hgenerate⟩ := generate_of_readingResult hresult library
      simp [emittingRemarks, emittingResult, generate, hgenerate, Except.toOption]

/-- What is said while a chart is read is not about nodes. -/
lemma topic?_readingRemarks (source : SourceFile) (file : Nat) :
    ∀ r ∈ readingRemarks source file, r.topic? = none := by
  intro r hr
  unfold readingRemarks at hr
  rcases List.mem_append.mp hr with hr | hr
  · exact ((Language.read_marked file source.content).1 r hr).1
  · split at hr <;> (obtain rfl := List.mem_singleton.mp hr; rfl)

/-- What is said afterwards has different topics, and nothing of it is an error. -/
lemma emittingRemarks_mild (source : SourceFile) (file : Nat) (library : Output.Library) :
    ((emittingRemarks library (readingResult source file)).filterMap Remark.topic?).Nodup ∧
      ∀ r ∈ emittingRemarks library (readingResult source file), r.isMild = true := by
  cases hresult : readingResult source file with
  | error error =>
      rw [emittingRemarks]
      exact ⟨List.nodup_nil, by simp [Remark.isMild]⟩
  | ok program =>
      obtain ⟨items, -, -, rep, -, hgenerate⟩ := generate_of_readingResult hresult library
      rw [emittingRemarks, hgenerate]
      exact ⟨Output.nodup_topics (Language.isWritable_itemTrees items) rep.distinct,
        Output.isMild_allRemarks _ _⟩

/-- **All that is said points into the text.** -/
lemma liesIn_remarks (library : Output.Library) {r : Remark} (hr : r ∈ readingRemarks source file ++
      emittingRemarks library (readingResult source file)) :
    ∀ l ∈ r.location, Language.LiesIn file (Span.Within source.content.toList) l := by
  obtain ⟨hremarks, hnodes, hrejection⟩ := Language.read_marked file source.content
  rcases List.mem_append.mp hr with hr | hr
  · unfold readingRemarks at hr
    rcases List.mem_append.mp hr with hr | hr
    · exact (hremarks r hr).2
    · split at hr
      · next rejection hresult =>
        obtain rfl := List.mem_singleton.mp hr
        intro l hl
        obtain rfl := Option.some.inj hl
        exact ⟨rfl, hrejection rejection hresult⟩
      · obtain rfl := List.mem_singleton.mp hr
        intro l hl
        cases hl
  · cases hresult : readingResult source file with
    | error error =>
        rw [hresult, emittingRemarks] at hr
        obtain rfl := List.mem_singleton.mp hr
        intro l hl
        cases hl
    | ok program =>
        obtain ⟨items, -, -, -, -, hgenerate⟩ := generate_of_readingResult hresult library
        rw [hresult, emittingRemarks, hgenerate] at hr
        intro l hl
        rcases Output.mem_allRemarks hr with (⟨entry, rfl⟩ | ⟨id, message, rfl⟩) | ⟨message, rfl⟩
        · cases hl
        · exact (hnodes program (readingResult_eq_ok.mp hresult)).1 id l hl
        · cases hl

end remarks

/-! ## Journals -/

/-- A span of a text that is not too long can be placed. -/
lemma places_of_liesIn {j : Journal} {source : SourceFile} {n : Nat} {location : Option Location}
    (hfile : j.files[n]? = some source)
    (hsize : byteLength source.content.toList + 1 < Report.offsetCount)
    (hl : ∀ l ∈ location, Language.LiesIn n (Span.Within source.content.toList) l) :
    j.Places location := by
  cases location with
  | none => trivial
  | some l =>
      obtain ⟨hn, hstart, -, hboundary⟩ := hl l rfl
      have hstop := hboundary.le
      refine ⟨source, by rw [hn, hfile], ?_⟩
      rw [Report.isPlaceable, Bool.or_eq_true]
      exact .inr (decide_eq_true (by omega))

section journals

variable (source : SourceFile) (library : Output.Library) (j : Journal)
variable (hsize : byteLength source.content.toList + 1 < Report.offsetCount)

include hsize

/-- What is said in the two halves is taken in, except for what is no news. -/
lemma noteAll_halves :
    Reporting.noteAll (readingRemarks source j.files.size) (j.addFile source).1 =
        .ok () ((j.addFile source).1.withAll (readingRemarks source j.files.size)) ∧
      Reporting.noteAll (emittingRemarks library (readingResult source j.files.size))
          ((j.addFile source).1.withAll (readingRemarks source j.files.size)) =
        .ok () ((j.addFile source).1.withAll (readingRemarks source j.files.size ++
          (j.addFile source).1.news
            (emittingRemarks library (readingResult source j.files.size)))) := by
  have hfile : (j.addFile source).1.files[j.files.size]? = some source := Array.getElem?_push_size
  exact Reporting.noteAll_rows (topic?_readingRemarks source _)
    (emittingRemarks_mild source _ library).1
    fun r hr => places_of_liesIn hfile hsize (liesIn_remarks library hr)

/-- **What a compilation adds to a journal.** -/
lemma compile_eq_withAll :
    parse source j = .ok (readingResult source j.files.size)
        ((j.addFile source).1.withAll (readingRemarks source j.files.size)) ∧
      compile source library j =
        .ok (emittingResult library (readingResult source j.files.size))
          ((j.addFile source).1.withAll (readingRemarks source j.files.size ++
            (j.addFile source).1.news
              (emittingRemarks library (readingResult source j.files.size)))) := by
  obtain ⟨hreading, hemitting⟩ := noteAll_halves source library j hsize
  refine ⟨parse_of_noteAll hreading, ?_⟩
  rw [compile_eq_noteAll, Reporting.bind_of_ok (noteAll_append_eq_ok.mpr ⟨_, hreading, hemitting⟩)]
  rfl

/-- **What emitting a module adds to a journal** that has reported nothing before the chart was
read. -/
lemma generate_eq_withAll {program : Program} {j₁ : Journal} (hreported : j.reported = [])
    (h : parse source j = .ok (.ok program) j₁) : ∃ items,
      Language.parse source.content = .ok items ∧
      program.forest.Represents (Language.itemTrees items) ∧
      (∀ id < program.forest.nodes.size, (program.forest.location id).isSome = true) ∧
      generate program library j₁ =
        .ok (Output.moduleText (items.any Language.Item.updates) library (Language.itemTrees items))
          (j₁.withAll
            (Output.allRemarks program.forest.location (Language.itemTrees items))) := by
  obtain ⟨hreading, hemitting⟩ := noteAll_halves source library j hsize
  have hparse := (parse_of_noteAll hreading).symm.trans h
  rw [EStateM.Result.ok.injEq] at hparse
  obtain ⟨hresult, hjournal⟩ := hparse
  obtain ⟨items, hitems, -, hrep, -, hgenerate⟩ := generate_of_readingResult hresult library
  have hlocated := ((Language.read_marked _ source.content).2.1 program
    (readingResult_eq_ok.mp hresult)).2
  have hnews := Journal.news_of_reported (j := (j.addFile source).1) hreported
  rw [hnews, ← Journal.withAll_append, hjournal, hresult, emittingRemarks] at hemitting
  refine ⟨items, hitems, hrep, hlocated, generate_of_noteAll (by rw [hgenerate]) ?_⟩
  rwa [hgenerate] at hemitting ⊢

end journals

/-- **A valid chart compiles**, if its text is not too long. -/
lemma compile_of_parse (source : SourceFile) {items : List Language.Item}
    (hparse : Language.parse source.content = .ok items)
    (hvalid : items.all Language.Item.valid = true)
    (hsize : byteLength source.content.toList + 1 < Report.offsetCount) (library : Output.Library)
    (j : Journal) : ∃ program j₁ j₂, parse source j = .ok (.ok program) j₁ ∧
      program.usesAssign = items.any Language.Item.updates ∧
      compile source library j = .ok (some (Output.moduleText (items.any Language.Item.updates)
        library (Language.itemTrees items))) j₂ := by
  obtain ⟨program, remarks, hread⟩ := Language.read_of_parse hparse hvalid j.files.size
  have hresult : readingResult source j.files.size = .ok program :=
    readingResult_eq_ok.mpr (by rw [hread])
  obtain ⟨hreading, hcompile⟩ := compile_eq_withAll source library j hsize
  obtain ⟨items', hitems', -, -, huses, hgenerate⟩ := generate_of_readingResult hresult library
  obtain rfl : items' = items := Except.ok.inj (hitems'.symm.trans hparse)
  have htext : emittingResult library (readingResult source j.files.size) = some
      (Output.moduleText (items'.any Language.Item.updates) library (Language.itemTrees items')) := by
    rw [hresult, emittingResult, hgenerate]
    rfl
  rw [hresult] at hreading
  rw [htext] at hcompile
  exact ⟨program, _, _, hreading, huses, hcompile⟩

end Statechart
