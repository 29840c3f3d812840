import Statechart.Proofs.Chart.Lookup
import Statechart.Proofs.Language.Extents
import Statechart.Proofs.Transcript

/-!
# Locations are sound

Every node of a chart that was read has a location in the file of the chart.  The locations nest as
the nodes do and follow each other as siblings do.  The one node that is not written, the machine
for the inner states of a state, has the location of the first of them.

All that a compilation says points into the file as well.  So a report always finds its file, and
its label can be placed.

* `Span.Shows` — a span can be shown: it lies in the text and cuts no character.
* `Forest.Encloses`, `Forest.Precedes` — how two nodes are located.
* `Forest.WellLocated` — how all nodes of a forest are located.

**`locations_sound`** — the nodes of every chart that is read, and the reports of every compilation.
-/

namespace Statechart

/-! ## Spans that can be shown -/

/-- The length of a text in bytes. -/
lemma byteLength_eq (cs : List Char) : byteLength cs = (String.ofList cs).utf8ByteSize := by
  induction cs with
  | nil => simp [byteLength]
  | cons c cs ih =>
      have hcons : String.ofList (c :: cs) = String.singleton c ++ String.ofList cs := by
        rw [String.singleton_eq_ofList, ← String.ofList_append]
        rfl
      rw [byteLength, ih, hcons, String.utf8ByteSize_append, String.utf8ByteSize_singleton]

lemma byteLength_toList (text : String) : byteLength text.toList = text.utf8ByteSize := by
  rw [byteLength_eq, String.ofList_toList]

/-- Between two characters, a position is valid. -/
lemma Boundary.isValid {text : String} {offset : Nat} (h : Boundary text.toList offset) :
    String.Pos.Raw.IsValid text ⟨offset⟩ := by
  obtain ⟨before, after, htext, rfl⟩ := h
  refine String.Pos.Raw.isValid_iff_exists_append.mpr ⟨.ofList before, .ofList after, ?_, ?_⟩
  · rw [← String.ofList_append, ← htext, String.ofList_toList]
  · rw [String.rawEndPos, byteLength_eq]

/-- The span lies in the text, and both of its ends are positions between characters. -/
structure Span.Shows (text : String) (s : Span) : Prop where
  ordered : s.start ≤ s.stop
  inRange : s.stop ≤ text.utf8ByteSize
  start : String.Pos.Raw.IsValid text ⟨s.start⟩
  stop : String.Pos.Raw.IsValid text ⟨s.stop⟩

lemma Span.Within.shows {text : String} {s : Span} (h : s.Within text.toList) : s.Shows text where
  ordered := h.1
  inRange := (byteLength_toList text).symm ▸ h.2.2.le
  start := h.2.1.isValid
  stop := h.2.2.isValid

/-! ## Rows of trees -/

namespace Tree

variable {locate : NodeId → Option Span} {lo hi : Nat} {ts : List Tree}

/-- Each tree of a row lies between the two offsets. -/
lemma Lies.mem (h : Lies locate lo hi ts) {t : Tree} (ht : t ∈ ts) :
    ∃ s, locate t.id = some s ∧ lo ≤ s.start ∧ s.start < s.stop ∧ s.stop ≤ hi := by
  induction ts generalizing lo with
  | nil => simp at ht
  | cons u us ih =>
      obtain ⟨s, hs, hstart, hlt, hstop, hrest⟩ := h
      rcases List.mem_cons.mp ht with rfl | ht
      · exact ⟨s, hs, hstart, hlt, hstop⟩
      · obtain ⟨s', hs', hstart', hlt', hstop'⟩ := ih hrest ht
        exact ⟨s', hs', by omega, hlt', hstop'⟩

/-- Each tree of a row ends before any later one begins. -/
lemma Lies.pairwise (h : Lies locate lo hi ts) : ts.Pairwise fun t u =>
    ∃ s s', locate t.id = some s ∧ locate u.id = some s' ∧ s.stop ≤ s'.start := by
  induction ts generalizing lo with
  | nil => exact .nil
  | cons t ts ih =>
      obtain ⟨s, hs, -, -, -, hrest⟩ := h
      refine .cons ?_ (ih hrest)
      intro u hu
      obtain ⟨s', hs', hstart', -, -⟩ := hrest.mem hu
      exact ⟨s, s', hs, hs', hstart'⟩

end Tree

namespace Forest

/-! ## Located nodes -/

/-- The second node is located inside the first. -/
def Encloses (f : Forest) (outer inner : NodeId) : Prop :=
  ∃ l l', f.location outer = some l ∧ f.location inner = some l' ∧
    l.span.start ≤ l'.span.start ∧ l'.span.stop ≤ l.span.stop

/-- The second node is located behind the first. -/
def Precedes (f : Forest) (id id' : NodeId) : Prop :=
  ∃ l l', f.location id = some l ∧ f.location id' = some l' ∧ l.span.stop ≤ l'.span.start

/-- The node that what hangs below a node is written in: the state, for the machine that describes
the children of a state. -/
def writtenIn (f : Forest) (id : NodeId) : NodeId :=
  if f.isNestedMachine id then (f.parent id).getD id else id

/-- The nodes of the forest are located in a text, nested and ordered as the nodes are. -/
structure WellLocated (f : Forest) (file : Nat) (text : String) : Prop where
  /-- Every node has a location: a part of the text that is not empty. -/
  located : ∀ id < f.nodes.size, ∃ l, f.location id = some l ∧ l.file = file ∧
    l.span.start < l.span.stop ∧ l.span.Shows text
  /-- A node lies inside its parent, and inside the state if the parent is a machine below one. -/
  nested : ∀ id < f.nodes.size, ∀ parent, f.parent id = some parent →
    f.Encloses (f.writtenIn parent) id
  /-- A machine below a state has the location of the first state that hangs below it. -/
  gathered : ∀ id < f.nodes.size, f.isNestedMachine id = true →
    ∃ first, (f.children id).head? = some first ∧ f.location id = f.location first
  /-- Siblings lie one behind the other, in their order. -/
  ordered : f.roots.Pairwise f.Precedes ∧
    ∀ id < f.nodes.size, (f.children id).Pairwise f.Precedes

section trees

variable {f : Forest} {roots : List Tree} {locate : NodeId → Option Span} {file lo hi : Nat}
variable (hlocation : ∀ id, f.location id = (locate id).map (⟨·, file⟩))

include hlocation

/-- The nodes of a row that lies in order precede each other. -/
lemma pairwise_precedes {ts : List Tree} (h : Tree.Lies locate lo hi ts) :
    (ts.map Tree.id).Pairwise f.Precedes := by
  rw [List.pairwise_map]
  refine h.pairwise.imp ?_
  rintro t u ⟨s, s', hs, hs', hle⟩
  exact ⟨⟨s, file⟩, ⟨s', file⟩, by rw [hlocation, hs]; rfl, by rw [hlocation, hs']; rfl, hle⟩

lemma encloses_of_lies {outer : NodeId} {s : Span} (hs : locate outer = some s) {ts : List Tree}
    (h : Tree.Lies locate s.start s.stop ts) {t : Tree} (ht : t ∈ ts) : f.Encloses outer t.id := by
  obtain ⟨s', hs', hstart, -, hstop⟩ := h.mem ht
  exact ⟨⟨s, file⟩, ⟨s', file⟩, by rw [hlocation, hs]; rfl, by rw [hlocation, hs']; rfl, hstart,
    hstop⟩

end trees

section represents

variable {f : Forest} {roots : List Tree} (hrep : f.Represents roots)

/-- Only a state has a machine below it. -/
lemma isState_of_isMachine (hshape : Tree.allShaped none roots = true) {t u : Tree}
    (hu : u ∈ Tree.allWithin roots) (ht : t ∈ u.children) (hmachine : t.payload.isMachine = true) :
    u.isState = true := by
  obtain ⟨hhold, -⟩ := Tree.allShaped_of_mem (Tree.allShaped_within hshape u hu) ht
  rw [Node.isMachine, decide_eq_true_eq] at hmachine
  rw [hmachine] at hhold
  cases hkind : u.payload.kind <;> simp [hkind, Tree.mayHold, Tree.isState, Node.isState] at hhold ⊢

include hrep

lemma isNestedMachine_root {t : Tree} (ht : t ∈ roots) : f.isNestedMachine t.id = false := by
  rw [isNestedMachine, parentNode?, hrep.parent_root ht]
  simp

/-- A machine below a state, in the forest and among the trees. -/
lemma isNestedMachine_child {t u : Tree} (hu : u ∈ Tree.allWithin roots) (ht : t ∈ u.children) :
    f.isNestedMachine t.id = (t.payload.isMachine && u.isState) := by
  have hin : t ∈ Tree.allWithin roots := Tree.mem_allWithin.mpr (.inr ⟨u, hu, ht⟩)
  rw [isNestedMachine, parentNode?, hrep.parent_child hu ht, hrep.node?_eq hin, Option.bind_some,
    hrep.node?_eq hu]
  rfl

variable {locate : NodeId → Option Span} {hi : Nat}
variable (hshape : Tree.allShaped none roots = true)
variable (hsome : ∀ t ∈ Tree.allWithin roots, ∃ s, locate t.id = some s)
variable (hbelow : ∀ t ∈ roots, ∀ s, locate t.id = some s →
  Tree.Lies locate s.start s.stop t.children)
variable (hsettled : ∀ t ∈ Tree.allWithin roots, t.Settled locate)

include hshape hsome hbelow hsettled

/-- What hangs below a node lies inside the node that it is written in. -/
lemma lies_writtenIn {t : Tree} (ht : t ∈ Tree.allWithin roots) :
    ∃ s, locate (f.writtenIn t.id) = some s ∧ Tree.Lies locate s.start s.stop t.children := by
  obtain ⟨s, hs⟩ := hsome t ht
  rcases Tree.mem_allWithin.mp ht with hroot | ⟨u, hu, hchild⟩
  · rw [writtenIn, isNestedMachine_root hrep hroot]
    exact ⟨s, hs, hbelow t hroot s hs⟩
  · rw [writtenIn, isNestedMachine_child hrep hu hchild]
    cases hmachine : t.payload.isMachine with
    | false => exact ⟨s, hs, (hsettled t ht).inside hmachine s hs⟩
    | true =>
        have hstate := isState_of_isMachine hshape hu hchild hmachine
        obtain ⟨s', hs'⟩ := hsome u hu
        rw [hstate, hrep.parent_child hu hchild]
        exact ⟨s', hs', ((hsettled u hu).gathered hstate s' hs' t hchild hmachine).2⟩

/-- The nodes of a forest are located as those of its trees. -/
lemma wellLocated_of_settled (hsize : f.nodes.size = (Tree.ids roots).length) {file : Nat}
    {text : String} (hlocation : ∀ id, f.location id = (locate id).map (⟨·, file⟩))
    (hshows : ∀ id s, locate id = some s → s.Shows text)
    (hroots : Tree.Lies locate 0 hi roots) : f.WellLocated file text := by
  have htree : ∀ id < f.nodes.size, ∃ t ∈ Tree.allWithin roots, t.id = id := fun id hid =>
    Tree.exists_tree (hrep.mem_ids hsize hid)
  have hwritten : ∀ t ∈ Tree.allWithin roots, ∃ s, locate (f.writtenIn t.id) = some s ∧
      Tree.Lies locate s.start s.stop t.children := fun t ht =>
    lies_writtenIn hrep hshape hsome hbelow hsettled ht
  refine ⟨?_, ?_, ?_, ?_, ?_⟩
  · intro id hid
    obtain ⟨t, ht, rfl⟩ := htree id hid
    have hlies : ∃ lo hi row, Tree.Lies locate lo hi row ∧ t ∈ row := by
      rcases Tree.mem_allWithin.mp ht with hroot | ⟨u, hu, hchild⟩
      · exact ⟨0, hi, roots, hroots, hroot⟩
      · obtain ⟨s, -, hrow⟩ := hwritten u hu
        exact ⟨_, _, _, hrow, hchild⟩
    obtain ⟨lo, hi, row, hrow, hmem⟩ := hlies
    obtain ⟨s, hs, -, hlt, -⟩ := hrow.mem hmem
    exact ⟨⟨s, file⟩, by rw [hlocation, hs]; rfl, rfl, hlt, hshows _ s hs⟩
  · intro id hid parent hparent
    obtain ⟨t, ht, rfl⟩ := htree id hid
    rcases Tree.mem_allWithin.mp ht with hroot | ⟨u, hu, hchild⟩
    · rw [hrep.parent_root hroot] at hparent
      simp at hparent
    · rw [hrep.parent_child hu hchild, Option.some.injEq] at hparent
      subst hparent
      obtain ⟨s, hs, hrow⟩ := hwritten u hu
      exact encloses_of_lies hlocation hs hrow hchild
  · intro id hid hnested
    obtain ⟨t, ht, rfl⟩ := htree id hid
    rcases Tree.mem_allWithin.mp ht with hroot | ⟨u, hu, hchild⟩
    · simp [isNestedMachine_root hrep hroot] at hnested
    · rw [isNestedMachine_child hrep hu hchild, Bool.and_eq_true] at hnested
      obtain ⟨hmachine, hstate⟩ := hnested
      obtain ⟨s, hs⟩ := hsome u hu
      obtain ⟨⟨first, rest, hchildren, hsame⟩, -⟩ :=
        (hsettled u hu).gathered hstate s hs t hchild hmachine
      refine ⟨first.id, ?_, by rw [hlocation, hsame, hlocation]⟩
      rw [hrep.children_eq ht, hchildren]
      rfl
  · rw [hrep.roots_eq]
    exact pairwise_precedes hlocation hroots
  · intro id hid
    obtain ⟨t, ht, rfl⟩ := htree id hid
    obtain ⟨s, -, hrow⟩ := hwritten t ht
    rw [hrep.children_eq ht]
    exact pairwise_precedes hlocation hrow

end represents

end Forest

/-! ## Charts and reports -/

/-- **The nodes of every chart that is read are located in its text.** -/
lemma wellLocated_of_read {file : Nat} {text : String} {program : Program}
    (hresult : (Language.read file text).1 = .ok program) :
    program.forest.WellLocated file text := by
  have hread : Language.read file text = (.ok program, (Language.read file text).2) := by
    rw [← hresult]
  obtain ⟨items, hparse, -, hrep, hsize, -⟩ := Language.read_eq_ok hread
  obtain ⟨hplaces, hlocation⟩ := Language.location_of_read hresult hparse
  obtain ⟨hi, hlaid⟩ := Language.laid_of_parse hparse
  obtain ⟨hroots, hbelow, hsettled⟩ := Language.settled_itemTrees items
    (Language.agrees_self (items.flatMap Language.Item.places)) hlaid
  have hwithin := ((Language.read_marked file text).2.1 program hresult).1
  refine Forest.wellLocated_of_settled hrep (Language.allShaped_itemTrees items) ?_ hbelow hsettled
    hsize hlocation ?_ hroots
  · intro t ht
    have hid : t.id ∈ Tree.ids (Language.itemTrees items) := by
      rw [← Tree.map_id_allWithin]
      exact List.mem_map_of_mem ht
    have hlt : t.id < (items.flatMap Language.Item.places).length := by
      rw [← hplaces]
      exact List.mem_range.mp (hrep.subset_range hid)
    exact ⟨_, List.getElem?_eq_getElem hlt⟩
  · intro id s hs
    refine Span.Within.shows (hwithin id ⟨s, file⟩ ?_).2
    rw [hlocation, hs]
    rfl

/-- A compilation that ends in a fault has a text that is as long as there are offsets. -/
lemma fault_of_compile {source : SourceFile} {library : Output.Library} {j j₁ : Journal}
    {fault : Fault} (h : compile source library j = .error fault j₁) :
    fault = .offsetOverflow ∧ Report.offsetCount ≤ source.content.utf8ByteSize + 1 := by
  have hfile : (j.addFile source).1.files[j.files.size]? = some source := Array.getElem?_push_size
  constructor
  · have hknows : ∀ r ∈ readingRemarks source j.files.size ++
        emittingRemarks library (readingResult source j.files.size),
        Reporting.Knows (j.addFile source).1 r.location := by
      intro r hr l hl
      exact ⟨source, by rw [(liesIn_remarks library hr l hl).1, hfile]⟩
    rw [compile_eq_noteAll] at h
    rcases Reporting.noteAll_goes hknows with ⟨j', hnotes, -⟩ | ⟨j', hnotes⟩
    · rw [Reporting.bind_of_ok hnotes] at h
      cases h
    · rw [Reporting.bind_of_error hnotes] at h
      cases h
      rfl
  · rw [← byteLength_toList]
    refine Nat.not_lt.mp fun hsize => ?_
    rw [(compile_eq_withAll source library j hsize).2] at h
    cases h

/-- **Locations are sound.**  The nodes of every chart that is read are located in its text, nested
and ordered as the nodes are.  A compilation notes what there is to say about the chart, and all of
it that has a place is in the file of the chart, between characters of its text.  So no report
misses its file, and a label cannot be placed only if the text is as long as there are offsets. -/
theorem locations_sound (source : SourceFile) (library : Output.Library) (j : Journal) :
    (∀ program j₁, parse source j = .ok (.ok program) j₁ →
      program.forest.WellLocated j.files.size source.content) ∧
    compile source library j = (do
      Reporting.noteAll (readingRemarks source j.files.size ++
        emittingRemarks library (readingResult source j.files.size))
      return emittingResult library (readingResult source j.files.size)) (j.addFile source).1 ∧
    (j.addFile source).1.files[j.files.size]? = some source ∧
    (∀ r ∈ readingRemarks source j.files.size ++
        emittingRemarks library (readingResult source j.files.size),
      ∀ l ∈ r.location, l.file = j.files.size ∧ l.span.Shows source.content) ∧
    ∀ fault j₁, compile source library j = .error fault j₁ →
      fault = .offsetOverflow ∧ Report.offsetCount ≤ source.content.utf8ByteSize + 1 := by
  refine ⟨?_, compile_eq_noteAll source library j, Array.getElem?_push_size, ?_, ?_⟩
  · intro program j₁ h
    have hresult := (noteAll_of_parse h).1
    exact wellLocated_of_read (readingResult_eq_ok.mp hresult.symm)
  · intro r hr l hl
    obtain ⟨hfile, hwithin⟩ := liesIn_remarks library hr l hl
    exact ⟨hfile, hwithin.shows⟩
  · intro fault j₁ h
    exact fault_of_compile h

/-- A chart with characters of more than one byte before its nodes, and with inner states that do
not stand together. -/
def commentedChart : SourceFile :=
  ⟨"commented.chart", "//ö\nuse'→'\x7bf\x7dmachine m\x7b" ++
    "state a\x7bstate b\x7b\x7dgo=>b state c\x7b\x7d\x7d\x7d"⟩

lemma commentedChart_valid : (match Language.parse commentedChart.content with
    | .ok items => items.all Language.Item.valid
    | .error _ => false) = true := by
  decide +kernel

/-- The chart is the second file of its journal. -/
theorem locations_commentedChart : ∃ program j₁,
    parse commentedChart { files := #[⟨"first.chart", ""⟩] } = .ok (.ok program) j₁ ∧
      program.forest.WellLocated 1 commentedChart.content := by
  have hvalid := commentedChart_valid
  generalize hparse : Language.parse commentedChart.content = outcome at hvalid
  cases outcome with
  | error attempts => cases hvalid
  | ok items =>
      obtain ⟨program, j₁, -, hread, -⟩ := compile_of_parse commentedChart hparse hvalid
        (by decide +kernel) .package { files := #[⟨"first.chart", ""⟩] }
      have hlocated := (locations_sound commentedChart .package
        { files := #[⟨"first.chart", ""⟩] }).1 program j₁ hread
      exact ⟨program, j₁, hread, hlocated⟩

end Statechart
