import Statechart.Proofs.Report.Noting

/-!
# What a journal makes of remarks

Which of the remarks in a row appear in the journal depends on what was reported before about which
node, and on nothing else.  How a remark appears depends on the files of the journal, and on nothing
else.

* `Remark.topic?` — the node and the message of a remark about a node.
* `Journal.shown` — what appears for a remark.
* `Journal.news` — the remarks that the journal has not yet reported.
* `Journal.withAll` — the journal with remarks that are all news.
* `Heard` — what was said between two journals.

**`noteAll_eq`** — remarks that can be placed and that have different topics are taken in, except
for those that are no news.
**`eq_withAll_of_noteAll`** — what a journal has become if it took in remarks without topics.
-/

namespace Statechart

namespace Remark

/-- The node and the message of a remark about a node. -/
def topic? : Remark → Option (NodeId × String)
  | node id _ _ message => some (id, message)
  | _ => none

/-- How severe a report is.  A log entry is no report. -/
def severity? : Remark → Option Severity
  | log _ => none
  | span _ severity _ => some severity
  | node _ _ severity _ => some severity
  | general severity _ => some severity

/-- A mild remark is a log entry or a warning. -/
lemma severity?_of_isMild {r : Remark} (h : r.isMild = true) :
    r.severity? = if r.isLog then none else some .warning := by
  cases r with
  | log entry => rfl
  | _ => rw [severity?, of_decide_eq_true h]; rfl

lemma severity?_ne_error {r : Remark} (h : r.isMild = true) : r.severity? ≠ some .error := by
  rw [severity?_of_isMild h]
  cases r.isLog <;> simp

/-- Mild remarks are not counted as errors. -/
lemma countP_error {rs : List Remark} (h : ∀ r ∈ rs, r.isMild = true) :
    rs.countP (·.severity? = some .error) = 0 :=
  List.countP_eq_zero.mpr fun r hr => by simpa using severity?_ne_error (h r hr)

end Remark

namespace Journal

/-- The text of a report that can be placed. -/
def reportFor (j : Journal) (location : Option Location) (severity : Severity)
    (message : String) : String :=
  match j.layout location severity message with
  | .ok pieces => Report.render j.coloured pieces
  | .error _ => ""

/-- What appears for a remark. -/
def shown (j : Journal) : Remark → Notice
  | .log entry => .log entry
  | .span location severity message => .text (j.reportFor (some location) severity message)
  | .node _ location severity message => .text (j.reportFor location severity message)
  | .general severity message => .text (j.reportFor none severity message)

/-- The same was reported before, about a node with the same number. -/
def hasReported (j : Journal) (r : Remark) : Bool := r.topic?.any j.reported.contains

/-- The remarks that were not yet reported. -/
def news (j : Journal) (rs : List Remark) : List Remark := rs.filter (!j.hasReported ·)

/-- The journal with remarks that are all news. -/
def withAll (j : Journal) (rs : List Remark) : Journal :=
  { j with
    reported := (rs.filterMap Remark.topic?).reverse ++ j.reported
    notices := j.notices ++ (rs.map j.shown).toArray
    errors := j.errors + rs.countP (·.severity? = some .error)
    warnings := j.warnings + rs.countP (·.severity? = some .warning) }

@[simp] lemma news_nil (j : Journal) : j.news [] = [] := rfl

@[simp] lemma withAll_nil (j : Journal) : j.withAll [] = j := by
  simp [withAll]

/-- What appears for a remark depends on the files and on the colours only. -/
lemma shown_congr {j j' : Journal} (hfiles : j'.files = j.files)
    (hcoloured : j'.coloured = j.coloured) : j'.shown = j.shown := by
  funext r
  cases r <;> simp only [shown, reportFor, layout, hfiles, hcoloured]

lemma withAll_append (j : Journal) (rs ss : List Remark) :
    (j.withAll rs).withAll ss = j.withAll (rs ++ ss) := by
  have hshown : (j.withAll rs).shown = j.shown := shown_congr rfl rfl
  rw [withAll, hshown]
  simp [withAll, Nat.add_assoc]

/-- A remark with another topic is news after a remark if it was news before. -/
lemma hasReported_withAll {j : Journal} {r s : Remark} (h : ∀ t ∈ s.topic?, r.topic? ≠ some t) :
    (j.withAll [r]).hasReported s = j.hasReported s := by
  rw [hasReported, hasReported, withAll]
  cases hs : s.topic? with
  | none => rfl
  | some t =>
      have hne := h t hs
      cases hr : r.topic? with
      | none => simp [hr]
      | some u =>
          rw [hr, ne_eq, Option.some.injEq] at hne
          simp [hr, Ne.symm hne]

/-- Everything is news to a journal that has reported nothing. -/
lemma news_of_reported {j : Journal} (h : j.reported = []) (rs : List Remark) : j.news rs = rs := by
  refine List.filter_eq_self.mpr fun r _ => ?_
  rw [hasReported, h]
  cases r.topic? <;> rfl

/-- A remark without a topic is always news. -/
lemma news_of_topic? {rs : List Remark} (h : ∀ r ∈ rs, r.topic? = none) (j : Journal) :
    j.news rs = rs := by
  refine List.filter_eq_self.mpr fun r hr => ?_
  rw [hasReported, h r hr]
  rfl

/-- Remarks without topics change nothing about what is news later. -/
lemma news_withAll {rs : List Remark} (h : ∀ r ∈ rs, r.topic? = none) (j : Journal) :
    (j.withAll rs).news = j.news := by
  funext ss
  refine List.filter_congr fun s _ => ?_
  rw [hasReported, hasReported, withAll, List.filterMap_eq_nil_iff.mpr h]
  rfl

end Journal

/-- What was said between two journals, when a remark appears as given: the reports and log entries,
the counts, and the topics that are remembered. -/
structure Heard (before after : Journal) (said : List Remark) (shown : Remark → Notice) : Prop where
  notices : after.notices = before.notices ++ (said.map shown).toArray
  errors : after.errors = before.errors + said.countP (·.severity? = some .error)
  warnings : after.warnings = before.warnings + said.countP (·.severity? = some .warning)
  reported : ∀ topic, topic ∈ after.reported ↔
    topic ∈ before.reported ∨ topic ∈ said.filterMap Remark.topic?

/-- Remarks that are all news are heard as they appear. -/
lemma heard_withAll (j : Journal) (said : List Remark) : Heard j (j.withAll said) said j.shown where
  notices := rfl
  errors := rfl
  warnings := rfl
  reported topic := by
    show topic ∈ (said.filterMap Remark.topic?).reverse ++ j.reported ↔ _
    rw [List.mem_append, List.mem_reverse, or_comm]

namespace Reporting

/-- A report that can be placed is counted and shown. -/
lemma report_eq {j : Journal} {location : Option Location} (h : j.Places location)
    (severity : Severity) (message : String) :
    report location severity message j = .ok ()
      ((j.count severity).addNotice (.text (j.reportFor location severity message))) := by
  have hlayout : (j.count severity).layout location severity message =
      j.layout location severity message := by
    cases severity <;> rfl
  have hcoloured : (j.count severity).coloured = j.coloured := by cases severity <;> rfl
  obtain ⟨pieces, hpieces⟩ := h.layout severity message
  rw [report, modify_bind, get_bind, hlayout, hpieces, Journal.reportFor, hpieces, ← hcoloured]
  rfl

/-- A report that was put down could be placed. -/
lemma places_of_report {location : Option Location} {severity : Severity} {message : String}
    {j j' : Journal} (h : report location severity message j = .ok () j') : j.Places location := by
  have hfiles : (j.count severity).files = j.files := by cases severity <;> rfl
  rw [report, modify_bind, get_bind] at h
  cases location with
  | none => trivial
  | some location =>
      cases hfile : j.files[location.file]? with
      | none =>
          have hlayout : (j.count severity).layout (some location) severity message =
              .error .unknownFile := by rw [Journal.layout, hfiles, hfile]
          rw [hlayout] at h
          cases h
      | some file =>
          by_cases hplace : Report.isPlaceable file location.span = true
          · exact ⟨file, hfile, hplace⟩
          · have hlayout : (j.count severity).layout (some location) severity message =
                .error .offsetOverflow := by
              rw [Journal.layout, hfiles, hfile]
              exact if_neg hplace
            rw [hlayout] at h
            cases h

/-- A remark that is no news changes nothing. -/
lemma note_of_hasReported {j : Journal} {r : Remark} (h : j.hasReported r = true) :
    note r j = .ok () j := by
  cases r with
  | node id location severity message =>
      rw [note, reportNode_eq, if_pos (by simpa [Journal.hasReported, Remark.topic?] using h)]
  | _ => cases h

/-- A remark that is news is taken in. -/
lemma note_of_news {j : Journal} {r : Remark} (hplace : j.Places r.location)
    (h : j.hasReported r = false) : note r j = .ok () (j.withAll [r]) := by
  cases r with
  | log entry => rfl
  | span location severity message =>
      exact (report_eq hplace severity message).trans (by cases severity <;> rfl)
  | general severity message =>
      exact (report_eq hplace severity message).trans (by cases severity <;> rfl)
  | node id location severity message =>
      have hplaced : Journal.Places { j with reported := (id, message) :: j.reported } location :=
        hplace.congr rfl
      rw [note, reportNode_eq, if_neg (by simpa [Journal.hasReported, Remark.topic?] using h)]
      exact (report_eq hplaced severity message).trans (by cases severity <;> rfl)

/-- **What a journal makes of remarks** that can be placed and that have different topics. -/
lemma noteAll_eq {rs : List Remark} : ∀ {j : Journal}, (∀ r ∈ rs, j.Places r.location) →
    (rs.filterMap Remark.topic?).Nodup → noteAll rs j = .ok () (j.withAll (j.news rs)) := by
  induction rs with
  | nil =>
      intro j _ _
      rw [Journal.news_nil, Journal.withAll_nil]
      rfl
  | cons r rs ih =>
      intro j hplaces hnodup
      obtain ⟨hr, hrs⟩ := List.forall_mem_cons.mp hplaces
      have hrest : (rs.filterMap Remark.topic?).Nodup :=
        hnodup.sublist ((List.sublist_cons_self r rs).filterMap _)
      show EStateM.bind (note r) (fun _ => noteAll rs) j = _
      rw [EStateM.bind, Journal.news]
      cases hnew : j.hasReported r with
      | true =>
          rw [note_of_hasReported hnew, List.filter_cons_of_neg (by simp [hnew])]
          exact ih hrs hrest
      | false =>
          -- the other topics are not that of this remark, so the same remarks are news as before
          have hnews : (j.withAll [r]).news rs = j.news rs := by
            refine List.filter_congr fun s hs => ?_
            rw [Journal.hasReported_withAll fun t ht hr => ?_]
            rw [List.filterMap_cons_some hr, List.nodup_cons] at hnodup
            exact hnodup.1 (List.mem_filterMap.mpr ⟨s, hs, ht⟩)
          rw [note_of_news hr hnew, List.filter_cons_of_pos (by simp [hnew])]
          have hplaced : ∀ s ∈ rs, (j.withAll [r]).Places s.location := fun s hs =>
            (hrs s hs).congr rfl
          refine (ih hplaced hrest).trans ?_
          rw [hnews, Journal.withAll_append]
          rfl

/-- Remarks without topics that were taken in were all taken in, whether or not this could be known
in advance. -/
lemma eq_withAll_of_noteAll {rs : List Remark} (htopics : ∀ r ∈ rs, r.topic? = none) :
    ∀ {j j' : Journal}, noteAll rs j = .ok () j' → j' = j.withAll rs := by
  induction rs with
  | nil =>
      intro j j' h
      cases h
      exact (Journal.withAll_nil j).symm
  | cons r rs ih =>
      intro j j' h
      obtain ⟨hr, hrs⟩ := List.forall_mem_cons.mp htopics
      obtain ⟨⟨⟩, j₁, hnote, hrest⟩ := bind_eq_ok h
      have hplace : j.Places r.location := by
        cases r with
        | log entry => trivial
        | span location severity message => exact places_of_report hnote
        | general severity message => trivial
        | node id location severity message => cases hr
      have hnews : j.hasReported r = false := by rw [Journal.hasReported, hr]; rfl
      rw [note_of_news hplace hnews] at hnote
      obtain ⟨-, rfl⟩ := EStateM.Result.ok.inj hnote
      rw [ih hrs hrest, Journal.withAll_append]
      rfl

/-- A row of remarks without topics, and then a row of remarks with different topics. -/
lemma noteAll_rows {j : Journal} {reading emitting : List Remark}
    (hreading : ∀ r ∈ reading, r.topic? = none)
    (hemitting : (emitting.filterMap Remark.topic?).Nodup)
    (hplaces : ∀ r ∈ reading ++ emitting, j.Places r.location) :
    noteAll reading j = .ok () (j.withAll reading) ∧
      noteAll emitting (j.withAll reading) =
        .ok () (j.withAll (reading ++ j.news emitting)) := by
  obtain ⟨hfirst, hsecond⟩ := List.forall_mem_append.mp hplaces
  have hnone : (reading.filterMap Remark.topic?).Nodup := by
    rw [List.filterMap_eq_nil_iff.mpr hreading]
    exact List.nodup_nil
  have hafter : ∀ r ∈ emitting, (j.withAll reading).Places r.location := fun r hr =>
    (hsecond r hr).congr rfl
  constructor
  · rw [noteAll_eq hfirst hnone, Journal.news_of_topic? hreading]
  · rw [noteAll_eq hafter hemitting, Journal.withAll_append, Journal.news_withAll hreading]

/-- Log entries are always taken in, and they are not counted. -/
lemma noteAll_of_isLog {rs : List Remark} (h : ∀ r ∈ rs, r.isLog = true) (j : Journal) :
    ∃ j', noteAll rs j = .ok () j' ∧ j'.errors = j.errors ∧ j'.warnings = j.warnings := by
  have hlog : ∀ r ∈ rs, r.location = none ∧ r.topic? = none ∧ r.severity? = none := by
    intro r hr
    cases r with
    | log entry => exact ⟨rfl, rfl, rfl⟩
    | _ => cases h _ hr
  have htopics : ∀ r ∈ rs, r.topic? = none := fun r hr => (hlog r hr).2.1
  have hplaces : ∀ r ∈ rs, j.Places r.location := fun r hr => by
    rw [(hlog r hr).1]
    trivial
  have hcount : ∀ severity, rs.countP (·.severity? = some severity) = 0 := fun severity =>
    List.countP_eq_zero.mpr fun r hr => by simp [(hlog r hr).2.2]
  refine ⟨j.withAll rs, ?_, ?_, ?_⟩
  · rw [noteAll_eq hplaces (by rw [List.filterMap_eq_nil_iff.mpr htopics]; exact List.nodup_nil),
      Journal.news_of_topic? htopics]
  · show j.errors + _ = j.errors
    rw [hcount, Nat.add_zero]
  · show j.warnings + _ = j.warnings
    rw [hcount, Nat.add_zero]

end Reporting

end Statechart
