import Mathlib.Tactic.Lemma
import Statechart.Report.Journal

/-!
# Taking in remarks

A remark is taken in without a fault if the journal can place what it points at, and taking in a
remark never changes the files of the journal.  So whether a row of remarks can be taken in is
known in advance.

* `Journal.Places` — the journal knows the file of a location and can place its label.
* **`noteAll_of_places`** — remarks whose locations can be placed are taken in.
* **`noteAll_goes`** — remarks about files that the journal knows never miss a file.
* **`isLog_of_noteAll`** — if no warning was counted, there were none among the remarks.
-/

namespace Statechart

namespace Journal

/-- The journal can show the given location, if there is one. -/
def Places (j : Journal) : Option Location → Prop
  | none => True
  | some location =>
    ∃ file, j.files[location.file]? = some file ∧ Report.isPlaceable file location.span = true

/-- Whether a location can be shown depends on the files only. -/
lemma Places.congr {j j' : Journal} (h : j'.files = j.files) {location : Option Location}
    (hp : j.Places location) : j'.Places location := by
  cases location with
  | none => trivial
  | some location => rw [Places, h]; exact hp

/-- What can be shown has a layout. -/
lemma Places.layout {j : Journal} {location : Option Location} (h : j.Places location)
    (severity : Severity) (message : String) :
    ∃ pieces, j.layout location severity message = .ok pieces := by
  cases location with
  | none => exact ⟨_, rfl⟩
  | some location =>
      obtain ⟨file, hfile, hplace⟩ := h
      rw [Journal.layout, hfile]
      exact ⟨_, if_pos hplace⟩

end Journal

/-- What a remark points at. -/
def Remark.location : Remark → Option Location
  | .log _ => none
  | .span location _ _ => some location
  | .node _ location _ _ => location
  | .general _ _ => none

namespace Remark

/-- The remark is an entry for the log. -/
def isLog : Remark → Bool
  | log _ => true
  | _ => false

/-- The remark is no report of an error. -/
def isMild : Remark → Bool
  | log _ => true
  | span _ severity _ => severity = .warning
  | node _ _ severity _ => severity = .warning
  | general severity _ => severity = .warning

end Remark

namespace Reporting

variable {α β : Type}

/-! ## Blocks -/

lemma get_bind (f : Journal → Reporting α) (j : Journal) : (get >>= f) j = f j j := rfl

lemma modify_bind (g : Journal → Journal) (f : PUnit → Reporting α) (j : Journal) :
    (modify g >>= f) j = f ⟨⟩ (g j) := rfl

lemma bind_of_ok {x : Reporting α} {f : α → Reporting β} {j j₁ : Journal} {a : α}
    (h : x j = .ok a j₁) : (x >>= f) j = f a j₁ := by
  show EStateM.bind x f j = _
  rw [EStateM.bind, h]

lemma bind_of_error {x : Reporting α} {f : α → Reporting β} {j j₁ : Journal} {fault : Fault}
    (h : x j = .error fault j₁) : (x >>= f) j = .error fault j₁ := by
  change EStateM.bind x f j = _
  rw [EStateM.bind, h]

/-- A block that ends well has steps that do. -/
lemma bind_eq_ok {x : Reporting α} {f : α → Reporting β} {j j' : Journal} {b : β}
    (h : (x >>= f) j = .ok b j') : ∃ a j₁, x j = .ok a j₁ ∧ f a j₁ = .ok b j' := by
  have hbind : EStateM.bind x f j = .ok b j' := h
  rw [EStateM.bind] at hbind
  cases hx : x j with
  | ok a j₁ => rw [hx] at hbind; exact ⟨a, j₁, rfl, hbind⟩
  | error e j₁ => rw [hx] at hbind; cases hbind

/-! ## Placing -/

/-- A report whose label can be placed is written, and the files stay. -/
lemma report_of_places {j : Journal} {location : Option Location} (h : j.Places location)
    (severity : Severity) (message : String) :
    ∃ j', report location severity message j = .ok () j' ∧ j'.files = j.files := by
  have hcount : (j.count severity).Places location := h.congr (by cases severity <;> rfl)
  obtain ⟨pieces, hpieces⟩ := hcount.layout severity message
  refine ⟨(j.count severity).addNotice
    (.text (Report.render (j.count severity).coloured pieces)), ?_, ?_⟩
  · rw [report, modify_bind, get_bind, hpieces]
    rfl
  · cases severity <;> rfl

/-- What is reported about a node is remembered, and not reported again. -/
lemma reportNode_eq (id : NodeId) (location : Option Location) (severity : Severity)
    (message : String) (j : Journal) :
    reportNode id location severity message j =
      if (id, message) ∈ j.reported then .ok () j
      else report location severity message
        { j with reported := (id, message) :: j.reported } := by
  rw [reportNode, get_bind]
  split <;> rfl

/-- A remark that can be placed is taken in. -/
lemma note_of_places {j : Journal} {r : Remark} (h : j.Places r.location) :
    ∃ j', note r j = .ok () j' ∧ j'.files = j.files := by
  cases r with
  | log entry => exact ⟨_, rfl, rfl⟩
  | span location severity message => exact report_of_places h severity message
  | general severity message => exact report_of_places h severity message
  | node id location severity message =>
      rw [note, reportNode_eq]
      split
      · exact ⟨j, rfl, rfl⟩
      · have hplaced : Journal.Places { j with reported := (id, message) :: j.reported } location :=
          h.congr rfl
        exact report_of_places hplaced severity message

/-- **Remarks that can be placed are taken in.** -/
lemma noteAll_of_places {rs : List Remark} {j : Journal}
    (h : ∀ r ∈ rs, j.Places r.location) :
    ∃ j', noteAll rs j = .ok () j' ∧ j'.files = j.files := by
  induction rs generalizing j with
  | nil => exact ⟨j, rfl, rfl⟩
  | cons r rs ih =>
      obtain ⟨j₁, hr, hfiles⟩ := note_of_places (h r List.mem_cons_self)
      obtain ⟨j', hrs, hfiles'⟩ :=
        ih (j := j₁) fun s hs => (h s (List.mem_cons_of_mem _ hs)).congr hfiles
      refine ⟨j', ?_, hfiles'.trans hfiles⟩
      show EStateM.bind (note r) (fun _ => noteAll rs) j = _
      rw [EStateM.bind, hr]
      exact hrs

/-! ## Faults -/

/-- The journal knows the file of the location, if there is one. -/
def Knows (j : Journal) (location : Option Location) : Prop :=
  ∀ l ∈ location, ∃ file, j.files[l.file]? = some file

/-- The files stay as they are, or there is no offset to place a label at. -/
def Goes (x : Reporting Unit) (j : Journal) : Prop :=
  (∃ j', x j = .ok () j' ∧ j'.files = j.files) ∨ ∃ j', x j = .error .offsetOverflow j'

/-- A report about a file that is known is written, or its offset is too large. -/
lemma report_goes {j : Journal} {location : Option Location} (h : Knows j location)
    (severity : Severity) (message : String) : Goes (report location severity message) j := by
  by_cases hplaces : j.Places location
  · exact .inl (report_of_places hplaces severity message)
  · cases location with
    | none => exact absurd trivial hplaces
    | some l =>
        obtain ⟨file, hfile⟩ := h l rfl
        have hfile' : (j.count severity).files[l.file]? = some file := by
          cases severity <;> exact hfile
        have hplace : Report.isPlaceable file l.span = false :=
          Bool.eq_false_iff.mpr fun hplace => hplaces ⟨file, hfile, hplace⟩
        have hlayout : (j.count severity).layout (some l) severity message =
            .error .offsetOverflow := by
          simp [Journal.layout, hfile', hplace]
        refine .inr ⟨j.count severity, ?_⟩
        rw [report, modify_bind, get_bind, hlayout]
        rfl

/-- The same for every remark. -/
lemma note_goes {j : Journal} {r : Remark} (h : Knows j r.location) : Goes (note r) j := by
  cases r with
  | log entry => exact .inl ⟨_, rfl, rfl⟩
  | span location severity message => exact report_goes h severity message
  | general severity message => exact report_goes h severity message
  | node id location severity message =>
      have hreport := report_goes (j := { j with reported := (id, message) :: j.reported }) h
        severity message
      unfold Goes at hreport ⊢
      rw [note, reportNode_eq]
      split
      · exact .inl ⟨j, rfl, rfl⟩
      · exact hreport

/-- **Remarks about known files never miss a file.** -/
lemma noteAll_goes {rs : List Remark} {j : Journal} (h : ∀ r ∈ rs, Knows j r.location) :
    Goes (noteAll rs) j := by
  induction rs generalizing j with
  | nil => exact .inl ⟨j, rfl, rfl⟩
  | cons r rs ih =>
      have hcons : noteAll (r :: rs) = (do note r; noteAll rs) := rfl
      unfold Goes
      rcases note_goes (h r List.mem_cons_self) with ⟨j₁, hr, hfiles⟩ | ⟨j₁, hr⟩
      · have hrest : ∀ s ∈ rs, Knows j₁ s.location := by
          intro s hs l hl
          rw [hfiles]
          exact h s (List.mem_cons_of_mem _ hs) l hl
        rw [hcons, bind_of_ok hr]
        rcases ih hrest with ⟨j', hrs, hfiles'⟩ | hfault
        · exact .inl ⟨j', hrs, hfiles'.trans hfiles⟩
        · exact .inr hfault
      · rw [hcons, bind_of_error hr]
        exact .inr ⟨j₁, rfl⟩

/-! ## Counting -/

/-- A report that is made is counted. -/
lemma warnings_of_report {location : Option Location} {severity : Severity} {message : String}
    {j j' : Journal} (h : report location severity message j = .ok () j') :
    j'.warnings = (j.count severity).warnings := by
  rw [report, modify_bind, get_bind] at h
  cases hlayout : (j.count severity).layout location severity message with
  | ok pieces =>
      rw [hlayout] at h
      obtain ⟨-, rfl⟩ := EStateM.Result.ok.inj h
      rfl
  | error fault => rw [hlayout] at h; cases h

lemma warnings_le_count (j : Journal) (severity : Severity) :
    j.warnings ≤ (j.count severity).warnings := by
  cases severity
  · exact Nat.le_refl _
  · exact Nat.le_succ _

/-- Taking in a remark never takes a warning back. -/
lemma warnings_le_note {r : Remark} {j j' : Journal} (h : note r j = .ok () j') :
    j.warnings ≤ j'.warnings := by
  cases r with
  | log entry =>
      obtain ⟨-, rfl⟩ := EStateM.Result.ok.inj h
      exact Nat.le_refl _
  | span location severity message =>
      rw [warnings_of_report h]
      exact warnings_le_count j severity
  | general severity message =>
      rw [note] at h
      rw [warnings_of_report h]
      exact warnings_le_count j severity
  | node id location severity message =>
      rw [note, reportNode_eq] at h
      split at h
      · obtain ⟨-, rfl⟩ := EStateM.Result.ok.inj h
        exact Nat.le_refl _
      · rw [warnings_of_report h]
        exact warnings_le_count { j with reported := (id, message) :: j.reported } severity

/-- No warning is ever taken back. -/
lemma warnings_le_noteAll {rs : List Remark} {j j' : Journal} (h : noteAll rs j = .ok () j') :
    j.warnings ≤ j'.warnings := by
  induction rs generalizing j with
  | nil =>
      obtain ⟨-, rfl⟩ := EStateM.Result.ok.inj h
      exact Nat.le_refl _
  | cons r rs ih =>
      obtain ⟨⟨⟩, j₁, hr, hrs⟩ := bind_eq_ok h
      exact Nat.le_trans (warnings_le_note hr) (ih hrs)

/-- In a journal that has reported nothing yet, every remark but a log entry is counted. -/
lemma warnings_of_note {r : Remark} {j j' : Journal} (hmild : r.isMild = true)
    (hlog : r.isLog = false) (hreported : j.reported = []) (h : note r j = .ok () j') :
    j'.warnings = j.warnings + 1 := by
  cases r with
  | log entry => cases hlog
  | span location severity message =>
      obtain rfl := of_decide_eq_true hmild
      exact warnings_of_report h
  | general severity message =>
      obtain rfl := of_decide_eq_true hmild
      rw [note] at h
      exact warnings_of_report h
  | node id location severity message =>
      obtain rfl := of_decide_eq_true hmild
      rw [note, reportNode_eq, hreported, if_neg (List.not_mem_nil)] at h
      exact warnings_of_report h

/-- **Without warnings there are only log entries.** -/
lemma isLog_of_noteAll {rs : List Remark} {j j' : Journal} (hmild : ∀ r ∈ rs, r.isMild = true)
    (hreported : j.reported = []) (h : noteAll rs j = .ok () j') (hquiet : j'.warnings = 0) :
    (∀ r ∈ rs, r.isLog = true) ∧ j'.reported = [] := by
  induction rs generalizing j with
  | nil =>
      obtain ⟨-, rfl⟩ := EStateM.Result.ok.inj h
      exact ⟨by simp, hreported⟩
  | cons r rs ih =>
      obtain ⟨⟨⟩, j₁, hr, hrs⟩ := bind_eq_ok h
      have hle := warnings_le_noteAll hrs
      cases r with
      | log entry =>
          obtain ⟨-, rfl⟩ := EStateM.Result.ok.inj hr
          obtain ⟨hrest, hend⟩ := ih (j := j.addNotice (.log entry))
            (fun s hs => hmild s (List.mem_cons_of_mem _ hs)) hreported hrs
          exact ⟨List.forall_mem_cons.mpr ⟨rfl, hrest⟩, hend⟩
      | _ =>
          have hcount := warnings_of_note (hmild _ List.mem_cons_self) rfl hreported hr
          omega

end Reporting

end Statechart
