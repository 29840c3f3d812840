import Mathlib.Data.List.Flatten
import Statechart.Proofs.Language.Occurrence
import Statechart.Proofs.Language.Placing

/-!
# What a chart is rejected for

A chart that follows the grammar is rejected for two things: a state that has the name of an earlier
state of its machine, and a delay that is too long.  A chart may have many of them, at any depth.
It is put together in the order in which it was written, so the first of them is the one it is
rejected for, and nothing that was said before was an error.

* `Repeats`, `Overruns` — the two offences, in a row of states and in the body of a state.
* `Offends` — what a chart can be rejected for, without any order; `Item.offences` has the same in
  the order of the text.
* `Foremost` — the offence that begins before all others.

**`mem_offences`** — the two ways to find the offences of a chart agree.
**`foremost_of_offences`** — the first offence of a chart begins before all others.
**`read_of_offences`** — what becomes of a chart that has these offences.
-/

namespace Statechart.Language

/-! ## Offences -/

/-- A state in the row has the name of an earlier one, or one of the given names. -/
def Repeats (names : List String) (heads : List StateHead) (r : Rejection) : Prop :=
  ∃ before h after, heads = before ++ h :: after ∧
    h.name ∈ names ++ before.map StateHead.name ∧ r = .duplicateState h.name h.span

/-- A delay in the body is not below the limit. -/
def Overruns (body : List Clause) (r : Rejection) : Prop :=
  ∃ t duration, t ∈ transitionsOf body ∧ t.trigger = .delay duration ∧
    Duration.limit ≤ duration.length ∧ r = .delayTooLong duration.text duration.span

/-- There is an offence in the body, and not only further inside. -/
def Faulty (body : List Clause) (r : Rejection) : Prop :=
  Repeats [] (innerHeads body) r ∨ Overruns body r

/-- What a chart can be rejected for: two states of one name in a machine, at the top level or
inside a state, and delays that are too long. -/
def Offends (items : List Item) (r : Rejection) : Prop :=
  (∃ m, .machine m ∈ items ∧ Repeats [] (stateHeads m.body) r) ∨
    ∃ body, StateBody items body ∧ Faulty body r

/-! ## Both ways agree -/

section agree

variable {names : List String} {r : Rejection}

lemma StateHead.mem_offences {h : StateHead} :
    r ∈ h.offences names ↔ h.name ∈ names ∧ r = .duplicateState h.name h.span := by
  rw [StateHead.offences]
  by_cases hname : h.name ∈ names <;> simp [hname]

/-- A transition is rejected for a delay that is too long. -/
lemma TransitionDecl.mem_offences {d : TransitionDecl} :
    r ∈ d.offences ↔ ∃ duration, d.trigger = .delay duration ∧
      Duration.limit ≤ duration.length ∧ r = .delayTooLong duration.text duration.span := by
  rw [TransitionDecl.offences]
  cases d.trigger with
  | delay duration =>
      by_cases hlt : duration.length < Duration.limit
      · simp [hlt, Nat.not_le.mpr hlt]
      · simp [hlt, Nat.not_lt.mp hlt]
  | immediate => simp
  | event name => simp

lemma overruns_iff {body : List Clause} :
    Overruns body r ↔ r ∈ (transitionsOf body).flatMap TransitionDecl.offences := by
  simp only [Overruns, List.mem_flatMap, TransitionDecl.mem_offences, exists_and_left]

/-- Delays that are too long are those of the first clause and those of the others. -/
lemma overruns_cons {c : Clause} {rest : List Clause} :
    Overruns (c :: rest) r ↔
      r ∈ c.transitions.flatMap TransitionDecl.offences ∨ Overruns rest r := by
  rw [overruns_iff, overruns_iff, transitionsOf, List.flatMap_cons, List.flatMap_append,
    List.mem_append]
  rfl

lemma not_repeats_nil : ¬ Repeats names [] r := by
  rintro ⟨before, h, after, heq, -⟩
  simp at heq

/-- In a row of states, the first is compared with the given names, and those after it with its
name too. -/
lemma repeats_cons {h : StateHead} {hs : List StateHead} :
    Repeats names (h :: hs) r ↔ r ∈ h.offences names ∨ Repeats (h.name :: names) hs r := by
  rw [StateHead.mem_offences]
  constructor
  · rintro ⟨_ | ⟨b, before⟩, k, after, heq, hname, hr⟩
    · obtain ⟨rfl, rfl⟩ := List.cons.inj heq
      rw [List.map_nil, List.append_nil] at hname
      exact .inl ⟨hname, hr⟩
    · obtain ⟨rfl, rfl⟩ := List.cons.inj heq
      refine .inr ⟨before, k, after, rfl, ?_, hr⟩
      simpa [or_left_comm] using hname
  · rintro (⟨hname, hr⟩ | ⟨before, k, after, rfl, hname, hr⟩)
    · exact ⟨[], h, hs, rfl, List.mem_append_left _ hname, hr⟩
    · refine ⟨h :: before, k, after, rfl, ?_, hr⟩
      simpa [or_left_comm] using hname

/-- What is wrong somewhere in a body is wrong in itself or in a state of it. -/
lemma exists_faulty {body : List Clause} :
    (∃ inner, InBody body inner ∧ Faulty inner r) ↔
      Faulty body r ∨ ∃ d, .state d ∈ body ∧ ∃ inner, InBody d.body inner ∧ Faulty inner r := by
  constructor
  · rintro ⟨inner, hinner, hr⟩
    cases hinner with
    | self => exact .inl hr
    | state hd hinner => exact .inr ⟨_, hd, inner, hinner, hr⟩
  · rintro (hr | ⟨d, hd, inner, hinner, hr⟩)
    · exact ⟨body, .self body, hr⟩
    · exact ⟨inner, .state hd hinner, hr⟩

/-- What is wrong inside the states of a body, and its first clause is none. -/
lemma exists_state_cons {P : StateDecl → Prop} {c : Clause} {rest : List Clause}
    (hc : c.state? = none) :
    (∃ d, .state d ∈ c :: rest ∧ P d) ↔ ∃ d, .state d ∈ rest ∧ P d := by
  refine exists_congr fun d => and_congr_left fun _ => ?_
  rw [List.mem_cons]
  refine or_iff_right ?_
  rintro rfl
  cases hc

/-- The body of a state after a clause that is no state. -/
lemma mem_bodyOffences_cons {c : Clause} {rest : List Clause} (hc : c.state? = none)
    (ih : r ∈ bodyOffences names rest ↔ (Repeats names (innerHeads rest) r ∨ Overruns rest r) ∨
      ∃ d, .state d ∈ rest ∧ ∃ inner, InBody d.body inner ∧ Faulty inner r) :
    r ∈ c.transitions.flatMap TransitionDecl.offences ++ bodyOffences names rest ↔
      (Repeats names (innerHeads (c :: rest)) r ∨ Overruns (c :: rest) r) ∨
        ∃ d, .state d ∈ c :: rest ∧ ∃ inner, InBody d.body inner ∧ Faulty inner r := by
  rw [List.mem_append, ih, innerHeads_cons_of_none hc, overruns_cons, exists_state_cons hc]
  simp only [or_assoc, or_left_comm]

mutual

lemma StateDecl.mem_offences : ∀ (d : StateDecl) (names : List String), r ∈ d.offences names ↔
    r ∈ d.head.offences names ∨ ∃ inner, InBody d.body inner ∧ Faulty inner r
  | .mk head body span, names => by
      rw [StateDecl.offences, List.mem_append, mem_bodyOffences body [], exists_faulty]
      rfl

/-- The offences of a body are its own and those of the states in it. -/
lemma mem_bodyOffences : ∀ (body : List Clause) (names : List String),
    r ∈ bodyOffences names body ↔ (Repeats names (innerHeads body) r ∨ Overruns body r) ∨
      ∃ d, .state d ∈ body ∧ ∃ inner, InBody d.body inner ∧ Faulty inner r
  | [], names => by
      rw [bodyOffences]
      simp [innerHeads, not_repeats_nil, overruns_iff, transitionsOf]
  | .binding d :: rest, names => by
      rw [bodyOffences]
      exact mem_bodyOffences_cons (c := .binding d) rfl (mem_bodyOffences rest names)
  | .invoke d :: rest, names => by
      rw [bodyOffences]
      exact mem_bodyOffences_cons (c := .invoke d) rfl (mem_bodyOffences rest names)
  | .transition d :: rest, names => by
      have h := mem_bodyOffences_cons (c := .transition d) rfl (mem_bodyOffences rest names)
      rw [Clause.transitions, List.flatMap_singleton] at h
      rw [bodyOffences]
      exact h
  | .state d :: rest, names => by
      have hoverruns : Overruns (.state d :: rest) r ↔ Overruns rest r := by
        rw [overruns_cons]
        exact or_iff_right List.not_mem_nil
      have hstates : (∃ e, .state e ∈ Clause.state d :: rest ∧
          ∃ inner, InBody e.body inner ∧ Faulty inner r) ↔
          (∃ inner, InBody d.body inner ∧ Faulty inner r) ∨
            ∃ e, .state e ∈ rest ∧ ∃ inner, InBody e.body inner ∧ Faulty inner r := by
        simp only [List.mem_cons, Clause.state.injEq, or_and_right, exists_or, exists_eq_left]
      rw [bodyOffences, List.mem_append, d.mem_offences names, mem_bodyOffences rest,
        innerHeads_cons_state, repeats_cons, hoverruns, hstates]
      simp only [or_assoc, or_left_comm]

end

/-- The offences of a machine are its own and those of the states in it. -/
lemma mem_machineOffences (body : List MachineClause) : ∀ names : List String,
    r ∈ machineOffences names body ↔ Repeats names (stateHeads body) r ∨
      ∃ d, .state d ∈ body ∧ ∃ inner, InBody d.body inner ∧ Faulty inner r := by
  induction body with
  | nil =>
      intro names
      simp [machineOffences, stateHeads, not_repeats_nil]
  | cons c rest ih =>
      intro names
      cases c with
      | binding d =>
          have hheads : stateHeads (.binding d :: rest) = stateHeads rest := rfl
          rw [machineOffences, ih, hheads]
          simp
      | state d =>
          have hheads : stateHeads (.state d :: rest) = d.head :: stateHeads rest := rfl
          rw [machineOffences, List.mem_append, d.mem_offences names, ih, hheads, repeats_cons]
          simp only [List.mem_cons, MachineClause.state.injEq, or_and_right, exists_or,
            exists_eq_left, or_assoc, or_left_comm]

/-- **The offences of a chart**, in the order of the text and without any order. -/
lemma mem_offences {items : List Item} : r ∈ items.flatMap Item.offences ↔ Offends items r := by
  rw [List.mem_flatMap, Offends]
  constructor
  · rintro ⟨item, hitem, hr⟩
    cases item with
    | machine m =>
        rcases (mem_machineOffences m.body []).mp hr with hr | ⟨d, hd, body, hbody, hr⟩
        · exact .inl ⟨m, hitem, hr⟩
        · exact .inr ⟨body, ⟨m, d, hitem, hd, hbody⟩, hr⟩
    | importDecl d => cases hr
    | binding d => cases hr
  · rintro (⟨m, hm, hr⟩ | ⟨body, ⟨m, d, hm, hd, hbody⟩, hr⟩)
    · exact ⟨.machine m, hm, (mem_machineOffences m.body []).mpr (.inl hr)⟩
    · exact ⟨.machine m, hm, (mem_machineOffences m.body []).mpr (.inr ⟨d, hd, body, hbody, hr⟩)⟩

end agree

/-! ## Places of offences -/

section places

variable {names : List String}

mutual

/-- The offences of a state are at heads and durations of it, in their order. -/
lemma StateDecl.sublist_offences : ∀ (d : StateDecl) (names : List String),
    ((d.offences names).map Rejection.span).Sublist d.marks
  | .mk head body span, names => by
      rw [StateDecl.offences, StateDecl.marks, List.map_append]
      exact head.sublist_offences.append (sublist_bodyOffences body [])

/-- The offences of a body lie at marks of it, in the order of these. -/
lemma sublist_bodyOffences : ∀ (body : List Clause) (names : List String),
    ((bodyOffences names body).map Rejection.span).Sublist (bodyMarks body)
  | [], names => by
      rw [bodyOffences]
      exact List.nil_sublist _
  | .binding d :: rest, names => by
      rw [bodyOffences, bodyMarks, Clause.marks]
      exact sublist_bodyOffences rest names
  | .invoke d :: rest, names => by
      rw [bodyOffences, bodyMarks, Clause.marks, List.map_append, List.map_flatMap]
      exact (List.Sublist.flatMap_right _ fun t _ => t.sublist_offences).append
        (sublist_bodyOffences rest names)
  | .transition d :: rest, names => by
      rw [bodyOffences, bodyMarks, Clause.marks, List.map_append]
      exact d.sublist_offences.append (sublist_bodyOffences rest names)
  | .state d :: rest, names => by
      rw [bodyOffences, bodyMarks, Clause.marks, List.map_append]
      exact (d.sublist_offences names).append (sublist_bodyOffences rest _)

end

/-- The same for the clauses of a machine. -/
lemma sublist_machineOffences (body : List MachineClause) : ∀ names : List String,
    ((machineOffences names body).map Rejection.span).Sublist
      (body.flatMap MachineClause.marks) := by
  induction body with
  | nil => exact fun _ => List.nil_sublist _
  | cons c rest ih =>
      intro names
      rw [List.flatMap_cons]
      cases c with
      | binding d => exact ih names
      | state d =>
          rw [machineOffences, List.map_append]
          exact (d.sublist_offences names).append (ih _)

/-- The same for a declaration. -/
lemma Item.sublist_offences (item : Item) :
    (item.offences.map Rejection.span).Sublist item.marks := by
  cases item with
  | machine d => exact sublist_machineOffences d.body []
  | importDecl d => exact .refl _
  | binding d => exact .refl _

/-- The chart can be rejected for this, and everything else that it can be rejected for begins
later. -/
def Foremost (items : List Item) (r : Rejection) : Prop :=
  Offends items r ∧ ∀ r', Offends items r' → r' = r ∨ r.span.start < r'.span.start

/-- **The first offence in the order of the declarations is the first in the text.** -/
lemma foremost_of_offences {text : String} {items : List Item} {r : Rejection}
    {rest : List Rejection} (h : parse text = .ok items)
    (hoffences : items.flatMap Item.offences = r :: rest) : Foremost items r := by
  obtain ⟨hi, hspaced⟩ := spaced_of_parse h
  have hsublist : ((items.flatMap Item.offences).map Rejection.span).Sublist
      (items.flatMap Item.marks) := by
    rw [List.map_flatMap]
    exact List.Sublist.flatMap_right _ fun item _ => item.sublist_offences
  have hincreasing := List.pairwise_map.mp (hspaced.pairwise.sublist hsublist)
  rw [hoffences] at hincreasing
  refine ⟨mem_offences.mp (by rw [hoffences]; exact List.mem_cons_self), fun r' hr' => ?_⟩
  have hmem := mem_offences.mpr hr'
  rw [hoffences] at hmem
  exact (List.mem_cons.mp hmem).imp_right (List.rel_of_pairwise_cons hincreasing)

end places

/-! ## Charts -/

/-- **What becomes of a chart with the given offences.**  It is rejected for the first of them, or
accepted if there are none. -/
lemma read_of_offences {text : String} {items : List Item} (h : parse text = .ok items)
    (file : Nat) :
    (∀ r ∈ (read file text).2, r.isMild = true) ∧
      ((∃ program, (read file text).1 = .ok program) ∧ items.flatMap Item.offences = [] ∨
        ∃ r rest, (read file text).1 = .error r ∧ items.flatMap Item.offences = r :: rest) := by
  rw [read_of_acts h]
  refine ⟨fun r hr => (saidIn_assembled (Array.mem_toList_iff.mp hr)).mild, ?_⟩
  cases hoffences : items.flatMap Item.offences with
  | nil => exact .inl ⟨⟨_, rfl⟩, rfl⟩
  | cons r rest => exact .inr ⟨r, rest, rfl, rfl⟩

/-- A text that follows no grammar is rejected without remarks. -/
lemma read_of_error {text : String} {attempts : Attempts} (h : parse text = .error attempts)
    (file : Nat) : read file text = (.error (.unreadable attempts), []) := by
  unfold read
  rw [h]

end Statechart.Language
