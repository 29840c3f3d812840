import Statechart.Proofs.Language.Account
import Statechart.Proofs.Language.Bounds
import Statechart.Proofs.Language.Places
import Statechart.Proofs.Report.Hearing
import Statechart.Proofs.Report.Noting

/-!
# What declarations do to a chart

A declaration that is added to a chart does a few simple things to it, one after the other: nodes
are added, names are noted, and it may be rejected.  These acts follow from the declaration and
from the number that the next node gets.

* `Act` — a single change of the chart so far, or a rejection of it.
* `carry`, `enact` — a chart after some acts.  They are carried out up to the first rejection.
* `Item.acts`, `itemActs` — the acts of a declaration and of a chart.
* `Outline` — what is seen of acts before they are carried out: the places of the nodes that they
  add, their rejections, and all spans that they mention.

**`outline_itemActs`** — the acts of a chart have its places, its offences and its spans.
**`mem_carry`**, **`locatedBy_carry`** — what acts have said, and where their nodes are, when they
were carried out.
-/

namespace Statechart.Language

/-! ## Acts -/

/-- What is done to a chart that is being put together. -/
inductive Act where
  /-- An entry is written into the log. -/
  | log (message : String)
  /-- The chart is known to update the context. -/
  | update
  /-- The name of a binding is noted, with a warning if it is not new. -/
  | bind (decl : BindingDecl)
  /-- A state becomes the initial one of its machine, with a warning if there is one. -/
  | mark (machine : NodeId) (head : StateHead)
  /-- A node is added, and linked in below its parent if it has one. -/
  | node (parent : Option NodeId) (payload : Node) (span : Span)
  /-- A node is linked in at the top level. -/
  | root (id : NodeId)
  /-- The chart is rejected. -/
  | reject (rejection : Rejection)

namespace Act

/-- The chart after an act.  A rejection changes nothing. -/
def apply (file : Nat) (a : Assembly) : Act → Assembly
  | log message => a.tell (a.account.log message)
  | update => { a with usesAssign := true }
  | bind d => a.tell (a.account.binding file d)
  | mark machine head =>
    match a.forest.machine? machine with
    | none => a
    | some m =>
      { a.tell (a.account.head file m.initial head) with
        forest := if m.initial.isSome then a.forest
          else a.forest.setNode machine (.machine { m with initial := some head.name }) }
  | node parent payload span =>
    { a with forest := (a.forest.withLoose payload ⟨span, file⟩).append parent a.forest.nodes.size }
  | root id => { a with forest := a.forest.pushRoot id }
  | reject _ => a

/-- The place of the node that is added, if one is. -/
def place? : Act → Option Span
  | node _ _ span => some span
  | _ => none

/-- Why the chart is rejected, if it is. -/
def rejection? : Act → Option Rejection
  | reject e => some e
  | _ => none

/-- The spans that may be mentioned. -/
def spans : Act → List Span
  | bind d => [d.head]
  | mark _ head => [head.span]
  | node _ _ span => [span]
  | reject e => [e.span]
  | _ => []

end Act

/-- The places of the nodes that are added. -/
def placed (acts : List Act) : List Span := acts.filterMap Act.place?

/-- The rejections among some acts. -/
def rejections (acts : List Act) : List Rejection := acts.filterMap Act.rejection?

/-- The acts before the first rejection. -/
def accepted (acts : List Act) : List Act := acts.takeWhile (·.rejection?.isNone)

/-- The chart after some acts. -/
def carry (file : Nat) (acts : List Act) (a : Assembly) : Assembly := acts.foldl (Act.apply file) a

/-- Carry out acts up to the first rejection, and return a result if there is none. -/
def enact {α : Type} (file : Nat) (acts : List Act) (r : α) : Assembling α := fun a =>
  (rejections acts).head?.elim (.ok r (carry file (accepted acts) a))
    (.error · (carry file (accepted acts) a))

section acts

variable {α β : Type} {file : Nat} {act : Act} {acts acts' : List Act} {a : Assembly}

@[simp] lemma carry_nil : carry file [] a = a := rfl

@[simp] lemma carry_cons : carry file (act :: acts) a = carry file acts (act.apply file a) := rfl

lemma carry_append : carry file (acts ++ acts') a = carry file acts' (carry file acts a) :=
  List.foldl_append

/-- Acts without a rejection are all carried out. -/
lemma accepted_eq_self (h : rejections acts = []) : accepted acts = acts := by
  rw [accepted, List.takeWhile_eq_self_iff]
  intro act hact
  rw [List.filterMap_eq_nil_iff.mp h act hact]
  rfl

/-- An act that is no rejection is carried out, and the others follow. -/
lemma enact_cons (h : act.rejection? = none) (r : α) :
    enact file (act :: acts) r a = enact file acts r (act.apply file a) := by
  simp [enact, rejections, accepted, h]

/-- A rejection ends it. -/
lemma enact_reject (e : Rejection) (r : α) :
    enact file (.reject e :: acts) r a = .error e a := by
  simp [enact, rejections, accepted, Act.rejection?]

/-- Acts are carried out one part after the other. -/
lemma enact_append (r : α) (s : β) : ∀ a, enact file (acts ++ acts') s a =
    (enact file acts r >>= fun _ => enact file acts' s) a := by
  induction acts with
  | nil => exact fun a => rfl
  | cons act acts ih =>
      intro a
      have hbind : (enact file (act :: acts) r >>= fun _ => enact file acts' s) a =
        EStateM.bind (enact file (act :: acts) r) (fun _ => enact file acts' s) a := rfl
      rw [List.cons_append, hbind, EStateM.bind]
      cases hact : act.rejection? with
      | none =>
          rw [enact_cons hact, enact_cons hact, ih]
          rfl
      | some e =>
          cases act with
          | reject e => rw [enact_reject, enact_reject]
          | _ => cases hact

/-- An act without a place for a node keeps the nodes and where they are. -/
lemma Act.locatedAs (file : Nat) {act : Act} (h : act.place? = none) (a : Assembly) :
    a.forest.LocatedAs (act.apply file a).forest := by
  cases act with
  | node parent payload span => cases h
  | mark machine head =>
      rw [apply]
      cases a.forest.machine? machine with
      | none => exact ⟨rfl, rfl⟩
      | some m =>
          dsimp only
          split
          · exact ⟨rfl, rfl⟩
          · exact a.forest.locatedAs_setNode _ _
  | root id => exact a.forest.locatedAs_pushRoot id
  | _ => exact ⟨rfl, rfl⟩

/-- An act adds a node if it has a place for one. -/
lemma Act.size_apply (file : Nat) (act : Act) (a : Assembly) :
    (act.apply file a).forest.nodes.size =
      a.forest.nodes.size + act.place?.toList.length := by
  cases act with
  | node parent payload span =>
      exact ((a.forest.withLoose payload ⟨span, file⟩).locatedAs_append _ _).2.trans
        Forest.size_withLoose
  | _ => exact (Act.locatedAs file rfl a).2

/-- There are as many new nodes as there are places for them. -/
lemma size_carry : ∀ a : Assembly,
    (carry file acts a).forest.nodes.size = a.forest.nodes.size + (placed acts).length := by
  induction acts with
  | nil => exact fun a => rfl
  | cons act acts ih =>
      intro a
      rw [carry_cons, ih, act.size_apply file, placed, placed, List.filterMap_cons, Nat.add_assoc]
      cases act.place? <;> simp [Nat.add_comm]

end acts

/-! ## The acts of declarations -/

/-- The acts of a value that a name is bound to. -/
def BindingValue.acts : BindingValue → List Act
  | .assign _ => [.update]
  | .named _ => []

/-- The acts of a binding. -/
def BindingDecl.acts (parent : Option NodeId) (d : BindingDecl) : List Act :=
  d.value.acts ++ [.bind d, .node parent (.binding d.binding) d.span]

/-- The acts of an import, which gets the number `n`. -/
def ImportDecl.acts (n : NodeId) (d : ImportDecl) : List Act :=
  .node none (.importModule d.path) d.span ::
    d.specifiers.map fun s => .node (some n) (.specifier s.value none) s.span

/-- The acts of a step. -/
def StepDecl.acts : StepDecl → List Act
  | .assign _ => [.update]
  | _ => []

/-- The acts of a transition.  Its delay is looked at before anything else. -/
def TransitionDecl.acts (parent : NodeId) (d : TransitionDecl) : List Act :=
  d.offences.map .reject ++
    (d.steps.flatMap StepDecl.acts ++ [.node (some parent) (.transition d.transition) d.span])

/-- The acts of an invocation, which gets the number `n`. -/
def InvokeDecl.acts (parent n : NodeId) (d : InvokeDecl) : List Act :=
  .node (some parent) (.invoke d.service) d.span :: d.transitions.flatMap (TransitionDecl.acts n)

/-- The acts of the head of a state among states of the given names. -/
def StateHead.acts (machine : NodeId) (names : List String) (span : Span) (h : StateHead) :
    List Act :=
  (h.offences names).map .reject ++
    ((if h.isInitial then [.mark machine h] else []) ++
      [.node (some machine) (.state h.state) span])

/-- A machine for inner states is added unless there is one. -/
def gatheringActs (parent : NodeId) (span : Span) : Option NodeId → List Act
  | some _ => []
  | none => [.node (some parent) (.machine {}) span]

mutual

/-- The acts of a state among states of the given names, which gets the number `n`. -/
def StateDecl.acts (machine : NodeId) (names : List String) (n : NodeId) : StateDecl → List Act
  | .mk head body span => head.acts machine names span ++ clauseActs n none [] (n + 1) body

/-- The acts of what stands in a state, if the next node gets the number `n`.  The machine for its
inner states, once there is one, is `nested`, and `names` are the names of those. -/
def clauseActs (parent : NodeId) (nested : Option NodeId) (names : List String) (n : NodeId) :
    List Clause → List Act
  | [] => []
  | .binding d :: rest => d.acts (some parent) ++ clauseActs parent nested names (n + 1) rest
  | .invoke d :: rest =>
    d.acts parent n ++ clauseActs parent nested names (n + d.places.length) rest
  | .transition d :: rest => d.acts parent ++ clauseActs parent nested names (n + 1) rest
  | .state d :: rest =>
    let first := n + (gatheringActs parent d.span nested).length
    gatheringActs parent d.span nested ++ (d.acts (nested.getD n) names first ++
      clauseActs parent (some (nested.getD n)) (d.head.name :: names) (first + d.places.length)
        rest)

end

/-- The acts of what stands in a machine with states of the given names. -/
def machineActs (machine : NodeId) (names : List String) (n : NodeId) :
    List MachineClause → List Act
  | [] => []
  | .binding d :: rest => d.acts (some machine) ++ machineActs machine names (n + 1) rest
  | .state d :: rest =>
    d.acts machine names n ++ machineActs machine (d.head.name :: names) (n + d.places.length) rest

/-- The acts of a machine, which gets the number `n`. -/
def MachineDecl.acts (n : NodeId) (d : MachineDecl) : List Act :=
  .log ("parsing machine " ++ d.name.getD "(default)") ::
    .node none (.machine { name := d.name }) d.span :: machineActs n [] (n + 1) d.body

/-- The acts of a declaration of the top level, which gets the number `n`. -/
def Item.acts (n : NodeId) : Item → List Act
  | .importDecl d => d.acts n ++ [.root n]
  | .binding d => d.acts none ++ [.root n]
  | .machine d => d.acts n ++ [.root n]

/-- The acts of declarations of the top level, if the next node gets the number `n`. -/
def itemActs (n : NodeId) : List Item → List Act
  | [] => []
  | item :: rest => item.acts n ++ itemActs (n + item.places.length) rest

/-! ## What is seen of acts -/

/-- The acts add nodes at the given places, have the given rejections, and mention none but the
given spans. -/
structure Outline (acts : List Act) (places : List Span) (offences : List Rejection)
    (spans : List Span) : Prop where
  places : placed acts = places
  offences : rejections acts = offences
  spans : acts.flatMap Act.spans ⊆ spans

section outline

variable {acts acts' : List Act} {places places' : List Span} {offences offences' : List Rejection}
variable {spans spans' : List Span}

lemma outline_nil : Outline [] [] [] [] := ⟨rfl, rfl, List.Subset.refl _⟩

/-- Acts one after the other. -/
lemma Outline.append (h : Outline acts places offences spans)
    (h' : Outline acts' places' offences' spans') :
    Outline (acts ++ acts') (places ++ places') (offences ++ offences') (spans ++ spans') where
  places := by rw [placed, List.filterMap_append, ← h.places, ← h'.places]; rfl
  offences := by rw [rejections, List.filterMap_append, ← h.offences, ← h'.offences]; rfl
  spans := by
    rw [List.flatMap_append]
    exact List.append_subset.mpr ⟨List.Subset.trans h.spans (List.subset_append_left _ _),
      List.Subset.trans h'.spans (List.subset_append_right _ _)⟩

/-- More spans may be named than are mentioned. -/
lemma Outline.mono (h : Outline acts places offences spans) (hsub : spans ⊆ spans') :
    Outline acts places offences spans' :=
  ⟨h.places, h.offences, List.Subset.trans h.spans hsub⟩

/-- Nodes are placed at spans that are mentioned. -/
lemma Outline.places_subset (h : Outline acts places offences spans) : places ⊆ spans := by
  intro span hspan
  rw [← h.places] at hspan
  obtain ⟨act, hact, hplace⟩ := List.mem_filterMap.mp hspan
  refine h.spans (List.mem_flatMap.mpr ⟨act, hact, ?_⟩)
  cases act with
  | node parent payload place =>
      obtain rfl := Option.some.inj hplace
      exact List.mem_singleton_self _
  | _ => cases hplace

/-- So are the offences. -/
lemma Outline.offences_subset (h : Outline acts places offences spans) {e : Rejection}
    (he : e ∈ offences) : e.span ∈ spans := by
  rw [← h.offences] at he
  obtain ⟨act, hact, hreject⟩ := List.mem_filterMap.mp he
  refine h.spans (List.mem_flatMap.mpr ⟨act, hact, ?_⟩)
  cases act with
  | reject e' =>
      obtain rfl := Option.some.inj hreject
      exact List.mem_singleton_self _
  | _ => cases hreject

lemma outline_node (parent : Option NodeId) (payload : Node) (span : Span) :
    Outline [.node parent payload span] [span] [] [span] :=
  ⟨rfl, rfl, List.Subset.refl _⟩

/-- Rejections have no places, and mention their own spans. -/
lemma outline_rejects (es : List Rejection) :
    Outline (es.map .reject) [] es (es.map Rejection.span) := by
  induction es with
  | nil => exact outline_nil
  | cons e es ih =>
      have hreject : Outline [.reject e] [] [e] [e.span] := ⟨rfl, rfl, List.Subset.refl _⟩
      exact hreject.append ih

/-- The outline of a row of declarations. -/
lemma outline_flatMap {α : Type} {acts : α → List Act} {places spans : α → List Span}
    {offences : α → List Rejection}
    (h : ∀ x, Outline (acts x) (places x) (offences x) (spans x)) (xs : List α) :
    Outline (xs.flatMap acts) (xs.flatMap places) (xs.flatMap offences) (xs.flatMap spans) := by
  induction xs with
  | nil => exact outline_nil
  | cons x xs ih => exact (h x).append ih

/-- Updates are not seen. -/
lemma outline_updates (steps : List StepDecl) : Outline (steps.flatMap StepDecl.acts) [] [] [] := by
  induction steps with
  | nil => exact outline_nil
  | cons step steps ih =>
      have hstep : Outline step.acts [] [] [] := by
        cases step <;> exact ⟨rfl, rfl, List.Subset.refl _⟩
      exact hstep.append ih

/-- A binding has one place and no offences. -/
lemma BindingDecl.outline (parent : Option NodeId) (d : BindingDecl) :
    Outline (d.acts parent) [d.span] [] d.spans := by
  have hvalue : Outline d.value.acts [] [] [] := by
    cases d.value <;> exact ⟨rfl, rfl, List.Subset.refl _⟩
  have hname : Outline [.bind d] [] [] [d.head] := ⟨rfl, rfl, List.Subset.refl _⟩
  exact hvalue.append (hname.append (outline_node parent _ d.span))

/-- An import has a place for itself and one for each specifier. -/
lemma ImportDecl.outline (n : NodeId) (d : ImportDecl) :
    Outline (d.acts n) d.places [] d.spans := by
  have hrow := outline_flatMap (fun s : Located String =>
    outline_node (some n) (.specifier s.value none) s.span) d.specifiers
  have hnone : d.specifiers.flatMap (fun _ => ([] : List Rejection)) = [] := by simp
  rw [← List.map_eq_flatMap, ← List.map_eq_flatMap, hnone] at hrow
  exact (outline_node none (.importModule d.path) d.span).append hrow

/-- The offence of a state is at its head. -/
lemma StateHead.sublist_offences {names : List String} (h : StateHead) :
    ((h.offences names).map Rejection.span).Sublist [h.span] := by
  rw [StateHead.offences]
  split
  · exact .refl _
  · exact List.nil_sublist _

/-- The offence of a transition is at its duration. -/
lemma TransitionDecl.sublist_offences (d : TransitionDecl) :
    (d.offences.map Rejection.span).Sublist d.trigger.spans := by
  rw [TransitionDecl.offences]
  cases d.trigger with
  | delay duration =>
      dsimp only
      split
      · exact List.nil_sublist _
      · exact .refl _
  | immediate => exact .refl _
  | event name => exact .refl _

/-- A transition has one place, and its offence is a delay that is too long. -/
lemma TransitionDecl.outline (parent : NodeId) (d : TransitionDecl) :
    Outline (d.acts parent) [d.span] d.offences d.spans := by
  have hrest := (outline_updates d.steps).append
    (outline_node (some parent) (.transition d.transition) d.span)
  have hall := ((outline_rejects d.offences).mono d.sublist_offences.subset).append hrest
  have hsub : d.trigger.spans ++ ([] ++ [d.span]) ⊆ d.spans :=
    List.append_subset.mpr ⟨List.subset_cons_self _ _, by simp [TransitionDecl.spans]⟩
  rw [List.append_nil, List.append_nil] at hall
  exact hall.mono hsub

lemma InvokeDecl.outline (parent n : NodeId) (d : InvokeDecl) :
    Outline (d.acts parent n) d.places (d.transitions.flatMap TransitionDecl.offences) d.spans := by
  have hrow := outline_flatMap (TransitionDecl.outline n) d.transitions
  rw [← List.map_eq_flatMap] at hrow
  exact (outline_node (some parent) (.invoke d.service) d.span).append hrow

/-- The head of a state has the place of the state, and its offence is a name that is taken. -/
lemma StateHead.outline (machine : NodeId) (names : List String) (span : Span) (h : StateHead) :
    Outline (h.acts machine names span) [span] (h.offences names) [span, h.span] := by
  have hmark : Outline (if h.isInitial then [.mark machine h] else []) [] [] [h.span] := by
    split
    · exact ⟨rfl, rfl, List.Subset.refl _⟩
    · exact outline_nil.mono (List.nil_subset _)
  have hall := ((outline_rejects (h.offences names)).mono h.sublist_offences.subset).append
    (hmark.append (outline_node (some machine) (.state h.state) span))
  have hsub : [h.span] ++ ([h.span] ++ [span]) ⊆ [span, h.span] := by simp
  rw [List.append_nil, List.append_nil] at hall
  exact hall.mono hsub

/-- The spans of the nodes of clauses, where there may be a machine for inner states already. -/
def placesFrom (nested : Option NodeId) (body : List Clause) : List Span :=
  nested.elim (clausePlaces body) fun _ => rowPlaces body

lemma placesFrom_nil (nested : Option NodeId) : placesFrom nested [] = [] := by
  cases nested with
  | none => exact clausePlaces.eq_1
  | some machine => exact rowPlaces.eq_1

/-- A clause that is no state has its places in front of those behind it. -/
lemma placesFrom_cons (nested : Option NodeId) {c : Clause} (hc : c.state? = none)
    (rest : List Clause) :
    placesFrom nested (c :: rest) = c.places ++ placesFrom nested rest := by
  cases nested with
  | none => simp [placesFrom, clausePlaces, hc]
  | some machine => simp [placesFrom, rowPlaces]

/-- The first inner state adds a machine in front of itself. -/
lemma placesFrom_state (nested : Option NodeId) (d : StateDecl) (rest : List Clause) :
    placesFrom nested (.state d :: rest) =
      nested.elim [d.span] (fun _ => []) ++ (d.places ++ rowPlaces rest) := by
  cases nested with
  | none => simp [placesFrom, clausePlaces, Clause.state?, Clause.span, Clause.places]
  | some machine => simp [placesFrom, rowPlaces, Clause.places]

/-- The machine for inner states has the place of the first of them. -/
lemma outline_gathering (parent : NodeId) (span : Span) (nested : Option NodeId) :
    Outline (gatheringActs parent span nested) (nested.elim [span] fun _ => []) [] [span] := by
  cases nested with
  | none => exact outline_node (some parent) _ span
  | some machine => exact outline_nil.mono (List.nil_subset _)

mutual

/-- The acts of a state have its places, its offences and its spans. -/
lemma StateDecl.outline : ∀ (d : StateDecl) (machine : NodeId) (names : List String) (n : NodeId),
    Outline (d.acts machine names n) d.places (d.offences names) d.spans
  | .mk head body span, machine, names, n => by
      rw [StateDecl.acts, StateDecl.places, StateDecl.offences, StateDecl.spans]
      exact (head.outline machine names span).append (outline_clauses body n none [] (n + 1))

/-- The same for what stands in a state. -/
lemma outline_clauses : ∀ (body : List Clause) (parent : NodeId) (nested : Option NodeId)
    (names : List String) (n : NodeId), Outline (clauseActs parent nested names n body)
      (placesFrom nested body) (bodyOffences names body) (bodySpans body)
  | [], parent, nested, names, n => by
      rw [clauseActs, bodyOffences, bodySpans, placesFrom_nil]
      exact outline_nil
  | .binding d :: rest, parent, nested, names, n => by
      rw [clauseActs, bodyOffences, bodySpans, placesFrom_cons _ rfl, Clause.places, Clause.spans]
      exact (d.outline (some parent)).append (outline_clauses rest parent nested names _)
  | .invoke d :: rest, parent, nested, names, n => by
      rw [clauseActs, bodyOffences, bodySpans, placesFrom_cons _ rfl, Clause.places, Clause.spans]
      exact (d.outline parent n).append (outline_clauses rest parent nested names _)
  | .transition d :: rest, parent, nested, names, n => by
      rw [clauseActs, bodyOffences, bodySpans, placesFrom_cons _ rfl, Clause.places, Clause.spans]
      exact (d.outline parent).append (outline_clauses rest parent nested names _)
  | .state d :: rest, parent, nested, names, n => by
      have hspan : [d.span] ⊆ d.spans ++ bodySpans rest := by
        cases d
        rw [StateDecl.spans]
        exact List.cons_subset.mpr ⟨List.mem_cons_self, List.nil_subset _⟩
      have hbody := (d.outline (nested.getD n) names
        (n + (gatheringActs parent d.span nested).length)).append
        (outline_clauses rest parent (some (nested.getD n)) (d.head.name :: names)
          (n + (gatheringActs parent d.span nested).length + d.places.length))
      rw [clauseActs, bodyOffences, bodySpans, placesFrom_state, Clause.spans]
      exact ((outline_gathering parent d.span nested).append hbody).mono
        (List.append_subset.mpr ⟨hspan, List.Subset.refl _⟩)

end

/-- The clauses of a machine, by induction on them: each goes on with the names and the number that
the one before has left. -/
lemma outline_machine (body : List MachineClause) : ∀ (machine : NodeId) (names : List String)
    (n : NodeId), Outline (machineActs machine names n body) (body.flatMap MachineClause.places)
      (machineOffences names body) (body.flatMap MachineClause.spans) := by
  induction body with
  | nil => exact fun _ _ _ => outline_nil
  | cons c rest ih =>
      intro machine names n
      cases c with
      | binding d => exact (d.outline (some machine)).append (ih _ _ _)
      | state d => exact (d.outline machine names n).append (ih _ _ _)

lemma MachineDecl.outline (n : NodeId) (d : MachineDecl) :
    Outline (d.acts n) d.places (machineOffences [] d.body) d.spans := by
  have hlog : Outline [.log ("parsing machine " ++ d.name.getD "(default)")] [] [] [] :=
    ⟨rfl, rfl, List.Subset.refl _⟩
  exact hlog.append ((outline_node none _ d.span).append (outline_machine d.body n [] (n + 1)))

/-- The acts of a declaration have its places, its offences and its spans. -/
lemma Item.outline (item : Item) (n : NodeId) :
    Outline (item.acts n) item.places item.offences item.spans := by
  have hroot : Outline [.root n] [] [] [] := ⟨rfl, rfl, List.Subset.refl _⟩
  -- to link the node in is not seen
  have hlast : ∀ {acts places offences spans}, Outline acts places offences spans →
      Outline (acts ++ [.root n]) places offences spans := by
    intro acts places offences spans h
    have hall := h.append hroot
    rwa [List.append_nil, List.append_nil, List.append_nil] at hall
  cases item with
  | importDecl d => exact hlast (d.outline n)
  | binding d => exact hlast (d.outline none)
  | machine d => exact hlast (d.outline n)

/-- **The acts of a chart** have its places, its offences and its spans. -/
lemma outline_itemActs (items : List Item) : ∀ n : NodeId, Outline (itemActs n items)
    (items.flatMap Item.places) (items.flatMap Item.offences) (items.flatMap Item.spans) := by
  induction items with
  | nil => exact fun _ => outline_nil
  | cons item rest ih => exact fun n => (item.outline n).append (ih _)

end outline

/-! ## What acts leave -/

/-- The remark is no error and about no node, and it is located at one of the spans if it is located
at all. -/
structure SaidIn (file : Nat) (spans : List Span) (r : Remark) : Prop where
  mild : r.isMild = true
  topic : r.topic? = none
  located : ∀ l ∈ r.location, l.file = file ∧ l.span ∈ spans

/-- The nodes so far are located in the file, with the given spans. -/
structure Assembly.LocatedBy (file : Nat) (spans : List Span) (a : Assembly) : Prop where
  size : a.forest.nodes.size = spans.length
  location : ∀ id, a.forest.location id = (spans[id]?).map (⟨·, file⟩)

section left

variable {file : Nat} {act : Act} {acts : List Act} {a : Assembly} {r : Remark} {spans : List Span}

/-- After an entry into the log, there is nothing new but that entry. -/
lemma Account.mem_log {acc : Account} {message : String} (h : r ∈ (acc.log message).remarks) :
    r ∈ acc.remarks ∨ SaidIn file spans r := by
  rcases List.mem_append.mp h with h | h
  · exact .inl h
  · obtain rfl := List.mem_singleton.mp h
    exact .inr ⟨rfl, rfl, by rintro l ⟨⟩⟩

/-- After a warning, there is nothing new but the warning and the entry for it. -/
lemma Account.mem_warn {acc : Account} {span : Span} {message : String}
    (h : r ∈ (acc.warn file span message).remarks) :
    r ∈ acc.remarks ∨ SaidIn file [span] r := by
  rcases List.mem_append.mp h with h | h
  · exact Account.mem_log h
  · obtain rfl := List.mem_singleton.mp h
    exact .inr ⟨rfl, rfl, by rintro l ⟨⟩; exact ⟨rfl, List.mem_singleton_self _⟩⟩

lemma Account.remarks_bind (acc : Account) (kind : BindingKind) (name : String) :
    (acc.bind kind name).remarks = acc.remarks := by
  cases kind <;> rfl

/-- What an act says is about one of its spans. -/
lemma Act.mem_apply (h : r ∈ (act.apply file a).remarks) :
    r ∈ a.remarks ∨ SaidIn file act.spans r := by
  have htell : ∀ {acc : Account}, r ∈ (a.tell acc).remarks → r ∈ acc.remarks :=
    List.mem_toArray.mp
  have hold : r ∈ a.account.remarks → r ∈ a.remarks := Array.mem_toList_iff.mp
  cases act with
  | log message => exact (Account.mem_log (htell h)).imp_left hold
  | bind d =>
      have h' := htell h
      rw [Account.binding] at h'
      split at h'
      · refine (Account.mem_warn h').imp_left fun h => hold ?_
        rwa [Account.remarks_bind] at h
      · rw [Account.remarks_bind] at h'
        exact .inl (hold h')
  | mark machine head =>
      rw [apply] at h
      cases hmachine : a.forest.machine? machine with
      | none => rw [hmachine] at h; exact .inl h
      | some m =>
          rw [hmachine] at h
          have h' := htell h
          cases hinitial : m.initial with
          | none => rw [hinitial] at h'; exact .inl (hold h')
          | some first =>
              rw [hinitial, Account.head] at h'
              split at h'
              · exact (Account.mem_warn h').imp_left hold
              · exact .inl (hold h')
  | _ => exact .inl h

lemma SaidIn.mono {spans' : List Span} (h : SaidIn file spans r)
    (hsub : spans ⊆ spans') : SaidIn file spans' r :=
  ⟨h.mild, h.topic, fun l hl => ⟨(h.located l hl).1, hsub (h.located l hl).2⟩⟩

/-- **What was said** while acts were carried out is about one of their spans. -/
lemma mem_carry : ∀ {a : Assembly}, r ∈ (carry file acts a).remarks →
    r ∈ a.remarks ∨ SaidIn file (acts.flatMap Act.spans) r := by
  induction acts with
  | nil => exact fun h => .inl h
  | cons act acts ih =>
      intro a h
      rw [List.flatMap_cons]
      rcases ih h with h | h
      · exact (Act.mem_apply h).imp_right fun h => h.mono (List.subset_append_left _ _)
      · exact .inr (h.mono (List.subset_append_right _ _))

/-- A node that is added gets the last place. -/
lemma Act.locatedBy (act : Act) (h : a.LocatedBy file spans) :
    (act.apply file a).LocatedBy file (spans ++ act.place?.toList) := by
  refine ⟨by rw [act.size_apply, h.size, List.length_append], fun id => ?_⟩
  cases hplace : act.place? with
  | none =>
      rw [Forest.location, (Act.locatedAs file hplace a).1, Option.toList_none, List.append_nil]
      exact h.location id
  | some span =>
      cases act with
      | node parent payload span' =>
          obtain rfl := Option.some.inj hplace
          have hsame := (a.forest.withLoose payload ⟨span', file⟩).locatedAs_append parent
            a.forest.nodes.size
          have hnew : (a.forest.withLoose payload ⟨span', file⟩).location id =
              if id = a.forest.nodes.size then some ⟨span', file⟩ else a.forest.location id :=
            SideTable.get_set a.forest.locations a.forest.nodes.size id
              (some (⟨span', file⟩ : Location))
          rw [Forest.location, apply, hsame.1]
          refine hnew.trans ?_
          rw [h.location, h.size, Option.toList_some, List.getElem?_append]
          rcases Nat.lt_trichotomy id spans.length with hlt | heq | hgt
          · rw [if_neg (Nat.ne_of_lt hlt), if_pos hlt]
          · simp [heq]
          · have hrest : [span'][id - spans.length]? = none :=
              List.getElem?_eq_none (Nat.le_sub_of_add_le' hgt)
            rw [if_neg (Nat.ne_of_gt hgt), if_neg (Nat.lt_asymm hgt), hrest,
              List.getElem?_eq_none (Nat.le_of_lt hgt)]
      | _ => cases hplace

/-- **Where the nodes are** that were added while acts were carried out. -/
lemma locatedBy_carry : ∀ {a : Assembly} {spans : List Span}, a.LocatedBy file spans →
    (carry file acts a).LocatedBy file (spans ++ placed acts) := by
  induction acts with
  | nil => intro a spans h; rwa [placed, List.filterMap_nil, List.append_nil]
  | cons act acts ih =>
      intro a spans h
      have hall := ih (act.locatedBy h)
      rw [List.append_assoc] at hall
      have hplaced : placed (act :: acts) = act.place?.toList ++ placed acts := by
        rw [placed, placed, List.filterMap_cons]
        cases act.place? <;> rfl
      rw [hplaced]
      exact hall

end left

end Statechart.Language
