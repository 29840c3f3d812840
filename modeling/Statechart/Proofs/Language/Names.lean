import Statechart.Proofs.Language.Occurrence
import Statechart.Proofs.Language.Soundness
import Statechart.Proofs.Script.Reading

/-!
# The names in a chart

What a chart puts into its module as it stands are names, or names with dots between them: nothing
else can be written where they stand in the chart.

* `Node.Named` — what a node brings into the module as it stands are names.
* `Legible` — the tokens of a declaration are spelled as they should be.

**`named_of_parse`** — the nodes of every chart that can be read are named.
-/

namespace Statechart

open Script

/-! ## Nodes -/

namespace Expr

/-- All that stands in the module as it is are names. -/
def Named : Expr → Prop
  | identifier name => isIdentifier name.toList = true
  | assign a => ∀ name ∈ a.value, isIdentifier name.toList = true
  | guard name => isIdentifier name.toList = true
  | action name => isIdentifier name.toList = true
  | delay _ => True

end Expr

/-- A reference to the options is quoted, and may be anything. -/
def Reference.Named : Reference → Prop
  | named _ => True
  | inline expr => expr.Named

/-- All that a node brings into the module as it stands are names. -/
def Node.Named : Node → Prop
  | transition t => (∀ r ∈ t.guards, r.Named) ∧ ∀ r ∈ t.actions, r.Named
  | invoke service => Dotted service
  | specifier imported _ => isIdentifier imported.toList = true
  | binding b => b.value.Named
  | _ => True

namespace Language

/-! ## Tokens -/

/-- All tokens are spelled as they should be. -/
def Legible (ts : List Lexeme) : Prop := ∀ l ∈ ts, l.2.Proper

lemma Legible.mono {ts us : List Lexeme} (h : Legible ts) (hsub : us ⊆ ts) : Legible us :=
  fun l hl => h l (hsub hl)

lemma legible_append {ts us : List Lexeme} : Legible (ts ++ us) ↔ Legible ts ∧ Legible us :=
  List.forall_mem_append

lemma legible_cons {l : Lexeme} {ts : List Lexeme} :
    Legible (l :: ts) ↔ l.2.Proper ∧ Legible ts :=
  List.forall_mem_cons

lemma legible_flatMap {α : Type} {as : List α} {tokens : α → List Lexeme} :
    Legible (as.flatMap tokens) ↔ ∀ a ∈ as, Legible (tokens a) := by
  simp only [Legible, List.mem_flatMap, forall_exists_index, and_imp]
  exact ⟨fun h a ha l hl => h l a ha hl, fun h l a ha hl => h a ha l hl⟩

lemma legible_of_spelling {before last : Option Char} {ts : List Lexeme} {s rest : List Char}
    (h : Spelling before ts s last rest) : Legible ts := by
  induction h with
  | nil => simp [Legible]
  | cons hproper _ _ ih => exact legible_cons.mpr ⟨hproper, ih⟩

/-- Each declaration of a legible chart is legible. -/
lemma legible_of_row {items : List Item} {ts : List Lexeme} (h : Row Item.Tokens items ts)
    (hts : Legible ts) : ∀ item ∈ items, ∃ us, item.Tokens us ∧ Legible us := by
  induction h with
  | nil => simp
  | cons hitem _ ih =>
      obtain ⟨hfirst, hrest⟩ := legible_append.mp hts
      exact List.forall_mem_cons.mpr ⟨⟨_, hitem, hfirst⟩, ih hrest⟩

lemma legible_braced {ts : List Lexeme} (h : Legible (braced ts)) : Legible ts :=
  h.mono fun _ hl => List.mem_cons_of_mem _ (List.mem_append_left _ hl)

/-- Names with dots between them, as a path spells them. -/
lemma dotted_of_parts {more : List (List Char)} (hmore : ∀ part ∈ more, isIdentifier part = true) :
    ∀ {first : List Char}, isIdentifier first = true →
      Dotted (String.ofList (first ++ more.flatMap fun part => '.' :: part)) := by
  induction more with
  | nil =>
      intro first hfirst
      exact .name (by simpa using hfirst)
  | cons part more ih =>
      intro first hfirst
      obtain ⟨hpart, hmore⟩ := List.forall_mem_cons.mp hmore
      have hdot : String.ofList ['.'] = "." := rfl
      have hrest := ih hmore hpart
      have hdotted := @Dotted.more (String.ofList first) _ (by simpa using hfirst) hrest
      rw [← hdot, ← String.ofList_append, ← String.ofList_append] at hdotted
      simpa using hdotted

lemma dotted_of_proper {path : String} (h : (Token.path path).Proper) : Dotted path := by
  obtain ⟨first, more, hfirst, hmore, hpath⟩ := h
  rw [← path.ofList_toList, hpath]
  exact dotted_of_parts hmore hfirst

/-! ## Declarations -/

lemma Named.identifier {use : Named} (h : use.lexeme.2.Proper) :
    isIdentifier use.name.toList = true := by
  cases use <;> exact h

/-- The value of an assignment, if it has one, is a name. -/
lemma AssignDecl.named {d : AssignDecl} (h : Legible d.tokens) : (Expr.assign d.update).Named := by
  intro name hname
  obtain ⟨use, huse, rfl⟩ := Option.map_eq_some_iff.mp hname
  refine Named.identifier (h use.lexeme ?_)
  rw [AssignDecl.tokens, huse]
  simp

/-- A name is bound to a name or to an assignment. -/
lemma BindingDecl.named {d : BindingDecl} (h : Legible d.tokens) :
    (Node.binding d.binding).Named := by
  have hvalue := (legible_cons.mp (legible_append.mp h).2).2
  show d.value.expr.Named
  cases hd : d.value with
  | assign a => rw [hd] at hvalue; exact a.named hvalue
  | named use => rw [hd] at hvalue; exact Named.identifier (hvalue _ (List.mem_singleton_self _))

/-- A step refers to a name, or has one inside. -/
lemma StepDecl.named {step : StepDecl} (h : Legible step.tokens) :
    (∀ r ∈ step.guard?, r.Named) ∧ ∀ r ∈ step.action?, r.Named := by
  rcases step with (name | name) | (name | name) | d
  · have hname : (Reference.inline (.guard name)).Named :=
      h (.free, .symbol name) (by simp [tokens, Named.lexeme])
    simpa [guard?, action?] using hname
  · simp [guard?, action?, Reference.Named]
  · have hname : (Reference.inline (.action name)).Named :=
      h (.free, .symbol name) (by simp [tokens, Named.lexeme])
    simpa [guard?, action?] using hname
  · simp [guard?, action?, Reference.Named]
  · have hupdate : (Reference.inline (.assign d.update)).Named := d.named h
    simpa [guard?, action?] using hupdate

/-- All guards and actions of a transition come from its steps. -/
lemma TransitionDecl.named {d : TransitionDecl} (h : Legible d.tokens) :
    (Node.transition d.transition).Named := by
  have hsteps := (legible_append.mp (legible_cons.mp (legible_append.mp h).2).2).1
  have hstep : ∀ step ∈ d.steps, Legible step.tokens := fun step hmem =>
    (legible_append.mp (legible_flatMap.mp hsteps step hmem)).1
  constructor
  · intro r hr
    obtain ⟨step, hmem, hguard⟩ := List.mem_filterMap.mp hr
    exact (StepDecl.named (hstep step hmem)).1 r hguard
  · intro r hr
    obtain ⟨step, hmem, haction⟩ := List.mem_filterMap.mp hr
    exact (StepDecl.named (hstep step hmem)).2 r haction

/-- The transitions of a clause are spelled as they should be if the clause is. -/
lemma legible_transition {c : Clause} (h : Legible c.tokens) {t : TransitionDecl}
    (ht : t ∈ c.transitions) : Legible t.tokens := by
  cases c with
  | transition d =>
      rw [Clause.tokens] at h
      exact List.mem_singleton.mp ht ▸ h
  | invoke d =>
      rw [Clause.tokens] at h
      exact legible_flatMap.mp (legible_braced (legible_append.mp h).2) t ht
  | binding d => cases ht
  | state d => cases ht

/-- All nodes of a clause are named, what is nested in a state aside. -/
lemma Clause.named {c : Clause} (h : Legible c.tokens) : ∀ node ∈ c.nodes, node.Named := by
  cases c with
  | binding d =>
      rw [Clause.tokens] at h
      exact List.forall_mem_singleton.mpr (BindingDecl.named h)
  | transition d =>
      rw [Clause.tokens] at h
      exact List.forall_mem_singleton.mpr (TransitionDecl.named h)
  | state d => exact List.forall_mem_singleton.mpr trivial
  | invoke d =>
      refine List.forall_mem_cons.mpr ⟨?_, List.forall_mem_map.mpr fun t ht => ?_⟩
      · rw [Clause.tokens] at h
        have hhead := (legible_append.mp h).1
        exact dotted_of_proper (hhead (.head, .path d.service) (by simp [headTokens]))
      · exact TransitionDecl.named (legible_transition h ht)

/-- Specifiers are names. -/
lemma ImportDecl.named {d : ImportDecl} {ts : List Lexeme} (hts : d.Tokens ts) (h : Legible ts) :
    ∀ s ∈ d.specifiers, isIdentifier s.value.toList = true := by
  obtain ⟨quote, names, hnames, rfl⟩ := hts
  have hlegible : Legible names := (legible_cons.mp (legible_cons.mp h).2).2
  generalize hvalues : d.specifiers.map (·.value) = values at hnames
  have hall : ∀ value ∈ values, isIdentifier value.toList = true := by
    cases hnames with
    | absent => simp
    | empty => simp
    | names name more comma =>
        obtain ⟨hname, hmore⟩ := legible_cons.mp (legible_braced hlegible)
        have hrest := legible_flatMap.mp (legible_append.mp hmore).1
        refine List.forall_mem_cons.mpr ⟨hname, fun value hvalue => ?_⟩
        exact hrest value hvalue (plainName value) (by simp)
  exact List.forall_mem_map.mp (hvalues ▸ hall)

/-! ## Charts -/

/-- What stands in a legible state is legible. -/
lemma StateDecl.legible_body {d : StateDecl} (h : Legible d.tokens) :
    Legible (bodyTokens d.body) := by
  cases d with
  | mk head body span =>
      rw [StateDecl.tokens] at h
      exact legible_braced (legible_append.mp h).2

/-- What stands inside a body is spelled as it should be if the body is. -/
lemma InBody.legible {body inner : List Clause} (h : InBody body inner)
    (hbody : Legible (bodyTokens body)) : Legible (bodyTokens inner) := by
  induction h with
  | self => exact hbody
  | @state d body inner hd _ ih =>
      rw [bodyTokens_eq, legible_flatMap] at hbody
      have hstate := hbody _ hd
      rw [Clause.tokens] at hstate
      exact ih (StateDecl.legible_body hstate)

section chart

variable {text : String} {items : List Item}

/-- The declarations of a text are spelled as they should be. -/
lemma legible_of_parse (h : parse text = .ok items) :
    ∀ item ∈ items, ∃ us, item.Tokens us ∧ Legible us := by
  obtain ⟨ts, last, rest, hrow, hspelling, -⟩ := renders_of_parse h
  exact legible_of_row hrow (legible_of_spelling hspelling)

lemma legible_binding (h : parse text = .ok items) {d : BindingDecl} (hd : .binding d ∈ items) :
    Legible d.tokens := by
  obtain ⟨_, rfl, hlegible⟩ := legible_of_parse h _ hd
  exact hlegible

/-- The machines of a chart that can be read are legible. -/
lemma legible_machine (h : parse text = .ok items) {m : MachineDecl} (hm : .machine m ∈ items) :
    (∀ name ∈ m.name, isIdentifier name.toList = true) ∧ ∀ c ∈ m.body, Legible c.tokens := by
  obtain ⟨_, rfl, hlegible⟩ := legible_of_parse h _ hm
  obtain ⟨hhead, hbody⟩ := legible_append.mp hlegible
  refine ⟨fun name hname => hhead (.head, .name name) ?_, legible_flatMap.mp (legible_braced hbody)⟩
  rw [hname]
  simp [headTokens]

/-- So is what stands in a state, at any depth. -/
lemma legible_stateBody (h : parse text = .ok items) {body : List Clause}
    (hbody : StateBody items body) : ∀ c ∈ body, Legible c.tokens := by
  obtain ⟨m, d, hm, hd, hin⟩ := hbody
  have hlegible := hin.legible (StateDecl.legible_body ((legible_machine h hm).2 _ hd))
  rw [bodyTokens_eq] at hlegible
  exact legible_flatMap.mp hlegible

/-- A node that is not a machine belongs to a declaration. -/
lemma mem_itemPayloads_of_payloads {node : Node} (h : node ∈ Tree.payloads (itemTrees items))
    (hmachine : node.isMachine = false) : node ∈ items.flatMap Item.payloads :=
  (contained_itemTrees items).mem_iff.mp (List.mem_filter.mpr ⟨h, by rw [hmachine]; rfl⟩)

/-- **The nodes of every chart that can be read are named**, and so are its machines. -/
lemma named_of_parse (h : parse text = .ok items) :
    (∀ d, .machine d ∈ items → ∀ name ∈ d.name, isIdentifier name.toList = true) ∧
      ∀ node ∈ Tree.payloads (itemTrees items), node.Named := by
  refine ⟨fun d hd => (legible_machine h hd).1, fun node hnode => ?_⟩
  cases hmachine : node.isMachine with
  | true =>
      cases node with
      | machine m => trivial
      | _ => cases hmachine
  | false =>
      rcases mem_itemPayloads (mem_itemPayloads_of_payloads hnode hmachine) with
        ⟨d, hd, hnode⟩ | ⟨d, hd, rfl⟩ | ⟨m, d, hm, hd, rfl⟩ | ⟨m, d, hm, hd, rfl⟩ |
          ⟨body, c, hbody, hc, hnode⟩
      · obtain ⟨us, hus, hlegible⟩ := legible_of_parse h _ hd
        have hall : ∀ node ∈ Item.payloads (.importDecl d), node.Named :=
          List.forall_mem_cons.mpr
            ⟨trivial, List.forall_mem_map.mpr (ImportDecl.named hus hlegible)⟩
        exact hall node hnode
      · exact BindingDecl.named (legible_binding h hd)
      · exact BindingDecl.named ((legible_machine h hm).2 _ hd)
      · trivial
      · exact Clause.named (legible_stateBody h hbody c hc) node hnode

end chart

end Language

end Statechart
