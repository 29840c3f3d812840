import Statechart.Proofs.Language.Bounds

/-!
# Declarations follow each other and nest

A cursor only moves forward.  So declarations that are written one after another have spans that
follow each other, what is written inside a declaration has its span inside that of the declaration,
and no span is empty.

* `Region` — a span with regions inside it.
* `Laid` — regions that follow each other between two offsets.
* `Lays` — what a parser adds to the regions that are already behind its cursor.
* `Consumes` — a parser that takes at least one character.
* `Item.region` — the spans of a declaration, nested as the declaration is.
* `Item.marks` — the heads and durations among them, in the order of the text.

**`laid_of_parse`** — the regions of a chart follow each other and nest.
**`spaced_of_parse`** — its heads and durations follow each other, whatever they are nested in.
-/

namespace Statechart.Language

/-! ## Regions -/

/-- A span of a text with regions inside it. -/
inductive Region where
  | mk (span : Span) (inner : List Region)

/-- The span of the whole region. -/
def Region.span : Region → Span
  | .mk span _ => span

/-- The regions inside. -/
def Region.inner : Region → List Region
  | .mk _ inner => inner

/-- A span with nothing inside. -/
def Region.leaf (span : Span) : Region := .mk span []

mutual

/-- The regions follow each other between two offsets, none of them is empty, and what is inside a
region is laid in the same way inside it. -/
def Laid : Nat → Nat → List Region → Prop
  | lo, hi, [] => lo ≤ hi
  | lo, hi, r :: rest => lo ≤ r.span.start ∧ r.span.start < r.span.stop ∧ r.Nests ∧ Laid r.span.stop hi rest

/-- What is inside the region is laid inside it. -/
def Region.Nests : Region → Prop
  | .mk span inner => Laid span.start span.stop inner

end

lemma laid_nil {lo hi : Nat} : Laid lo hi [] ↔ lo ≤ hi := by
  rw [Laid]

/-- The first region has room for what lies in it, and the others follow behind it. -/
lemma laid_cons {lo hi : Nat} {r : Region} {rest : List Region} :
    Laid lo hi (r :: rest) ↔ lo ≤ r.span.start ∧ r.span.start < r.span.stop ∧
      Laid r.span.start r.span.stop r.inner ∧ Laid r.span.stop hi rest := by
  cases r
  rw [Laid, Region.Nests]
  rfl

/-- Regions in two stretches, one behind the other. -/
lemma Laid.append {mid hi : Nat} {ys : List Region} (hys : Laid mid hi ys) {xs : List Region} :
    ∀ {lo : Nat}, Laid lo mid xs → Laid lo hi (xs ++ ys) := by
  induction xs with
  | nil =>
      intro lo hlo
      rw [laid_nil] at hlo
      cases ys with
      | nil => exact laid_nil.mpr (Nat.le_trans hlo (laid_nil.mp hys))
      | cons y ys =>
          rw [laid_cons] at hys
          exact laid_cons.mpr ⟨Nat.le_trans hlo hys.1, hys.2⟩
  | cons x xs ih =>
      intro lo hxs
      rw [laid_cons] at hxs
      exact laid_cons.mpr ⟨hxs.1, hxs.2.1, hxs.2.2.1, ih hxs.2.2.2⟩

/-- Regions lie between two places only if the second is not in front of the first. -/
lemma Laid.le {hi : Nat} {xs : List Region} : ∀ {lo : Nat}, Laid lo hi xs → lo ≤ hi := by
  induction xs with
  | nil => exact fun h => laid_nil.mp h
  | cons x xs ih =>
      intro lo h
      rw [laid_cons] at h
      have hle := ih h.2.2.2
      omega

/-- There is room for something that is not empty. -/
lemma Laid.lt {lo hi : Nat} {x : Region} {xs : List Region} (h : Laid lo hi (x :: xs)) :
    lo < hi := by
  rw [laid_cons] at h
  have hle := h.2.2.2.le
  omega

namespace Parser

/-! ## Parsers that lay regions -/

section lays

variable {α β : Type} {p q : Parser α} {k : α → Parser β}
variable {before : List Region} {m : α → List Region} {n : β → List Region}

/-- If the regions `before` are behind the cursor, then those of the value are behind the cursor
when the parser has accepted. -/
def Lays (before : List Region) (m : α → List Region) (p : Parser α) : Prop :=
  ∀ ⦃lo : Nat⦄ ⦃c : Cursor⦄ ⦃a : α⦄ ⦃c' : Cursor⦄, Laid lo c.offset before →
    (p c).outcome = some (a, c') → Laid lo c'.offset (m a)

/-- The parser takes at least one character. -/
def Consumes (p : Parser α) : Prop :=
  ∀ ⦃c : Cursor⦄ ⦃a : α⦄ ⦃c' : Cursor⦄, (p c).outcome = some (a, c') → c.offset < c'.offset

/-- A parser that stays in every text moves forward. -/
lemma le_of_stays (hp : ∀ text, Stays text p) {c c' : Cursor} {a : α}
    (h : (p c).outcome = some (a, c')) : c.offset ≤ c'.offset := by
  -- some text has the cursor in it
  have hbytes : byteLength (List.replicate c.offset 'a') = c.offset := by
    induction c.offset with
    | zero => rfl
    | succ n ih => rw [List.replicate_succ, byteLength, ih]; exact Nat.add_comm _ _
  exact ((hp (List.replicate c.offset 'a' ++ c.rest)).outcome ⟨_, rfl, hbytes⟩ h).2.1

/-- The regions of a value that is returned are those laid on the way to it. -/
lemma lays_pure {a : α} (h : m a = before) : Lays before m (pure a) := by
  intro lo c b c' hlo hout
  cases hout
  rw [h]
  exact hlo

lemma lays_reject : Lays before m reject := by
  intro lo c a c' _ hout
  cases hout

/-- The regions of a block are laid one part behind the other. -/
lemma Lays.bind (hp : Lays [] m p) (hk : ∀ a, Lays (before ++ m a) n (k a)) :
    Lays before n (p >>= k) := by
  intro lo c b c'' hlo hout
  rw [outcome_bind] at hout
  obtain ⟨⟨a, c'⟩, hfirst, hsecond⟩ := Option.bind_eq_some_iff.mp hout
  have hmid : Laid c.offset c'.offset (m a) := hp (laid_nil.mpr (Nat.le_refl _)) hfirst
  exact hk a (hmid.append hlo) hsecond

/-- A parser that lays nothing, and then another. -/
lemma lays_after (hp : ∀ text, Stays text p) (hk : ∀ a, Lays before n (k a)) :
    Lays before n (p >>= k) := by
  intro lo c b c'' hlo hout
  rw [outcome_bind] at hout
  obtain ⟨⟨a, c'⟩, hfirst, hsecond⟩ := Option.bind_eq_some_iff.mp hout
  have hmid : Laid c.offset c'.offset [] := laid_nil.mpr (le_of_stays hp hfirst)
  have hbefore := hmid.append hlo
  rw [List.append_nil] at hbefore
  exact hk a hbefore hsecond

/-- Whichever of two parsers takes the text, it lays the regions of its value. -/
lemma Lays.orElse (hp : Lays before m p) (hq : Lays before m q) :
    Lays before m (p <|> q) := by
  intro lo c a c' hlo hout
  rw [outcome_orElse, Option.or_eq_some_iff] at hout
  rcases hout with hout | ⟨-, hout⟩
  · exact hp hlo hout
  · exact hq hlo hout

/-- A value that is put into another form with the same regions. -/
lemma Lays.map (hp : Lays [] m p) {f : α → β} (hf : ∀ a, n (f a) = m a) :
    Lays [] n (do return f (← p)) :=
  hp.bind fun a => lays_pure (hf a)

/-- What is located by a rule has the regions that were laid inside. -/
lemma Lays.rule (hp : Lays [] m p) (name : Rule) :
    Lays [] (fun l => m l.value) (Parser.rule name p) := by
  intro lo c l c' hlo hout
  rw [outcome_rule] at hout
  obtain ⟨⟨a, c₁⟩, hfirst, hl⟩ := Option.map_eq_some_iff.mp hout
  cases hl
  exact hp hlo hfirst

/-- A rule that takes characters lays its own span, with the regions of its value inside. -/
lemma Lays.region (hp : Lays [] m p) (hc : Consumes p) (name : Rule) :
    Lays [] (fun l => [.mk l.span (m l.value)]) (Parser.rule name p) := by
  intro lo c l c' hlo hout
  rw [outcome_rule] at hout
  obtain ⟨⟨a, c₁⟩, hfirst, hl⟩ := Option.map_eq_some_iff.mp hout
  cases hl
  refine laid_cons.mpr ⟨laid_nil.mp hlo, hc hfirst, ?_, laid_nil.mpr (Nat.le_refl _)⟩
  exact hp (laid_nil.mpr (Nat.le_refl _)) hfirst

/-- A parser that lays something takes characters. -/
lemma Lays.consumes (hp : Lays [] m p) (hm : ∀ a, m a ≠ []) : Consumes p := by
  intro c a c' hout
  have hlaid := hp (laid_nil.mpr (Nat.le_refl c.offset)) hout
  cases hregions : m a with
  | nil => exact absurd hregions (hm a)
  | cons r rest =>
      rw [hregions] at hlaid
      exact hlaid.lt

/-- A rule that takes characters lays its own span, whatever is inside. -/
lemma Consumes.rule (hp : Consumes p) (name : Rule) :
    Lays [] (fun l => [.leaf l.span]) (Parser.rule name p) := by
  refine Lays.region (m := fun _ => []) (fun lo c a c' hlo hout => ?_) hp name
  exact laid_nil.mpr (Nat.le_trans (laid_nil.mp hlo) (Nat.le_of_lt (hp hout)))

lemma Lays.optional (hp : Lays [] m p) :
    Lays [] (fun o => o.elim [] m) (Parser.optional p) :=
  Lays.orElse (hp.map fun _ => rfl) (lays_pure rfl)

/-- Repetition lays the regions of all its values, by induction on what is left of the text. -/
lemma Lays.many (hp : Lays [] m p) : Lays [] (fun as => as.flatMap m) (Parser.many p) := by
  intro lo c as c' hlo
  induction hn : c.rest.length using Nat.strongRecOn generalizing c as lo with
  | _ n ih =>
      subst hn
      intro hout
      have hstep := @hp lo c
      rw [Parser.many] at hout
      generalize p c = reply at hstep hout
      rcases reply with ⟨_ | ⟨a, c₁⟩, record⟩
      · cases hout
        exact hlo
      · have ha := hstep hlo rfl
        by_cases hlt : c₁.rest.length < c.rest.length
        · simp only [if_pos hlt] at hout
          obtain ⟨⟨as', last⟩, hmany, hfound⟩ := Option.map_eq_some_iff.mp hout
          cases hfound
          have hmore : Laid c₁.offset last.offset (as'.flatMap m) :=
            ih _ hlt (laid_nil.mpr (Nat.le_refl _)) rfl hmany
          exact hmore.append ha
        · simp only [if_neg hlt] at hout
          cases hout
          show Laid lo _ ([a].flatMap m)
          rw [List.flatMap_singleton]
          exact ha

/-- The members of a row lay their regions one behind the other. -/
lemma Lays.manySpaced (hp : Lays [] m p) :
    Lays [] (fun as => as.flatMap m) (Parser.manySpaced p) := by
  refine Lays.orElse ?_ (lays_pure rfl)
  refine hp.bind fun a => Lays.bind (Lays.many (lays_after (fun _ => keeps_skip) fun _ => hp))
    fun as => lays_pure ?_
  rw [List.flatMap_cons]
  rfl

/-! ## Parsers that take characters -/

/-- A block takes characters if its first part does and the rest does not go back. -/
lemma Consumes.bind (hp : Consumes p) (hk : ∀ a text, Stays text (k a)) : Consumes (p >>= k) := by
  intro c b c'' hout
  rw [outcome_bind] at hout
  obtain ⟨⟨a, c'⟩, hfirst, hsecond⟩ := Option.bind_eq_some_iff.mp hout
  exact Nat.lt_of_lt_of_le (hp hfirst) (le_of_stays (hk a) hsecond)

/-- A block takes characters if its rest does and the first part does not go back. -/
lemma consumes_after (hp : ∀ text, Stays text p) (hk : ∀ a, Consumes (k a)) :
    Consumes (p >>= k) := by
  intro c b c'' hout
  rw [outcome_bind] at hout
  obtain ⟨⟨a, c'⟩, hfirst, hsecond⟩ := Option.bind_eq_some_iff.mp hout
  exact Nat.lt_of_le_of_lt (le_of_stays hp hfirst) (hk a hsecond)

/-- A rule takes characters if what it locates does. -/
lemma Consumes.located (hp : Consumes p) (name : Rule) : Consumes (Parser.rule name p) := by
  intro c l c' hout
  rw [outcome_rule] at hout
  obtain ⟨⟨a, c₁⟩, hfirst, hl⟩ := Option.map_eq_some_iff.mp hout
  cases hl
  exact hp hfirst

/-- A single character is taken. -/
lemma consumes_char (isIn : Char → Bool) : Consumes (char isIn) := by
  intro c a c' hout
  unfold char at hout
  split at hout
  · cases hout
  · next x xs hrest =>
    split at hout
    · cases hout
      exact Nat.lt_add_of_pos_right (Char.utf8Size_pos _)
    · cases hout

/-- A word that is not empty is taken. -/
lemma consumes_literal {text : String} (h : text.toList ≠ []) : Consumes (literal text) := by
  rintro ⟨rest, offset⟩ a c' hout
  obtain ⟨c₁, hafter, hc₁⟩ := Option.map_eq_some_iff.mp hout
  cases hc₁
  cases htext : text.toList with
  | nil => exact absurd htext h
  | cons e es =>
      rw [htext] at hafter
      cases rest with
      | nil => cases hafter
      | cons x xs =>
          rw [afterChars] at hafter
          split at hafter
          · have hle := (afterChars_reaches es hafter).le
            have hpos := Char.utf8Size_pos x
            dsimp only at hle ⊢
            omega
          · cases hafter

end lays

end Parser

/-! ## The regions of declarations -/

def BindingDecl.region (d : BindingDecl) : Region := .mk d.span [.leaf d.head]

def TriggerDecl.regions : TriggerDecl → List Region
  | delay duration => [.leaf duration.span]
  | _ => []

def TransitionDecl.region (d : TransitionDecl) : Region := .mk d.span d.trigger.regions

def InvokeDecl.region (d : InvokeDecl) : Region :=
  .mk d.span (d.transitions.map TransitionDecl.region)

mutual

/-- The head of a state and its clauses stand inside the state. -/
def StateDecl.region : StateDecl → Region
  | .mk head body span => .mk span (.leaf head.span :: bodyRegions body)

/-- The region of a clause. -/
def Clause.region : Clause → Region
  | .binding d => d.region
  | .invoke d => d.region
  | .state d => d.region
  | .transition d => d.region

/-- The regions of some clauses. -/
def bodyRegions : List Clause → List Region
  | [] => []
  | c :: rest => c.region :: bodyRegions rest

end

def MachineClause.region : MachineClause → Region
  | .binding d => d.region
  | .state d => d.region

def MachineDecl.region (d : MachineDecl) : Region :=
  .mk d.span (d.body.map MachineClause.region)

def ImportDecl.region (d : ImportDecl) : Region :=
  .mk d.span (d.specifiers.map fun s => .leaf s.span)

/-- The spans of a declaration of the top level, nested as the declaration is. -/
def Item.region : Item → Region
  | .importDecl d => d.region
  | .binding d => d.region
  | .machine d => d.region

/-- The regions of a body are those of its clauses. -/
lemma bodyRegions_eq (body : List Clause) : bodyRegions body = body.map Clause.region := by
  induction body with
  | nil => rw [bodyRegions]; rfl
  | cons c rest ih => rw [bodyRegions, ih, List.map_cons]

/-! ## The grammar -/

namespace Grammar

open Statechart.Language.Parser

/-- A row of regions, one for each value. -/
lemma lays_row {α : Type} {p : Parser α} {region : α → Region}
    (hp : Lays [] (fun a => [region a]) p) :
    Lays [] (fun as => as.map region) (manySpaced p) := by
  have hrow := hp.manySpaced
  simp only [← List.map_eq_flatMap] at hrow
  exact hrow

lemma consumes_name : Consumes name :=
  (consumes_char _).bind fun _ _ => (keeps_charsWhile _).bind fun _ _ => keeps_pure trivial

lemma lays_ident : Lays [] (fun l => [.leaf l.span]) ident := consumes_name.rule .ident

/-! ### Imports -/

/-- The specifiers of an import lie one behind the other. -/
lemma lays_specifierNames :
    Lays [] (fun names => names.map fun l => .leaf l.span) specifierNames := by
  refine lays_ident.bind fun first => lays_after (fun _ => keeps_skip) fun _ => ?_
  refine Lays.bind (lays_row (lays_after (fun _ => keeps_literal _) fun _ =>
    lays_after (fun _ => keeps_skip) fun _ => lays_ident)) fun more => ?_
  exact lays_after (fun _ => keeps_skip) fun _ =>
    lays_after (fun _ => (keeps_literal _).optional.stays) fun _ => lays_pure rfl

/-- The same with the braces around them. -/
lemma lays_specifiers :
    Lays [] (fun l => l.value.map fun s => .leaf s.span) specifiers := by
  refine Lays.rule (m := fun names : List (Located String) => names.map fun s => .leaf s.span) ?_
    .specifiers
  refine lays_after (fun _ => keeps_literal _) fun _ => lays_after (fun _ => keeps_skip) fun _ =>
    lays_specifierNames.optional.bind fun names => lays_after (fun _ => keeps_skip) fun _ =>
      lays_after (fun _ => keeps_literal _) fun _ => lays_pure ?_
  cases names <;> rfl

/-- The specifiers of an import lie inside it. -/
lemma lays_importDecl : Lays [] (fun d => [d.region]) importDecl := by
  refine Lays.map (Lays.region (m := fun v => v.2.map fun s => .leaf s.span) ?_ ?_ .importDecl)
    fun _ => rfl
  · refine lays_after (fun _ => keeps_literal _) fun _ => lays_after (fun _ => keeps_skip) fun _ =>
      lays_after (fun _ => keeps_string) fun _ => lays_after (fun _ => keeps_skip) fun _ =>
        lays_specifiers.optional.bind fun names => lays_pure ?_
    cases names <;> rfl
  · exact (consumes_literal (by decide)).bind fun _ _ => keeps_skip.bind fun _ _ =>
      keeps_string.bind fun _ _ => keeps_skip.bind fun _ _ =>
        keeps_specifiers.optional.bind fun _ _ => keeps_pure trivial

/-! ### Bindings -/

/-- The head of a binding is a region without others inside. -/
lemma lays_bindingHead : Lays [] (fun l => [.leaf l.span]) bindingHead := by
  refine Consumes.rule ?_ .bindingHead
  exact consumes_after (fun _ => keeps_bindingKind) fun _ =>
    consumes_after (fun _ => keeps_blanks) fun _ =>
      (consumes_name.located .ident).bind fun _ _ => keeps_pure trivial

/-- The head of a binding lies inside the binding. -/
lemma lays_binding : Lays [] (fun d => [d.region]) binding := by
  have hparts : Lays [] (fun v => [.leaf v.1.span]) (do
      let head ← bindingHead
      skip
      literal "="
      skip
      let value ← bindingValue
      return (head, value)) :=
    lays_bindingHead.bind fun _ => lays_after (fun _ => keeps_skip) fun _ =>
      lays_after (fun _ => keeps_literal _) fun _ => lays_after (fun _ => keeps_skip) fun _ =>
        lays_after (fun _ => keeps_bindingValue) fun _ => lays_pure rfl
  exact Lays.map (hparts.region (hparts.consumes fun _ => by simp) .binding) fun _ => rfl

/-! ### Transitions -/

/-- A duration is a region without others inside. -/
lemma lays_duration : Lays [] (fun d => [.leaf d.span]) duration := by
  have hdigits : Consumes (do
      let first ← char Char.isDigit
      let rest ← charsWhile Char.isDigit
      return first :: rest) :=
    (consumes_char _).bind fun _ _ => (keeps_charsWhile _).bind fun _ _ => keeps_pure trivial
  have hnumber : Consumes number :=
    (hdigits.located .number).bind fun _ _ => keeps_pure trivial
  refine Lays.map (Consumes.rule ?_ .duration) fun _ => rfl
  exact hnumber.bind fun _ _ => keeps_timeUnit.optional.bind fun _ _ => keeps_pure trivial

/-- A delay has the region of its duration. -/
lemma lays_delay : Lays [] (fun d => [.leaf d.span]) delay := by
  refine Lays.map (Lays.rule (m := fun d => [.leaf d.span]) ?_ .delay) fun _ => rfl
  exact lays_after (fun _ => keeps_literal _) fun _ => lays_after (fun _ => keeps_skip) fun _ =>
    lays_after (fun _ => keeps_literal _) fun _ => lays_after (fun _ => keeps_skip) fun _ =>
      lays_duration.bind fun _ => lays_after (fun _ => keeps_skip) fun _ =>
        lays_after (fun _ => keeps_literal _) fun _ => lays_pure rfl

/-- A trigger has a region if it is a delay. -/
lemma lays_trigger : Lays [] TriggerDecl.regions trigger :=
  Lays.orElse (lays_after (fun _ => keeps_immediate) fun _ => lays_pure rfl)
    (Lays.orElse (lays_delay.map fun _ => rfl)
      (lays_after (fun _ => keeps_event) fun _ => lays_pure rfl))

/-- The delay of a transition lies inside the transition. -/
lemma lays_transition : Lays [] (fun d => [d.region]) transition := by
  refine Lays.map (Lays.region (m := fun v => v.1.regions) ?_ ?_ .transition) fun _ => rfl
  · exact lays_trigger.bind fun _ => lays_after (fun _ => keeps_skip) fun _ =>
      lays_after (fun _ => keeps_literal _) fun _ => lays_after (fun _ => keeps_skip) fun _ =>
        lays_after (fun _ => keeps_steps) fun _ => lays_after (fun _ => keeps_skip) fun _ =>
          lays_after (fun _ => keeps_target) fun _ => lays_pure rfl
  · exact consumes_after (fun _ => keeps_trigger.stays) fun _ =>
      consumes_after (fun _ => keeps_skip) fun _ =>
        (consumes_literal (by decide)).bind fun _ _ => keeps_skip.bind fun _ _ =>
          keeps_steps.bind fun _ _ => keeps_skip.bind fun _ _ => keeps_target.bind fun _ _ =>
            keeps_pure trivial

/-- The transitions of an invocation lie inside it, one behind the other. -/
lemma lays_invoke : Lays [] (fun d => [d.region]) invoke := by
  refine Lays.map (Lays.region (m := fun v => v.2.map TransitionDecl.region) ?_ ?_ .invoke)
    fun _ => rfl
  · exact lays_after (fun _ => keeps_invokeHead) fun _ => lays_after (fun _ => keeps_skip) fun _ =>
      lays_after (fun _ => keeps_literal _) fun _ => lays_after (fun _ => keeps_skip) fun _ =>
        (lays_row lays_transition).bind fun _ => lays_after (fun _ => keeps_skip) fun _ =>
          lays_after (fun _ => keeps_literal _) fun _ => lays_pure rfl
  · exact consumes_after (fun _ => keeps_invokeHead) fun _ =>
      consumes_after (fun _ => keeps_skip) fun _ => (consumes_literal (by decide)).bind fun _ _ =>
        keeps_skip.bind fun _ _ => keeps_transition.manySpaced.bind fun _ _ =>
          keeps_skip.bind fun _ _ => (keeps_literal _).bind fun _ _ => keeps_pure trivial

/-! ### States and machines -/

/-- The head of a state is a region without others inside. -/
lemma lays_stateHead : Lays [] (fun h => [.leaf h.span]) stateHead := by
  refine Lays.map (Consumes.rule ?_ .stateHead) fun _ => rfl
  exact consumes_after (fun _ => keeps_modifiers) fun _ =>
    (consumes_literal (by decide)).bind fun _ _ => keeps_blanks.bind fun _ _ =>
      keeps_ident.bind fun _ _ => keeps_pure trivial

/-- A clause is one region, if an inner state is. -/
lemma lays_clause {nested : Parser StateDecl} (h : Lays [] (fun d => [d.region]) nested) :
    Lays [] (fun c => [c.region]) (clause nested) := by
  refine Lays.orElse ?_ (Lays.orElse ?_ (Lays.orElse ?_ ?_))
  · exact lays_binding.map fun d => by rw [Clause.region]
  · exact lays_invoke.map fun d => by rw [Clause.region]
  · exact h.map fun d => by rw [Clause.region]
  · exact lays_transition.map fun d => by rw [Clause.region]

/-- The head of a state and its clauses lie inside it, if inner states do so. -/
lemma lays_stateWith {nested : Parser StateDecl} (h : Lays [] (fun d => [d.region]) nested) :
    Lays [] (fun d => [d.region]) (stateWith nested) := by
  have hparts : Lays [] (fun v => .leaf v.1.span :: v.2.map Clause.region) (do
      let head ← stateHead
      skip
      literal "\x7b"
      skip
      let body ← manySpaced (clause nested)
      skip
      literal "\x7d"
      return (head, body)) :=
    lays_stateHead.bind fun _ => lays_after (fun _ => keeps_skip) fun _ =>
      lays_after (fun _ => keeps_literal _) fun _ => lays_after (fun _ => keeps_skip) fun _ =>
        (lays_row (lays_clause h)).bind fun _ => lays_after (fun _ => keeps_skip) fun _ =>
          lays_after (fun _ => keeps_literal _) fun _ => lays_pure rfl
  refine Lays.map (hparts.region (hparts.consumes fun _ => by simp) .state) fun l => ?_
  rw [StateDecl.region, bodyRegions_eq]

/-- A state is one region, however deep its inner states are nested. -/
lemma lays_state (levels : Nat) : Lays [] (fun d => [d.region]) (state levels) := by
  induction levels with
  | zero => exact lays_reject
  | succ levels ih => exact lays_stateWith ih

/-- The clauses of a machine lie inside it, one behind the other. -/
lemma lays_machine (levels : Nat) : Lays [] (fun d => [d.region]) (machine levels) := by
  have hclause : Lays [] (fun c => [c.region]) (machineClause levels) :=
    Lays.orElse (lays_binding.map fun _ => rfl) ((lays_state levels).map fun _ => rfl)
  refine Lays.map (Lays.region (m := fun v => v.2.map MachineClause.region) ?_ ?_ .machine)
    fun _ => rfl
  · exact lays_after (fun _ => keeps_machineHead) fun _ => lays_after (fun _ => keeps_skip) fun _ =>
      lays_after (fun _ => keeps_literal _) fun _ => lays_after (fun _ => keeps_skip) fun _ =>
        (lays_row hclause).bind fun _ => lays_after (fun _ => keeps_skip) fun _ =>
          lays_after (fun _ => keeps_literal _) fun _ => lays_pure rfl
  · exact consumes_after (fun _ => keeps_machineHead) fun _ =>
      consumes_after (fun _ => keeps_skip) fun _ => (consumes_literal (by decide)).bind fun _ _ =>
        keeps_skip.bind fun _ _ => (keeps_machineClause levels).manySpaced.bind fun _ _ =>
          keeps_skip.bind fun _ _ => (keeps_literal _).bind fun _ _ => keeps_pure trivial

/-! ### Charts -/

/-- The declarations of a chart lie one behind the other. -/
lemma lays_file (levels : Nat) : Lays [] (fun items => items.map Item.region) (file levels) := by
  have hitem : Lays [] (fun item => [item.region]) (item levels) :=
    Lays.orElse (lays_importDecl.map fun _ => rfl)
      (Lays.orElse (lays_binding.map fun _ => rfl) ((lays_machine levels).map fun _ => rfl))
  refine Lays.map (Lays.rule ?_ .file) fun _ => rfl
  exact lays_after (fun _ => keeps_skip) fun _ => (lays_row hitem).bind fun _ =>
    lays_after (fun _ => keeps_skip) fun _ =>
      lays_after (fun _ => (keeps_atEnd.rule _).stays) fun _ => lays_pure rfl

end Grammar

/-- **The regions of a chart follow each other and nest** in its text. -/
lemma laid_of_parse {text : String} {items : List Item} (h : parse text = .ok items) :
    ∃ hi, Laid 0 hi (items.map Item.region) := by
  unfold parse at h
  cases houtcome : (Grammar.file (text.toList.length + 1) ⟨text.toList, 0⟩).outcome with
  | none => simp [houtcome] at h
  | some found =>
      simp only [houtcome, Except.ok.injEq] at h
      subst h
      have hstart : Laid 0 (Cursor.mk text.toList 0).offset [] := laid_nil.mpr (Nat.le_refl 0)
      exact ⟨found.2.offset, Grammar.lays_file _ hstart houtcome⟩

/-! ## Heads and durations -/

/-- The spans follow each other between two offsets, and none of them is empty. -/
def Spaced : Nat → Nat → List Span → Prop
  | lo, hi, [] => lo ≤ hi
  | lo, hi, s :: rest => lo ≤ s.start ∧ s.start < s.stop ∧ Spaced s.stop hi rest

/-- Spans in two stretches, one behind the other. -/
lemma Spaced.append {mid hi : Nat} {ys : List Span} (hys : Spaced mid hi ys) {xs : List Span} :
    ∀ {lo : Nat}, Spaced lo mid xs → Spaced lo hi (xs ++ ys) := by
  induction xs with
  | nil =>
      intro lo hlo
      cases ys with
      | nil => exact Nat.le_trans hlo hys
      | cons y ys => exact ⟨Nat.le_trans hlo hys.1, hys.2⟩
  | cons x xs ih =>
      intro lo hxs
      exact ⟨hxs.1, hxs.2.1, ih hxs.2.2⟩

/-- None of the spans begins in front of the place where the first may begin. -/
lemma Spaced.le_start {hi : Nat} {xs : List Span} :
    ∀ {lo : Nat}, Spaced lo hi xs → ∀ s ∈ xs, lo ≤ s.start := by
  induction xs with
  | nil => intro lo _ s hs; cases hs
  | cons x xs ih =>
      intro lo h s hs
      rcases List.mem_cons.mp hs with rfl | hs
      · exact h.1
      · have hafter := ih h.2.2 s hs
        have hx := h.1
        have hnonempty := h.2.1
        omega

/-- Spans in a row begin at different offsets. -/
lemma Spaced.pairwise {hi : Nat} {xs : List Span} :
    ∀ {lo : Nat}, Spaced lo hi xs → xs.Pairwise fun s s' => s.start < s'.start := by
  induction xs with
  | nil => exact fun _ => .nil
  | cons x xs ih =>
      intro lo h
      refine .cons (fun s hs => ?_) (ih h.2.2)
      exact Nat.lt_of_lt_of_le h.2.1 (h.2.2.le_start s hs)

mutual

/-- The heads and durations of a state and of all that is in it, in the order of the text. -/
def StateDecl.marks : StateDecl → List Span
  | .mk head body _ => head.span :: bodyMarks body

/-- The heads and durations of a clause. -/
def Clause.marks : Clause → List Span
  | .binding _ => []
  | .invoke d => d.transitions.flatMap fun t => t.trigger.spans
  | .state d => d.marks
  | .transition d => d.trigger.spans

/-- The heads and durations of some clauses. -/
def bodyMarks : List Clause → List Span
  | [] => []
  | c :: rest => c.marks ++ bodyMarks rest

end

/-- The heads and durations of a clause of a machine. -/
def MachineClause.marks : MachineClause → List Span
  | .binding _ => []
  | .state d => d.marks

/-- The heads and durations of a declaration of the top level. -/
def Item.marks : Item → List Span
  | .machine d => d.body.flatMap MachineClause.marks
  | _ => []

/-- The spans of a trigger are spaced as its regions are laid. -/
lemma TriggerDecl.spaced_spans {t : TriggerDecl} {lo hi : Nat} (h : Laid lo hi t.regions) :
    Spaced lo hi t.spans := by
  cases t with
  | delay duration =>
      obtain ⟨hlo, hlt, -, hhi⟩ := laid_cons.mp h
      exact ⟨hlo, hlt, laid_nil.mp hhi⟩
  | _ => exact laid_nil.mp h

/-- What is spaced inside something is spaced around it. -/
lemma Spaced.mono {lo lo' hi hi' : Nat} {xs : List Span} (h : Spaced lo' hi' xs) (hlo : lo ≤ lo')
    (hhi : hi' ≤ hi) : Spaced lo hi xs := by
  have hend : Spaced hi' hi [] := hhi
  have hbegin : Spaced lo lo' [] := hlo
  have hspaced := (hend.append h).append hbegin
  rwa [List.nil_append, List.append_nil] at hspaced

/-- The marks of what is laid one after another, if the marks of each are spaced. -/
lemma spaced_flatMap {α : Type} {region : α → Region} {marks : α → List Span} : ∀ (as : List α),
    (∀ a ∈ as, ∀ lo hi, Laid lo hi [region a] → Spaced lo hi (marks a)) →
    ∀ {lo hi : Nat}, Laid lo hi (as.map region) → Spaced lo hi (as.flatMap marks)
  | [], _, lo, hi, h => laid_nil.mp h
  | a :: as, hmarks, lo, hi, h => by
      obtain ⟨ha, has⟩ := List.forall_mem_cons.mp hmarks
      obtain ⟨hlo, hlt, hinner, hrest⟩ := laid_cons.mp h
      have hfirst := ha lo (region a).span.stop
        (laid_cons.mpr ⟨hlo, hlt, hinner, laid_nil.mpr (Nat.le_refl _)⟩)
      rw [List.flatMap_cons]
      exact (spaced_flatMap as has hrest).append hfirst

/-- The duration of a transition lies in its region. -/
lemma TransitionDecl.spaced_marks (d : TransitionDecl) (lo hi : Nat)
    (h : Laid lo hi [d.region]) : Spaced lo hi d.trigger.spans := by
  obtain ⟨hlo, -, hinner, hhi⟩ := laid_cons.mp h
  exact (TriggerDecl.spaced_spans hinner).mono hlo (laid_nil.mp hhi)

mutual

/-- The head of a state comes before all that is marked inside it. -/
lemma StateDecl.spaced_marks : ∀ (d : StateDecl) (lo hi : Nat), Laid lo hi [d.region] →
    Spaced lo hi d.marks
  | .mk head body span, lo, hi, h => by
      rw [StateDecl.region] at h
      rw [StateDecl.marks]
      obtain ⟨hlo, -, hinner, hhi⟩ := laid_cons.mp h
      obtain ⟨hhead, hlt, -, hbody⟩ := laid_cons.mp hinner
      have hspaced : Spaced span.start span.stop (head.span :: bodyMarks body) :=
        ⟨hhead, hlt, spaced_bodyMarks body _ _ hbody⟩
      exact hspaced.mono hlo (laid_nil.mp hhi)

/-- The marks of a clause lie in its region, in order. -/
lemma Clause.spaced_marks : ∀ (c : Clause) (lo hi : Nat), Laid lo hi [c.region] →
    Spaced lo hi c.marks
  | .binding d, lo, hi, h => by
      rw [Clause.region] at h
      rw [Clause.marks]
      exact h.le
  | .invoke d, lo, hi, h => by
      rw [Clause.region] at h
      rw [Clause.marks]
      obtain ⟨hlo, -, hinner, hhi⟩ := laid_cons.mp h
      exact (spaced_flatMap _ (fun t _ => t.spaced_marks) hinner).mono hlo (laid_nil.mp hhi)
  | .state d, lo, hi, h => by
      rw [Clause.region] at h
      rw [Clause.marks]
      exact d.spaced_marks lo hi h
  | .transition d, lo, hi, h => by
      rw [Clause.region] at h
      rw [Clause.marks]
      exact d.spaced_marks lo hi h

/-- The marks of a body follow one another as its clauses do. -/
lemma spaced_bodyMarks : ∀ (body : List Clause) (lo hi : Nat), Laid lo hi (bodyRegions body) →
    Spaced lo hi (bodyMarks body)
  | [], lo, hi, h => by
      rw [bodyRegions] at h
      rw [bodyMarks]
      exact laid_nil.mp h
  | c :: rest, lo, hi, h => by
      rw [bodyRegions] at h
      rw [bodyMarks]
      obtain ⟨hlo, hlt, hinner, hrest⟩ := laid_cons.mp h
      have hfirst := c.spaced_marks lo c.region.span.stop
        (laid_cons.mpr ⟨hlo, hlt, hinner, laid_nil.mpr (Nat.le_refl _)⟩)
      exact (spaced_bodyMarks rest _ _ hrest).append hfirst

end

/-- **The marks of a declaration** lie in its region, in order. -/
lemma Item.spaced_marks (item : Item) (lo hi : Nat) (h : Laid lo hi [item.region]) :
    Spaced lo hi item.marks := by
  cases item with
  | machine d =>
      obtain ⟨hlo, -, hinner, hhi⟩ := laid_cons.mp h
      refine (spaced_flatMap d.body (fun c _ lo hi hc => ?_) hinner).mono hlo (laid_nil.mp hhi)
      cases c with
      | binding b => exact hc.le
      | state s => exact s.spaced_marks lo hi hc
  | _ => exact h.le

/-- **The heads and durations of a chart follow each other** in its text. -/
lemma spaced_of_parse {text : String} {items : List Item} (h : parse text = .ok items) :
    ∃ hi, Spaced 0 hi (items.flatMap Item.marks) := by
  obtain ⟨hi, hlaid⟩ := laid_of_parse h
  exact ⟨hi, spaced_flatMap items (fun item _ => item.spaced_marks) hlaid⟩

end Statechart.Language
