import Statechart.Language.Grammar
import Statechart.Proofs.Language.Lexing
import Statechart.Source.Line

/-!
# Spans lie in their text

A parser moves its cursor forward, character by character, and never beyond the end of the text.
So the spans of all declarations begin and end between characters of the text that they were read
from, and so is the place at which a text that cannot be read is given up.

* `Boundary` — an offset between two characters of a text, or at one of its ends.
* `Keeps` — a parser keeps to the text, and its value has a given property.
* `Item.spans` — the spans of a declaration and of all that is in it.

**`within_of_parse`**, **`offset_of_parse`** — the spans of a chart, and the place of a failure.
-/

namespace Statechart

/-- The offset is one at which a character of the text begins, or the end of the text. -/
def Boundary (text : List Char) (offset : Nat) : Prop :=
  ∃ before after, text = before ++ after ∧ byteLength before = offset

/-- A boundary is not behind the end of the text. -/
lemma Boundary.le {text : List Char} {offset : Nat} (h : Boundary text offset) :
    offset ≤ byteLength text := by
  obtain ⟨before, after, rfl, rfl⟩ := h
  rw [byteLength_append]
  exact Nat.le_add_right _ _

lemma boundary_zero (text : List Char) : Boundary text 0 := ⟨[], text, rfl, rfl⟩

/-- The span lies in a text, and begins and ends between its characters. -/
def Span.Within (text : List Char) (s : Span) : Prop :=
  s.start ≤ s.stop ∧ Boundary text s.start ∧ Boundary text s.stop

namespace Language

/-- The cursor stands in a text. -/
def Cursor.In (text : List Char) (c : Cursor) : Prop :=
  ∃ before, text = before ++ c.rest ∧ byteLength before = c.offset

/-- A cursor in a text stands between two characters of it. -/
lemma Cursor.In.boundary {text : List Char} {c : Cursor} (h : c.In text) :
    Boundary text c.offset := by
  obtain ⟨before, htext, hoffset⟩ := h
  exact ⟨before, c.rest, htext, hoffset⟩

/-- The second cursor stands behind some characters that come next at the first. -/
def Cursor.Reaches (c c' : Cursor) : Prop :=
  ∃ taken, c.rest = taken ++ c'.rest ∧ c'.offset = c.offset + byteLength taken

namespace Cursor.Reaches

variable {c c' c'' : Cursor}

lemma refl (c : Cursor) : c.Reaches c := ⟨[], rfl, rfl⟩

/-- To go on from where one has come to. -/
lemma trans (h : c.Reaches c') (h' : c'.Reaches c'') : c.Reaches c'' := by
  obtain ⟨taken, hrest, hoffset⟩ := h
  obtain ⟨taken', hrest', hoffset'⟩ := h'
  refine ⟨taken ++ taken', by rw [hrest, hrest', List.append_assoc], ?_⟩
  rw [hoffset', hoffset, byteLength_append, Nat.add_assoc]

/-- Behind the first character. -/
lemma char (x : Char) (xs : List Char) (offset : Nat) :
    Reaches ⟨x :: xs, offset⟩ ⟨xs, offset + x.utf8Size⟩ := ⟨[x], rfl, rfl⟩

/-- Cursors never move back. -/
lemma le (h : c.Reaches c') : c.offset ≤ c'.offset := by
  obtain ⟨taken, -, hoffset⟩ := h
  rw [hoffset]
  exact Nat.le_add_right _ _

/-- What is reached from a cursor in a text is in that text. -/
lemma keeps_in (h : c.Reaches c') {text : List Char} (hc : c.In text) : c'.In text := by
  obtain ⟨taken, hrest, hoffset⟩ := h
  obtain ⟨before, htext, hbefore⟩ := hc
  refine ⟨before ++ taken, by rw [htext, hrest, List.append_assoc], ?_⟩
  rw [byteLength_append, hbefore, hoffset]

end Cursor.Reaches

namespace Parser

variable {α β : Type} {text : List Char} {Q : α → Prop} {R : β → Prop}

/-- The parser moves forward and stays in the text, its value has the property `Q`, and whatever it
misses it misses in the text. -/
structure Keeps (text : List Char) (Q : α → Prop) (p : Parser α) : Prop where
  outcome : ∀ {c : Cursor} {a : α} {c' : Cursor}, c.In text → (p c).outcome = some (a, c') →
    c'.In text ∧ c.offset ≤ c'.offset ∧ Q a
  record : ∀ {c : Cursor} {attempts : Attempts}, c.In text → Boundary text attempts.offset →
    Boundary text ((p c).record attempts).offset

/-- The parser keeps to the text, whatever its value. -/
abbrev Stays (text : List Char) (p : Parser α) : Prop := Keeps text (fun _ => True) p

lemma Keeps.stays {p : Parser α} (hp : Keeps text Q p) : Stays text p where
  outcome hc h := ⟨(hp.outcome hc h).1, (hp.outcome hc h).2.1, trivial⟩
  record := hp.record

/-! ## Combinators -/

/-- A parser that takes nothing stays where it is. -/
lemma keeps_pure {a : α} (h : Q a) : Keeps text Q (pure a) where
  outcome hc hout := by
    cases hout
    exact ⟨hc, Nat.le_refl _, h⟩
  record _ hattempts := hattempts

lemma keeps_reject : Keeps text Q reject where
  outcome _ hout := by cases hout
  record _ hattempts := hattempts

/-- One parser after another, where the second may rely on what the first has found. -/
lemma Keeps.bind {p : Parser α} {q : α → Parser β} (hp : Keeps text Q p)
    (hq : ∀ a, Q a → Keeps text R (q a)) : Keeps text R (p >>= q) where
  outcome {c b c''} hc hout := by
    rw [outcome_bind] at hout
    obtain ⟨⟨a, c'⟩, hfirst, hsecond⟩ := Option.bind_eq_some_iff.mp hout
    obtain ⟨hc', hle, ha⟩ := hp.outcome hc hfirst
    obtain ⟨hc'', hle', hb⟩ := (hq a ha).outcome hc' hsecond
    exact ⟨hc'', Nat.le_trans hle hle', hb⟩
  record {c attempts} hc hattempts := by
    have hfirst := hp.record hc hattempts
    have hout := @hp.outcome c
    show Boundary text ((andThen p q c).record attempts).offset
    unfold andThen
    generalize p c = reply at hfirst hout ⊢
    rcases reply with ⟨_ | ⟨a, c'⟩, record⟩
    · exact hfirst
    · obtain ⟨hc', -, ha⟩ := hout hc rfl
      exact (hq a ha).record hc' hfirst

/-- A parser that is tried when another has failed begins where that one began. -/
lemma Keeps.orElse {p q : Parser α} (hp : Keeps text Q p) (hq : Keeps text Q q) :
    Keeps text Q (p <|> q) where
  outcome {c a c'} hc hout := by
    rw [outcome_orElse, Option.or_eq_some_iff] at hout
    rcases hout with hout | ⟨-, hout⟩
    · exact hp.outcome hc hout
    · exact hq.outcome hc hout
  record {c attempts} hc hattempts := by
    have hfirst := hp.record hc hattempts
    show Boundary text ((Parser.orElse p (fun _ => q) c).record attempts).offset
    unfold Parser.orElse
    generalize p c = reply at hfirst ⊢
    rcases reply with ⟨_ | found, record⟩
    · exact hq.record hc hfirst
    · exact hfirst

/-- What is missed at a place in the text is noted there, or further on where something was missed
before. -/
lemma offset_miss {attempts : Attempts} {offset : Nat} (h : Boundary text attempts.offset)
    (hoffset : Boundary text offset) (name : Rule) (before : Nat) :
    Boundary text (attempts.miss name offset before).offset := by
  unfold Attempts.miss
  split
  · exact h
  · split
    · exact hoffset
    · split
      · exact hoffset
      · exact h

/-- A rule locates its value in the text. -/
lemma Keeps.rule {p : Parser α} (hp : Keeps text Q p) (name : Rule) :
    Keeps text (fun l => Q l.value ∧ l.span.Within text) (Parser.rule name p) where
  outcome {c l c'} hc hout := by
    rw [outcome_rule] at hout
    obtain ⟨⟨a, c₁⟩, hfirst, hl⟩ := Option.map_eq_some_iff.mp hout
    obtain ⟨hc₁, hle, ha⟩ := hp.outcome hc hfirst
    cases hl
    exact ⟨hc₁, hle, ha, hle, hc.boundary, hc₁.boundary⟩
  record {c attempts} hc hattempts := by
    have hfirst := hp.record hc hattempts
    show Boundary text ((Parser.rule name p c).record attempts).offset
    unfold Parser.rule
    generalize p c = reply at hfirst ⊢
    rcases reply with ⟨_ | ⟨a, c'⟩, record⟩
    · exact offset_miss hfirst hc.boundary _ _
    · exact hfirst

/-- If the value is there, it has the property. -/
lemma Keeps.optional {p : Parser α} (hp : Keeps text Q p) :
    Keeps text (fun o => ∀ a ∈ o, Q a) (Parser.optional p) := by
  refine Keeps.orElse (hp.bind fun a ha => keeps_pure ?_) (keeps_pure (by simp))
  rintro b ⟨⟩
  exact ha

/-- Repetition keeps to the text, by induction on what is left of it. -/
lemma many_keeps {p : Parser α} (hp : Keeps text Q p) (c : Cursor) (hc : c.In text) :
    (∀ as c', (Parser.many p c).outcome = some (as, c') →
      c'.In text ∧ c.offset ≤ c'.offset ∧ ∀ a ∈ as, Q a) ∧
    ∀ attempts : Attempts, Boundary text attempts.offset →
      Boundary text ((Parser.many p c).record attempts).offset := by
  induction hn : c.rest.length using Nat.strongRecOn generalizing c with
  | _ n ih =>
      subst hn
      have hrecord := @hp.record c
      have hout := @hp.outcome c
      rw [Parser.many]
      generalize p c = reply at hrecord hout ⊢
      rcases reply with ⟨_ | ⟨a, c'⟩, record⟩
      · refine ⟨fun as c' h => ?_, fun attempts h => hrecord hc h⟩
        cases h
        exact ⟨hc, Nat.le_refl _, by simp⟩
      · obtain ⟨hc', hle, ha⟩ := hout hc rfl
        by_cases hlt : c'.rest.length < c.rest.length
        · obtain ⟨hmore, hrecord'⟩ := ih _ hlt c' hc' rfl
          simp only [if_pos hlt]
          refine ⟨fun as c'' h => ?_, fun attempts h => hrecord' _ (hrecord hc h)⟩
          obtain ⟨⟨as, last⟩, hmany, hfound⟩ := Option.map_eq_some_iff.mp h
          cases hfound
          obtain ⟨hlast, hle', has⟩ := hmore as last hmany
          exact ⟨hlast, Nat.le_trans hle hle', List.forall_mem_cons.mpr ⟨ha, has⟩⟩
        · simp only [if_neg hlt]
          refine ⟨fun as c'' h => ?_, fun attempts h => hrecord hc h⟩
          cases h
          exact ⟨hc', hle, by simpa using ha⟩

/-- All values have the property if each of them has. -/
lemma Keeps.many {p : Parser α} (hp : Keeps text Q p) :
    Keeps text (fun as => ∀ a ∈ as, Q a) (Parser.many p) where
  outcome hc hout := (many_keeps hp _ hc).1 _ _ hout
  record hc hattempts := (many_keeps hp _ hc).2 _ hattempts

/-! ## Leaves -/

/-- A parser that records nothing keeps to the text if its cursor does. -/
lemma keeps_leaf {p : Parser α} (hrecord : ∀ c, (p c).record = id)
    (hout : ∀ {c : Cursor} {a : α} {c' : Cursor}, (p c).outcome = some (a, c') → c.Reaches c') :
    Stays text p where
  outcome hc h := ⟨(hout h).keeps_in hc, (hout h).le, trivial⟩
  record _ hattempts := by
    rw [hrecord]
    exact hattempts

/-- Behind a row of characters, if they come next. -/
lemma afterChars_reaches (es : List Char) : ∀ {c c' : Cursor}, afterChars es c = some c' →
    c.Reaches c' := by
  induction es with
  | nil =>
      intro c c' h
      cases h
      exact .refl c
  | cons e es ih =>
      rintro ⟨_ | ⟨x, xs⟩, offset⟩ c' h
      · cases h
      · rw [afterChars] at h
        split at h
        · exact (Cursor.Reaches.char x xs offset).trans (ih h)
        · cases h

/-- Behind a fixed word that is taken, the cursor is still in the text. -/
lemma keeps_literal (word : String) : Stays text (literal word) := by
  refine keeps_leaf (fun _ => rfl) fun {c a c'} h => ?_
  obtain ⟨c₁, hafter, hc₁⟩ := Option.map_eq_some_iff.mp h
  cases hc₁
  exact afterChars_reaches _ hafter

/-- Behind all characters of a class that come next. -/
lemma spanChars_reaches (isIn : Char → Bool) (xs : List Char) : ∀ offset,
    Cursor.Reaches ⟨xs, offset⟩ (spanChars isIn xs offset).2 := by
  induction xs with
  | nil => intro offset; exact .refl _
  | cons x xs ih =>
      intro offset
      rw [spanChars]
      split
      · exact (Cursor.Reaches.char x xs offset).trans (ih (offset + x.utf8Size))
      · exact .refl _

/-- A row of characters of a class ends in the text. -/
lemma keeps_charsWhile (isIn : Char → Bool) :
    Stays text (charsWhile isIn) := by
  refine keeps_leaf (fun _ => rfl) fun {c a c'} h => ?_
  have hspan := spanChars_reaches isIn c.rest c.offset
  rw [Option.some.inj h] at hspan
  exact hspan

/-- Behind a character that is taken, the cursor is still in the text. -/
lemma keeps_char (isIn : Char → Bool) : Stays text (char isIn) := by
  refine keeps_leaf (fun c => ?_) fun {c a c'} h => ?_
  · unfold char
    split
    · rfl
    · split <;> rfl
  · obtain ⟨rest, offset⟩ := c
    unfold char at h
    split at h
    · cases h
    · next x xs hrest =>
      split at h
      · cases h
        obtain rfl : rest = a :: xs := hrest
        exact .char _ _ _
      · cases h

/-- A look at the next character moves nothing. -/
lemma keeps_notBefore (isIn : Char → Bool) :
    Stays text (notBefore isIn) := by
  refine keeps_leaf (fun c => ?_) fun {c a c'} h => ?_
  · unfold notBefore
    split
    · rfl
    · split <;> rfl
  · unfold notBefore at h
    split at h
    · cases h
      exact .refl _
    · split at h
      · cases h
      · cases h
        exact .refl _

/-- The end of the text is a place in it. -/
lemma keeps_atEnd : Stays text atEnd := by
  refine keeps_leaf (fun c => ?_) fun {c a c'} h => ?_
  · unfold atEnd
    split <;> rfl
  · unfold atEnd at h
    split at h
    · cases h
      exact .refl _
    · cases h

/-- Behind blank characters and comments. -/
lemma skipFrom_reaches (comment : Bool) (xs : List Char) (offset : Nat) :
    Cursor.Reaches ⟨xs, offset⟩ (skipFrom comment xs offset) := by
  fun_induction skipFrom comment xs offset with
  | case1 => exact .refl _
  | case2 x xs offset ih => exact (Cursor.Reaches.char x xs offset).trans ih
  | case3 xs offset ih =>
      have hslashes : Cursor.Reaches ⟨'/' :: '/' :: xs, offset⟩ ⟨xs, offset + 2⟩ :=
        ⟨['/', '/'], rfl, rfl⟩
      exact hslashes.trans ih
  | case4 x xs offset _ _ ih => exact (Cursor.Reaches.char x xs offset).trans ih
  | case5 => exact .refl _

/-- What is skipped is in the text. -/
lemma keeps_skip : Stays text skip := by
  refine keeps_leaf (fun _ => rfl) fun {c a c'} h => ?_
  have hskip := skipFrom_reaches false c.rest c.offset
  rw [(Prod.mk.inj (Option.some.inj h)).2] at hskip
  exact hskip

lemma keeps_blanks : Stays text blanks :=
  (keeps_char _).bind fun _ _ => (keeps_charsWhile _).bind fun _ _ => keeps_pure trivial

/-- The same with blank text and comments between the values. -/
lemma Keeps.manySpaced {p : Parser α} (hp : Keeps text Q p) :
    Keeps text (fun as => ∀ a ∈ as, Q a) (Parser.manySpaced p) := by
  refine Keeps.orElse ?_ (keeps_pure (by simp))
  refine hp.bind fun a ha => (keeps_skip.bind fun _ _ => hp).many.bind fun as has => keeps_pure ?_
  exact List.forall_mem_cons.mpr ⟨ha, has⟩

end Parser

/-! ## The spans of declarations -/

def BindingDecl.spans (d : BindingDecl) : List Span := [d.head, d.span]

def TriggerDecl.spans : TriggerDecl → List Span
  | delay duration => [duration.span]
  | _ => []

def TransitionDecl.spans (d : TransitionDecl) : List Span := d.span :: d.trigger.spans

def InvokeDecl.spans (d : InvokeDecl) : List Span :=
  d.span :: d.transitions.flatMap TransitionDecl.spans

mutual

/-- The spans of a state and of all that is in it. -/
def StateDecl.spans : StateDecl → List Span
  | .mk head body span => span :: head.span :: bodySpans body

/-- The spans of a clause. -/
def Clause.spans : Clause → List Span
  | .binding d => d.spans
  | .invoke d => d.spans
  | .state d => d.spans
  | .transition d => d.spans

/-- The spans of some clauses. -/
def bodySpans : List Clause → List Span
  | [] => []
  | c :: rest => c.spans ++ bodySpans rest

end

def MachineClause.spans : MachineClause → List Span
  | .binding d => d.spans
  | .state d => d.spans

def MachineDecl.spans (d : MachineDecl) : List Span :=
  d.span :: d.body.flatMap MachineClause.spans

def ImportDecl.spans (d : ImportDecl) : List Span := d.span :: d.specifiers.map (·.span)

/-- The spans of a declaration and of all that is in it. -/
def Item.spans : Item → List Span
  | .importDecl d => d.spans
  | .binding d => d.spans
  | .machine d => d.spans

/-- The spans of a body are those of its clauses. -/
lemma bodySpans_eq (body : List Clause) : bodySpans body = body.flatMap Clause.spans := by
  induction body with
  | nil => rw [bodySpans]; rfl
  | cons c rest ih => rw [bodySpans, ih, List.flatMap_cons]

/-! ## The grammar -/

namespace Grammar

open Statechart.Language.Parser

variable {text : List Char}

/-- All spans lie in the text. -/
def AllWithin (text : List Char) (spans : List Span) : Prop := ∀ s ∈ spans, s.Within text

lemma allWithin_cons {s : Span} {spans : List Span} (hs : s.Within text)
    (h : AllWithin text spans) : AllWithin text (s :: spans) :=
  List.forall_mem_cons.mpr ⟨hs, h⟩

/-- The spans of a row lie in the text if those of each of its members do. -/
lemma allWithin_flatMap {α : Type} {as : List α} {spans : α → List Span}
    (h : ∀ a ∈ as, AllWithin text (spans a)) : AllWithin text (as.flatMap spans) := by
  intro s hs
  obtain ⟨a, ha, hs⟩ := List.mem_flatMap.mp hs
  exact h a ha s hs

/-- A rule whose value is put into another form. -/
lemma keeps_declare {α β : Type} {Q : α → Prop} {R : β → Prop} {p : Parser α}
    (hp : Keeps text Q p) (name : Rule) {f : Located α → β}
    (hf : ∀ l, Q l.value → l.span.Within text → R (f l)) :
    Keeps text R (do return f (← rule name p)) :=
  (hp.rule name).bind fun l hl => keeps_pure (hf l hl.1 hl.2)

/-- A value that is put into another form. -/
lemma keeps_map {α β : Type} {Q : α → Prop} {R : β → Prop} {p : Parser α}
    (hp : Keeps text Q p) {f : α → β} (hf : ∀ a, Q a → R (f a)) :
    Keeps text R (do return f (← p)) :=
  hp.bind fun a ha => keeps_pure (hf a ha)

lemma keeps_name : Stays text name :=
  (keeps_char _).bind fun _ _ => (keeps_charsWhile _).bind fun _ _ => keeps_pure trivial

lemma keeps_ident : Keeps text (fun l => True ∧ l.span.Within text) ident := keeps_name.rule _

/-- A name that is used has no span of its own, with or without a colon. -/
lemma keeps_named : Stays text named := by
  have hsymbol : Stays text (do literal ":"; return (← ident).value) :=
    (keeps_literal _).bind fun _ _ => keeps_map keeps_ident fun _ _ => trivial
  exact (keeps_declare hsymbol _ fun _ _ _ => trivial).orElse
    (keeps_map keeps_ident fun _ _ => trivial)

/-- Strings are read within the text, whichever quotes they have. -/
lemma keeps_string : Stays text string := by
  have hquoted : ∀ quote, Stays text (quotedBy quote) := fun quote =>
    (keeps_literal _).bind fun _ _ => (keeps_charsWhile _).bind fun _ _ =>
      (keeps_literal _).bind fun _ _ => keeps_pure trivial
  exact (((hquoted '\'').orElse (hquoted '"')).rule .string).stays

/-! ### Imports -/

/-- Each specifier is located by its own span. -/
lemma keeps_specifierNames :
    Keeps text (fun names => ∀ l ∈ names, True ∧ l.span.Within text) specifierNames := by
  refine keeps_ident.bind fun first hfirst => keeps_skip.bind fun _ _ => ?_
  refine Keeps.bind (Q := fun names => ∀ l ∈ names, True ∧ l.span.Within text)
    (Keeps.manySpaced ((keeps_literal _).bind fun _ _ => keeps_skip.bind fun _ _ => keeps_ident))
    fun more hmore => ?_
  exact keeps_skip.bind fun _ _ => (keeps_literal _).optional.bind fun _ _ =>
    keeps_pure (List.forall_mem_cons.mpr ⟨hfirst, hmore⟩)

/-- A list of specifiers has a span, and so has each of them. -/
lemma keeps_specifiers :
    Keeps text (fun l => (∀ s ∈ l.value, True ∧ s.span.Within text) ∧ l.span.Within text)
      specifiers := by
  refine Keeps.rule (Q := fun names : List (Located String) =>
    ∀ s ∈ names, True ∧ s.span.Within text) ?_ .specifiers
  refine (keeps_literal _).bind fun _ _ => keeps_skip.bind fun _ _ =>
    keeps_specifierNames.optional.bind fun names hnames => keeps_skip.bind fun _ _ =>
      (keeps_literal _).bind fun _ _ => keeps_pure ?_
  cases names with
  | none => simp
  | some names => exact hnames names rfl

/-- An import mentions its own span and those of its specifiers. -/
lemma keeps_importDecl : Keeps text (fun d => AllWithin text d.spans) importDecl := by
  refine keeps_declare (Q := fun v => ∀ s ∈ v.2, True ∧ s.span.Within text) ?_ .importDecl
    fun l hl hspan => ?_
  · refine (keeps_literal _).bind fun _ _ => keeps_skip.bind fun _ _ =>
      keeps_string.bind fun _ _ => keeps_skip.bind fun _ _ =>
        keeps_specifiers.optional.bind fun names hnames => keeps_pure ?_
    cases names with
    | none => simp
    | some names => exact (hnames names rfl).1
  · refine allWithin_cons hspan fun s hs => ?_
    obtain ⟨specifier, hspecifier, rfl⟩ := List.mem_map.mp hs
    exact (hl specifier hspecifier).2

/-! ### Bindings -/

/-- An assignment has no span of its own. -/
lemma keeps_assignExpr : Stays text assignExpr := by
  refine keeps_declare (Q := fun _ => True) ?_ .assignExpr fun _ _ _ => trivial
  exact (keeps_literal _).bind fun _ _ => keeps_skip.bind fun _ _ =>
    (keeps_literal _).bind fun _ _ => keeps_skip.bind fun _ _ =>
      keeps_ident.bind fun _ _ => keeps_skip.bind fun _ _ =>
        ((keeps_literal _).bind fun _ _ => keeps_skip.bind fun _ _ => keeps_named).optional.bind
          fun _ _ => keeps_skip.bind fun _ _ => (keeps_literal _).bind fun _ _ =>
            keeps_pure trivial

/-- One of two words. -/
lemma keeps_words {α : Type} (first second : String) (a b : α) :
    Stays text ((do literal first; return a) <|> (do literal second; return b)) :=
  ((keeps_literal _).bind fun _ _ => keeps_pure trivial).orElse
    ((keeps_literal _).bind fun _ _ => keeps_pure trivial)

lemma keeps_bindingKind : Stays text bindingKind :=
  keeps_declare (keeps_words _ _ _ _) _ fun _ _ _ => trivial

/-- The head of a binding, which warnings point at, lies in the text. -/
lemma keeps_bindingHead :
    Keeps text (fun l => True ∧ l.span.Within text) bindingHead := by
  refine Keeps.rule (Q := fun _ => True) ?_ .bindingHead
  exact keeps_bindingKind.bind fun _ _ => keeps_blanks.bind fun _ _ => keeps_ident.bind fun _ _ =>
    keeps_pure trivial

lemma keeps_bindingValue : Stays text bindingValue :=
  (keeps_map keeps_assignExpr fun _ _ => trivial).orElse (keeps_map keeps_named fun _ _ => trivial)

/-- A binding mentions its head and its own span. -/
lemma keeps_binding : Keeps text (fun d => AllWithin text d.spans) binding := by
  refine keeps_declare (Q := fun v => v.1.span.Within text) ?_ .binding fun l hl hspan => ?_
  · exact keeps_bindingHead.bind fun head hhead => keeps_skip.bind fun _ _ =>
      (keeps_literal _).bind fun _ _ => keeps_skip.bind fun _ _ =>
        keeps_bindingValue.bind fun _ _ => keeps_pure hhead.2
  · exact allWithin_cons hl (allWithin_cons hspan (by simp [AllWithin]))

/-! ### Transitions -/

lemma keeps_timeUnit : Stays text timeUnit :=
  keeps_declare (keeps_words _ _ _ _) _ fun _ _ _ => trivial

/-- A duration is located, so that one that is too long can be shown. -/
lemma keeps_duration : Keeps text (fun d => d.span.Within text) duration := by
  refine keeps_declare (Q := fun _ => True) ?_ .duration fun _ _ hspan => hspan
  have hdigits : Stays text (do
      let first ← char Char.isDigit
      let rest ← charsWhile Char.isDigit
      return first :: rest) :=
    (keeps_char _).bind fun _ _ => (keeps_charsWhile _).bind fun _ _ => keeps_pure trivial
  have hnumber : Stays text number := keeps_declare hdigits _ fun _ _ _ => trivial
  exact hnumber.bind fun _ _ => keeps_timeUnit.optional.bind fun _ _ => keeps_pure trivial

/-- The span of a delay is that of its duration. -/
lemma keeps_delay : Keeps text (fun d => d.span.Within text) delay := by
  refine keeps_declare (Q := fun d => d.span.Within text) ?_ .delay fun _ h _ => h
  exact (keeps_literal _).bind fun _ _ => keeps_skip.bind fun _ _ =>
    (keeps_literal _).bind fun _ _ => keeps_skip.bind fun _ _ =>
      keeps_duration.bind fun d hd => keeps_skip.bind fun _ _ =>
        (keeps_literal _).bind fun _ _ => keeps_pure hd

lemma keeps_immediate : Stays text immediate :=
  keeps_declare ((keeps_literal _).bind fun _ _ => keeps_notBefore _) _ fun _ _ _ => trivial

lemma keeps_event : Stays text event := keeps_declare keeps_name _ fun _ _ _ => trivial

lemma keeps_target : Stays text target := keeps_declare keeps_name _ fun _ _ _ => trivial

/-- Only delays have a span. -/
lemma keeps_trigger : Keeps text (fun t => AllWithin text t.spans) trigger := by
  refine Keeps.orElse
    (keeps_immediate.bind fun _ _ => keeps_pure (by simp [AllWithin, TriggerDecl.spans]))
    (Keeps.orElse (keeps_map keeps_delay fun d hd => ?_) (keeps_map keeps_event fun _ _ => ?_))
  · exact allWithin_cons hd (by simp [AllWithin])
  · simp [AllWithin, TriggerDecl.spans]

/-- The steps of a transition have no spans. -/
lemma keeps_step : Stays text step := by
  have hcall : ∀ name word, Stays text (stepCall name word) := fun name word => by
    refine keeps_declare (Q := fun _ => True) ?_ name fun _ _ _ => trivial
    exact (keeps_literal _).bind fun _ _ => keeps_skip.bind fun _ _ =>
      (keeps_literal _).bind fun _ _ => keeps_skip.bind fun _ _ =>
        keeps_named.bind fun _ _ => keeps_skip.bind fun _ _ =>
          (keeps_literal _).bind fun _ _ => keeps_pure trivial
  exact (keeps_map (hcall _ _) fun _ _ => trivial).orElse
    ((keeps_map (hcall _ _) fun _ _ => trivial).orElse
      (keeps_map keeps_assignExpr fun _ _ => trivial))

/-- The steps of a transition, each with its arrow. -/
lemma keeps_steps : Stays text (manySpaced do
    let step ← step
    skip
    literal "=>"
    return step) :=
  (Keeps.manySpaced (keeps_step.bind fun _ _ => keeps_skip.bind fun _ _ =>
    (keeps_literal _).bind fun _ _ => keeps_pure (Q := fun _ => True) trivial)).stays

/-- A transition mentions its own span and that of its delay. -/
lemma keeps_transition : Keeps text (fun d => AllWithin text d.spans) transition := by
  refine keeps_declare (Q := fun v => AllWithin text v.1.spans) ?_ .transition
    fun l hl hspan => allWithin_cons hspan hl
  exact keeps_trigger.bind fun t ht => keeps_skip.bind fun _ _ =>
    (keeps_literal _).bind fun _ _ => keeps_skip.bind fun _ _ => keeps_steps.bind fun _ _ =>
      keeps_skip.bind fun _ _ => keeps_target.bind fun _ _ => keeps_pure ht

/-! ### Invocations -/

/-- The head of an invocation has no span. -/
lemma keeps_invokeHead : Stays text invokeHead := by
  have hpath : Stays text callRef := by
    refine keeps_declare (Q := fun _ => True) ?_ .callRef fun _ _ _ => trivial
    exact keeps_name.bind fun _ _ => (Keeps.many (Q := fun _ => True)
      ((keeps_literal _).bind fun _ _ => keeps_name.bind fun _ _ => keeps_pure trivial)).bind
        fun _ _ => keeps_pure trivial
  refine keeps_declare (Q := fun _ => True) ?_ .invokeHead fun _ _ _ => trivial
  exact (keeps_literal _).bind fun _ _ => keeps_blanks.bind fun _ _ => hpath

/-- An invocation mentions its own span and those of its transitions. -/
lemma keeps_invoke : Keeps text (fun d => AllWithin text d.spans) invoke := by
  refine keeps_declare (Q := fun v => ∀ t ∈ v.2, AllWithin text t.spans) ?_ .invoke
    fun l hl hspan => allWithin_cons hspan (allWithin_flatMap hl)
  exact keeps_invokeHead.bind fun _ _ => keeps_skip.bind fun _ _ =>
    (keeps_literal _).bind fun _ _ => keeps_skip.bind fun _ _ =>
      keeps_transition.manySpaced.bind fun _ hts => keeps_skip.bind fun _ _ =>
        (keeps_literal _).bind fun _ _ => keeps_pure hts

/-! ### States and machines -/

/-- Modifiers, with the blank characters behind them, are read within the text. -/
lemma keeps_modifiers : Stays text (many do
    let modifier ← stateModifier
    blanks
    return modifier) := by
  have hmodifier : Stays text stateModifier :=
    keeps_declare (keeps_words _ _ _ _) _ fun _ _ _ => trivial
  exact (Keeps.many (hmodifier.bind fun _ _ => keeps_blanks.bind fun _ _ =>
    keeps_pure (Q := fun _ => True) trivial)).stays

/-- The head of a state, which rejections and warnings point at, lies in the text. -/
lemma keeps_stateHead : Keeps text (fun h => h.span.Within text) stateHead := by
  refine keeps_declare (Q := fun _ => True) ?_ .stateHead fun _ _ hspan => hspan
  exact keeps_modifiers.bind fun _ _ => (keeps_literal _).bind fun _ _ =>
    keeps_blanks.bind fun _ _ => keeps_ident.bind fun _ _ => keeps_pure trivial

/-- The spans of a clause, if those of inner states lie in the text. -/
lemma keeps_clause {nested : Parser StateDecl}
    (h : Keeps text (fun d => AllWithin text d.spans) nested) :
    Keeps text (fun c => AllWithin text c.spans) (clause nested) := by
  refine Keeps.orElse ?_ (Keeps.orElse ?_ (Keeps.orElse ?_ ?_))
  · exact keeps_map keeps_binding fun d hd => by rw [Clause.spans]; exact hd
  · exact keeps_map keeps_invoke fun d hd => by rw [Clause.spans]; exact hd
  · exact keeps_map h fun d hd => by rw [Clause.spans]; exact hd
  · exact keeps_map keeps_transition fun d hd => by rw [Clause.spans]; exact hd

/-- The spans of a state, if those of inner states lie in the text. -/
lemma keeps_stateWith {nested : Parser StateDecl}
    (h : Keeps text (fun d => AllWithin text d.spans) nested) :
    Keeps text (fun d => AllWithin text d.spans) (stateWith nested) := by
  refine keeps_declare
    (Q := fun v => v.1.span.Within text ∧ ∀ c ∈ v.2, AllWithin text c.spans) ?_ .state
    fun l hl hspan => ?_
  · exact keeps_stateHead.bind fun _ hhead => keeps_skip.bind fun _ _ =>
      (keeps_literal _).bind fun _ _ => keeps_skip.bind fun _ _ =>
        (keeps_clause h).manySpaced.bind fun _ hbody => keeps_skip.bind fun _ _ =>
          (keeps_literal _).bind fun _ _ => keeps_pure ⟨hhead, hbody⟩
  · rw [StateDecl.spans, bodySpans_eq]
    exact allWithin_cons hspan (allWithin_cons hl.1 (allWithin_flatMap hl.2))

/-- A state of any depth mentions spans of the text only. -/
lemma keeps_state (levels : Nat) :
    Keeps text (fun d => AllWithin text d.spans) (state levels) := by
  induction levels with
  | zero => exact keeps_reject
  | succ levels ih => exact keeps_stateWith ih

/-- The head of a machine has no span. -/
lemma keeps_machineHead : Stays text machineHead := by
  refine keeps_declare (Q := fun _ => True) ?_ .machineHead fun _ _ _ => trivial
  refine (keeps_literal _).bind fun _ _ => (keeps_notBefore _).bind fun _ _ => ?_
  have hname : Stays text (do blanks; return (← ident).value) :=
    keeps_blanks.bind fun _ _ => keeps_map keeps_ident fun _ _ => trivial
  exact hname.optional.stays

/-- The spans of a clause of a machine. -/
lemma keeps_machineClause (levels : Nat) :
    Keeps text (fun c => AllWithin text c.spans) (machineClause levels) :=
  Keeps.orElse (keeps_map keeps_binding fun _ hd => hd)
    (keeps_map (keeps_state levels) fun _ hd => hd)

/-- A machine mentions its own span and those of its clauses. -/
lemma keeps_machine (levels : Nat) :
    Keeps text (fun d => AllWithin text d.spans) (machine levels) := by
  refine keeps_declare (Q := fun v => ∀ c ∈ v.2, AllWithin text c.spans) ?_ .machine
    fun l hl hspan => allWithin_cons hspan (allWithin_flatMap hl)
  exact keeps_machineHead.bind fun _ _ => keeps_skip.bind fun _ _ =>
    (keeps_literal _).bind fun _ _ => keeps_skip.bind fun _ _ =>
      (keeps_machineClause levels).manySpaced.bind fun _ hbody => keeps_skip.bind fun _ _ =>
        (keeps_literal _).bind fun _ _ => keeps_pure hbody

/-! ### Charts -/

/-- A chart mentions spans of its text only. -/
lemma keeps_file (levels : Nat) :
    Keeps text (fun items => ∀ item ∈ items, AllWithin text item.spans) (file levels) := by
  have hitem : Keeps text (fun item => AllWithin text item.spans) (item levels) := by
    refine Keeps.orElse ?_ (Keeps.orElse ?_ ?_)
    · exact keeps_map keeps_importDecl fun d hd => hd
    · exact keeps_map keeps_binding fun d hd => hd
    · exact keeps_map (keeps_machine levels) fun d hd => hd
  refine keeps_declare (Q := fun items => ∀ item ∈ items, AllWithin text item.spans) ?_ .file
    fun _ h _ => h
  exact keeps_skip.bind fun _ _ => hitem.manySpaced.bind fun _ hitems =>
    keeps_skip.bind fun _ _ => (keeps_atEnd.rule _).bind fun _ _ => keeps_pure hitems

end Grammar

open Statechart.Language.Grammar

/-- **The spans of a chart lie in its text.** -/
lemma within_of_parse {text : String} {items : List Item} (h : parse text = .ok items) :
    ∀ item ∈ items, ∀ s ∈ item.spans, s.Within text.toList := by
  unfold parse at h
  cases houtcome : (file (text.toList.length + 1) ⟨text.toList, 0⟩).outcome with
  | none => simp [houtcome] at h
  | some found =>
      simp only [houtcome, Except.ok.injEq] at h
      subst h
      have hstart : Cursor.In text.toList ⟨text.toList, 0⟩ := ⟨[], rfl, rfl⟩
      exact ((keeps_file _).outcome hstart houtcome).2.2

/-- **A text that cannot be read is given up inside it**, between two characters. -/
lemma offset_of_parse {text : String} {attempts : Attempts} (h : parse text = .error attempts) :
    Boundary text.toList attempts.offset := by
  unfold parse at h
  cases houtcome : (file (text.toList.length + 1) ⟨text.toList, 0⟩).outcome with
  | none =>
      simp only [houtcome, Except.error.injEq] at h
      subst h
      exact (keeps_file _).record ⟨[], rfl, rfl⟩ (boundary_zero _)
  | some found => simp [houtcome] at h

end Language

end Statechart
