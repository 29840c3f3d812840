import Statechart.Proofs.Language.Lexing

/-!
# What is accepted is a rendering

Rule by rule: the text that a rule accepts spells the tokens of the declaration that it returns.

* `Spells tokens p` — what `p` accepts spells the tokens of its value, and does not run on into
  the text behind it.
* `spells_row` — rows of declarations, with trivia between them.
* `spells_block` — rows between braces, as invocations, states and machines have them.
* `renders_of_file` — whole charts.

An import without specifiers takes the trivia behind it.  So what is said about rows of
declarations goes by where the next skip leads, and not by where a declaration stops.
-/

namespace Statechart.Language

open Statechart.Language.Parser Statechart.Language.Grammar

section tokens

variable {s t r u : List Char} {ts us : List Lexeme} {before last mid : Option Char}

/-- Tokens after tokens, with trivia between them. -/
lemma Begins.next (h : Begins ts s mid t) (ha : Apart mid t.head?)
    (h' : Begins us (clear t) last r) : Begins (ts ++ us) s last r := h.append (h'.spelling ha)

/-- A sign after tokens. -/
lemma Begins.sign {w : String} (h : Begins ts s mid t)
    (h' : Begins (sign w :: us) (clear t) last r)
    (hw : w.toList.head?.any isNameChar = false) : Begins (ts ++ Language.sign w :: us) s last r := by
  refine h.next (apart_of_clear (apart_of_after ?_)) h'
  obtain ⟨t, us, u, ⟨⟩, heq, hproper, -⟩ := h'
  have hne : w.toList ≠ [] := (Token.solid hproper).2
  rw [heq, Token.text, List.head?_append_of_ne_nil _ hne, hw]

variable {α β : Type}

/-- A block that begins with a fixed word begins with the token of that word. -/
lemma takes_word {w : String} {k : Unit → Parser α} {a : α} (h : Takes (literal w >>= k) s a r)
    (hw : w ∈ Token.fixedTexts) :
    ∃ t, Begins [sign w] s w.toList.getLast? t ∧ Takes (k ()) t a r := by
  obtain ⟨⟨⟩, t, hword, hk⟩ := takes_bind h
  exact ⟨t, begins_singleton.mpr ⟨hw, takes_literal hword, rfl⟩, hk⟩

/-- A block that begins with blank text and comments goes on behind them. -/
lemma takes_skip_bind {k : Unit → Parser α} {a : α} (h : Takes (skip >>= k) s a r) :
    Takes (k ()) (clear s) a r := by
  obtain ⟨⟨⟩, t, hskip, hk⟩ := takes_bind h
  rwa [takes_skip hskip] at hk

end tokens

/-! ## Rules without nesting -/

/-- What the parser accepts spells the tokens of its value, and does not run on into the text
behind it. -/
def Spells {α : Type} (tokens : α → List Lexeme) (p : Parser α) : Prop :=
  ∀ ⦃s a r⦄, Takes p s a r → ∃ last, Begins (tokens a) s last r ∧ Apart last r.head?

section spells

variable {α β : Type} {tokens : α → List Lexeme} {p q : Parser α}

lemma Spells.rule {name : Rule} (h : Spells tokens p) :
    Spells (fun a => tokens a.value) (Parser.rule name p) := fun _ _ _ htakes =>
  h (takes_rule htakes)

/-- Whichever of two parsers takes the text, its value is spelled there. -/
lemma Spells.orElse (hp : Spells tokens p) (hq : Spells tokens q) : Spells tokens (p <|> q) := by
  intro s a r htakes
  rcases takes_orElse htakes with htakes | htakes
  · exact hp htakes
  · exact hq htakes

/-- A value that is rearranged keeps its tokens. -/
lemma Spells.map {f : α → β} {tokens' : β → List Lexeme} (h : Spells tokens p)
    (hf : ∀ a, tokens' (f a) = tokens a) : Spells tokens' (p >>= fun a => pure (f a)) := by
  intro s b r htakes
  obtain ⟨a, rfl, hp⟩ := takes_map htakes
  rw [hf]
  exact h hp

end spells

/-- A name is a token by itself. -/
lemma spells_name : Spells (fun n => [plainName n]) name := by
  intro s n r h
  obtain ⟨hn, hs, hr⟩ := takes_name h
  exact ⟨_, begins_singleton.mpr ⟨hn, hs, rfl⟩, apart_of_after hr⟩

lemma spells_ident : Spells (fun n => [plainName n.value]) ident := spells_name.rule

/-- A symbol is one token, a name with a colon in front. -/
lemma spells_symbol : Spells (fun n => [(.free, .symbol n.value)]) symbol := by
  intro s n r h
  obtain ⟨⟨⟩, t, hcolon, hname⟩ := takes_bind (takes_rule h)
  obtain ⟨m, hm, hname⟩ := takes_map hname
  obtain ⟨hm', rfl, hr⟩ := takes_name (takes_rule hname)
  simp only [hm]
  exact ⟨_, begins_singleton.mpr ⟨hm', takes_literal hcolon, rfl⟩, apart_of_after hr⟩

lemma spells_named : Spells (fun use => [use.lexeme]) named :=
  (spells_symbol.map fun _ => rfl).orElse (spells_ident.map fun _ => rfl)

/-- An assignment is a key, with or without a value, between parentheses. -/
lemma spells_assignExpr : Spells AssignDecl.tokens assignExpr := by
  intro s d r hall
  obtain ⟨d, rfl, h⟩ := takes_map hall
  obtain ⟨s₁, hword, h⟩ := takes_word (takes_rule h) (by decide)
  obtain ⟨s₂, hopen, h⟩ := takes_word (takes_skip_bind h) (by decide)
  obtain ⟨key, s₃, hkey, h⟩ := takes_bind (takes_skip_bind h)
  obtain ⟨last, hkey, hend⟩ := spells_ident hkey
  obtain ⟨value, s₄, hvalue, h⟩ := takes_bind (takes_skip_bind h)
  obtain ⟨s₅, hclose, h⟩ := takes_word (takes_skip_bind h) (by decide)
  obtain ⟨hd, rfl⟩ := takes_pure h
  have hargument : Spelling last ((value.elim [] fun use => [sign ",", use.lexeme]) ++ [sign ")"])
      s₃ (some ')') r := by
    rcases takes_optional hvalue with ⟨use, rfl, huse⟩ | ⟨rfl, rfl⟩
    · obtain ⟨t, hcomma, huse⟩ := takes_word huse (by decide)
      obtain ⟨last', huse, hend'⟩ := spells_named (takes_skip_bind huse)
      exact ((hcomma.next (apart_of_before (by decide)) huse).sign hclose (by decide)).spelling hend
    · rw [clear_clear] at hclose
      exact hclose.spelling hend
  rw [hd]
  refine ⟨some ')', ?_, apart_of_before (by decide)⟩
  exact (hword.sign hopen (by decide)).next (apart_of_before (by decide)) (hkey.append hargument)

section words

variable {α : Type} {s t r v : List Char} {last : Option Char}

/-- A keyword stands for one value. -/
lemma takes_keyword {w : String} {a b : α} (h : Takes (do literal w; return a) s b r) :
    b = a ∧ s = w.toList ++ r := by
  obtain ⟨u, t, hword, hpure⟩ := takes_bind h
  obtain ⟨rfl, rfl⟩ := takes_pure hpure
  exact ⟨rfl, takes_literal hword⟩

/-- One of two words, which stand for a value each. -/
lemma takes_choice (word : α → String) {a b c : α} {name : Rule}
    (h : Takes (do
      let x ← rule name ((do literal (word a); return a) <|> (do literal (word b); return b))
      return x.value) s c r) : s = (word c).toList ++ r := by
  obtain ⟨x, rfl, hrule⟩ := takes_map h
  rcases takes_orElse (takes_rule hrule) with hword | hword
  · obtain ⟨heq, hs⟩ := takes_keyword hword
    rw [heq, hs]
  · obtain ⟨heq, hs⟩ := takes_keyword hword
    rw [heq, hs]

/-- A word of a head, in front of the others. -/
lemma begins_word {w : String} {x : Token} {ts : List Token} {u : Unit} (hs : s = w.toList ++ t)
    (hblanks : Takes blanks t u r) (h : Begins (headTokens (x :: ts)) r last v)
    (hw : w ∈ Token.fixedTexts) : Begins (headTokens (.fixed w :: x :: ts)) s last v := by
  obtain ⟨g, rfl, hgap⟩ := takes_blanks hblanks
  exact begins_headTokens.mpr ⟨hw, g, r, hs, hgap, h⟩

end words

/-- The head of a binding is its keyword and its name, with nothing but blank characters between
them. -/
lemma spells_bindingHead :
    Spells (fun head => headTokens [.fixed head.value.1.word, .name head.value.2]) bindingHead := by
  intro s head r h
  obtain ⟨kind, s₁, hkind, h⟩ := takes_bind (takes_rule h)
  obtain ⟨u, s₂, hblanks, h⟩ := takes_bind h
  obtain ⟨name, hhead, hname⟩ := takes_map h
  obtain ⟨last, hname, hend⟩ := spells_ident hname
  simp only [hhead]
  refine ⟨last, begins_word (takes_choice BindingKind.word (a := .guard) (b := .action) hkind) hblanks hname ?_, hend⟩
  cases kind <;> decide

/-- A name is bound to an assignment or to another name. -/
lemma spells_bindingValue : Spells BindingValue.tokens bindingValue := by
  refine Spells.orElse ?_ ?_
  · exact spells_assignExpr.map fun _ => rfl
  · exact spells_named.map fun _ => rfl

/-- A binding is its head, an equals sign and its value. -/
lemma spells_binding : Spells BindingDecl.tokens binding := by
  intro s d r hall
  obtain ⟨⟨⟨head, value⟩, span⟩, t, hdecl, hpure⟩ := takes_bind hall
  obtain ⟨rfl, rfl⟩ := takes_pure hpure
  obtain ⟨head', s₁, hhead, h⟩ := takes_bind (takes_rule hdecl)
  obtain ⟨s₂, heq, h⟩ := takes_word (takes_skip_bind h) (by decide)
  obtain ⟨value', hpair, hvalue⟩ := takes_map (takes_skip_bind h)
  obtain ⟨rfl, rfl⟩ := Prod.mk.inj hpair
  obtain ⟨last, hhead, hend⟩ := spells_bindingHead hhead
  obtain ⟨last', hvalue, hend'⟩ := spells_bindingValue hvalue
  have hassigned := heq.next (apart_of_before (by decide)) hvalue
  exact ⟨last', hhead.sign hassigned (by decide), hend'⟩

/-! ## Triggers and steps -/

/-- The trigger that waits for nothing is a word of its own. -/
lemma spells_immediate : Spells (fun _ => [sign "@immediate"]) immediate := by
  intro s a r h
  obtain ⟨u, -, h⟩ := takes_map h
  obtain ⟨t, hword, h⟩ := takes_word (takes_rule h) (by decide)
  obtain ⟨rfl, hend⟩ := takes_notBefore h
  exact ⟨_, hword, apart_of_after hend⟩

/-- A number is a row of digits, at least one. -/
lemma takes_number {s r digits : List Char} (hall : Takes number s digits r) :
    (digits ≠ [] ∧ ∀ d ∈ digits, d.isDigit = true) ∧ s = digits ++ r := by
  obtain ⟨digits, rfl, hrule⟩ := takes_map hall
  obtain ⟨d, t, hfirst, hrest⟩ := takes_bind (takes_rule hrule)
  obtain ⟨rfl, hd⟩ := takes_char hfirst
  obtain ⟨ds, hdigits, hmore⟩ := takes_map hrest
  obtain ⟨rfl, rfl⟩ := takes_charsWhile hmore
  rw [hdigits]
  refine ⟨⟨by simp, ?_⟩, ?_⟩
  · intro x hx
    rcases List.mem_cons.mp hx with rfl | hx
    · exact hd
    · exact List.mem_takeWhile_imp hx
  · rw [List.cons_append, List.takeWhile_append_dropWhile]

/-- A duration is one token, number and unit together. -/
lemma begins_duration {s r : List Char} {d : Duration} (hall : Takes duration s d r) :
    ∃ last, Begins [(.free, .number d.digits d.unit)] s last r := by
  obtain ⟨decl, rfl, h⟩ := takes_map hall
  obtain ⟨digits, t, hnumber, h⟩ := takes_bind (takes_rule h)
  obtain ⟨unit, hdecl, hunit⟩ := takes_map h
  obtain ⟨hproper, rfl⟩ := takes_number hnumber
  rw [hdecl]
  refine ⟨_, begins_singleton.mpr ⟨hproper, ?_, rfl⟩⟩
  rw [Token.text, List.append_assoc]
  congr 1
  rcases takes_optional hunit with ⟨u, rfl, hsome⟩ | ⟨rfl, rfl⟩
  · exact takes_choice TimeUnit.text (a := .milliseconds) (b := .seconds) hsome
  · rfl

/-- A delay is a duration between parentheses, behind its keyword. -/
lemma spells_delay : Spells (fun d => (TriggerDecl.delay d).tokens) delay := by
  intro s d r hall
  obtain ⟨d, rfl, h⟩ := takes_map hall
  obtain ⟨s₁, hword, h⟩ := takes_word (takes_rule h) (by decide)
  obtain ⟨s₂, hopen, h⟩ := takes_word (takes_skip_bind h) (by decide)
  obtain ⟨time, s₃, htime, h⟩ := takes_bind (takes_skip_bind h)
  obtain ⟨last, htime⟩ := begins_duration htime
  obtain ⟨s₄, hclose, h⟩ := takes_word (takes_skip_bind h) (by decide)
  obtain ⟨hd, rfl⟩ := takes_pure h
  rw [hd]
  refine ⟨some ')', ?_, apart_of_before (by decide)⟩
  exact (hword.sign hopen (by decide)).next (apart_of_before (by decide))
    (htime.sign hclose (by decide))

/-- A trigger is the word for none, a delay or the name of an event. -/
lemma spells_trigger : Spells TriggerDecl.tokens trigger := by
  refine Spells.orElse ?_ (Spells.orElse (spells_delay.map fun _ => rfl) ?_)
  · exact spells_immediate.map fun _ => rfl
  · exact (spells_name.rule.map fun _ => rfl).map fun _ => rfl

/-- A guard or an action is a name between parentheses, behind its keyword. -/
lemma spells_stepCall {w : String} (hw : w ∈ Token.fixedTexts) (name : Rule) :
    Spells (fun use => [sign w, sign "(", use.lexeme, sign ")"]) (stepCall name w) := by
  intro s use r hall
  obtain ⟨use, rfl, h⟩ := takes_map hall
  obtain ⟨s₁, hword, h⟩ := takes_word (takes_rule h) hw
  obtain ⟨s₂, hopen, h⟩ := takes_word (takes_skip_bind h) (by decide)
  obtain ⟨name, s₃, hname, h⟩ := takes_bind (takes_skip_bind h)
  obtain ⟨last, hname, -⟩ := spells_named hname
  obtain ⟨s₄, hclose, h⟩ := takes_word (takes_skip_bind h) (by decide)
  obtain ⟨huse, rfl⟩ := takes_pure h
  rw [huse]
  refine ⟨some ')', ?_, apart_of_before (by decide)⟩
  exact (hword.sign hopen (by decide)).next (apart_of_before (by decide))
    (hname.sign hclose (by decide))

/-- A step is a guard, an action or an assignment. -/
lemma spells_step : Spells StepDecl.tokens step := by
  refine Spells.orElse ?_ (Spells.orElse ?_ (spells_assignExpr.map fun _ => rfl))
  · exact (spells_stepCall (by decide) _).map fun _ => rfl
  · exact (spells_stepCall (by decide) _).map fun _ => rfl

/-! ## Rows -/

section rows

variable {α β : Type} {T : α → List Lexeme → Prop} {p : Parser α} {s t u r : List Char}
  {before last : Option Char} {as : List α}

/-- What the parser accepts spells tokens of its value, perhaps with trivia behind them. -/
def SpellsLoosely (T : α → List Lexeme → Prop) (p : Parser α) : Prop :=
  ∀ ⦃s a r⦄, Takes p s a r → ∃ ts last t, T a ts ∧ Begins ts s last t ∧ Apart last t.head? ∧
    clear t = clear r

/-- One spelling is a case of some spellings. -/
lemma Spells.loosely {tokens : α → List Lexeme} (h : Spells tokens p) :
    SpellsLoosely (fun a ts => ts = tokens a) p := by
  intro s a r htakes
  obtain ⟨last, hbegins, hend⟩ := h htakes
  exact ⟨_, last, r, rfl, hbegins, hend, rfl⟩

/-- Whichever of two parsers takes the text, it is one of the spellings of its value. -/
lemma SpellsLoosely.orElse {q : Parser α} (hp : SpellsLoosely T p) (hq : SpellsLoosely T q) :
    SpellsLoosely T (p <|> q) := by
  intro s a r htakes
  rcases takes_orElse htakes with htakes | htakes
  · exact hp htakes
  · exact hq htakes

/-- A value that is built from another has the spellings of that one. -/
lemma SpellsLoosely.map {f : α → β} {T' : β → List Lexeme → Prop} (hp : SpellsLoosely T p)
    (hf : ∀ a ts, T a ts → T' (f a) ts) : SpellsLoosely T' (p >>= fun a => pure (f a)) := by
  intro s b r htakes
  obtain ⟨a, rfl, ha⟩ := takes_map htakes
  obtain ⟨ts, last, t, hts, h⟩ := hp ha
  exact ⟨ts, last, t, hf a ts hts, h⟩

/-- The members of a row are spelled one behind the other, with trivia between them. -/
lemma SpellsLoosely.all (hp : SpellsLoosely T p) (h : TakesAll (do skip; p) u as r)
    (ht : clear t = clear u) (ha : Apart before t.head?) :
    ∃ ts last v, Row T as ts ∧ Spelling before ts t last v ∧ Apart last v.head? ∧
      clear v = clear r := by
  induction h generalizing t before with
  | nil => exact ⟨[], before, t, .nil, .nil, ha, ht⟩
  | cons hfirst _ ih =>
      obtain ⟨ts, mid, v, hts, hbegins, hend, hv⟩ := hp (takes_skip_bind hfirst)
      obtain ⟨us, last, w, hus, hspelling, hend', hw⟩ := ih hv hend
      rw [← ht] at hbegins
      exact ⟨ts ++ us, last, w, .cons hts hus, (hbegins.spelling ha).append hspelling, hend', hw⟩

/-- **Rows spell their tokens**, with trivia between one part and the next. -/
lemma SpellsLoosely.row (hp : SpellsLoosely T p) (h : Takes (manySpaced p) (clear s) as r)
    (ha : Apart before s.head?) :
    ∃ ts last v, Row T as ts ∧ Spelling before ts s last v ∧ Apart last v.head? ∧
      clear v = clear r := by
  rcases takes_manySpaced h with ⟨rfl, rfl⟩ | ⟨a, bs, t, rfl, hfirst, hmore⟩
  · exact ⟨[], before, s, .nil, .nil, ha, (clear_clear s).symm⟩
  · obtain ⟨ts, mid, v, hts, hbegins, hend, hv⟩ := hp hfirst
    obtain ⟨us, last, w, hus, hspelling, hend', hw⟩ := hp.all hmore hv hend
    exact ⟨ts ++ us, last, w, .cons hts hus, (hbegins.spelling ha).append hspelling, hend', hw⟩

/-- **Blocks spell their tokens**: a row between braces. -/
lemma SpellsLoosely.block {k : List α → Parser β} {b : β} (hp : SpellsLoosely T p)
    (h : Takes (do
      skip
      literal "\x7b"
      skip
      let body ← manySpaced p
      skip
      literal "\x7d"
      k body) s b r) :
    ∃ as ts v, Row T as ts ∧ Begins (braced ts) (clear s) (some '}') v ∧ Takes (k as) v b r := by
  obtain ⟨s₁, hopen, h⟩ := takes_word (takes_skip_bind h) (by decide)
  obtain ⟨as, s₂, hbody, h⟩ := takes_bind (takes_skip_bind h)
  obtain ⟨s₃, hclose, h⟩ := takes_word (takes_skip_bind h) (by decide)
  have hafter : Apart "\x7b".toList.getLast? s₁.head? := apart_of_before (by decide)
  obtain ⟨ts, last, v, hts, hspelling, -, hv⟩ := hp.row hbody hafter
  rw [← hv] at hclose
  exact ⟨as, ts, s₃, hts, (hopen.append hspelling).sign hclose (by decide), h⟩

end rows

/-! ## Transitions and invocations -/

/-- Each step of a transition is followed by an arrow. -/
lemma spells_stepArrow :
    Spells (fun d => d.tokens ++ [sign "=>"]) (do
      let step ← step
      skip
      literal "=>"
      return step) := by
  intro s d r h
  obtain ⟨d, t, hstep, h⟩ := takes_bind h
  obtain ⟨last, hstep, -⟩ := spells_step hstep
  obtain ⟨u, harrow, h⟩ := takes_word (takes_skip_bind h) (by decide)
  obtain ⟨rfl, rfl⟩ := takes_pure h
  exact ⟨_, hstep.sign harrow (by decide), apart_of_before (by decide)⟩

/-- A transition is its trigger, its steps and its target, with arrows between them. -/
lemma spells_transition : Spells TransitionDecl.tokens transition := by
  intro s d r hall
  obtain ⟨⟨⟨trigger, steps, target⟩, span⟩, t, hdecl, hpure⟩ := takes_bind hall
  obtain ⟨rfl, rfl⟩ := takes_pure hpure
  obtain ⟨trigger', s₁, htrigger, h⟩ := takes_bind (takes_rule hdecl)
  obtain ⟨s₂, harrow, h⟩ := takes_word (takes_skip_bind h) (by decide)
  obtain ⟨steps', s₃, hsteps, h⟩ := takes_bind (takes_skip_bind h)
  obtain ⟨target', heq, htarget⟩ := takes_map (takes_skip_bind h)
  simp only [Prod.mk.injEq] at heq
  obtain ⟨rfl, rfl, rfl⟩ := heq
  obtain ⟨last, htrigger, -⟩ := spells_trigger htrigger
  have hafter : Apart "=>".toList.getLast? s₂.head? := apart_of_before (by decide)
  obtain ⟨ts, mid, v, hts, hspelling, hend, hv⟩ := spells_stepArrow.loosely.row hsteps hafter
  obtain rfl := row_iff.mp hts
  obtain ⟨target', heq, htarget⟩ := takes_map htarget
  obtain ⟨last', htarget, hend'⟩ := spells_name (takes_rule htarget)
  rw [← hv, ← heq] at htarget
  have hrest := harrow.append (hspelling.append (htarget.spelling hend))
  exact ⟨last', htrigger.sign hrest (by decide), hend'⟩

/-- Behind the first name of a path come dots, each with a name behind it, and then nothing that
would go on with the last name. -/
lemma takes_dotted {s r : List Char} {parts : List String}
    (h : TakesAll (do
      literal "."
      let part ← name
      return "." ++ part) s parts r) (hs : s.head?.any isNameChar = false) :
    r.head?.any isNameChar = false ∧ ∃ more : List (List Char),
      (∀ part ∈ more, isIdentifier part = true) ∧
      (String.join parts).toList = (more.flatMap fun part => '.' :: part) ∧
      s = (more.flatMap fun part => '.' :: part) ++ r := by
  induction h with
  | nil => exact ⟨hs, [], by simp, rfl, rfl⟩
  | cons hfirst _ ih =>
      obtain ⟨u, t, hdot, hrest⟩ := takes_bind hfirst
      obtain ⟨part, rfl, hname⟩ := takes_map hrest
      obtain ⟨hpart, rfl, hend⟩ := takes_name hname
      obtain ⟨hr, more, hmore, hjoin, rfl⟩ := ih hend
      refine ⟨hr, part.toList :: more, ?_, ?_, ?_⟩
      · intro x hx
        rcases List.mem_cons.mp hx with rfl | hx
        · exact hpart
        · exact hmore x hx
      · rw [String.join_cons, String.toList_append, String.toList_append, hjoin]
        rfl
      · rw [takes_literal hdot, List.flatMap_cons, List.append_assoc]
        rfl

/-- A path is one token: no blank text stands between its names. -/
lemma spells_callRef : Spells (fun path => [(.free, .path path)]) callRef := by
  intro s path r hall
  obtain ⟨path, rfl, hrule⟩ := takes_map hall
  obtain ⟨first, t, hfirst, hmany⟩ := takes_bind (takes_rule hrule)
  obtain ⟨parts, hpath, hparts⟩ := takes_map hmany
  obtain ⟨hname, rfl, hend⟩ := takes_name hfirst
  obtain ⟨hr, more, hmore, hjoin, rfl⟩ := takes_dotted (takes_many hparts) hend
  have htext : path.value.toList = first.toList ++ more.flatMap fun part => '.' :: part := by
    rw [hpath, String.toList_append, hjoin]
  refine ⟨_, begins_singleton.mpr ⟨⟨first.toList, more, hname, hmore, htext⟩, ?_, rfl⟩,
    apart_of_after hr⟩
  rw [Token.text, htext, List.append_assoc]

/-- The head of an invocation is its keyword and the path of the service. -/
lemma spells_invokeHead :
    Spells (fun service => headTokens [.fixed "invoke", .path service]) invokeHead := by
  intro s service r hall
  obtain ⟨service, rfl, hrule⟩ := takes_map hall
  obtain ⟨u, s₁, hword, h⟩ := takes_bind (takes_rule hrule)
  obtain ⟨v, s₂, hblanks, hpath⟩ := takes_bind h
  obtain ⟨last, hpath, hend⟩ := spells_callRef hpath
  exact ⟨last, begins_word (takes_literal hword) hblanks hpath (by decide), hend⟩

/-- An invocation is its head and its transitions between braces. -/
lemma spells_invoke : Spells InvokeDecl.tokens invoke := by
  intro s d r hall
  obtain ⟨decl, rfl, hrule⟩ := takes_map hall
  obtain ⟨service, t, hhead, h⟩ := takes_bind (takes_rule hrule)
  obtain ⟨last, hhead, -⟩ := spells_invokeHead hhead
  obtain ⟨transitions, ts, v, hts, hblock, h⟩ := spells_transition.loosely.block h
  obtain rfl := row_iff.mp hts
  obtain ⟨hdecl, rfl⟩ := takes_pure h
  rw [hdecl]
  exact ⟨some '}', hhead.sign hblock (by decide), apart_of_before (by decide)⟩

/-! ## States and machines -/

/-- Modifiers stand in front of the rest of a head, each followed by blank characters. -/
lemma begins_modifiers {s t r : List Char} {modifiers : List Modifier} {ts : List Token}
    {x : Token} {last : Option Char}
    (h : TakesAll (do
      let modifier ← stateModifier
      blanks
      return modifier) s modifiers t) (ht : Begins (headTokens (x :: ts)) t last r) :
    Begins (headTokens (modifiers.map (fun m => .fixed m.word) ++ x :: ts)) s last r := by
  induction h with
  | nil => exact ht
  | @cons s t r m ms hfirst _ ih =>
      obtain ⟨m, s₁, hword, h⟩ := takes_bind hfirst
      obtain ⟨u, hm, hblanks⟩ := takes_map h
      have hs := takes_choice Modifier.word (a := .initial) (b := .final) hword
      have hproper : m.word ∈ Token.fixedTexts := by cases m <;> decide
      rw [hm]
      have hrest := ih ht
      cases ms with
      | nil => exact begins_word hs hblanks hrest hproper
      | cons m' ms => exact begins_word hs hblanks hrest hproper

/-- The head of a state is its modifiers, its keyword and its name. -/
lemma spells_stateHead : Spells StateHead.tokens stateHead := by
  intro s head r hall
  obtain ⟨decl, rfl, hrule⟩ := takes_map hall
  obtain ⟨modifiers, s₁, hmodifiers, h⟩ := takes_bind (takes_rule hrule)
  obtain ⟨u, s₂, hword, h⟩ := takes_bind h
  obtain ⟨v, s₃, hblanks, h⟩ := takes_bind h
  obtain ⟨name, hdecl, hname⟩ := takes_map h
  obtain ⟨last, hname, hend⟩ := spells_ident hname
  have hwords : Begins (headTokens [.fixed "state", .name name.value]) s₁ last r :=
    begins_word (takes_literal hword) hblanks hname (by decide)
  rw [StateHead.tokens, hdecl]
  exact ⟨last, begins_modifiers (takes_many hmodifiers) hwords, hend⟩

/-- A clause is spelled as what it is, if inner states are. -/
lemma spells_clause {nested : Parser StateDecl} (hnested : Spells StateDecl.tokens nested) :
    Spells Clause.tokens (clause nested) := by
  refine Spells.orElse ?_ (Spells.orElse ?_ (Spells.orElse ?_ ?_))
  · exact spells_binding.map fun _ => by rw [Clause.tokens]
  · exact spells_invoke.map fun _ => by rw [Clause.tokens]
  · exact hnested.map fun _ => by rw [Clause.tokens]
  · exact spells_transition.map fun _ => by rw [Clause.tokens]

/-- A state is its head and its clauses between braces, if inner states are spelled. -/
lemma spells_stateWith {nested : Parser StateDecl} (hnested : Spells StateDecl.tokens nested) :
    Spells StateDecl.tokens (stateWith nested) := by
  intro s d r hall
  obtain ⟨decl, rfl, hrule⟩ := takes_map hall
  obtain ⟨head, t, hhead, h⟩ := takes_bind (takes_rule hrule)
  obtain ⟨last, hhead, -⟩ := spells_stateHead hhead
  obtain ⟨body, ts, v, hts, hblock, h⟩ := (spells_clause hnested).loosely.block h
  obtain rfl := row_iff.mp hts
  obtain ⟨hdecl, rfl⟩ := takes_pure h
  rw [StateDecl.tokens, hdecl, bodyTokens_eq]
  exact ⟨some '}', hhead.sign hblock (by decide), apart_of_before (by decide)⟩

/-- A state is spelled, whatever the number of levels, which only bounds how deep states nest. -/
lemma spells_state (levels : Nat) : Spells StateDecl.tokens (state levels) := by
  induction levels with
  | zero =>
      rintro s d r ⟨o, o', ⟨⟩⟩
  | succ levels ih => exact spells_stateWith ih

/-- The head of a machine is its keyword, with or without a name. -/
lemma spells_machineHead :
    Spells (fun name => headTokens (.fixed "machine" :: name.toList.map .name)) machineHead := by
  intro s name r hall
  obtain ⟨name, rfl, hrule⟩ := takes_map hall
  obtain ⟨u, t, hword, h⟩ := takes_bind (takes_rule hrule)
  obtain ⟨v, t', hstop, hrest⟩ := takes_bind h
  obtain ⟨rfl, hend⟩ := takes_notBefore hstop
  have hproper : "machine" ∈ Token.fixedTexts := by decide
  rcases takes_optional hrest with ⟨n, hn, hnamed⟩ | ⟨hnone, rfl⟩
  · obtain ⟨w, t', hblanks, h⟩ := takes_bind hnamed
    obtain ⟨m, rfl, hm⟩ := takes_map h
    obtain ⟨last, hname, hend⟩ := spells_ident hm
    simp only [hn]
    exact ⟨last, begins_word (takes_literal hword) hblanks hname hproper, hend⟩
  · simp only [hnone]
    exact ⟨_, begins_singleton.mpr ⟨hproper, takes_literal hword, rfl⟩, apart_of_after hend⟩

/-- What stands in a machine is a binding or a state. -/
lemma spells_machineClause (levels : Nat) :
    Spells MachineClause.tokens (machineClause levels) := by
  refine Spells.orElse ?_ ?_
  · exact spells_binding.map fun _ => rfl
  · exact (spells_state levels).map fun _ => rfl

/-- A machine is its head and its clauses between braces. -/
lemma spells_machine (levels : Nat) : Spells MachineDecl.tokens (machine levels) := by
  intro s d r hall
  obtain ⟨decl, rfl, hrule⟩ := takes_map hall
  obtain ⟨name, t, hhead, h⟩ := takes_bind (takes_rule hrule)
  obtain ⟨last, hhead, -⟩ := spells_machineHead hhead
  obtain ⟨body, ts, v, hts, hblock, h⟩ := (spells_machineClause levels).loosely.block h
  obtain rfl := row_iff.mp hts
  obtain ⟨hdecl, rfl⟩ := takes_pure h
  rw [MachineDecl.tokens, hdecl]
  exact ⟨some '}', hhead.sign hblock (by decide), apart_of_before (by decide)⟩

/-! ## Imports -/

/-- A quoted text ends at the first quote of its kind. -/
lemma takes_quotedBy {s r : List Char} {q : Char} {body : String}
    (h : Takes (quotedBy q) s body r) :
    q ∉ body.toList ∧ s = (Token.quoted q body).text ++ r := by
  obtain ⟨u, s₁, hopen, h⟩ := takes_bind h
  obtain ⟨chars, s₂, hbody, h⟩ := takes_bind h
  obtain ⟨v, s₃, hclose, hpure⟩ := takes_bind h
  obtain ⟨rfl, rfl⟩ := takes_pure hpure
  obtain ⟨rfl, hrest⟩ := takes_charsWhile hbody
  have hopen := takes_literal hopen
  have hclose := takes_literal hclose
  rw [String.toList_singleton] at hopen hclose
  rw [String.toList_ofList, Token.text, String.toList_ofList]
  constructor
  · intro hq
    have hne := List.mem_takeWhile_imp hq
    simp at hne
  · have hrest : s₁.takeWhile (· != q) ++ ([q] ++ r) = s₁ := by
      rw [← hclose, hrest, List.takeWhile_append_dropWhile]
    simpa [hopen] using hrest.symm

/-- A string is one token, in quotes of either kind. -/
lemma begins_string {s r : List Char} {path : Located String} (h : Takes string s path r) :
    ∃ q, isNameChar q = false ∧ s.head? = some q ∧
      Begins [(.free, .quoted q path.value)] s (some q) r := by
  have hquoted : ∀ q, q = '\'' ∨ q = '"' → Takes (quotedBy q) s path.value r →
      s.head? = some q ∧ Begins [(.free, .quoted q path.value)] s (some q) r := by
    intro q hq hbody
    obtain ⟨hbody, hs⟩ := takes_quotedBy hbody
    refine ⟨by rw [hs]; rfl, begins_singleton.mpr ⟨⟨hq, hbody⟩, hs, ?_⟩⟩
    rw [Token.text, ← List.cons_append, List.getLast?_concat]
  rcases takes_orElse (takes_rule h) with h | h
  · exact ⟨_, by decide, hquoted _ (.inl rfl) h⟩
  · exact ⟨_, by decide, hquoted _ (.inr rfl) h⟩

/-- The tokens between the braces of an import. -/
def NameTokens (names : List (Located String)) (ts : List Lexeme) : Prop :=
  ∃ name more, ∃ comma : Bool, names.map (·.value) = name :: more ∧
    ts = plainName name :: (more.flatMap (fun name => [sign ",", plainName name]) ++
      if comma then [sign ","] else [])

/-- Each further name of a list has a comma in front of it. -/
lemma spells_listed :
    Spells (fun n => [sign ",", plainName n.value]) (do
      literal ","
      skip
      ident) := by
  intro s n r h
  obtain ⟨t, hcomma, h⟩ := takes_word h (by decide)
  obtain ⟨last, hname, hend⟩ := spells_ident (takes_skip_bind h)
  exact ⟨last, hcomma.next (apart_of_before (by decide)) hname, hend⟩

/-- A list has at least one name, and it may end with a comma. -/
lemma spellsLoosely_specifierNames : SpellsLoosely NameTokens specifierNames := by
  intro s names r hall
  obtain ⟨first, s₁, hfirst, h⟩ := takes_bind hall
  obtain ⟨last, hfirst, hend⟩ := spells_ident hfirst
  obtain ⟨more, s₂, hmore, h⟩ := takes_bind (takes_skip_bind h)
  obtain ⟨comma, hnames, hcomma⟩ := takes_map (takes_skip_bind h)
  obtain ⟨ts, mid, v, hts, hspelling, hend, hv⟩ := spells_listed.loosely.row hmore hend
  obtain rfl := row_iff.mp hts
  have hvalues : names.map (·.value) = first.value :: more.map (·.value) := by
    rw [hnames, List.map_cons]
  have htokens : (more.flatMap fun n => [sign ",", plainName n.value]) =
      (more.map (·.value)).flatMap fun name => [sign ",", plainName name] := by
    rw [List.flatMap_map]
  rw [htokens] at hspelling
  rw [← hv] at hcomma
  have hnames := hfirst.append hspelling
  rcases takes_optional hcomma with ⟨u, -, hcomma⟩ | ⟨-, rfl⟩
  · have hsign : Begins [sign ","] (clear v) (some ',') r :=
      begins_singleton.mpr ⟨show "," ∈ Token.fixedTexts by decide, takes_literal hcomma, rfl⟩
    exact ⟨_, some ',', r, ⟨_, _, true, hvalues, rfl⟩, hnames.sign hsign (by decide),
      apart_of_before (by decide), rfl⟩
  · rw [← List.append_nil (_ ++ _)] at hnames
    exact ⟨_, mid, v, ⟨_, _, false, hvalues, rfl⟩, hnames, hend, (clear_clear v).symm⟩

/-- The names of an import stand between braces. -/
lemma begins_specifiers {s r : List Char} {names : Located (List (Located String))}
    (h : Takes specifiers s names r) :
    ∃ ts, SpecifierTokens (names.value.map (·.value)) (braced ts) ∧
      Begins (braced ts) s (some '}') r := by
  obtain ⟨s₁, hopen, h⟩ := takes_word (takes_rule h) (by decide)
  obtain ⟨found, s₂, hfound, h⟩ := takes_bind (takes_skip_bind h)
  obtain ⟨s₃, hclose, h⟩ := takes_word (takes_skip_bind h) (by decide)
  obtain ⟨hnames, rfl⟩ := takes_pure h
  rcases takes_optional hfound with ⟨found, rfl, hlist⟩ | ⟨rfl, rfl⟩
  · obtain ⟨ts, last, t, ⟨name, more, comma, hvalues, rfl⟩, hlist, -, ht⟩ :=
      spellsLoosely_specifierNames hlist
    rw [← ht] at hclose
    rw [hnames, Option.getD_some, hvalues]
    refine ⟨_, .names name more comma, ?_⟩
    exact (hopen.next (apart_of_before (by decide)) hlist).sign hclose (by decide)
  · rw [clear_clear] at hclose
    rw [hnames]
    exact ⟨[], .empty, hopen.sign hclose (by decide)⟩

/-- An import is its path, with or without a list of names. -/
lemma spellsLoosely_importDecl : SpellsLoosely ImportDecl.Tokens importDecl := by
  intro s d r hall
  obtain ⟨decl, rfl, hrule⟩ := takes_map hall
  obtain ⟨s₁, hword, h⟩ := takes_word (takes_rule hrule) (by decide)
  obtain ⟨path, s₂, hpath, h⟩ := takes_bind (takes_skip_bind h)
  obtain ⟨found, hdecl, hfound⟩ := takes_map (takes_skip_bind h)
  obtain ⟨q, hq, hquote, hpath⟩ := begins_string hpath
  have hafter : Apart "use".toList.getLast? (clear s₁).head? := apart_of_after (by rwa [hquote])
  have hlast : ∀ {after}, Apart (some q) after := apart_of_before hq
  have hdeclared := hword.next (apart_of_clear hafter) hpath
  rw [hdecl]
  rcases takes_optional hfound with ⟨names, rfl, hnames⟩ | ⟨rfl, rfl⟩
  · obtain ⟨ts, hts, hnames⟩ := begins_specifiers hnames
    exact ⟨_, some '}', r, ⟨q, _, hts, rfl⟩, hdeclared.next hlast hnames,
      apart_of_before (by decide), rfl⟩
  · exact ⟨_, some q, s₂, ⟨q, [], .absent, rfl⟩, hdeclared, hlast, (clear_clear s₂).symm⟩

/-! ## Charts -/

/-- A declaration of the top level is an import, a binding or a machine. -/
lemma spellsLoosely_item (levels : Nat) : SpellsLoosely Item.Tokens (item levels) := by
  refine SpellsLoosely.orElse ?_ (SpellsLoosely.orElse ?_ ?_)
  · exact spellsLoosely_importDecl.map fun _ _ h => h
  · exact spells_binding.loosely.map fun _ _ h => h
  · exact (spells_machine levels).loosely.map fun _ _ h => h

/-- **What is accepted as a chart is a rendering of it.** -/
lemma renders_of_file {levels : Nat} {s r : List Char} {items : List Item}
    (h : Takes (file levels) s items r) : Renders items s := by
  obtain ⟨decl, rfl, hrule⟩ := takes_map h
  obtain ⟨items, s₁, hitems, h⟩ := takes_bind (takes_skip_bind (takes_rule hrule))
  obtain ⟨u, s₂, hend, hpure⟩ := takes_bind (takes_skip_bind h)
  obtain ⟨hdecl, rfl⟩ := takes_pure hpure
  have hstart : Apart none s.head? := apart_of_before rfl
  obtain ⟨ts, last, v, hts, hspelling, -, hv⟩ := (spellsLoosely_item levels).row hitems hstart
  rw [takes_atEnd (takes_rule hend)] at hv
  rw [hdecl]
  exact ⟨ts, last, v, hts, hspelling, trailing_of_clear hv⟩

/-- **A chart that was parsed is rendered by its text.** -/
lemma renders_of_parse {text : String} {items : List Item} (h : parse text = .ok items) :
    Renders items text.toList := by
  unfold parse at h
  cases houtcome : (file (text.toList.length + 1) ⟨text.toList, 0⟩).outcome with
  | none => simp [houtcome] at h
  | some found =>
      obtain ⟨found, rest, o⟩ := found
      simp only [houtcome, Except.ok.injEq] at h
      subst h
      exact renders_of_file ⟨0, o, houtcome⟩

end Statechart.Language
