import Statechart.Proofs.Language.Choosing
import Statechart.Proofs.Language.Spanless

/-!
# Renderings are accepted

Rule by rule: a text that spells the tokens of a declaration is read as that declaration, up to
spans.  Three facts about the text behind it are passed along with it.

* It does not go on with a name where the last token ends like one (`Apart`).
* It does not go on with a parenthesis or a brace that opens (`Calm`), behind trivia.
* In a row, it leads to the next part or to where the row stops (`reads_row`).

The first two hold wherever further tokens are spelled (`Spelling.follow`), since no declaration
begins with a parenthesis or a brace.
-/

namespace Statechart.Language

open Statechart.Language.Parser Statechart.Language.Grammar

section tokens

variable {α β : Type} {e : α → β} {b : β} {s t r u : List Char} {ts us : List Lexeme}
  {before last mid : Option Char}

/-- Tokens of which the first is neither a parenthesis nor a brace that opens. -/
def Opening (ts : List Lexeme) : Prop :=
  ∃ t us, ts = (.free, t) :: us ∧ (t.Proper → ∀ x ∈ t.text.head?, x ≠ '(' ∧ x ≠ '{')

/-- A sign other than a parenthesis or a brace that opens. -/
lemma opening_sign {w : String} (hw : w.toList.head?.all (fun x => x ≠ '(' ∧ x ≠ '{') = true)
    (ts : List Lexeme) : Opening (sign w :: ts) := by
  refine ⟨.fixed w, ts, rfl, fun _ x hx => ?_⟩
  exact of_decide_eq_true ((Option.all_eq_true _ _).mp hw x hx)

/-- Names begin with neither. -/
lemma opening_name (n : String) (ts : List Lexeme) : Opening (plainName n :: ts) := by
  refine ⟨.name n, ts, rfl, fun hn x hx => ?_⟩
  have hchar := isNameChar_of_mem hn (List.mem_of_mem_head? hx)
  exact ⟨ne_of_isNameChar hchar (by decide), ne_of_isNameChar hchar (by decide)⟩

/-- Names that are used begin with neither, with or without a colon. -/
lemma opening_lexeme (use : Named) (ts : List Lexeme) : Opening (use.lexeme :: ts) := by
  cases use with
  | symbol n => exact ⟨.symbol n, ts, rfl, fun _ x hx => Option.some.inj hx ▸ by decide⟩
  | plain n => exact opening_name n ts

lemma Opening.append (h : Opening ts) (us : List Lexeme) : Opening (ts ++ us) := by
  obtain ⟨t, ts, rfl, ht⟩ := h
  exact ⟨t, ts ++ us, rfl, ht⟩

lemma Opening.ne_nil (h : Opening ts) : ts ≠ [] := by
  obtain ⟨t, ts, rfl, -⟩ := h
  exact List.cons_ne_nil _ _

/-- What is spelled next keeps to itself. -/
lemma Spelling.follow (h : Spelling before ts s last r) (ho : Opening ts) :
    Begins ts (clear s) last r ∧ Apart before s.head? ∧ Calm s := by
  obtain ⟨t, us, rfl, ht⟩ := ho
  obtain ⟨hbegins, hapart⟩ := h.begins ⟨t, us, rfl⟩
  refine ⟨hbegins, hapart, ?_⟩
  obtain ⟨_, _, u, ⟨⟩, hs, hproper, -⟩ := hbegins
  intro x hx
  rw [hs, List.head?_append_of_ne_nil _ (Token.solid hproper).2] at hx
  exact ht hproper x hx

lemma reads_skip_bind {k : Unit → Parser α} (h : Reads e (k ()) (clear s) b r) :
    Reads e (skip >>= k) s b r := (reads_skip s).bind fun _ _ => h

/-- A block that begins with a word is read where that word is spelled. -/
lemma reads_word {w : String} {k : Unit → Parser α} (h : Begins (sign w :: ts) s last r)
    (hk : ∀ t, Spelling w.toList.getLast? ts t last r → Reads e (k ()) t b u) :
    Reads e (literal w >>= k) s b u := by
  obtain ⟨t, us, v, ⟨⟩, rfl, -, hrest⟩ := h
  exact (reads_literal w v).bind fun _ _ => hk v hrest

/-- The same with trivia in front of the word. -/
lemma reads_skip_word {w : String} {k : Unit → Parser α}
    (h : Spelling before (sign w :: ts) s last r)
    (hk : ∀ t, Spelling w.toList.getLast? ts t last r → Reads e (k ()) t b u) :
    Reads e (skip >>= fun _ => literal w >>= k) s b u :=
  reads_skip_bind (reads_word (h.begins ⟨_, _, rfl⟩).1 hk)

/-- The last sign of a declaration. -/
lemma reads_skip_last {w : String} {k : Unit → Parser α} (h : Spelling before [sign w] s last r)
    (hk : Reads e (k ()) r b r) : Reads e (skip >>= fun _ => literal w >>= k) s b r := by
  refine reads_skip_word h fun t ht => ?_
  cases ht
  exact hk

lemma begins_cons {l : Lexeme} (h : Begins (l :: us) s last r) :
    ∃ mid t, Begins [l] s mid t ∧ Spelling mid us t last r :=
  begins_append (show Begins ([l] ++ us) s last r from h) (List.cons_ne_nil _ _)

/-- A text without a gap in front may also be looked at as one with an empty gap. -/
lemma Begins.spelled (h : Begins ts s last r) : Spelling none ts s last r := by
  refine Begins.spelling ?_ (apart_of_before rfl)
  rwa [h.clear_eq]

/-- Two fixed texts that differ are told apart by what they begin with. -/
lemma rejects_other {w v : String} (h : Begins (sign v :: ts) s last r)
    (hne : ¬w.toList <+: v.toList ∧ ¬v.toList <+: w.toList) : Rejects (literal w) s := by
  obtain ⟨t, us, u, ⟨⟩, rfl, -, -⟩ := h
  refine rejects_literal fun hw => ?_
  rcases List.prefix_or_prefix_of_prefix hw (List.prefix_append _ u) with h | h
  · exact hne.1 h
  · exact hne.2 h

end tokens

/-! ## Names -/

section names

variable {s t r : List Char} {before last : Option Char} {ts : List Lexeme}

/-- What ends like a name does so with anything in front. -/
lemma any_getLast?_append {m n : List Char} (h : n.getLast?.any isNameChar = true) :
    (m ++ n).getLast?.any isNameChar = true := by
  rw [List.getLast?_append]
  cases hn : n.getLast? with
  | none => simp [hn] at h
  | some x => simpa [hn] using h

/-- Names are accepted if they do not go on. -/
lemma reads_plainName {n : String} (h : Begins [plainName n] s last r)
    (ha : Apart last r.head?) : Reads id name s n r := by
  obtain ⟨hn, rfl, rfl⟩ := begins_singleton.mp h
  exact reads_name hn (ha.after (any_getLast? hn))

lemma reads_ident {n : String} (h : Begins [plainName n] s last r) (ha : Apart last r.head?) :
    Reads Located.value ident s n r := (reads_plainName h ha).rule

/-- A sign is not the beginning of a name. -/
lemma rejects_sign {w : String} {x : Char} {n : List Char} (hw : w.toList.head? = some x)
    (hx : isNameChar x = false) (hn : isIdentifier n = true) (r : List Char) :
    Rejects (literal w) (n ++ r) := by
  refine rejects_literal ?_
  rintro ⟨u, hu⟩
  obtain ⟨y, m, rfl, hy, -⟩ := isNameStart_head hn
  have hhead := congrArg List.head? hu
  rw [List.head?_append, hw] at hhead
  exact ne_of_isNameChar (isNameChar_of_isNameStart hy) hx (Option.some.inj hhead).symm

/-- Names that are used are accepted, with or without a colon. -/
lemma reads_named {use : Named} (h : Begins [use.lexeme] s last r) (ha : Apart last r.head?) :
    Reads id named s use r := by
  cases use with
  | symbol n =>
      obtain ⟨hn, rfl, rfl⟩ := begins_singleton.mp h
      have hend := ha.after (any_getLast?_append (m := [':']) (any_getLast? hn))
      have hname : Reads Located.value ident (n.toList ++ r) n r := (reads_name hn hend).rule
      have hbody : Reads id (do literal ":"; return (← ident).value) (":".toList ++ (n.toList ++ r))
          n r := (reads_literal ":" _).bind fun _ _ => hname.map fun _ hm => hm
      have hsymbol : Reads Located.value symbol (':' :: (n.toList ++ r)) n r := hbody.rule
      exact Reads.orElse (hsymbol.map fun _ hm => congrArg Named.symbol hm)
  | plain n =>
      have hname := reads_ident h ha
      obtain ⟨hn, rfl, -⟩ := begins_singleton.mp h
      have hcolon : Rejects symbol (n.toList ++ r) :=
        Rejects.rule (rejects_sign (x := ':') (by decide) (by decide) hn r).bind
      exact hcolon.bind.orElse (hname.map fun _ hm => congrArg Named.plain hm)

end names

/-! ## Bindings -/

section declarations

variable {s t r : List Char} {before last : Option Char}

/-- Assignments are accepted, with or without a value. -/
lemma reads_assignExpr {d : AssignDecl} (h : Begins d.tokens s last r) :
    Reads id assignExpr s d r := by
  refine Reads.declare (e := id) (b := d) ?_ fun _ hd => reads_pure hd r
  refine reads_word h fun s₁ h => reads_skip_word h fun s₂ h => reads_skip_bind ?_
  obtain ⟨mid, s₃, hkey, h⟩ := begins_cons (h.follow (opening_name _ _)).1
  obtain ⟨key, _ | use⟩ := d
  · obtain ⟨hclose, ha, -⟩ := h.follow (opening_sign (by decide) _)
    refine (reads_ident hkey ha).bind fun key' hkey' => reads_skip_bind ?_
    have hcomma : Rejects (do literal ","; skip; named) (clear s₃) :=
      (rejects_other hclose (by decide)).bind
    refine hcomma.optional.bind fun value hvalue => ?_
    refine reads_skip_last hclose.spelled (reads_pure ?_ r)
    rw [show value = none from hvalue, hkey']
    rfl
  · obtain ⟨hcomma, ha, -⟩ := h.follow (opening_sign (by decide) _)
    refine (reads_ident hkey ha).bind fun key' hkey' => reads_skip_bind ?_
    obtain ⟨_, s₄, hcomma, hrest⟩ := begins_cons hcomma
    obtain ⟨_, s₅, huse, hclose⟩ := begins_cons (hrest.follow (opening_lexeme use _)).1
    have hvalue : Reads id (do literal ","; skip; named) (clear s₃) use s₅ := by
      refine reads_word hcomma fun t ht => ?_
      cases ht
      exact reads_skip_bind (reads_named huse (hclose.follow (opening_sign (by decide) _)).2.1)
    refine hvalue.optional.bind fun value hvalue => ?_
    refine reads_skip_last hclose (reads_pure ?_ r)
    rw [Option.map_id] at hvalue
    rw [show value = some use from hvalue, hkey']
    rfl

/-- One of two words is accepted if neither begins with the other. -/
lemma reads_choice {α : Type} (word : α → String) {a b : α} {name : Rule}
    (hne : ¬(word a).toList <+: (word b).toList ∧ ¬(word b).toList <+: (word a).toList) (c : α)
    (hc : c = a ∨ c = b) (r : List Char) :
    Reads id (do
      let x ← rule name ((do literal (word a); return a) <|> (do literal (word b); return b))
      return x.value) ((word c).toList ++ r) c r := by
  refine Reads.declare (e := id) (b := c) ?_ fun _ hx => reads_pure hx r
  rcases hc with rfl | rfl
  · exact Reads.orElse ((reads_literal _ r).map fun _ _ => rfl)
  · refine Rejects.orElse (Rejects.bind (rejects_literal fun hw => ?_))
      ((reads_literal _ r).map fun _ _ => rfl)
    rcases List.prefix_or_prefix_of_prefix hw (List.prefix_append _ r) with h | h
    · exact hne.1 h
    · exact hne.2 h

/-- The first word of a binding is accepted. -/
lemma reads_bindingKind (kind : BindingKind) (r : List Char) :
    Reads id bindingKind (kind.word.toList ++ r) kind r :=
  reads_choice BindingKind.word (a := .guard) (b := .action) (by decide) kind
    (by cases kind <;> simp) r

/-- The blank characters between two tokens of a head are accepted. -/
lemma reads_gap {g : List Char} {ts : List Lexeme} (hg : g ≠ [] ∧ ∀ x ∈ g, isBlank x = true)
    (h : Begins ts s last r) : Reads id blanks (g ++ s) () s := by
  refine reads_blanks hg.1 hg.2 ?_
  cases s with
  | nil => rfl
  | cons x s => exact (h.solid.1 x rfl).1

/-- The heads of bindings are accepted. -/
lemma reads_bindingHead {kind : BindingKind} {n : String}
    (h : Begins (headTokens [.fixed kind.word, .name n]) s last r) (ha : Apart last r.head?) :
    Reads Located.value bindingHead s (kind, n) r := by
  obtain ⟨-, g, u, rfl, hg, hname⟩ := begins_headTokens.mp h
  refine Reads.rule (e := id) ?_
  refine (reads_bindingKind kind _).bind fun kind' hkind => ?_
  refine (reads_gap hg hname).bind fun _ _ => (reads_ident hname ha).map fun name hname => ?_
  rw [hname]
  exact congrArg (·, n) hkind

/-- The use of a name is not a call. -/
lemma rejects_use {α : Type} {w : String} {use : Named} {k : Unit → Unit → Parser α}
    (hw : w.toList.all isNameChar = true) (h : Begins [use.lexeme] s last r)
    (ha : Apart last r.head?) (hc : Calm r) :
    Rejects (literal w >>= fun u => skip >>= fun _ => literal "(" >>= k u) s := by
  cases use with
  | symbol n =>
      have hclear := h.clear_eq
      obtain ⟨hn, rfl, -⟩ := begins_singleton.mp h
      have hcolon : Calm (':' :: (n.toList ++ r)) := by
        rw [Calm, show clear (':' :: (n.toList ++ r)) = _ from hclear]
        rintro x ⟨⟩
        decide
      exact (wordlike_literal hw).rejects_call (n := []) (by simp) rfl hcolon
  | plain n =>
      obtain ⟨hn, rfl, rfl⟩ := begins_singleton.mp h
      exact (wordlike_literal hw).rejects_call (fun x hx => isNameChar_of_mem hn hx)
        (ha.after (any_getLast? hn)) hc

/-- What names are bound to is accepted.  A name is not taken for an assignment, even if it is
spelled like the word for one. -/
lemma reads_bindingValue {value : BindingValue} (h : Begins value.tokens s last r)
    (ha : Apart last r.head?) (hc : Calm r) : Reads id bindingValue s value r := by
  cases value with
  | assign d => exact Reads.orElse ((reads_assignExpr h).map fun _ hd => congrArg BindingValue.assign hd)
  | named use =>
      have hassign : Rejects assignExpr s :=
        Rejects.bind (Rejects.rule (rejects_use (by decide) h ha hc))
      exact hassign.bind.orElse ((reads_named h ha).map fun _ huse => congrArg BindingValue.named huse)

/-- Bindings are accepted. -/
lemma reads_binding {d : BindingDecl} (h : Begins d.tokens s last r) (ha : Apart last r.head?)
    (hc : Calm r) : Reads BindingDecl.bare binding s d.bare r := by
  obtain ⟨mid, s₁, hhead, h⟩ := begins_append h (List.cons_ne_nil _ _)
  have hopen : Opening d.value.tokens := by
    cases d.value with
    | assign d => exact opening_sign (by decide) _
    | named use => exact opening_lexeme use []
  refine Reads.declare (b := ((d.kind, d.name), d.value))
    (e := fun x : Located (BindingKind × String) × BindingValue => (x.1.value, x.2)) ?_ ?_
  · refine (reads_bindingHead hhead (h.follow (opening_sign (by decide) _)).2.1).bind
      fun head hhead => reads_skip_word h fun s₂ h => reads_skip_bind ?_
    refine (reads_bindingValue (h.follow hopen).1 ha hc).map fun value hvalue => ?_
    rw [hhead]
    exact congrArg _ hvalue
  · rintro ⟨⟨head, value⟩, span⟩ hdecl
    simp only [Prod.mk.injEq] at hdecl
    obtain ⟨hhead, rfl⟩ := hdecl
    exact reads_pure (by simp [BindingDecl.bare, hhead]) r

/-! ## Triggers and steps -/

/-- The word for no trigger is accepted if no name goes on behind it. -/
lemma reads_immediate (h : Begins [sign "@immediate"] s last r) (ha : Apart last r.head?) :
    Reads id immediate s () r := by
  obtain ⟨-, rfl, rfl⟩ := begins_singleton.mp h
  refine Reads.declare (e := id) (b := ()) ?_ fun _ _ => reads_pure rfl r
  exact (reads_literal _ r).bind fun _ _ => reads_notBefore (ha.after (by decide))

/-- Numbers are accepted if no digit follows. -/
lemma reads_number {digits : List Char} (hne : digits ≠ [])
    (hdigits : ∀ d ∈ digits, d.isDigit = true) (hr : r.head?.any Char.isDigit = false) :
    Reads id number (digits ++ r) digits r := by
  obtain ⟨d, ds, rfl⟩ := List.exists_cons_of_ne_nil hne
  obtain ⟨htake, hdrop⟩ := split_while (fun x hx => hdigits x (List.mem_cons_of_mem _ hx)) hr
  refine Reads.declare (e := id) (b := d :: ds) ?_ fun _ hx => reads_pure hx r
  refine (reads_char (hdigits d List.mem_cons_self) (ds ++ r)).bind fun d' hd => ?_
  have hmore := reads_charsWhile Char.isDigit (ds ++ r)
  rw [htake, hdrop] at hmore
  exact hmore.map fun ds' hds => congrArg₂ List.cons hd hds

/-- What does not begin with a character of a class does not begin with one of a smaller class. -/
lemma any_head?_of_imp {f g : Char → Bool} (hfg : ∀ x, g x = true → f x = true)
    (h : r.head?.any f = false) : r.head?.any g = false := by
  cases r with
  | nil => rfl
  | cons x r =>
      have hx : f x = false := h
      show g x = false
      by_contra hg
      rw [hfg x (Bool.not_eq_false _ ▸ hg)] at hx
      cases hx

/-- Durations are accepted.  One without a unit is not followed by a letter that could be taken for
one. -/
lemma reads_duration {d : Duration} (h : Begins [(.free, .number d.digits d.unit)] s last r)
    (ha : Apart last r.head?) : Reads Duration.bare duration s d.bare r := by
  obtain ⟨digits, unit, span⟩ := d
  obtain ⟨⟨hne, hdigits⟩, rfl, rfl⟩ := begins_singleton.mp h
  refine Reads.declare (e := id) (b := (digits, unit)) ?_ fun x hx =>
    reads_pure (by rw [show x.value = _ from hx]; rfl) r
  rw [Token.text, List.append_assoc]
  cases unit with
  | none =>
      have hlast : (digits ++ []).getLast?.any isNameChar = true := by
        rw [List.append_nil, List.getLast?_eq_getLast_of_ne_nil hne]
        exact isNameChar_of_isDigit (hdigits _ (List.getLast_mem hne))
      have hend := ha.after hlast
      have hdigit := any_head?_of_imp (fun _ => isNameChar_of_isDigit) hend
      have hletter := any_head?_of_imp (fun _ => isNameChar_of_isNameStart) hend
      refine (reads_number hne hdigits hdigit).bind fun ds hds => ?_
      have hunit : Rejects timeUnit r := by
        refine Rejects.bind (Rejects.rule (Rejects.orElse_rejects ?_ ?_))
        · exact (rejects_literal_of_head (x := 'm') (by decide) (by decide) hletter).bind
        · exact (rejects_literal_of_head (x := 's') (by decide) (by decide) hletter).bind
      exact hunit.optional.map fun u hu => congrArg₂ Prod.mk hds hu
  | some u =>
      have hdigit : (u.text.toList ++ r).head?.any Char.isDigit = false := by
        cases u <;> rfl
      refine (reads_number hne hdigits hdigit).bind fun ds hds => ?_
      have hunit : Reads id timeUnit (u.text.toList ++ r) u r :=
        reads_choice TimeUnit.text (a := .milliseconds) (b := .seconds) (by decide) u
          (by cases u <;> simp) r
      refine hunit.optional.map fun u' hu => ?_
      rw [Option.map_id] at hu
      exact congrArg₂ Prod.mk hds hu

/-- Delays are accepted. -/
lemma reads_delay {d : Duration} (h : Begins (TriggerDecl.delay d).tokens s last r) :
    Reads Duration.bare delay s d.bare r := by
  refine Reads.declare (e := Duration.bare) (b := d.bare) ?_ fun _ hd => reads_pure hd r
  refine reads_word h fun s₁ h => reads_skip_word h fun s₂ h => reads_skip_bind ?_
  obtain ⟨mid, s₃, htime, h⟩ := begins_cons (h.begins ⟨_, _, rfl⟩).1
  refine (reads_duration htime (h.follow (opening_sign (by decide) _)).2.1).bind fun time ht => ?_
  exact reads_skip_last h (reads_pure ht r)

/-- Triggers are accepted.  An event is not taken for a delay, even if it is called so. -/
lemma reads_trigger {d : TriggerDecl} (h : Begins d.tokens s last r) (ha : Apart last r.head?)
    (hc : Calm r) : Reads TriggerDecl.bare trigger s d.bare r := by
  cases d with
  | immediate => exact Reads.orElse ((reads_immediate h ha).bind fun _ _ => reads_pure rfl r)
  | delay d =>
      have himmediate : Rejects immediate s :=
        Rejects.bind (Rejects.rule (rejects_other h (by decide)).bind)
      refine himmediate.bind.orElse (Reads.orElse ((reads_delay h).map fun d' hd => ?_))
      exact congrArg TriggerDecl.delay hd
  | event n =>
      have huse : Begins [(Named.plain n).lexeme] s last r := h
      have hdelay : Rejects delay s := Rejects.bind (Rejects.rule (rejects_use (by decide) huse ha hc))
      have hname : Reads id event s n r := (reads_plainName h ha).rule.map fun _ hn => hn
      have himmediate : Rejects immediate s := by
        obtain ⟨hn, rfl, -⟩ := begins_singleton.mp h
        refine Rejects.bind (Rejects.rule (Rejects.bind ?_))
        exact rejects_sign (x := '@') (by decide) (by decide) hn r
      refine himmediate.bind.orElse (hdelay.bind.orElse (hname.map fun _ hn => ?_))
      exact congrArg TriggerDecl.event hn

/-- Guards and actions are accepted. -/
lemma reads_stepCall {w : String} {name : Rule} {use : Named}
    (h : Begins [sign w, sign "(", use.lexeme, sign ")"] s last r) :
    Reads id (stepCall name w) s use r := by
  refine Reads.declare (e := id) (b := use) ?_ fun _ huse => reads_pure huse r
  refine reads_word h fun s₁ h => reads_skip_word h fun s₂ h => reads_skip_bind ?_
  obtain ⟨mid, s₃, huse, h⟩ := begins_cons (h.follow (opening_lexeme use _)).1
  refine (reads_named huse (h.follow (opening_sign (by decide) _)).2.1).bind fun use' huse' => ?_
  exact reads_skip_last h (reads_pure huse' r)

/-- Steps are accepted, each kind by its own word. -/
lemma reads_step {d : StepDecl} (h : Begins d.tokens s last r) : Reads id step s d r := by
  have hcall : ∀ {w v : String} {ts : List Lexeme} {name : Rule}, Begins (sign v :: ts) s last r →
      ¬w.toList <+: v.toList ∧ ¬v.toList <+: w.toList → Rejects (stepCall name w) s :=
    fun h hne => Rejects.bind (Rejects.rule (rejects_other h hne).bind)
  cases d with
  | guard use => exact Reads.orElse ((reads_stepCall h).map fun _ hd => congrArg StepDecl.guard hd)
  | action use =>
      refine (hcall h (by decide)).bind.orElse (Reads.orElse ((reads_stepCall h).map fun _ hd => ?_))
      exact congrArg StepDecl.action hd
  | assign d =>
      refine (hcall h (by decide)).bind.orElse ((hcall h (by decide)).bind.orElse ?_)
      exact (reads_assignExpr h).map fun _ hd => congrArg StepDecl.assign hd

/-- A target is not a step, whatever its name. -/
lemma rejects_step {n : String} (h : Begins [plainName n] s last r) (ha : Apart last r.head?)
    (hc : Calm r) : Rejects step s := by
  have huse : Begins [(Named.plain n).lexeme] s last r := h
  refine Rejects.orElse_rejects ?_ (Rejects.orElse_rejects ?_ ?_)
  · exact Rejects.bind (Rejects.bind (Rejects.rule (rejects_use (by decide) huse ha hc)))
  · exact Rejects.bind (Rejects.bind (Rejects.rule (rejects_use (by decide) huse ha hc)))
  · exact Rejects.bind (Rejects.bind (Rejects.rule (rejects_use (by decide) huse ha hc)))

end declarations

/-! ## Rows -/

section rows

variable {α β γ δ : Type} {T : α → List Lexeme → Prop} {e : α → β} {f : γ → δ} {p : Parser α}
  {as : List α} {ts : List Lexeme} {s t r u : List Char} {before last : Option Char} {d : δ}
  {bound : Nat}

/-- Texts that spell tokens of a thing and are not too long are read as that thing, up to spans
and perhaps with the trivia behind them. -/
def ReadsLoosely (T : α → List Lexeme → Prop) (e : α → β) (p : Parser α) (bound : Nat) : Prop :=
  ∀ ⦃a ts s last r⦄, T a ts → s.length ≤ bound → Begins ts s last r → Apart last r.head? →
    Calm r → ∃ v, (v = r ∨ v = clear r) ∧ Reads e p s (e a) v

/-- Behind a name comes a row or what follows the row, and neither goes on with the name. -/
lemma follow_row (hopen : ∀ a ts, T a ts → Opening ts) (hrow : Row T as ts)
    (h : Spelling before ts s last t) (ha : Apart last t.head?) (hc : Calm t) :
    Apart before s.head? ∧ Calm s := by
  cases hrow with
  | nil =>
      cases h
      exact ⟨ha, hc⟩
  | cons hfirst _ => exact (h.follow ((hopen _ _ hfirst).append _)).2

/-- Rows are read to their end.  `u` is the text in front of the row, or what an import has left of
it. -/
lemma readsAll_row (hp : ReadsLoosely T e p bound) (hopen : ∀ a ts, T a ts → Opening ts)
    (hrow : Row T as ts) (h : Spelling before ts s last t) (ha : Apart last t.head?) (hc : Calm t)
    (hstop : Rejects p (clear t)) (hlen : s.length ≤ bound) (hu : u = s ∨ u = clear s) :
    ∃ v, clear v = clear t ∧ ReadsAll e (do skip; p) u (as.map e) v := by
  have hclear : ∀ {v w : List Char}, v = w ∨ v = clear w → clear v = clear w := by
    rintro v w (rfl | rfl)
    · rfl
    · exact clear_clear w
  induction hrow generalizing before s u with
  | nil =>
      cases h
      refine ⟨u, hclear hu, .stop ((reads_skip u).bind_rejects fun _ _ => ?_)⟩
      rwa [hclear hu]
  | @cons a as ts us hfirst hrest ih =>
      obtain ⟨mid, v, hts, hus⟩ := spelling_append h
      obtain ⟨hbegins, -, -⟩ := hts.follow (hopen _ _ hfirst)
      obtain ⟨ha', hc'⟩ := follow_row hopen hrest hus ha hc
      have hcut := length_clear_le s
      obtain ⟨w, hw, hreads⟩ := hp hfirst (Nat.le_trans hcut hlen) hbegins ha' hc'
      have hlt := hbegins.length_lt
      have hwlen : w.length ≤ v.length := by
        rcases hw with rfl | rfl
        · exact Nat.le_refl _
        · exact length_clear_le v
      have hulen : (clear s).length ≤ u.length := by
        rcases hu with rfl | rfl
        · exact hcut
        · exact Nat.le_refl _
      obtain ⟨x, hx, hall⟩ := ih hus (by omega) hw
      refine ⟨x, hx, .more (reads_skip_bind ?_) (by omega) hall⟩
      rwa [hclear hu]

/-- **Rows are read to their end.** -/
lemma reads_row (hp : ReadsLoosely T e p bound) (hopen : ∀ a ts, T a ts → Opening ts)
    (hrow : Row T as ts) (h : Spelling before ts s last t) (ha : Apart last t.head?) (hc : Calm t)
    (hstop : Rejects p (clear t)) (hlen : s.length ≤ bound) :
    ∃ v, clear v = clear t ∧ Reads (List.map e) (manySpaced p) (clear s) (as.map e) v := by
  cases hrow with
  | nil =>
      cases h
      exact ⟨clear s, clear_clear s, hstop.manySpaced⟩
  | cons hfirst hrest =>
      obtain ⟨mid, v, hts, hus⟩ := spelling_append h
      obtain ⟨hbegins, -, -⟩ := hts.follow (hopen _ _ hfirst)
      obtain ⟨ha', hc'⟩ := follow_row hopen hrest hus ha hc
      have hcut := length_clear_le s
      obtain ⟨w, hw, hreads⟩ := hp hfirst (Nat.le_trans hcut hlen) hbegins ha' hc'
      have hlt := hbegins.length_lt
      obtain ⟨x, hx, hall⟩ := readsAll_row hp hopen hrest hus ha hc hstop (by omega) hw
      exact ⟨x, hx, hall.manySpaced hreads⟩

/-- **Blocks are read**: a row between braces. -/
lemma reads_block {k : List α → Parser γ} (hp : ReadsLoosely T e p s.length)
    (hopen : ∀ a ts, T a ts → Opening ts) (hrow : Row T as ts)
    (h : Spelling before (braced ts) s last r)
    (hstop : ∀ t, Begins [sign "\x7d"] t last r → Rejects p t)
    (hk : ∀ body, body.map e = as.map e → Reads f (k body) r d r) :
    Reads f (do
      skip
      literal "\x7b"
      skip
      let body ← manySpaced p
      skip
      literal "\x7d"
      k body) s d r := by
  have hlen := (h.begins ⟨_, _, rfl⟩).1
  obtain ⟨_, s₁, hbrace, h⟩ := begins_cons hlen
  obtain ⟨mid, s₂, hts, hclose⟩ := spelling_append h
  obtain ⟨hend, ha, hc⟩ := hclose.follow (opening_sign (by decide) _)
  have hcut := length_clear_le s
  have hlt := hbrace.length_lt
  obtain ⟨v, hv, hbody⟩ := reads_row hp hopen hrow hts ha hc (hstop _ hend) (by omega)
  refine reads_skip_bind (reads_word hbrace fun t ht => ?_)
  cases ht
  refine reads_skip_bind (hbody.bind fun body hbody => ?_)
  rw [← hv] at hend
  exact reads_skip_bind (reads_word hend fun t ht => by cases ht; exact hk body hbody)

end rows

end Statechart.Language
