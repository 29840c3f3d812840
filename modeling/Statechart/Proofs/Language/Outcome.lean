import Mathlib.Data.List.Basic
import Statechart.Language.Parser

/-!
# Outcomes of parsers

What a parser does to a text does not depend on where in a file the text stands; offsets only
enter the spans that are returned.  So three relations on plain texts say all that is needed.

* `Takes p s a r` — `p` can accept a beginning of `s` with the value `a` and leave `r`.  Facts
  about what was accepted are read off it, combinator by combinator.
* `Reads e p s b r` — `p` accepts a beginning of `s` and leaves `r`, wherever `s` stands, and its
  value is `b` once it is looked at through `e`.  Here `e` is what forgets the spans.
* `Rejects p s` — `p` does not accept any beginning of `s`, wherever it stands.

**Ordered choice needs all three**: a later alternative is read only where the earlier ones
reject.
-/

namespace Statechart.Language.Parser

variable {α β γ δ : Type}

/-! ## The outcome of a combinator -/

lemma outcome_bind (p : Parser α) (q : α → Parser β) (c : Cursor) :
    ((p >>= q) c).outcome = (p c).outcome.bind fun x => (q x.1 x.2).outcome := by
  show (andThen p q c).outcome = _
  unfold andThen
  rcases p c with ⟨_ | ⟨a, c'⟩, record⟩ <;> rfl

lemma outcome_orElse (p q : Parser α) (c : Cursor) :
    ((p <|> q) c).outcome = (p c).outcome.or (q c).outcome := by
  show (orElse p (fun _ => q) c).outcome = _
  unfold orElse
  rcases p c with ⟨_ | found, record⟩ <;> rfl

lemma outcome_rule (name : Rule) (p : Parser α) (c : Cursor) :
    (rule name p c).outcome =
      (p c).outcome.map fun x => (⟨x.1, ⟨c.offset, x.2.offset⟩⟩, x.2) := by
  unfold rule
  rcases p c with ⟨_ | ⟨a, c'⟩, record⟩ <;> rfl

/-- A row ends where the parser refuses, or takes no character. -/
lemma outcome_many (p : Parser α) (c : Cursor) :
    (many p c).outcome =
      match (p c).outcome with
      | none => some ([], c)
      | some (a, c') =>
        if c'.rest.length < c.rest.length then
          (many p c').outcome.map fun x => (a :: x.1, x.2)
        else some ([a], c') := by
  rw [many]
  rcases p c with ⟨_ | ⟨a, c'⟩, record⟩
  · rfl
  · by_cases h : c'.rest.length < c.rest.length <;> simp [h]

/-! ## What was accepted -/

/-- The parser can accept a beginning of `s`, with the value `a`, and leave `r`. -/
def Takes (p : Parser α) (s : List Char) (a : α) (r : List Char) : Prop :=
  ∃ o o', (p ⟨s, o⟩).outcome = some (a, ⟨r, o'⟩)

section takes

variable {p : Parser α} {q : α → Parser β} {s r : List Char} {a : α}

/-- What a block accepts, its first part accepts, and the rest what is left. -/
lemma takes_bind {b : β} (h : Takes (p >>= q) s b r) :
    ∃ a t, Takes p s a t ∧ Takes (q a) t b r := by
  obtain ⟨o, o', h⟩ := h
  rw [outcome_bind] at h
  obtain ⟨⟨a, t, o₁⟩, hp, hq⟩ := Option.bind_eq_some_iff.mp h
  exact ⟨a, t, ⟨o, o₁, hp⟩, ⟨o₁, o', hq⟩⟩

lemma takes_pure {b : α} (h : Takes (pure a) s b r) : b = a ∧ r = s := by
  obtain ⟨o, o', h⟩ := h
  have h : some (a, (⟨s, o⟩ : Cursor)) = some (b, ⟨r, o'⟩) := h
  simp only [Option.some.injEq, Prod.mk.injEq, Cursor.mk.injEq] at h
  exact ⟨h.1.symm, h.2.1.symm⟩

/-- What a choice accepts, one of the two accepts. -/
lemma takes_orElse {q : Parser α} (h : Takes (p <|> q) s a r) : Takes p s a r ∨ Takes q s a r := by
  obtain ⟨o, o', h⟩ := h
  rw [outcome_orElse, Option.or_eq_some_iff] at h
  rcases h with h | ⟨-, h⟩
  · exact .inl ⟨o, o', h⟩
  · exact .inr ⟨o, o', h⟩

/-- A rule accepts what it names, and adds the span. -/
lemma takes_rule {name : Rule} {a : Located α} (h : Takes (rule name p) s a r) :
    Takes p s a.value r := by
  obtain ⟨o, o', h⟩ := h
  rw [outcome_rule] at h
  obtain ⟨⟨b, t, o₁⟩, hp, hb⟩ := Option.map_eq_some_iff.mp h
  simp only [Prod.mk.injEq, Cursor.mk.injEq] at hb
  obtain ⟨rfl, rfl, rfl⟩ := hb
  exact ⟨o, o₁, hp⟩

/-- A value that is read and then rearranged. -/
lemma takes_map {f : α → β} {b : β} (h : Takes (p >>= fun a => pure (f a)) s b r) :
    ∃ a, b = f a ∧ Takes p s a r := by
  obtain ⟨a, t, hp, hpure⟩ := takes_bind h
  obtain ⟨rfl, rfl⟩ := takes_pure hpure
  exact ⟨a, rfl, hp⟩

/-- What is optional is accepted, or nothing is taken. -/
lemma takes_optional {found : Option α} (h : Takes (optional p) s found r) :
    (∃ a, found = some a ∧ Takes p s a r) ∨ (found = none ∧ r = s) := by
  rcases takes_orElse h with h | h
  · obtain ⟨a, rfl, hp⟩ := takes_map h
    exact .inl ⟨a, rfl, hp⟩
  · exact .inr (takes_pure h)

/-- The parser can accept one beginning after another, with the values `as`, and leave `r`. -/
inductive TakesAll (p : Parser α) : List Char → List α → List Char → Prop
  | nil {s : List Char} : TakesAll p s [] s
  | cons {s t r : List Char} {a : α} {as : List α} :
      Takes p s a t → TakesAll p t as r → TakesAll p s (a :: as) r

/-- The members of a row are accepted one behind the other. -/
lemma takes_many {as : List α} (h : Takes (many p) s as r) : TakesAll p s as r := by
  obtain ⟨o, o', h⟩ := h
  induction hn : s.length using Nat.strongRecOn generalizing s o as with
  | _ n ih =>
      subst hn
      rw [outcome_many] at h
      rcases hp : (p ⟨s, o⟩).outcome with _ | ⟨a, t, o₁⟩
      · simp only [hp, Option.some.injEq, Prod.mk.injEq, Cursor.mk.injEq] at h
        obtain ⟨rfl, rfl, -⟩ := h
        exact .nil
      · simp only [hp] at h
        by_cases hlt : t.length < s.length
        · rw [if_pos hlt] at h
          obtain ⟨⟨bs, c⟩, hmany, hbs⟩ := Option.map_eq_some_iff.mp h
          simp only [Prod.mk.injEq] at hbs
          obtain ⟨rfl, rfl⟩ := hbs
          exact .cons ⟨o, o₁, hp⟩ (ih _ hlt o₁ hmany rfl)
        · simp only [if_neg hlt, Option.some.injEq, Prod.mk.injEq, Cursor.mk.injEq] at h
          obtain ⟨rfl, rfl, -⟩ := h
          exact .cons ⟨o, o₁, hp⟩ .nil

/-- The first member begins at once, and the others behind blank text and comments. -/
lemma takes_manySpaced {as : List α} (h : Takes (manySpaced p) s as r) :
    (as = [] ∧ r = s) ∨ ∃ a bs t, as = a :: bs ∧ Takes p s a t ∧
      TakesAll (do skip; p) t bs r := by
  rcases takes_orElse h with h | h
  · obtain ⟨a, t, hfirst, h⟩ := takes_bind h
    obtain ⟨bs, rfl, hmore⟩ := takes_map h
    exact .inr ⟨a, bs, t, rfl, hfirst, takes_many hmore⟩
  · exact .inl (takes_pure h)

end takes

/-! ## What is accepted -/

/-- The parser accepts a beginning of `s` wherever it stands, leaves `r`, and its value is `b` when
looked at through `e`. -/
def Reads (e : α → β) (p : Parser α) (s : List Char) (b : β) (r : List Char) : Prop :=
  ∀ o, ∃ a o', (p ⟨s, o⟩).outcome = some (a, ⟨r, o'⟩) ∧ e a = b

/-- The parser accepts no beginning of `s`. -/
def Rejects (p : Parser α) (s : List Char) : Prop := ∀ o, (p ⟨s, o⟩).outcome = none

section reads

variable {e : α → β} {f : γ → δ} {p : Parser α} {q : α → Parser γ} {s t r : List Char} {a : α}
  {b : β} {d : δ}

lemma reads_pure (h : e a = b) (s : List Char) : Reads e (pure a) s b s :=
  fun o => ⟨a, o, rfl, h⟩

/-- A block reads what its first part reads, and then what the rest does. -/
lemma Reads.bind (hp : Reads e p s b t) (hq : ∀ a, e a = b → Reads f (q a) t d r) :
    Reads f (p >>= q) s d r := by
  intro o
  obtain ⟨a, o₁, hp, ha⟩ := hp o
  obtain ⟨c, o', hq, hc⟩ := hq a ha o₁
  exact ⟨c, o', by rw [outcome_bind, hp]; exact hq, hc⟩

/-- A block rejects a text if its rest does so behind what its first part reads. -/
lemma Reads.bind_rejects (hp : Reads e p s b t) (hq : ∀ a, e a = b → Rejects (q a) t) :
    Rejects (p >>= q) s := by
  intro o
  obtain ⟨a, o₁, hp, ha⟩ := hp o
  rw [outcome_bind, hp]
  exact hq a ha o₁

lemma Rejects.bind (hp : Rejects p s) : Rejects (p >>= q) s := by
  intro o
  rw [outcome_bind, hp o]
  rfl

/-- A value that is read and then rearranged. -/
lemma Reads.map {g : α → γ} (hp : Reads e p s b r) (hg : ∀ a, e a = b → f (g a) = d) :
    Reads f (p >>= fun a => pure (g a)) s d r :=
  hp.bind fun a ha => reads_pure (hg a ha) r

lemma Reads.orElse {p' : Parser α} (hp : Reads e p s b r) : Reads e (p <|> p') s b r := by
  intro o
  obtain ⟨a, o', hp, ha⟩ := hp o
  exact ⟨a, o', by rw [outcome_orElse, hp]; rfl, ha⟩

lemma Rejects.orElse {p' : Parser α} (hp : Rejects p s) (hp' : Reads e p' s b r) :
    Reads e (p <|> p') s b r := by
  intro o
  obtain ⟨a, o', hp', ha⟩ := hp' o
  exact ⟨a, o', by rw [outcome_orElse, hp o, hp']; rfl, ha⟩

lemma Rejects.orElse_rejects {p' : Parser α} (hp : Rejects p s) (hp' : Rejects p' s) :
    Rejects (p <|> p') s := by
  intro o
  rw [outcome_orElse, hp o, hp' o]
  rfl

lemma Reads.rule {name : Rule} (hp : Reads e p s b r) :
    Reads (fun a => e a.value) (Parser.rule name p) s b r := by
  intro o
  obtain ⟨a, o', hp, ha⟩ := hp o
  exact ⟨⟨a, o, o'⟩, o', by rw [outcome_rule, hp]; rfl, ha⟩

/-- A rule whose value is put into another form. -/
lemma Reads.declare {name : Rule} {k : Located α → Parser γ} (hp : Reads e p s b r)
    (hk : ∀ x : Located α, e x.value = b → Reads f (k x) r d r) :
    Reads f (Parser.rule name p >>= k) s d r := hp.rule.bind hk

lemma Rejects.rule {name : Rule} (hp : Rejects p s) : Rejects (Parser.rule name p) s := by
  intro o
  rw [outcome_rule, hp o]
  rfl

lemma Reads.optional (hp : Reads e p s b r) :
    Reads (Option.map e) (Parser.optional p) s (some b) r := by
  refine Reads.orElse (hp.map fun a ha => ?_)
  rw [Option.map_some, ha]

lemma Rejects.optional (hp : Rejects p s) : Reads id (Parser.optional p) s none s :=
  hp.bind.orElse (reads_pure rfl s)

/-- The parser accepts one beginning after another, and then no more.  Each time it consumes
something. -/
inductive ReadsAll (e : α → β) (p : Parser α) : List Char → List β → List Char → Prop
  | stop {s : List Char} : Rejects p s → ReadsAll e p s [] s
  | more {s t r : List Char} {b : β} {bs : List β} :
      Reads e p s b t → t.length < s.length → ReadsAll e p t bs r → ReadsAll e p s (b :: bs) r

/-- A row is read up to where its parser rejects, if each member takes characters. -/
lemma ReadsAll.many {bs : List β} (h : ReadsAll e p s bs r) :
    Reads (List.map e) (Parser.many p) s bs r := by
  intro o
  induction h generalizing o with
  | stop hp => exact ⟨[], o, by rw [outcome_many, hp o], rfl⟩
  | more hp hlt _ ih =>
      obtain ⟨a, o₁, hfirst, rfl⟩ := hp o
      obtain ⟨as, o', hmany, rfl⟩ := ih o₁
      refine ⟨a :: as, o', ?_, rfl⟩
      rw [outcome_many, hfirst]
      show (if _ < _ then _ else _) = _
      rw [if_pos hlt, hmany]
      rfl

lemma ReadsAll.manySpaced {bs : List β} (hp : Reads e p s b t)
    (h : ReadsAll e (do skip; p) t bs r) :
    Reads (List.map e) (Parser.manySpaced p) s (b :: bs) r := by
  refine Reads.orElse (hp.bind fun a ha => h.many.map fun as has => ?_)
  rw [List.map_cons, ha, has]

lemma Rejects.manySpaced (hp : Rejects p s) :
    Reads (List.map e) (Parser.manySpaced p) s [] s :=
  hp.bind.orElse (reads_pure rfl s)

end reads

end Statechart.Language.Parser
