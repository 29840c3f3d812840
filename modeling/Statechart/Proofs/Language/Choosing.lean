import Statechart.Proofs.Language.Lexing

/-!
# Why earlier alternatives reject

No word is reserved, so where a name stands an earlier alternative of a choice may first see a word
of its own.  It rejects for what follows the name:

* in front of an arrow there is no further name, so that the heads of bindings, invocations and
  states do not get past the blank characters (`Lone`);
* behind a target or the value of a binding there is no parenthesis, so that `guard`, `action`,
  `assign` and `delay` are not calls (`Calm`).

Both are facts about the text behind a name, and hold of whatever word the name begins with
(`Wordlike`).
-/

namespace Statechart.Language

open Statechart.Language.Parser Statechart.Language.Grammar

variable {α β : Type} {p q : Parser α} {n t s : List Char}

/-- Behind the trivia comes neither a parenthesis nor a brace that opens. -/
def Calm (s : List Char) : Prop := ∀ x ∈ (clear s).head?, x ≠ '(' ∧ x ≠ '{'

/-- The parser looks for a word.  On a name it rejects, or it leaves the end of the name. -/
def Wordlike (p : Parser α) : Prop :=
  ∀ ⦃n t : List Char⦄, (∀ x ∈ n, isNameChar x = true) → t.head?.any isNameChar = false →
    Rejects p (n ++ t) ∨
      ∃ m, (∀ x ∈ m, isNameChar x = true) ∧ Reads (fun _ => ()) p (n ++ t) () (m ++ t)

/-- A word that comes next is the beginning of the name that comes next. -/
lemma exists_of_prefix {w : List Char} (hw : ∀ x ∈ w, isNameChar x = true)
    (ht : t.head?.any isNameChar = false) (h : w <+: n ++ t) : ∃ m, n = w ++ m := by
  induction w generalizing n with
  | nil => exact ⟨n, rfl⟩
  | cons x w ih =>
      cases n with
      | nil =>
          obtain ⟨u, hu⟩ := h
          rw [List.nil_append] at hu
          rw [← hu] at ht
          simp [hw x List.mem_cons_self] at ht
      | cons y n =>
          rw [List.cons_append, List.cons_prefix_cons] at h
          obtain ⟨m, rfl⟩ := ih (fun z hz => hw z (List.mem_cons_of_mem _ hz)) h.2
          exact ⟨m, by rw [h.1, List.cons_append]⟩

/-- A word of name characters, whatever longer name begins with it. -/
lemma wordlike_literal {w : String} (hw : w.toList.all isNameChar = true) :
    Wordlike (literal w) := by
  intro n t hn ht
  by_cases h : w.toList <+: n ++ t
  · obtain ⟨m, rfl⟩ := exists_of_prefix (List.all_eq_true.mp hw) ht h
    refine .inr ⟨m, fun x hx => hn x (List.mem_append_right _ hx), ?_⟩
    rw [List.append_assoc]
    exact reads_literal w (m ++ t)
  · exact .inl (rejects_literal h)

lemma Wordlike.map {f : α → β} (hp : Wordlike p) : Wordlike (p >>= fun a => pure (f a)) := by
  intro n t hn ht
  rcases hp hn ht with h | ⟨m, hm, h⟩
  · exact .inl h.bind
  · exact .inr ⟨m, hm, h.map fun _ _ => rfl⟩

lemma Wordlike.rule {name : Rule} (hp : Wordlike p) : Wordlike (Parser.rule name p) := by
  intro n t hn ht
  rcases hp hn ht with h | ⟨m, hm, h⟩
  · exact .inl h.rule
  · exact .inr ⟨m, hm, h.rule⟩

/-- One of two words. -/
lemma Wordlike.orElse (hp : Wordlike p) (hq : Wordlike q) : Wordlike (p <|> q) := by
  intro n t hn ht
  rcases hp hn ht with h | ⟨m, hm, h⟩
  · rcases hq hn ht with h' | ⟨m, hm, h'⟩
    · exact .inl (h.orElse_rejects h')
    · exact .inr ⟨m, hm, h.orElse h'⟩
  · exact .inr ⟨m, hm, h.orElse⟩

/-! ## Calls -/

/-- A name is not a call where no parenthesis follows it. -/
lemma Wordlike.rejects_call {k : α → Unit → Parser β} (hp : Wordlike p)
    (hn : ∀ x ∈ n, isNameChar x = true) (ht : t.head?.any isNameChar = false) (hc : Calm t) :
    Rejects (p >>= fun a => skip >>= fun _ => literal "(" >>= k a) (n ++ t) := by
  rcases hp hn ht with h | ⟨m, hm, h⟩
  · exact h.bind
  refine h.bind_rejects fun a _ => (reads_skip _).bind_rejects fun _ _ => ?_
  refine (rejects_literal ?_).bind
  rintro ⟨u, hu⟩
  cases m with
  | nil =>
      rw [List.nil_append] at hu
      exact (hc '(' (by rw [← hu]; rfl)).1 rfl
  | cons x m =>
      have hx := hm x List.mem_cons_self
      rw [List.cons_append, (solid_of_isNameChar hx _).clear_eq] at hu
      exact ne_of_isNameChar hx (by decide) (List.cons.inj hu).1.symm

/-! ## Heads -/

/-- A text that is a name, if it begins with one, and blank characters behind which no further name
comes. -/
def Lone (s : List Char) : Prop :=
  ∃ n t, s = n ++ t ∧ (∀ x ∈ n, isNameChar x = true) ∧ t.head?.any isNameChar = false ∧
    (t.dropWhile isBlank).head?.any isNameStart = false

/-- Where trivia leads to something that begins no name, blank characters do not lead to a name. -/
lemma any_dropWhile_of_clear (h : (clear t).head?.any isNameStart = false) :
    (t.dropWhile isBlank).head?.any isNameStart = false := by
  induction t with
  | nil => rfl
  | cons x t ih =>
      by_cases hx : isBlank x = true
      · rw [clear_blank hx] at h
        rw [List.dropWhile_cons_of_pos hx]
        exact ih h
      · rw [List.dropWhile_cons_of_neg hx]
        by_cases hslash : x = '/'
        · subst hslash
          rfl
        · have hsolid : Solid (x :: t) := by
            rintro y ⟨⟩
            exact ⟨by simpa using hx, hslash⟩
          rwa [hsolid.clear_eq] at h

/-- A word is refused where no name begins. -/
lemma rejects_literal_of_head {w : String} {x : Char} (hw : w.toList.head? = some x)
    (hx : isNameStart x = true) (h : s.head?.any isNameStart = false) :
    Rejects (literal w) s := by
  refine rejects_literal ?_
  rintro ⟨u, rfl⟩
  have hne : w.toList ≠ [] := by
    intro hnil
    simp [hnil] at hw
  rw [List.head?_append_of_ne_nil _ hne, hw, Option.any_some, hx] at h
  cases h

/-- A word and the blank characters behind it: if both are there, the name was the word. -/
lemma Wordlike.cases (hp : Wordlike p) (hn : ∀ x ∈ n, isNameChar x = true)
    (ht : t.head?.any isNameChar = false) :
    Rejects p (n ++ t) ∨ (∃ r, Reads (fun _ => ()) p (n ++ t) () r ∧ Rejects blanks r) ∨
      Reads (fun _ => ()) p (n ++ t) () t ∧ Reads id blanks t () (t.dropWhile isBlank) ∧
        (t.dropWhile isBlank).length < t.length := by
  rcases hp hn ht with h | ⟨m, hm, h⟩
  · exact .inl h
  · cases m with
    | nil =>
        rcases rejects_or_reads_blanks t with hblanks | hblanks
        · exact .inr (.inl ⟨t, h, hblanks⟩)
        · exact .inr (.inr ⟨h, hblanks⟩)
    | cons x m =>
        have hx : (x :: m ++ t).head?.any isBlank = false :=
          isBlank_of_isNameChar (hm x List.mem_cons_self)
        exact .inr (.inl ⟨_, h, (rejects_char hx).bind⟩)

/-- A head is refused if its next part is refused behind the blank characters. -/
lemma Wordlike.rejects_head {k : α → Unit → Parser β} (hp : Wordlike p)
    (hn : ∀ x ∈ n, isNameChar x = true) (ht : t.head?.any isNameChar = false)
    (hk : ∀ a u, Rejects (k a u) (t.dropWhile isBlank)) :
    Rejects (p >>= fun a => blanks >>= k a) (n ++ t) := by
  rcases hp.cases hn ht with h | ⟨r, h, hblanks⟩ | ⟨h, hblanks, -⟩
  · exact h.bind
  · exact h.bind_rejects fun _ _ => hblanks.bind
  · exact h.bind_rejects fun a _ => hblanks.bind_rejects fun u _ => hk a u

lemma wordlike_bindingKind : Wordlike bindingKind := by
  refine Wordlike.map (Wordlike.rule (Wordlike.orElse ?_ ?_))
  · exact (wordlike_literal (by decide)).map
  · exact (wordlike_literal (by decide)).map

lemma wordlike_stateModifier : Wordlike stateModifier := by
  refine Wordlike.map (Wordlike.rule (Wordlike.orElse ?_ ?_))
  · exact (wordlike_literal (by decide)).map
  · exact (wordlike_literal (by decide)).map

lemma rejects_binding (h : Lone s) : Rejects binding s := by
  obtain ⟨n, t, rfl, hn, ht, hname⟩ := h
  refine Rejects.bind (Rejects.rule (Rejects.bind (Rejects.rule ?_)))
  exact wordlike_bindingKind.rejects_head hn ht fun _ _ => (rejects_name hname).rule.bind

lemma rejects_invoke (h : Lone s) : Rejects invoke s := by
  obtain ⟨n, t, rfl, hn, ht, hname⟩ := h
  refine Rejects.bind (Rejects.rule (Rejects.bind (Rejects.bind (Rejects.rule ?_))))
  have hword : Wordlike (literal "invoke") := wordlike_literal (by decide)
  exact hword.rejects_head hn ht fun _ _ => Rejects.bind (Rejects.rule (rejects_name hname).bind)

lemma rejects_stateModifier (h : s.head?.any isNameStart = false) : Rejects stateModifier s := by
  refine Rejects.bind (Rejects.rule (Rejects.orElse_rejects ?_ ?_))
  · exact (rejects_literal_of_head (x := 'i') (by decide) (by decide) h).bind
  · exact (rejects_literal_of_head (x := 'f') (by decide) (by decide) h).bind

/-- A name in front of something that is no name may be a modifier for all that can be seen. -/
lemma rejects_or_reads_modifier (hn : ∀ x ∈ n, isNameChar x = true)
    (ht : t.head?.any isNameChar = false) :
    Rejects (do
      let modifier ← stateModifier
      blanks
      return modifier) (n ++ t) ∨
    Reads (fun _ => ()) (do
      let modifier ← stateModifier
      blanks
      return modifier) (n ++ t) () (t.dropWhile isBlank) ∧
      (t.dropWhile isBlank).length < (n ++ t).length := by
  rcases wordlike_stateModifier.cases hn ht with h | ⟨r, h, hblanks⟩ | ⟨h, hblanks, hlt⟩
  · exact .inl h.bind
  · exact .inl (h.bind_rejects fun _ _ => hblanks.bind)
  · refine .inr ⟨h.bind fun a _ => hblanks.map fun _ _ => rfl, ?_⟩
    rw [List.length_append]
    omega

/-- The head of a state is refused where a name stands alone, even if that is a modifier. -/
lemma rejects_stateHead (h : Lone s) : Rejects stateHead s := by
  obtain ⟨n, t, rfl, hn, ht, hname⟩ := h
  refine Rejects.bind (Rejects.rule ?_)
  rcases rejects_or_reads_modifier hn ht with h | ⟨h, hlt⟩
  · have hstate : Wordlike (literal "state") := wordlike_literal (by decide)
    refine (ReadsAll.stop (e := fun _ => ()) h).many.bind_rejects fun _ _ => ?_
    exact hstate.rejects_head hn ht fun _ _ => (rejects_name hname).rule.bind
  · have hlast := ReadsAll.more h hlt (.stop (rejects_stateModifier hname).bind)
    refine hlast.many.bind_rejects fun _ _ => ?_
    exact (rejects_literal_of_head (x := 's') (by decide) (by decide) hname).bind

lemma rejects_state (levels : Nat) (h : Lone s) : Rejects (state levels) s := by
  cases levels with
  | zero => exact fun _ => rfl
  | succ levels => exact Rejects.bind (Rejects.rule (rejects_stateHead h).bind)

end Statechart.Language
