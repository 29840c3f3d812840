import Statechart.Language.Grammar
import Statechart.Proofs.Language.Outcome
import Statechart.Proofs.Language.Rendering
import Statechart.Proofs.Source.Name

/-!
# Leaves of the grammar and tokens

What the parsers without parts do to a text, and how a text that spells tokens comes apart.

* `clear s` — what is left of `s` behind blank text and comments.  Skipping always leads there, so
  a text and the same text after a skip are the same to whatever skips next.
* `Begins ts s last r` — `s` spells `ts` and has no gap in front of the first of them, which is
  how a text stands when a rule is tried on it.
* `Spelling.begins`, `Begins.spelling` — skipping is what leads from the one to the other.
* `takes_name`, `reads_name`, … — **names are as long as they can be**, so that two of them are
  kept apart by what follows the first.
-/

namespace Statechart.Language

open Statechart.Language.Parser Statechart.Language.Grammar

/-! ## Blank text and comments -/

/-- What is left behind blank text and comments. -/
def clear (s : List Char) : List Char := (skipFrom false s 0).rest

/-- What is left after blank text does not depend on where it began. -/
lemma rest_skipFrom (comment : Bool) (s : List Char) (o o' : Nat) :
    (skipFrom comment s o).rest = (skipFrom comment s o').rest := by
  fun_induction skipFrom comment s o generalizing o' with
  | case1 => simp [skipFrom]
  | case2 o x xs ih => simp only [skipFrom]; exact ih _
  | case3 o xs ih => simp only [skipFrom]; exact ih _
  | case4 o x xs hslash hblank ih => simp only [skipFrom, hblank, if_true]; exact ih _
  | case5 o x xs hslash hblank => simp [skipFrom, hblank]

/-- Outside of comments, blank characters are skipped one by one. -/
lemma clear_cons {x : Char} {s : List Char} (h : ¬∃ t, x :: s = '/' :: '/' :: t) :
    clear (x :: s) = if isBlank x then clear s else x :: s := by
  rw [clear, skipFrom]
  · split
    · exact rest_skipFrom _ _ _ _
    · rfl
  · rintro t rfl rfl
    exact h ⟨t, rfl⟩

/-- A blank character in front changes nothing. -/
lemma clear_blank {x : Char} (hx : isBlank x = true) (s : List Char) :
    clear (x :: s) = clear s := by
  rw [clear_cons, if_pos hx]
  rintro ⟨t, ⟨⟩⟩
  cases hx

/-- A comment ends with its line. -/
lemma rest_skip_line {line : List Char} (h : '\n' ∉ line) (s : List Char) (o : Nat) :
    (skipFrom true (line ++ '\n' :: s) o).rest = clear s := by
  induction line generalizing o with
  | nil => exact rest_skipFrom false s _ _
  | cons x line ih =>
      simp only [List.mem_cons, not_or] at h
      have hx : (x != '\n') = true := by simpa using Ne.symm h.1
      rw [List.cons_append, skipFrom, hx]
      exact ih h.2 _

/-- A comment in the last line needs no end of line. -/
lemma rest_skip_last {line : List Char} (h : '\n' ∉ line) (o : Nat) :
    (skipFrom true line o).rest = [] := by
  induction line generalizing o with
  | nil => rfl
  | cons x line ih =>
      simp only [List.mem_cons, not_or] at h
      have hx : (x != '\n') = true := by simpa using Ne.symm h.1
      rw [skipFrom, hx]
      exact ih h.2 _

lemma clear_comment {line : List Char} (h : '\n' ∉ line) (s : List Char) :
    clear ('/' :: '/' :: (line ++ '\n' :: s)) = clear s := rest_skip_line h s _

/-- A text that begins neither with a blank character nor with a slash. -/
def Solid (s : List Char) : Prop := ∀ x ∈ s.head?, isBlank x = false ∧ x ≠ '/'

/-- Nothing is skipped in front of a token. -/
lemma Solid.clear_eq {s : List Char} (h : Solid s) : clear s = s := by
  cases s with
  | nil => rfl
  | cons x s =>
      obtain ⟨hblank, hslash⟩ := h x rfl
      rw [clear_cons, hblank]
      · rfl
      · rintro ⟨t, ⟨⟩⟩
        exact hslash rfl

/-- Trivia are skipped, and what stands behind them is looked at next. -/
lemma Trivia.clear_append {g : List Char} (hg : Trivia g) (s : List Char) :
    clear (g ++ s) = clear s := by
  induction hg with
  | nil => rfl
  | blank hx _ ih => rw [List.cons_append, clear_blank hx, ih]
  | comment hline _ ih =>
      rw [List.cons_append, List.cons_append, List.append_assoc, List.cons_append,
        clear_comment hline, ih]

/-- Nothing is left behind the last token. -/
lemma Trailing.clear_eq {s : List Char} (h : Trailing s) : clear s = [] := by
  cases h with
  | trivia h => simpa [clear, skipFrom] using h.clear_append []
  | comment h hline => exact (h.clear_append _).trans (rest_skip_last hline _)

/-- What a skip passes over is trivia, unless it reaches the end of the text. -/
lemma exists_trivia (s : List Char) :
    ∃ g, s = g ++ clear s ∧ (Trivia g ∨ clear s = [] ∧ Trailing s) := by
  induction hn : s.length using Nat.strongRecOn generalizing s with
  | _ n ih =>
      subst hn
      by_cases hcomment : ∃ t, s = '/' :: '/' :: t
      · obtain ⟨t, rfl⟩ := hcomment
        by_cases hline : '\n' ∈ t
        · obtain ⟨line, u, rfl, hfirst⟩ := List.eq_append_cons_of_mem hline
          obtain ⟨g, hg, htrivia⟩ := ih u.length (by simp; omega) u rfl
          rw [clear_comment hfirst]
          refine ⟨'/' :: '/' :: (line ++ '\n' :: g), by simp [← hg], ?_⟩
          rcases htrivia with htrivia | ⟨hnil, htrailing⟩
          · exact .inl (.comment hfirst htrivia)
          · refine .inr ⟨hnil, ?_⟩
            cases htrailing with
            | trivia h => exact .trivia (.comment hfirst h)
            | @comment s line' h hline' =>
                have hlast := Trailing.comment (Trivia.comment hfirst h) hline'
                simpa using hlast
        · have hnil : clear ('/' :: '/' :: t) = [] := rest_skip_last hline _
          exact ⟨'/' :: '/' :: t, by rw [hnil, List.append_nil],
            .inr ⟨hnil, .comment .nil hline⟩⟩
      · cases s with
        | nil => exact ⟨[], rfl, .inl .nil⟩
        | cons x s =>
            by_cases hx : isBlank x = true
            · obtain ⟨g, hg, htrivia⟩ := ih s.length (by simp) s rfl
              rw [clear_blank hx]
              refine ⟨x :: g, by rw [List.cons_append, ← hg], ?_⟩
              rcases htrivia with htrivia | ⟨hnil, htrailing⟩
              · exact .inl (.blank hx htrivia)
              · refine .inr ⟨hnil, ?_⟩
                cases htrailing with
                | trivia h => exact .trivia (.blank hx h)
                | comment h hline => exact .comment (Trivia.blank hx h) hline
            · have hclear : clear (x :: s) = x :: s := by rw [clear_cons hcomment, if_neg hx]
              exact ⟨[], by rw [hclear, List.nil_append], .inl .nil⟩

/-- If all is skipped, there were only trivia and perhaps a last comment. -/
lemma trailing_of_clear {s : List Char} (h : clear s = []) : Trailing s := by
  obtain ⟨g, hg, htrivia | ⟨-, htrailing⟩⟩ := exists_trivia s
  · rw [h, List.append_nil] at hg
    exact .trivia (hg ▸ htrivia)
  · exact htrailing

/-- To skip twice is to skip once. -/
lemma clear_clear (s : List Char) : clear (clear s) = clear s := by
  obtain ⟨g, hg, htrivia | ⟨hnil, -⟩⟩ := exists_trivia s
  · rw [← htrivia.clear_append (clear s), ← hg]
  · rw [hnil]
    rfl

/-- To skip makes a text no longer. -/
lemma length_clear_le (s : List Char) : (clear s).length ≤ s.length := by
  obtain ⟨g, hg, -⟩ := exists_trivia s
  rw [congrArg List.length hg, List.length_append]
  exact Nat.le_add_left _ _

/-- Blank text and comments are skipped as far as they go. -/
lemma takes_skip {s r : List Char} {u : Unit} (h : Takes skip s u r) : r = clear s := by
  obtain ⟨o, o', h⟩ := h
  simp only [skip, Option.some.injEq, Prod.mk.injEq] at h
  rw [clear, rest_skipFrom false s 0 o, h.2]

/-- To skip always succeeds. -/
lemma reads_skip (s : List Char) : Reads id skip s () (clear s) := by
  intro o
  refine ⟨(), (skipFrom false s o).offset, ?_, rfl⟩
  rw [clear, rest_skipFrom false s 0 o]
  rfl

/-! ## Characters -/

section characters

variable {x y : Char}

/-- No character of a name is blank. -/
lemma isBlank_of_isNameChar (hx : isNameChar x = true) : isBlank x = false := by
  by_contra h
  simp only [isBlank, Bool.or_eq_true, decide_eq_true_eq, Bool.not_eq_false] at h
  rcases h with ((rfl | rfl) | rfl) | rfl <;> exact ne_of_isNameChar hx (by decide) rfl

lemma solid_of_isNameChar (hx : isNameChar x = true) (s : List Char) : Solid (x :: s) := by
  rintro y ⟨⟩
  exact ⟨isBlank_of_isNameChar hx, ne_of_isNameChar hx (by decide)⟩

lemma apart_of_before {before after : Option Char} (h : before.any isNameChar = false) :
    Apart before after := fun hboth => by simp [h] at hboth

lemma apart_of_after {before after : Option Char} (h : after.any isNameChar = false) :
    Apart before after := fun hboth => by simp [h] at hboth

lemma Apart.after {before after : Option Char} (h : Apart before after)
    (hbefore : before.any isNameChar = true) : after.any isNameChar = false :=
  Bool.eq_false_iff.mpr fun hafter => h ⟨hbefore, hafter⟩

end characters

/-! ## Tokens and what stands around them -/

/-- No token is empty, and none begins with a blank character or a comment. -/
lemma Token.solid {t : Token} (h : t.Proper) : Solid t.text ∧ t.text ≠ [] := by
  have hfixed : ∀ w ∈ fixedTexts, Solid w.toList ∧ w.toList ≠ [] := by
    have hall : fixedTexts.all (fun w => !w.toList.isEmpty &&
        w.toList.head?.all fun x => !isBlank x && x != '/') = true := by decide +kernel
    intro w hw
    have hw := List.all_eq_true.mp hall w hw
    rw [Bool.and_eq_true, Option.all_eq_true] at hw
    exact ⟨fun x hx => by simpa using hw.2 x hx, by simpa using hw.1⟩
  have hname : ∀ n s, isIdentifier n = true → Solid (n ++ s) ∧ n ++ s ≠ [] := by
    intro n s hn
    obtain ⟨x, m, rfl, hx, -⟩ := isNameStart_head hn
    exact ⟨solid_of_isNameChar (isNameChar_of_isNameStart hx) _, by simp⟩
  cases t with
  | fixed w => exact hfixed w h
  | name n => simpa [text] using hname n.toList [] h
  | symbol n =>
      refine ⟨?_, by simp [text]⟩
      rintro y ⟨⟩
      decide
  | path p =>
      obtain ⟨first, more, hfirst, -, hp⟩ := h
      rw [text, hp]
      exact hname _ _ hfirst
  | number digits unit =>
      obtain ⟨hne, hdigits⟩ := h
      obtain ⟨d, ds, rfl⟩ := List.exists_cons_of_ne_nil hne
      have hd := isNameChar_of_isDigit (hdigits d List.mem_cons_self)
      exact ⟨solid_of_isNameChar hd _, by simp [text]⟩
  | quoted q body =>
      refine ⟨?_, by simp [text]⟩
      rintro y ⟨⟩
      rcases h.1 with rfl | rfl <;> decide

/-- What a token begins with is solid, whatever follows. -/
lemma Solid.append {s : List Char} (h : Solid s) (hne : s ≠ []) (r : List Char) :
    Solid (s ++ r) := by
  obtain ⟨x, s, rfl⟩ := List.exists_cons_of_ne_nil hne
  exact h

/-- A text that spells tokens and has no gap in front of the first. -/
def Begins (ts : List Lexeme) (s : List Char) (last : Option Char) (r : List Char) : Prop :=
  ∃ t us u, ts = (.free, t) :: us ∧ s = t.text ++ u ∧ t.Proper ∧
    Spelling t.text.getLast? us u last r

section spelling

variable {ts us : List Lexeme} {s t r g : List Char} {before last mid : Option Char}

/-- A row of tokens that begins here begins with something solid. -/
lemma Begins.solid (h : Begins ts s last r) : Solid s ∧ s ≠ [] := by
  obtain ⟨t, us, u, -, rfl, hproper, -⟩ := h
  obtain ⟨hsolid, hne⟩ := Token.solid hproper
  exact ⟨hsolid.append hne u, by simp [hne]⟩

lemma Begins.clear_eq (h : Begins ts s last r) : clear s = s := h.solid.1.clear_eq

/-- Trivia in front of tokens. -/
lemma Begins.spelling (h : Begins ts (clear s) last r) (ha : Apart before s.head?) :
    Spelling before ts s last r := by
  have hne := h.solid.2
  obtain ⟨t, us, u, rfl, hs, hproper, hrest⟩ := h
  obtain ⟨g, hg, htrivia | ⟨hnil, -⟩⟩ := exists_trivia s
  · rw [hg, hs]
    refine .cons hproper ⟨htrivia, ?_⟩ hrest
    rintro rfl
    rw [hg, List.nil_append, hs, List.head?_append_of_ne_nil _ (Token.solid hproper).2] at ha
    exact ha
  · exact absurd hnil hne

/-- In front of the first token there may be trivia, which are skipped. -/
lemma Spelling.begins (h : Spelling before ts s last r) (hfree : ∃ t us, ts = (.free, t) :: us) :
    Begins ts (clear s) last r ∧ Apart before s.head? := by
  obtain ⟨t, us, rfl⟩ := hfree
  cases h with
  | @cons _ _ _ _ _ g u _ hproper hgap hrest =>
      obtain ⟨htrivia, hapart⟩ := hgap
      obtain ⟨hsolid, hne⟩ := Token.solid hproper
      refine ⟨⟨t, us, u, rfl, ?_, hproper, hrest⟩, ?_⟩
      · rw [htrivia.clear_append, (hsolid.append hne u).clear_eq]
      · cases htrivia with
        | nil =>
            rw [List.nil_append, List.head?_append_of_ne_nil _ hne]
            exact hapart rfl
        | blank hx _ =>
            refine apart_of_after ?_
            rw [List.cons_append, List.head?_cons, Option.any_some]
            by_contra hchar
            simp [isBlank_of_isNameChar (Bool.not_eq_false _ ▸ hchar)] at hx
        | comment _ _ => exact apart_of_after rfl

/-- Two rows of tokens, one behind the other. -/
lemma Spelling.append (h : Spelling before ts s mid t) (h' : Spelling mid us t last r) :
    Spelling before (ts ++ us) s last r := by
  induction h with
  | nil => exact h'
  | cons hproper hgap _ ih => exact .cons hproper hgap (ih h')

/-- A row of tokens can be cut anywhere. -/
lemma spelling_append (h : Spelling before (ts ++ us) s last r) :
    ∃ mid t, Spelling before ts s mid t ∧ Spelling mid us t last r := by
  induction ts generalizing before s with
  | nil => exact ⟨before, s, .nil, h⟩
  | cons l ts ih =>
      cases h with
      | cons hproper hgap hrest =>
          obtain ⟨mid, t, hts, hus⟩ := ih hrest
          exact ⟨mid, t, .cons hproper hgap hts, hus⟩

/-- The same if nothing stands in front of the first row. -/
lemma Begins.append (h : Begins ts s mid t) (h' : Spelling mid us t last r) :
    Begins (ts ++ us) s last r := by
  obtain ⟨t, ts, u, rfl, rfl, hproper, hrest⟩ := h
  exact ⟨t, ts ++ us, u, rfl, rfl, hproper, hrest.append h'⟩

/-- A row that begins here can be cut behind its first token or later. -/
lemma begins_append (h : Begins (ts ++ us) s last r) (hne : ts ≠ []) :
    ∃ mid t, Begins ts s mid t ∧ Spelling mid us t last r := by
  obtain ⟨l, ts, rfl⟩ := List.exists_cons_of_ne_nil hne
  obtain ⟨t, vs, u, heq, rfl, hproper, hrest⟩ := h
  simp only [List.cons_append, List.cons.injEq] at heq
  obtain ⟨rfl, rfl⟩ := heq
  obtain ⟨mid, v, hts, hus⟩ := spelling_append hrest
  exact ⟨mid, v, ⟨t, ts, u, rfl, rfl, hproper, hts⟩, hus⟩

/-- Tokens take up room, or none if there are none. -/
lemma Spelling.length_le (h : Spelling before ts s last r) : r.length ≤ s.length := by
  induction h with
  | nil => exact Nat.le_refl _
  | cons _ _ _ ih => simp only [List.length_append]; omega

/-- At least one token takes up some room. -/
lemma Begins.length_lt (h : Begins ts s last r) : r.length < s.length := by
  obtain ⟨t, us, u, -, rfl, hproper, hrest⟩ := h
  have hpos := List.length_pos_of_ne_nil (Token.solid hproper).2
  have hle := hrest.length_le
  simp only [List.length_append]
  omega

/-- What keeps apart from the first character behind trivia keeps apart from the trivia. -/
lemma apart_of_clear (h : Apart before (clear s).head?) : Apart before s.head? := by
  rintro ⟨hbefore, hafter⟩
  cases s with
  | nil => cases hafter
  | cons x s =>
      have hx : isNameChar x = true := hafter
      rw [(solid_of_isNameChar hx s).clear_eq] at h
      exact h ⟨hbefore, hx⟩

/-- A single token is its own text. -/
lemma begins_singleton {t : Token} :
    Begins [(.free, t)] s last r ↔ t.Proper ∧ s = t.text ++ r ∧ last = t.text.getLast? := by
  constructor
  · rintro ⟨t, us, u, ⟨⟩, rfl, hproper, hrest⟩
    cases hrest
    exact ⟨hproper, rfl, rfl⟩
  · rintro ⟨hproper, rfl, rfl⟩
    exact ⟨t, [], r, rfl, rfl, hproper, .nil⟩

/-- Inside a head, tokens are set apart by blank characters alone. -/
lemma begins_headTokens {t : Token} {ts : List Token} {x : Token} :
    Begins (headTokens (t :: x :: ts)) s last r ↔
      t.Proper ∧ ∃ g u, s = t.text ++ (g ++ u) ∧ (g ≠ [] ∧ ∀ x ∈ g, isBlank x = true) ∧
        Begins (headTokens (x :: ts)) u last r := by
  constructor
  · rintro ⟨t, us, u, ⟨⟩, rfl, hproper, hrest⟩
    cases hrest with
    | @cons _ _ _ _ _ g u _ hproper' hgap hrest =>
        exact ⟨hproper, g, _, rfl, hgap, x, _, u, rfl, rfl, hproper', hrest⟩
  · rintro ⟨hproper, g, u, rfl, hgap, x, us, v, ⟨⟩, rfl, hproper', hrest⟩
    exact ⟨t, _, _, rfl, rfl, hproper, .cons hproper' hgap hrest⟩

end spelling

/-- A row whose members have one spelling each has one spelling. -/
lemma row_iff {α : Type} {tokens : α → List Lexeme} {as : List α} {ts : List Lexeme} :
    Row (fun a us => us = tokens a) as ts ↔ ts = as.flatMap tokens := by
  constructor
  · intro h
    induction h with
    | nil => rfl
    | cons ha _ ih => rw [ha, ih, List.flatMap_cons]
  · rintro rfl
    induction as with
    | nil => exact .nil
    | cons a as ih => exact .cons rfl ih

/-! ## Rows of characters -/

section leaves

variable {isIn : Char → Bool} {s r : List Char}

/-- The characters of a class are taken from the front. -/
lemma spanChars_eq (isIn : Char → Bool) (s : List Char) (o : Nat) :
    ∃ o', spanChars isIn s o = (s.takeWhile isIn, ⟨s.dropWhile isIn, o'⟩) := by
  induction s generalizing o with
  | nil => exact ⟨o, rfl⟩
  | cons x s ih =>
      obtain ⟨o', h⟩ := ih (o + x.utf8Size)
      by_cases hx : isIn x = true
      · exact ⟨o', by simp [spanChars, hx, h]⟩
      · exact ⟨o, by simp [spanChars, hx]⟩

/-- What is taken is the longest row of the class. -/
lemma takes_charsWhile {a : List Char} (h : Takes (charsWhile isIn) s a r) :
    a = s.takeWhile isIn ∧ r = s.dropWhile isIn := by
  obtain ⟨o, o', h⟩ := h
  obtain ⟨o₁, hspan⟩ := spanChars_eq isIn s o
  simp only [charsWhile, hspan, Option.some.injEq, Prod.mk.injEq, Cursor.mk.injEq] at h
  exact ⟨h.1.symm, h.2.1.symm⟩

/-- The longest row of the class is always taken. -/
lemma reads_charsWhile (isIn : Char → Bool) (s : List Char) :
    Reads id (charsWhile isIn) s (s.takeWhile isIn) (s.dropWhile isIn) := by
  intro o
  obtain ⟨o', hspan⟩ := spanChars_eq isIn s o
  exact ⟨_, o', congrArg some hspan, rfl⟩

/-- A character that is taken is the first one, and of the class. -/
lemma takes_char {x : Char} (h : Takes (char isIn) s x r) : s = x :: r ∧ isIn x = true := by
  obtain ⟨o, o', h⟩ := h
  cases s with
  | nil => cases h
  | cons y s =>
      by_cases hy : isIn y = true
      · simp only [char, hy, if_true, Option.some.injEq, Prod.mk.injEq, Cursor.mk.injEq] at h
        obtain ⟨rfl, rfl, -⟩ := h
        exact ⟨rfl, hy⟩
      · simp [char, hy] at h

/-- A first character of the class is taken. -/
lemma reads_char {x : Char} (hx : isIn x = true) (r : List Char) :
    Reads id (char isIn) (x :: r) x r := by
  intro o
  exact ⟨x, o + x.utf8Size, by simp [char, hx], rfl⟩

/-- A first character outside of the class is refused, and so is the end of the text. -/
lemma rejects_char (h : s.head?.any isIn = false) : Rejects (char isIn) s := by
  intro o
  cases s with
  | nil => rfl
  | cons x s =>
      have hx : isIn x = false := h
      simp [char, hx]

/-- A row of characters is found where it stands. -/
lemma afterChars_append (w r : List Char) (o : Nat) :
    ∃ o', afterChars w ⟨w ++ r, o⟩ = some ⟨r, o'⟩ := by
  induction w generalizing o with
  | nil => exact ⟨o, rfl⟩
  | cons x w ih =>
      obtain ⟨o', h⟩ := ih (o + x.utf8Size)
      exact ⟨o', by rw [List.cons_append, afterChars, if_pos rfl, h]⟩

/-- What is found stands at the front. -/
lemma eq_append_of_afterChars {w : List Char} {o : Nat} {c : Cursor}
    (h : afterChars w ⟨s, o⟩ = some c) : s = w ++ c.rest := by
  induction w generalizing s o with
  | nil =>
      obtain rfl := Option.some.inj h
      rfl
  | cons x w ih =>
      cases s with
      | nil => cases h
      | cons y s =>
          by_cases hxy : x = y
          · subst hxy
            rw [afterChars, if_pos rfl] at h
            rw [List.cons_append, ← ih h]
          · rw [afterChars, if_neg hxy] at h
            cases h

/-- A word that is taken stands at the front. -/
lemma takes_literal {w : String} {u : Unit} (h : Takes (literal w) s u r) : s = w.toList ++ r := by
  obtain ⟨o, o', h⟩ := h
  obtain ⟨c, hc, heq⟩ := Option.map_eq_some_iff.mp h
  simp only [Prod.mk.injEq] at heq
  obtain ⟨-, rfl⟩ := heq
  exact eq_append_of_afterChars hc

/-- A word at the front is taken. -/
lemma reads_literal (w : String) (r : List Char) :
    Reads id (literal w) (w.toList ++ r) () r := by
  intro o
  obtain ⟨o', h⟩ := afterChars_append w.toList r o
  exact ⟨(), o', by rw [literal, h]; rfl, rfl⟩

/-- A word that does not stand at the front is refused. -/
lemma rejects_literal {w : String} (h : ¬w.toList <+: s) : Rejects (literal w) s := by
  intro o
  cases hc : afterChars w.toList ⟨s, o⟩ with
  | none => rw [literal, hc]; rfl
  | some c => exact absurd ⟨c.rest, (eq_append_of_afterChars hc).symm⟩ h

/-- A look ahead takes nothing, and the next character is not of the class. -/
lemma takes_notBefore {u : Unit} (h : Takes (notBefore isIn) s u r) :
    r = s ∧ s.head?.any isIn = false := by
  obtain ⟨o, o', h⟩ := h
  cases s with
  | nil =>
      simp only [notBefore, Option.some.injEq, Prod.mk.injEq, Cursor.mk.injEq] at h
      exact ⟨h.2.1.symm, rfl⟩
  | cons x s =>
      by_cases hx : isIn x = true
      · simp [notBefore, hx] at h
      · have hx : isIn x = false := by simpa using hx
        simp only [notBefore, hx, Bool.false_eq_true, if_false, Option.some.injEq, Prod.mk.injEq,
          Cursor.mk.injEq] at h
        exact ⟨h.2.1.symm, hx⟩

/-- A look ahead succeeds if the next character is not of the class. -/
lemma reads_notBefore (h : s.head?.any isIn = false) : Reads id (notBefore isIn) s () s := by
  intro o
  cases s with
  | nil => exact ⟨(), o, rfl, rfl⟩
  | cons x s =>
      have hx : isIn x = false := h
      exact ⟨(), o, by simp [notBefore, hx], rfl⟩

/-- Nothing is left at the end. -/
lemma takes_atEnd {u : Unit} (h : Takes atEnd s u r) : s = [] := by
  obtain ⟨o, o', h⟩ := h
  cases s with
  | nil => rfl
  | cons x s => simp [atEnd] at h

/-- At least one blank character stands between the tokens of a head. -/
lemma takes_blanks {u : Unit} (h : Takes blanks s u r) :
    ∃ g, s = g ++ r ∧ g ≠ [] ∧ ∀ x ∈ g, isBlank x = true := by
  obtain ⟨x, t, hfirst, hmore⟩ := takes_bind h
  obtain ⟨rfl, hx⟩ := takes_char hfirst
  obtain ⟨g, -, hg⟩ := takes_map hmore
  obtain ⟨rfl, rfl⟩ := takes_charsWhile hg
  refine ⟨x :: t.takeWhile isBlank, ?_, by simp, ?_⟩
  · rw [List.cons_append, List.takeWhile_append_dropWhile]
  · intro y hy
    rcases List.mem_cons.mp hy with rfl | hy
    · exact hx
    · exact List.mem_takeWhile_imp hy

/-- Blank characters between the tokens of a head are taken up to the next token. -/
lemma reads_blanks {g : List Char} (hne : g ≠ []) (hg : ∀ x ∈ g, isBlank x = true)
    (hr : r.head?.any isBlank = false) : Reads id blanks (g ++ r) () r := by
  obtain ⟨x, g, rfl⟩ := List.exists_cons_of_ne_nil hne
  have hsplit := split_while (fun y hy => hg y (List.mem_cons_of_mem _ hy)) hr
  refine (reads_char (hg x List.mem_cons_self) (g ++ r)).bind fun _ _ => ?_
  have hmore := reads_charsWhile isBlank (g ++ r)
  rw [hsplit.2] at hmore
  exact hmore.map fun _ _ => rfl

/-- Blank characters are passed over if there are any. -/
lemma rejects_or_reads_blanks (s : List Char) :
    Rejects blanks s ∨ Reads id blanks s () (s.dropWhile isBlank) ∧
      (s.dropWhile isBlank).length < s.length := by
  by_cases h : s.takeWhile isBlank = []
  · refine .inl (Rejects.bind (rejects_char ?_))
    cases s with
    | nil => rfl
    | cons x s => simpa [List.takeWhile_cons] using h
  · have hreads := reads_blanks h (fun _ => List.mem_takeWhile_imp) (any_head?_dropWhile isBlank s)
    have hlength : (s.takeWhile isBlank ++ s.dropWhile isBlank).length = s.length := by
      rw [List.takeWhile_append_dropWhile]
    have hpos := List.length_pos_of_ne_nil h
    rw [List.takeWhile_append_dropWhile] at hreads
    rw [List.length_append] at hlength
    exact .inr ⟨hreads, by omega⟩

/-! ## Names -/

/-- A name that is taken is a whole identifier: no character of a name follows. -/
lemma takes_name {n : String} (h : Takes name s n r) :
    isIdentifier n.toList = true ∧ s = n.toList ++ r ∧ r.head?.any isNameChar = false := by
  obtain ⟨x, t, hfirst, hmore⟩ := takes_bind h
  obtain ⟨rfl, hx⟩ := takes_char hfirst
  obtain ⟨m, rfl, hm⟩ := takes_map hmore
  obtain ⟨rfl, rfl⟩ := takes_charsWhile hm
  rw [String.toList_ofList]
  refine ⟨?_, ?_, any_head?_dropWhile isNameChar t⟩
  · rw [isIdentifier, hx, Bool.true_and, List.all_eq_true]
    exact fun y hy => List.mem_takeWhile_imp hy
  · rw [List.cons_append, List.takeWhile_append_dropWhile]

/-- An identifier is taken if no character of a name follows. -/
lemma reads_name {n : String} (hn : isIdentifier n.toList = true)
    (hr : r.head?.any isNameChar = false) : Reads id name (n.toList ++ r) n r := by
  obtain ⟨x, m, hxm, hx, hm⟩ := isNameStart_head hn
  obtain ⟨htake, hdrop⟩ := split_while hm hr
  rw [hxm]
  refine (reads_char hx (m ++ r)).bind fun y hy => ?_
  have hmore := reads_charsWhile isNameChar (m ++ r)
  rw [htake, hdrop] at hmore
  refine hmore.map fun k hk => ?_
  have hy : y = x := hy
  have hk : k = m := hk
  rw [hy, hk, ← hxm]
  exact String.ofList_toList

lemma rejects_name (h : s.head?.any isNameStart = false) : Rejects name s :=
  (rejects_char h).bind

end leaves

end Statechart.Language
