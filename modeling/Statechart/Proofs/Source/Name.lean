import Mathlib.Data.List.TakeWhile
import Mathlib.Tactic.Tauto
import Statechart.Source.Identifier

/-!
# Plain names in a text

Charts and scripts have the same plain names, and read them in the same way: a name is as long as
it can be.  Here is what both need to know of the characters of a name, and of the characters up
to the first that is not in a class.
-/

namespace Statechart

/-! ## Characters of a name -/

section characters

variable {x y : Char}

lemma isNameChar_of_isNameStart (h : isNameStart x = true) : isNameChar x = true := by
  simp only [isNameStart, isNameChar, Char.isAlphanum, Bool.or_eq_true] at h ⊢
  tauto

lemma isNameChar_of_isDigit (h : x.isDigit = true) : isNameChar x = true := by
  simp [isNameChar, Char.isAlphanum, h]

lemma ne_of_isNameChar (hx : isNameChar x = true) (hy : isNameChar y = false) : x ≠ y := by
  rintro rfl
  rw [hx] at hy
  cases hy

/-- A name has a first character, and all others may stand inside a name. -/
lemma isNameStart_head {n : List Char} (h : isIdentifier n = true) :
    ∃ x m, n = x :: m ∧ isNameStart x = true ∧ ∀ y ∈ m, isNameChar y = true := by
  cases n with
  | nil => cases h
  | cons x m =>
      rw [isIdentifier, Bool.and_eq_true, List.all_eq_true] at h
      exact ⟨x, m, rfl, h.1, h.2⟩

/-- All characters of a name may stand inside a name. -/
lemma isNameChar_of_mem {n : List Char} (h : isIdentifier n = true) (hx : x ∈ n) :
    isNameChar x = true := by
  obtain ⟨y, m, rfl, hy, hm⟩ := isNameStart_head h
  rcases List.mem_cons.mp hx with rfl | hx
  · exact isNameChar_of_isNameStart hy
  · exact hm x hx

/-- So may the last one. -/
lemma any_getLast? {n : List Char} (h : isIdentifier n = true) :
    n.getLast?.any isNameChar = true := by
  obtain ⟨y, m, rfl, -⟩ := isNameStart_head h
  rw [List.getLast?_cons, Option.any_some]
  refine isNameChar_of_mem h ?_
  cases hm : m.getLast? with
  | none => exact List.mem_cons_self
  | some z => exact List.mem_cons_of_mem _ (List.mem_of_getLast? hm)

end characters

/-! ## Rows of characters -/

section rows

variable {isIn : Char → Bool} {s r : List Char}

/-- Behind the longest row of a class, no character of the class comes next. -/
lemma any_head?_dropWhile (isIn : Char → Bool) (s : List Char) :
    (s.dropWhile isIn).head?.any isIn = false := by
  induction s with
  | nil => rfl
  | cons x s ih =>
      rw [List.dropWhile_cons]
      split
      · exact ih
      · next hx => simpa using hx

/-- A row of a class is the longest one if no character of the class follows. -/
lemma split_while {n : List Char} (hn : ∀ x ∈ n, isIn x = true) (hr : r.head?.any isIn = false) :
    (n ++ r).takeWhile isIn = n ∧ (n ++ r).dropWhile isIn = r := by
  have hstop : r.takeWhile isIn = [] ∧ r.dropWhile isIn = r := by
    cases r with
    | nil => exact ⟨rfl, rfl⟩
    | cons x r =>
        have hx : isIn x = false := hr
        simp [hx]
  rw [List.takeWhile_append_of_pos hn, List.dropWhile_append_of_pos hn, hstop.1, hstop.2,
    List.append_nil]
  exact ⟨rfl, rfl⟩

end rows

end Statechart
