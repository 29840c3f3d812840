import Statechart.Proofs.Source.Name
import Statechart.Script.Quoted

/-!
# Reading the lexemes of a script

The other side of `Script.Quoted`: how string literals, names and property keys are read back.
The readers follow the rules for scripts and not what the writer happens to write, so a literal
may hold any escape sequence, and any number of blanks may stand in front of a lexeme.

* `Reading` — a reader takes a beginning of a text, or refuses.
* `characters` — the inside of a string literal.  Only escapes for halves of surrogate pairs are
  refused, since no text is made of them.
* `sign`, `word`, `quoted`, `propertyName` — single lexemes.

**`quoted_quote`** and **`propertyName_propertyKey`** say that literals and keys are read back as
they were before they were written, whatever comes after them.
-/

namespace Statechart.Script

/-- A reader: what it reads, and the text behind it. -/
abbrev Reading := StateT (List Char) Option

namespace Reading

variable {α β : Type} {x : Reading α} {s t : List Char} {a : α}

/-- The rest of a block reads on from where its first step stopped. -/
lemma bind_of_some (h : x s = some (a, t)) (f : α → Reading β) : (x >>= f) s = f a t := by
  show StateT.bind x f s = _
  simp [StateT.bind, h]

lemma pure_eq (a : α) (s : List Char) : (pure a : Reading α) s = some (a, s) := rfl

end Reading

/-! ## Blanks and signs -/

/-- The blanks and line ends of a script. -/
def isSpace (c : Char) : Bool :=
  c ∈ [' ', '\t', '\n', '\r', '\x0b', '\x0c', '\u00a0', '\ufeff', '\u2028', '\u2029']

/-- The text from the next lexeme on. -/
def skipSpace (s : List Char) : List Char := s.dropWhile isSpace

/-- Blanks in front are skipped. -/
lemma skipSpace_append {gap : List Char} (h : ∀ c ∈ gap, isSpace c = true) (s : List Char) :
    skipSpace (gap ++ s) = skipSpace s := by
  induction gap with
  | nil => rfl
  | cons c gap ih =>
      obtain ⟨hc, hgap⟩ := List.forall_mem_cons.mp h
      rw [List.cons_append, skipSpace, List.dropWhile_cons_of_pos hc]
      exact ih hgap

lemma skipSpace_cons {c : Char} (h : isSpace c = false) (s : List Char) :
    skipSpace (c :: s) = c :: s := by
  rw [skipSpace, List.dropWhile_cons_of_neg (by simp [h])]

/-- A reader with any number of blanks in front. -/
def spaced {α : Type} (x : Reading α) : Reading α := fun s => x (skipSpace s)

lemma spaced_gap {α : Type} {gap : List Char} (h : ∀ c ∈ gap, isSpace c = true) (x : Reading α)
    (s : List Char) : spaced x (gap ++ s) = spaced x s := by
  rw [spaced, spaced, skipSpace_append h]

lemma spaced_cons {α : Type} {c : Char} (h : isSpace c = false) (x : Reading α) (s : List Char) :
    spaced x (c :: s) = x (c :: s) := by
  rw [spaced, skipSpace_cons h]

/-- A sign. -/
def sign (c : Char) : Reading Unit := spaced fun s =>
  match s with
  | [] => none
  | d :: rest => if d = c then some ((), rest) else none

/-- A sign if it comes next, and whether it does. -/
def offered (c : Char) : Reading Bool := fun s =>
  match sign c s with
  | some ((), rest) => some (true, rest)
  | none => some (false, s)

lemma sign_gap {gap : List Char} (h : ∀ c ∈ gap, isSpace c = true) (c : Char) (s : List Char) :
    sign c (gap ++ s) = sign c s := spaced_gap h _ s

lemma sign_self {c : Char} (h : isSpace c = false) (s : List Char) :
    sign c (c :: s) = some ((), s) := by
  simp [sign, spaced_cons h]

lemma sign_other {c d : Char} (h : isSpace d = false) (hne : d ≠ c) (s : List Char) :
    sign c (d :: s) = none := by
  simp [sign, spaced_cons h, hne]

lemma offered_of_some {c : Char} {s t : List Char} (h : sign c s = some ((), t)) :
    offered c s = some (true, t) := by
  rw [offered, h]

lemma offered_of_none {c : Char} {s : List Char} (h : sign c s = none) :
    offered c s = some (false, s) := by
  rw [offered, h]

/-! ## Names -/

/-- The characters of a name.  Beyond ASCII all that is not blank is taken for one. -/
def isWordChar (c : Char) : Bool := isNameChar c || (0x80 ≤ c.toNat && !isSpace c)

/-- A name. -/
def word : Reading String := spaced fun s =>
  let text := s.takeWhile isWordChar
  if text.head?.all Char.isDigit then none
  else some (String.ofList text, s.dropWhile isWordChar)

lemma isSpace_of_isNameChar {c : Char} (h : isNameChar c = true) : isSpace c = false := by
  refine Bool.eq_false_iff.mpr fun hspace => ?_
  simp only [isSpace, List.mem_cons, List.not_mem_nil, or_false, decide_eq_true_eq] at hspace
  rcases hspace with rfl | rfl | rfl | rfl | rfl | rfl | rfl | rfl | rfl | rfl <;> cases h

/-- No name begins with a digit. -/
lemma isDigit_of_isNameStart {c : Char} (h : isNameStart c = true) : c.isDigit = false := by
  rw [isNameStart, Bool.or_eq_true, Bool.or_eq_true, decide_eq_true_eq, decide_eq_true_eq] at h
  rcases h with (h | rfl) | rfl
  · refine Bool.eq_false_iff.mpr fun hdigit => ?_
    simp only [Char.isDigit, Bool.and_eq_true, decide_eq_true_eq] at hdigit
    -- a letter of either case comes behind all digits
    rcases Bool.or_eq_true_iff.mp (show (c.isUpper || c.isLower) = true from h) with hup | hlow
    · exact absurd (Nat.le_trans (of_decide_eq_true hup).1 hdigit.2) (by decide)
    · have hge := of_decide_eq_true (Bool.and_eq_true_iff.mp hlow).1
      exact absurd (Nat.le_trans hge hdigit.2) (by decide)
  all_goals rfl

lemma isWordChar_of_isNameChar {c : Char} (h : isNameChar c = true) : isWordChar c = true := by
  rw [isWordChar, h, Bool.true_or]

/-- A name is read up to its end. -/
lemma word_append {n : String} (hn : isIdentifier n.toList = true) {rest : List Char}
    (hrest : rest.head?.any isWordChar = false) : word (n.toList ++ rest) = some (n, rest) := by
  obtain ⟨htake, hdrop⟩ := split_while (fun c hc =>
    isWordChar_of_isNameChar (isNameChar_of_mem hn hc)) hrest
  obtain ⟨c, cs, hcs, hc, -⟩ := isNameStart_head hn
  have hspace : isSpace c = false := isSpace_of_isNameChar (isNameChar_of_isNameStart hc)
  have hdigit : n.toList.head?.all Char.isDigit = false := by
    rw [hcs]
    exact isDigit_of_isNameStart hc
  have hskip : skipSpace (n.toList ++ rest) = n.toList ++ rest := by
    rw [hcs]
    exact skipSpace_cons hspace _
  simp only [word, spaced, hskip, htake, hdrop, hdigit, String.ofList_toList]
  rfl

/-! ## String literals -/

/-- Where a reader stands inside a string literal. -/
inductive Inside where
  /-- Before a character.  With `feed`, a line feed here belongs to a line end that was escaped. -/
  | text (feed : Bool)
  /-- Behind a backslash. -/
  | escape
  /-- Before a hexadecimal digit, with more of them to come, and the number so far. -/
  | digit (more value : Nat)
  /-- Behind the letter that a code point follows. -/
  | codePoint
  /-- Between the braces around a code point, with the number so far. -/
  | braces (value : Option Nat)

/-- The number that a hexadecimal digit stands for. -/
def hexValue? (c : Char) : Option Nat :=
  if '0' ≤ c ∧ c ≤ '9' then some (c.toNat - 48)
  else if 'a' ≤ c ∧ c ≤ 'f' then some (c.toNat - 87)
  else if 'A' ≤ c ∧ c ≤ 'F' then some (c.toNat - 55)
  else none

/-- The character with a given number, unless it is half of a surrogate pair or too large. -/
def charOf? (n : Nat) : Option Char := if n.isValidChar then some (Char.ofNat n) else none

/-- What a character behind a backslash stands for, if it stands for one character. -/
def unescape (c : Char) : Char :=
  if c = 'b' then '\x08' else if c = 'f' then '\x0c' else if c = 'n' then '\n'
  else if c = 'r' then '\r' else if c = 't' then '\t' else if c = 'v' then '\x0b' else c

/-- A reader with one more character in front of what it reads. -/
def prepend (c : Char) (read : Option (List Char × List Char)) : Option (List Char × List Char) :=
  read.map fun (cs, rest) => (c :: cs, rest)

/-- The characters up to the quote that ends a literal, and the text behind it. -/
def characters : Inside → List Char → Option (List Char × List Char)
  | _, [] => none
  | .text feed, c :: s =>
    if c = '\'' then some ([], s)
    else if c = '\\' then characters .escape s
    else if c = '\n' ∧ feed = true then characters (.text false) s
    else if c = '\n' ∨ c = '\r' then none
    else prepend c (characters (.text false) s)
  | .escape, c :: s =>
    if c = 'u' then characters .codePoint s
    else if c = 'x' then characters (.digit 1 0) s
    else if c = '\n' ∨ c = '\u2028' ∨ c = '\u2029' then characters (.text false) s
    else if c = '\r' then characters (.text true) s
    else if c = '0' ∧ s.head?.all (!Char.isDigit ·) then
      prepend '\x00' (characters (.text false) s)
    else if c.isDigit then none
    else prepend (unescape c) (characters (.text false) s)
  | .digit more value, c :: s =>
    match hexValue? c with
    | none => none
    | some d =>
      match more with
      | 0 =>
        match charOf? (16 * value + d) with
        | none => none
        | some c => prepend c (characters (.text false) s)
      | more + 1 => characters (.digit more (16 * value + d)) s
  | .codePoint, c :: s =>
    if c = '\x7b' then characters (.braces none) s
    else
      match hexValue? c with
      | none => none
      | some d => characters (.digit 2 d) s
  | .braces value, c :: s =>
    match hexValue? c with
    | some d => characters (.braces (some (16 * value.getD 0 + d))) s
    | none =>
      match value.bind charOf? with
      | none => none
      | some d =>
        if c = '\x7d' then prepend d (characters (.text false) s) else none
termination_by structural _ s => s

/-- A string literal. -/
def quoted : Reading String := do
  sign '\''
  let cs ← characters (.text false)
  return String.ofList cs

/-- The key of a property: a name or a literal. -/
def propertyName : Reading String := spaced fun s =>
  if s.head? = some '\'' then quoted s else word s

lemma hexValue?_hexDigit : ∀ n < 16, hexValue? (hexDigit n) = some n := by decide

lemma hexValue?_hexDigit_mod (k : Nat) : hexValue? (hexDigit (k % 16)) = some (k % 16) :=
  hexValue?_hexDigit _ (Nat.mod_lt _ (by decide))

lemma hexDigit_ne_brace (k : Nat) : hexDigit (k % 16) ≠ '\x7b' := fun heq => by
  have hdigit := hexValue?_hexDigit_mod k
  rw [heq] at hdigit
  cases hdigit

/-- Four digits make up the number that they were taken from. -/
lemma sixteens_eq {n : Nat} (h : n < 65536) :
    16 * (16 * (16 * (n / 4096 % 16) + n / 256 % 16) + n / 16 % 16) + n % 16 = n := by omega

/-- **How a character is written inside a literal**: as it is, with a backslash and one letter or
sign, or with four hexadecimal digits. -/
lemma escape_cases (c : Char) :
    (escape c = [c] ∧ c ≠ '\\' ∧ c ≠ '\'' ∧ c ≠ '\n' ∧ c ≠ '\r') ∨
      (∃ d, escape c = ['\\', d] ∧ c = unescape d ∧
        (d = '\\' ∨ d = '\'' ∨ d = 'n' ∨ d = 'r' ∨ d = 't')) ∨
      escape c = '\\' :: 'u' :: fourHexDigits c.toNat ∧ c.toNat < 65536 := by
  rw [escape]
  by_cases hback : c = '\\'
  · subst hback; exact .inr (.inl ⟨'\\', rfl, rfl, .inl rfl⟩)
  by_cases hquote : c = '\''
  · subst hquote; exact .inr (.inl ⟨'\'', rfl, rfl, .inr (.inl rfl)⟩)
  by_cases hfeed : c = '\n'
  · subst hfeed; exact .inr (.inl ⟨'n', rfl, rfl, .inr (.inr (.inl rfl))⟩)
  by_cases hreturn : c = '\r'
  · subst hreturn; exact .inr (.inl ⟨'r', rfl, rfl, .inr (.inr (.inr (.inl rfl)))⟩)
  by_cases htab : c = '\t'
  · subst htab; exact .inr (.inl ⟨'t', rfl, rfl, .inr (.inr (.inr (.inr rfl)))⟩)
  rw [if_neg hback, if_neg hquote, if_neg hfeed, if_neg hreturn, if_neg htab]
  by_cases hcontrol : isControl c = true
  · rw [if_pos hcontrol]
    simp only [isControl, Bool.or_eq_true, Bool.and_eq_true, decide_eq_true_eq] at hcontrol
    exact .inr (.inr ⟨rfl, by omega⟩)
  · rw [if_neg hcontrol]
    exact .inl ⟨rfl, hback, hquote, hfeed, hreturn⟩

/-- Four digits stand for the number that they were written for. -/
lemma characters_fourHexDigits {c : Char} (h : c.toNat < 65536) (s : List Char) :
    characters .codePoint (fourHexDigits c.toNat ++ s) =
      prepend c (characters (.text false) s) := by
  have hvalid : charOf? c.toNat = some c := by
    have hc : c.toNat.isValidChar := c.valid
    rw [charOf?, if_pos hc, Char.ofNat_toNat]
  simp only [fourHexDigits, List.cons_append, List.nil_append, characters,
    if_neg (hexDigit_ne_brace _), hexValue?_hexDigit_mod, sixteens_eq h, hvalid]

/-- What stands for a character inside a literal is read as that character. -/
lemma characters_escape (c : Char) (s : List Char) :
    characters (.text false) (escape c ++ s) = prepend c (characters (.text false) s) := by
  rcases escape_cases c with
    ⟨hc, hback, hquote, hfeed, hreturn⟩ | ⟨d, hd, rfl, hshort⟩ | ⟨hc, hsmall⟩
  · rw [hc, List.singleton_append, characters, if_neg hquote, if_neg hback,
      if_neg (by simp [hfeed]), if_neg (by simp [hfeed, hreturn])]
  · rw [hd]
    rcases hshort with rfl | rfl | rfl | rfl | rfl <;> simp [characters, unescape]
  · rw [hc]
    simp only [List.cons_append, characters, Char.reduceEq, if_false, if_true]
    exact characters_fourHexDigits hsmall s

/-- The inside of a literal is read up to the quote that ends it. -/
lemma characters_flatMap_escape (cs rest : List Char) :
    characters (.text false) (cs.flatMap escape ++ '\'' :: rest) = some (cs, rest) := by
  induction cs with
  | nil => rfl
  | cons c cs ih =>
      rw [List.flatMap_cons, List.append_assoc, characters_escape, ih]
      rfl

lemma toList_quote (text : String) (rest : List Char) :
    (quote text).toList ++ rest = '\'' :: (text.toList.flatMap escape ++ '\'' :: rest) := by
  simp [quote]

/-- **A string literal is read back.** -/
lemma quoted_quote (text : String) (rest : List Char) :
    quoted ((quote text).toList ++ rest) = some (text, rest) := by
  rw [toList_quote, quoted, Reading.bind_of_some (sign_self (by decide) _),
    Reading.bind_of_some (characters_flatMap_escape _ _), Reading.pure_eq, String.ofList_toList]

/-- **The key of a property is read back.** -/
lemma propertyName_propertyKey (key : String) {rest : List Char}
    (hrest : rest.head?.any isWordChar = false) :
    propertyName ((propertyKey key).toList ++ rest) = some (key, rest) := by
  rw [propertyKey]
  by_cases hkey : isIdentifier key.toList = true
  · obtain ⟨c, cs, hcs, hc, -⟩ := isNameStart_head hkey
    have hspace : isSpace c = false := isSpace_of_isNameChar (isNameChar_of_isNameStart hc)
    have hquote : c ≠ '\'' := ne_of_isNameChar (isNameChar_of_isNameStart hc) (by decide)
    have hword := word_append hkey hrest
    rw [if_pos hkey, propertyName]
    rw [hcs, List.cons_append] at hword ⊢
    rw [spaced_cons hspace, List.head?_cons, if_neg (by simpa using hquote), hword]
  · have hquote := quoted_quote key rest
    rw [if_neg hkey, propertyName]
    rw [toList_quote] at hquote ⊢
    rwa [spaced_cons (by decide), List.head?_cons, if_pos rfl]

end Statechart.Script
