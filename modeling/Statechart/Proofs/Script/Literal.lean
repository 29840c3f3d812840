import Statechart.Proofs.Script.Lexeme
import Statechart.Script.Writer

/-!
# Literals and keys by the grammar of scripts

What a text inside a script stands for is laid down by the grammar of scripts, and not by any
reader: a value is a row of UTF-16 code units, and the productions say which units each character
or escape sequence stands for.

* `utf16`, `codeUnits` — the units of a code point and of a text.  Different texts have different
  units (`codeUnits_injective`).
* `stringCharacter`, `escapeSequence` — one character of a literal, with all escapes that there are.
* `Literal` — a text begins with a literal in single quotes.  What it stands for and where it ends
  are determined (`Literal.unique`).
* `PropertyName` — a text begins with a property name, which is a literal or a bare name.  Which
  characters beyond ASCII may stand in a name is left open (`NameClass`).

**`writer_readBack`** — the literals and keys that a writer puts down stand for the texts that it
was given, whatever follows them.
-/

namespace Statechart.Script

/-! ## Code units -/

/-- The UTF-16 code units of a code point. -/
def utf16 (n : Nat) : List Nat :=
  if n < 0x10000 then [n]
  else [0xd800 + (n - 0x10000) / 0x400, 0xdc00 + (n - 0x10000) % 0x400]

/-- The UTF-16 code units of a text. -/
def codeUnits (text : List Char) : List Nat := text.flatMap fun c => utf16 c.toNat

/-- No character is half of a surrogate pair. -/
lemma toNat_bounds (c : Char) : c.toNat < 0xd800 ∨ 0xdfff < c.toNat ∧ c.toNat < 0x110000 := c.valid

/-- Where the units of a text begin with those of a character, the text begins with it. -/
lemma utf16_append_inj {c d : Char} {us vs : List Nat}
    (h : utf16 c.toNat ++ us = utf16 d.toNat ++ vs) : c = d ∧ us = vs := by
  have hc := toNat_bounds c
  have hd := toNat_bounds d
  suffices hnat : c.toNat = d.toNat by
    rw [hnat] at h
    exact ⟨Char.toNat_inj.mp hnat, List.append_cancel_left h⟩
  unfold utf16 at h
  split at h <;> split at h <;>
    simp only [List.cons_append, List.nil_append, List.cons.injEq] at h <;> omega

/-- **Different texts have different units.** -/
lemma codeUnits_injective : Function.Injective codeUnits := by
  intro s
  induction s with
  | nil =>
      intro t h
      cases t with
      | nil => rfl
      | cons d t =>
          rw [codeUnits, codeUnits, List.flatMap_cons, utf16] at h
          split at h <;> cases h
  | cons c s ih =>
      intro t h
      cases t with
      | nil =>
          rw [codeUnits, codeUnits, List.flatMap_cons, utf16] at h
          split at h <;> cases h
      | cons d t =>
          rw [codeUnits, codeUnits, List.flatMap_cons, List.flatMap_cons] at h
          obtain ⟨rfl, hrest⟩ := utf16_append_inj h
          rw [ih hrest]

/-! ## The characters of a literal -/

/-- The characters that end a line. -/
def isLineEnd (c : Char) : Bool := c = '\n' || c = '\r' || c = '\u2028' || c = '\u2029'

/-- The number that hexadecimal digits stand for. -/
def hexNumber (digits : List Char) : Option Nat :=
  digits.foldlM (fun n d => (hexValue? d).map (16 * n + ·)) 0

/-- As many hexadecimal digits as are asked for: their number, and the text behind them. -/
def hexDigits (count : Nat) (s : List Char) : Option (Nat × List Char) :=
  if count ≤ s.length then (hexNumber (s.take count)).map (·, s.drop count) else none

/-- A code point in hexadecimal digits, up to a closing brace. -/
def codePoint (s : List Char) : Option (Nat × List Char) :=
  let digits := s.takeWhile fun c => (hexValue? c).isSome
  let rest := s.dropWhile fun c => (hexValue? c).isSome
  if digits ≠ [] ∧ rest.head? = some '\x7d' then
    (hexNumber digits).bind fun n => if n ≤ 0x10ffff then some (n, rest.tail) else none
  else none

/-- What stands behind a backslash: the units that it stands for, and the text behind it.  The end
of a line stands for nothing. -/
def escapeSequence : List Char → Option (List Nat × List Char)
  | [] => none
  | c :: s =>
    if c = 'u' then
      if s.head? = some '\x7b' then (codePoint s.tail).map fun (n, r) => (utf16 n, r)
      else (hexDigits 4 s).map fun (n, r) => ([n], r)
    else if c = 'x' then (hexDigits 2 s).map fun (n, r) => ([n], r)
    else if c = '\r' ∧ s.head? = some '\n' then some ([], s.tail)
    else if isLineEnd c then some ([], s)
    else if c = '0' ∧ s.head?.all (!Char.isDigit ·) then some ([0], s)
    else if c.isDigit then none
    else some (utf16 (unescape c).toNat, s)

/-- One character of a literal: the units that it stands for, and the text behind it.  The closing
quote is none, and neither is the end of a line. -/
def stringCharacter : List Char → Option (List Nat × List Char)
  | [] => none
  | c :: s =>
    if c = '\\' then escapeSequence s
    else if c = '\'' ∨ c = '\n' ∨ c = '\r' then none
    else some (utf16 c.toNat, s)

/-- What stands behind the opening quote of a literal: its characters with their units, the closing
quote, and the text behind it. -/
inductive LiteralBody : List Char → List Nat → List Char → Prop where
  | close {r : List Char} : LiteralBody ('\'' :: r) [] r
  | character {s t r : List Char} {us vs : List Nat} : stringCharacter s = some (us, t) →
      LiteralBody t vs r → LiteralBody s (us ++ vs) r

/-- A text begins with a literal for the given units, and goes on with `r`. -/
def Literal (s : List Char) (units : List Nat) (r : List Char) : Prop :=
  ∃ t, s = '\'' :: t ∧ LiteralBody t units r

/-- What a literal stands for and where it ends are determined, character by character. -/
lemma LiteralBody.unique {s r r' : List Char} {us vs : List Nat} (h : LiteralBody s us r)
    (h' : LiteralBody s vs r') : us = vs ∧ r = r' := by
  have hquote : ∀ t, stringCharacter ('\'' :: t) = none := fun _ => rfl
  induction h generalizing vs r' with
  | close =>
      cases h' with
      | close => exact ⟨rfl, rfl⟩
      | character hchar _ => rw [hquote] at hchar; cases hchar
  | character hchar _ ih =>
      cases h' with
      | close => rw [hquote] at hchar; cases hchar
      | character hchar' hrest =>
          rw [hchar] at hchar'
          cases hchar'
          obtain ⟨rfl, rfl⟩ := ih hrest
          exact ⟨rfl, rfl⟩

/-- **A literal stands for one value and ends in one place.** -/
lemma Literal.unique {s r r' : List Char} {us vs : List Nat} (h : Literal s us r)
    (h' : Literal s vs r') : us = vs ∧ r = r' := by
  obtain ⟨t, rfl, hbody⟩ := h
  obtain ⟨t', ht, hbody'⟩ := h'
  cases ht
  exact hbody.unique hbody'

/-! ## Literals that are written -/

lemma hexNumber_fourHexDigits {n : Nat} (h : n < 65536) : hexNumber (fourHexDigits n) = some n := by
  simp only [hexNumber, fourHexDigits, List.foldlM_cons, List.foldlM_nil, hexValue?_hexDigit_mod,
    Option.map_some, Option.bind_eq_bind, Option.bind_some, Option.pure_def, Nat.mul_zero,
    Nat.zero_add]
  exact congrArg some (sixteens_eq h)

/-- What stands for a character in a literal is one character of it, with its units. -/
lemma stringCharacter_escape (c : Char) (s : List Char) :
    stringCharacter (escape c ++ s) = some (utf16 c.toNat, s) := by
  rcases escape_cases c with
    ⟨hc, hback, hquote, hfeed, hreturn⟩ | ⟨d, hd, rfl, hshort⟩ | ⟨hc, hsmall⟩
  · rw [hc, List.singleton_append, stringCharacter, if_neg hback,
      if_neg (by simp [hquote, hfeed, hreturn])]
  · rw [hd]
    rcases hshort with rfl | rfl | rfl | rfl | rfl <;> rfl
  · have hbrace : (fourHexDigits c.toNat ++ s).head? ≠ some '\x7b' := by
      simpa [fourHexDigits] using hexDigit_ne_brace (c.toNat / 4096)
    have hfour : hexDigits 4 (fourHexDigits c.toNat ++ s) = some (c.toNat, s) := by
      have hnumber := hexNumber_fourHexDigits hsmall
      simp only [fourHexDigits] at hnumber
      simp [hexDigits, fourHexDigits, hnumber]
    have hunits : utf16 c.toNat = [c.toNat] := if_pos hsmall
    rw [hc, List.cons_append, List.cons_append, stringCharacter, if_pos rfl, escapeSequence,
      if_pos rfl, if_neg hbrace, hfour, hunits]
    rfl

/-- A text whose characters are escaped stands for itself, up to the quote. -/
lemma literalBody_flatMap_escape (cs rest : List Char) :
    LiteralBody (cs.flatMap escape ++ '\'' :: rest) (codeUnits cs) rest := by
  induction cs with
  | nil => exact .close
  | cons c cs ih =>
      rw [List.flatMap_cons, List.append_assoc, codeUnits, List.flatMap_cons]
      exact .character (stringCharacter_escape c _) ih

/-- **A literal that is written stands for its text**, and ends where it was ended. -/
lemma literal_quote_iff (text : String) (rest : List Char) {units : List Nat} {r : List Char} :
    Literal ((quote text).toList ++ rest) units r ↔ units = codeUnits text.toList ∧ r = rest := by
  have hliteral : Literal ((quote text).toList ++ rest) (codeUnits text.toList) rest :=
    ⟨_, toList_quote text rest, literalBody_flatMap_escape text.toList rest⟩
  constructor
  · exact fun h => h.unique hliteral
  · rintro ⟨rfl, rfl⟩
    exact hliteral

/-! ## Property names -/

/-- The characters that names begin with and consist of.  Beyond ASCII they are those of some
version of Unicode. -/
structure NameClass where
  start : Char → Bool
  part : Char → Bool
  ascii : ∀ c, c.toNat < 0x80 → start c = isNameStart c ∧ part c = isNameChar c

/-- Names of ASCII characters only. -/
instance : Inhabited NameClass := ⟨⟨isNameStart, isNameChar, fun _ _ => ⟨rfl, rfl⟩⟩⟩

/-- The characters form a name. -/
def NameClass.IsName (u : NameClass) (name : List Char) : Prop :=
  name.head?.any u.start = true ∧ ∀ c ∈ name, u.part c = true

/-- A text begins with a property name for the given units, and goes on with `r`: it is a literal,
or a bare name that is as long as it can be. -/
def PropertyName (u : NameClass) (s : List Char) (units : List Nat) (r : List Char) : Prop :=
  Literal s units r ∨ ∃ name, u.IsName name ∧ r.head?.any u.part = false ∧ s = name ++ r ∧
    units = codeUnits name

/-- The characters of plain names are ASCII. -/
lemma toNat_lt_of_isNameChar {c : Char} (h : isNameChar c = true) : c.toNat < 0x80 := by
  rw [isNameChar, Bool.or_eq_true, Bool.or_eq_true, decide_eq_true_eq, decide_eq_true_eq] at h
  rcases h with (h | rfl) | rfl
  · -- the last character of each of the three rows is below the bound
    rcases Bool.or_eq_true_iff.mp (show (c.isAlpha || c.isDigit) = true from h) with hletter | hdigit
    · rcases Bool.or_eq_true_iff.mp (show (c.isUpper || c.isLower) = true from hletter) with
        hupper | hlower
      · exact Nat.lt_of_le_of_lt (of_decide_eq_true hupper).2 (by decide)
      · exact Nat.lt_of_le_of_lt (of_decide_eq_true (Bool.and_eq_true_iff.mp hlower).2) (by decide)
    · exact Nat.lt_of_le_of_lt (of_decide_eq_true (Bool.and_eq_true_iff.mp hdigit).2) (by decide)
  all_goals decide

section keys

variable (u : NameClass)

/-- A plain name is a name, whatever other characters names may have. -/
lemma NameClass.isName_of_isIdentifier {name : List Char} (h : isIdentifier name = true) :
    u.IsName name := by
  obtain ⟨c, cs, rfl, hc, -⟩ := isNameStart_head h
  have hstart := (u.ascii c (toNat_lt_of_isNameChar (isNameChar_of_isNameStart hc))).1
  refine ⟨by rw [List.head?_cons, Option.any_some, hstart, hc], fun d hd => ?_⟩
  have hpart := isNameChar_of_mem h hd
  rw [(u.ascii d (toNat_lt_of_isNameChar hpart)).2, hpart]

/-- A name that is as long as it can be is determined. -/
lemma NameClass.IsName.unique {u : NameClass} {name name' r r' : List Char} (h : u.IsName name)
    (h' : u.IsName name') (hr : r.head?.any u.part = false) (hr' : r'.head?.any u.part = false)
    (heq : name ++ r = name' ++ r') : name = name' ∧ r = r' := by
  obtain ⟨htake, hdrop⟩ := split_while h.2 hr
  obtain ⟨htake', hdrop'⟩ := split_while h'.2 hr'
  rw [heq, htake'] at htake
  rw [heq, hdrop'] at hdrop
  exact ⟨htake.symm, hdrop.symm⟩

/-- No text begins with a literal and with a name. -/
lemma NameClass.IsName.not_literal {u : NameClass} {name r r' : List Char} {units : List Nat}
    (h : u.IsName name) : ¬Literal (name ++ r) units r' := by
  rintro ⟨t, ht, -⟩
  have hquote : u.start '\'' = false := (u.ascii '\'' (by decide)).1
  cases name with
  | nil => cases h.1
  | cons c name =>
      rw [List.cons_append, List.cons.injEq] at ht
      rw [ht.1] at h
      exact absurd h.1 (by simp [hquote])

/-- **A key that is written is the name of its property**, up to where it was ended by something
that cannot belong to a name. -/
lemma propertyName_iff (key : String) {rest : List Char} (hrest : rest.head?.any u.part = false)
    {units : List Nat} {r : List Char} :
    PropertyName u ((propertyKey key).toList ++ rest) units r ↔
      units = codeUnits key.toList ∧ r = rest := by
  rw [propertyKey]
  by_cases hkey : isIdentifier key.toList = true
  · have hname := u.isName_of_isIdentifier hkey
    rw [if_pos hkey]
    constructor
    · rintro (hliteral | ⟨name, hname', hr, heq, rfl⟩)
      · exact absurd hliteral hname.not_literal
      · obtain ⟨rfl, rfl⟩ := hname.unique hname' hrest hr heq
        exact ⟨rfl, rfl⟩
    · rintro ⟨rfl, rfl⟩
      exact .inr ⟨key.toList, hname, hrest, rfl, rfl⟩
  · rw [if_neg hkey, ← literal_quote_iff]
    refine ⟨?_, .inl⟩
    rintro (hliteral | ⟨name, hname, hr, heq, rfl⟩)
    · exact hliteral
    · have hquote := (literal_quote_iff key rest).mpr ⟨rfl, rfl⟩
      rw [heq] at hquote
      exact absurd hquote hname.not_literal

end keys

/-! ## Writers -/

/-- **What a writer puts down is read back.**  A string is written as a literal that stands for it,
and ends where the writer ended it, whatever follows.  Inside an object, a key is written behind the
separator and the indentation, and in front of its colon: what stands there is a property name
for the key.  So different strings have different literals, and different keys different names. -/
theorem writer_readBack (u : NameClass) :
    (∀ (w : Writer) (text : String), ∃ literal,
      w.apply (.string text) = .ok (w.put literal) ∧
      ∀ rest units r, Literal (literal.toList ++ rest) units r ↔
        units = codeUnits text.toList ∧ r = rest) ∧
    (∀ (before : String) (depth : Nat) (fresh : Bool) (outer : List Frame) (key : String), ∃ name,
      Writer.apply ⟨before, depth, .object fresh :: outer⟩ (.startProperty key) =
        .ok ⟨before ++ (if fresh then "" else ",\n") ++ indentation depth ++ name ++ ": ", depth,
          .object false :: outer⟩ ∧
      ∀ rest units r, PropertyName u (name.toList ++ ": ".toList ++ rest) units r ↔
        units = codeUnits key.toList ∧ r = ": ".toList ++ rest) ∧
    Function.Injective codeUnits ∧ Function.Injective quote ∧ Function.Injective propertyKey := by
  refine ⟨fun w text => ⟨quote text, rfl, fun rest units r => literal_quote_iff text rest⟩,
    fun before depth fresh outer key => ⟨propertyKey key, ?_, fun rest units r => ?_⟩,
    codeUnits_injective, fun s t h => ?_, fun s t h => ?_⟩
  · simp [Writer.apply, Writer.startProperty, Writer.putLine, Writer.put, String.append_assoc]
  · have hcolon : (": ".toList ++ rest).head?.any u.part = false := (u.ascii ':' (by decide)).2
    rw [List.append_assoc]
    exact propertyName_iff u key hcolon
  · have hs := (literal_quote_iff s []).mpr ⟨rfl, rfl⟩
    rw [h] at hs
    exact String.toList_injective (codeUnits_injective ((literal_quote_iff t []).mp hs).1)
  · have hend : ([] : List Char).head?.any u.part = false := rfl
    have hs := (propertyName_iff u s hend).mpr ⟨rfl, rfl⟩
    rw [h] at hs
    exact String.toList_injective (codeUnits_injective ((propertyName_iff u t hend).mp hs).1)

/-- A digit behind an escaped control character does not become part of the escape. -/
example : quote "it's\x7f0" = "'it\\'s\\u007f0'" := by decide +kernel

end Statechart.Script
