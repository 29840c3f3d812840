import Statechart.Output.Fragment
import Statechart.Proofs.Script.Layout
import Statechart.Proofs.Script.Lexeme

/-!
# Reading values back

A reader for the values of a script, and the theorem that it reads what a writer writes.

* `listed` — entries with commas between them, up to a closing sign.  A comma after the last entry
  is allowed, and none is needed.
* `value` — a value of any kind.  Every level of nesting and every entry takes characters of its
  own, so the length of a text bounds both, and `value` counts them down; `readValue` starts from
  the length.
* `Value.Proper` — a value whose tokens are names, dotted paths or the function that takes the
  payload out of an event.
* `Value.flat` — the value as it is read: line breaks leave no trace, so that all arrays are taken
  to stand on one line.

**`value_layout`** says that the layout of a value is read as that value, at any depth and whatever
comes after it; a token alone must not be followed by something that could belong to it (`Ends`).
With the text that a writer appends it becomes **`applyAll_readable`**.
-/

namespace Statechart.Script

/-! ## The reader -/

/-- Entries with commas between them, up to the closing sign. -/
def listed {α : Type} (close : Char) (entry : Reading α) : Nat → Reading (List α)
  | 0 => failure
  | n + 1 => do
    if ← offered close then return []
    let first ← entry
    if ← offered ',' then return first :: (← listed close entry n)
    sign close
    return [first]

/-- A key and a value with a colon between them. -/
def property {α : Type} (entry : Reading α) : Reading (String × α) := do
  let key ← propertyName
  sign ':'
  return (key, ← entry)

/-- Names with dots between them. -/
def dotted : Nat → Reading String
  | 0 => failure
  | n + 1 => do
    let first ← word
    if ← offered '.' then return first ++ "." ++ (← dotted n)
    return first

/-- A given name. -/
def keyword (name : String) : Reading Unit := do
  if (← word) = name then return else failure

/-- The two characters of an arrow. -/
def arrow : Reading Unit := spaced fun s =>
  match s with
  | '=' :: '>' :: rest => some ((), rest)
  | _ => none

/-- The function that takes the payload out of an event. -/
def payload : Reading Value := do
  sign '('
  keyword "context"
  sign ','
  keyword "event"
  sign ')'
  arrow
  keyword "event"
  sign '.'
  keyword "data"
  return .token Output.eventData

/-- A value. -/
def value : Nat → Reading Value
  | 0 => failure
  | n + 1 => spaced fun s =>
    if s.head? = some '\x7b' then
      (do sign '\x7b'; return .object (← listed '\x7d' (property (value n)) n) : Reading Value) s
    else if s.head? = some '[' then
      (do sign '['; return .array false (← listed ']' (value n) n) : Reading Value) s
    else if s.head? = some '\'' then
      (do return .string (← quoted) : Reading Value) s
    else if s.head? = some '(' then payload s
    else
      (do
        let name ← dotted n
        if ← offered '(' then
          let argument ← value n
          sign ')'
          return .call name argument
        return .token name : Reading Value) s

/-- The value that a text begins with, and the text behind it. -/
def readValue (s : List Char) : Option (Value × List Char) := value (s.length + 1) s

/-! ## Values that can be read -/

/-- Names with dots between them. -/
inductive Dotted : String → Prop where
  | name {n : String} (h : isIdentifier n.toList = true) : Dotted n
  | more {n rest : String} (h : isIdentifier n.toList = true) (hrest : Dotted rest) :
      Dotted (n ++ "." ++ rest)

namespace Value

mutual

/-- All tokens in a value are such as can be read. -/
def Proper : Value → Prop
  | token text => Dotted text ∨ text = Output.eventData
  | string _ => True
  | object properties => AllProperties properties
  | array _ elements => AllProper elements
  | call callee argument => Dotted callee ∧ argument.Proper

/-- All tokens in some properties are such as can be read. -/
def AllProperties : List (String × Value) → Prop
  | [] => True
  | (_, value) :: rest => value.Proper ∧ AllProperties rest

/-- All tokens in some elements are such as can be read. -/
def AllProper : List Value → Prop
  | [] => True
  | value :: rest => value.Proper ∧ AllProper rest

end

mutual

/-- The value with all arrays on one line. -/
def flat : Value → Value
  | token text => token text
  | string text => string text
  | object properties => object (flatProperties properties)
  | array _ elements => array false (flatElements elements)
  | call callee argument => call callee argument.flat

/-- Properties with all arrays on one line. -/
def flatProperties : List (String × Value) → List (String × Value)
  | [] => []
  | (key, value) :: rest => (key, value.flat) :: flatProperties rest

/-- Elements with all arrays on one line. -/
def flatElements : List Value → List Value
  | [] => []
  | value :: rest => value.flat :: flatElements rest

end

mutual

/-- How far a reader has to count for a value. -/
def weight : Value → Nat
  | token text => text.length + 1
  | string _ => 1
  | object properties => propertiesWeight properties + 1
  | array _ elements => elementsWeight elements + 1
  | call callee argument => callee.length + argument.weight + 1

def propertiesWeight : List (String × Value) → Nat
  | [] => 1
  | (_, value) :: rest => value.weight + propertiesWeight rest

def elementsWeight : List Value → Nat
  | [] => 1
  | value :: rest => value.weight + elementsWeight rest

end

/-- Whether a value is a token. -/
def isToken : Value → Bool
  | token _ => true
  | _ => false

end Value

/-- Nothing in front of the text belongs to a token before it. -/
structure Ends (rest : List Char) : Prop where
  word : rest.head?.any isWordChar = false
  dot : sign '.' rest = none
  paren : sign '(' rest = none

/-! ## Lexemes -/

/-- The characters of a text are all blanks. -/
def Blank (text : List Char) : Prop := ∀ c ∈ text, isSpace c = true

lemma blank_nil : Blank [] := by simp [Blank]

lemma Blank.append {s t : List Char} (hs : Blank s) (ht : Blank t) : Blank (s ++ t) :=
  List.forall_mem_append.mpr ⟨hs, ht⟩

lemma blank_feed : Blank "\n".toList := by simp [Blank, isSpace]

/-- The indentation of a line is blank. -/
lemma blank_indentation : ∀ depth, Blank (indentation depth).toList
  | 0 => by simp [Blank, indentation]
  | depth + 1 => by
      rw [indentation, String.toList_append]
      exact (blank_indentation depth).append (by simp [Blank, indentUnit, isSpace])

/-- No character of a word is a space. -/
lemma isWordChar_of_isSpace {c : Char} (h : isSpace c = true) : isWordChar c = false := by
  have hname : isNameChar c = false := Bool.eq_false_iff.mpr fun hname => by
    rw [isSpace_of_isNameChar hname] at h
    cases h
  rw [isWordChar, hname, h, Bool.not_true, Bool.and_false, Bool.or_false]

/-- What is neither a blank nor part of a token ends one. -/
lemma ends_of_sign {gap : List Char} (hgap : Blank gap) {c : Char} (hspace : isSpace c = false)
    (hword : isWordChar c = false) (hdot : c ≠ '.') (hparen : c ≠ '(') (rest : List Char) :
    Ends (gap ++ c :: rest) where
  word := by
    cases gap with
    | nil => exact hword
    | cons d gap => exact isWordChar_of_isSpace (hgap d List.mem_cons_self)
  dot := by rw [sign_gap hgap, sign_other hspace hdot]
  paren := by rw [sign_gap hgap, sign_other hspace hparen]

/-- A value may have blank text in front. -/
lemma value_gap {gap : List Char} (h : Blank gap) (n : Nat) (s : List Char) :
    value n (gap ++ s) = value n s := by
  cases n with
  | zero => rfl
  | succ n => rw [value, spaced_gap h]

/-- A dotted path begins with the first character of a name. -/
lemma Dotted.head {text : String} (h : Dotted text) :
    ∃ c cs, text.toList = c :: cs ∧ isNameStart c = true := by
  cases h with
  | name hn =>
      obtain ⟨c, cs, hcs, hc, -⟩ := isNameStart_head hn
      exact ⟨c, cs, hcs, hc⟩
  | more hn _ =>
      obtain ⟨c, cs, hcs, hc, -⟩ := isNameStart_head hn
      exact ⟨c, _, by rw [String.toList_append, String.toList_append, hcs]; rfl, hc⟩

/-- A path has at least one character. -/
lemma Dotted.length_pos {text : String} (h : Dotted text) : 0 < text.length := by
  obtain ⟨c, cs, hcs, -⟩ := h.head
  rw [← String.length_toList, hcs]
  exact Nat.succ_pos _

/-- A dotted path is read up to its end. -/
lemma dotted_append {text : String} (h : Dotted text) {rest : List Char}
    (hword : rest.head?.any isWordChar = false) (hdot : sign '.' rest = none) :
    ∀ n, text.length ≤ n → dotted n (text.toList ++ rest) = some (text, rest) := by
  induction h with
  | @name first hfirst =>
      intro n hn
      have hpos := (Dotted.name hfirst).length_pos
      obtain ⟨n, rfl⟩ : ∃ m, n = m + 1 := ⟨n - 1, by omega⟩
      rw [dotted, Reading.bind_of_some (word_append hfirst hword),
        Reading.bind_of_some (offered_of_none hdot)]
      rfl
  | @more first more hfirst hmore ih =>
      intro n hn
      rw [String.length_append, String.length_append] at hn
      have hpoint : ".".length = 1 := rfl
      obtain ⟨n, rfl⟩ : ∃ m, n = m + 1 := ⟨n - 1, by omega⟩
      have htext : (first ++ "." ++ more).toList ++ rest =
          first.toList ++ '.' :: (more.toList ++ rest) := by simp
      rw [htext, dotted, Reading.bind_of_some (word_append hfirst (by rfl)),
        Reading.bind_of_some (offered_of_some (sign_self (by decide) _))]
      show (dotted n >>= _) _ = _
      rw [Reading.bind_of_some (ih n (by omega))]
      rfl

/-- A keyword is read if no character of a word follows. -/
lemma keyword_append {name : String} (h : isIdentifier name.toList = true) {gap rest : List Char}
    (hgap : Blank gap) (hrest : rest.head?.any isWordChar = false) :
    keyword name (gap ++ (name.toList ++ rest)) = some ((), rest) := by
  have hword : word (gap ++ (name.toList ++ rest)) = some (name, rest) := by
    rw [word, spaced_gap hgap]
    exact word_append h hrest
  rw [keyword, Reading.bind_of_some hword, if_pos rfl]
  rfl

/-- The function that takes the payload out of an event is read. -/
lemma payload_append {rest : List Char} (hrest : rest.head?.any isWordChar = false) :
    payload (Output.eventData.toList ++ rest) = some (.token Output.eventData, rest) := by
  have htext : Output.eventData.toList ++ rest = '(' :: ([] ++ ("context".toList ++
      ',' :: ([' '] ++ ("event".toList ++ ')' :: ([' '] ++ '=' :: '>' :: ([' '] ++
        ("event".toList ++ '.' :: ([] ++ ("data".toList ++ rest))))))))) := by
    simp [Output.eventData]
  have hblank : Blank [' '] := by simp [Blank, isSpace]
  have harrow : ∀ s, arrow ([' '] ++ '=' :: '>' :: s) = some ((), s) := fun s => by
    rw [arrow, spaced_gap hblank, spaced_cons (by decide)]
    rfl
  rw [htext, payload, Reading.bind_of_some (sign_self (by decide) _),
    Reading.bind_of_some (keyword_append (by decide) blank_nil (by rfl)),
    Reading.bind_of_some (sign_self (by decide) _),
    Reading.bind_of_some (keyword_append (by decide) hblank (by rfl)),
    Reading.bind_of_some (sign_self (by decide) _), Reading.bind_of_some (harrow _),
    Reading.bind_of_some (keyword_append (by decide) hblank (by rfl)),
    Reading.bind_of_some (sign_self (by decide) _),
    Reading.bind_of_some (keyword_append (by decide) blank_nil hrest)]
  rfl

/-! ## Kinds of values -/

section kinds

variable {n : Nat} {s rest : List Char}

/-- An object is what is listed between braces. -/
lemma value_object {ps : List (String × Value)}
    (h : listed '\x7d' (property (value n)) n s = some (ps, rest)) :
    value (n + 1) ('\x7b' :: s) = some (.object ps, rest) := by
  rw [value, spaced_cons (by decide), List.head?_cons, if_pos rfl,
    Reading.bind_of_some (sign_self (by decide) _), Reading.bind_of_some h]
  rfl

/-- An array is what is listed between brackets.  The reader does not see whether its elements have
lines of their own. -/
lemma value_array {es : List Value} (h : listed ']' (value n) n s = some (es, rest)) :
    value (n + 1) ('[' :: s) = some (.array false es, rest) := by
  rw [value, spaced_cons (by decide), List.head?_cons, if_neg (by decide), if_pos rfl,
    Reading.bind_of_some (sign_self (by decide) _), Reading.bind_of_some h]
  rfl

/-- A quoted text is read back. -/
lemma value_string (text : String) (rest : List Char) :
    value (n + 1) ((quote text).toList ++ rest) = some (.string text, rest) := by
  have hquoted := quoted_quote text rest
  rw [toList_quote] at hquoted ⊢
  rw [value, spaced_cons (by decide), List.head?_cons, if_neg (by decide), if_neg (by decide),
    if_pos rfl, Reading.bind_of_some hquoted]
  rfl

/-- The function that passes the data of an event on is read as one token. -/
lemma value_payload (hrest : rest.head?.any isWordChar = false) :
    value (n + 1) (Output.eventData.toList ++ rest) =
      some (.token Output.eventData, rest) := by
  have hpayload := payload_append hrest
  have htext : Output.eventData.toList ++ rest =
      '(' :: ("context, event) => event.data".toList ++ rest) := by simp [Output.eventData]
  rw [htext] at hpayload ⊢
  rw [value, spaced_cons (by decide), List.head?_cons, if_neg (by decide), if_neg (by decide),
    if_neg (by decide), if_pos rfl, hpayload]

/-- What begins with a name is a path or a call. -/
lemma value_dotted {text : String} (h : Dotted text) (hword : rest.head?.any isWordChar = false)
    (hdot : sign '.' rest = none) (hn : text.length ≤ n) :
    value (n + 1) (text.toList ++ rest) =
      (do
        if ← offered '(' then
          let argument ← value n
          sign ')'
          return .call text argument
        return .token text : Reading Value) rest := by
  have hdotted := dotted_append h hword hdot n hn
  obtain ⟨c, cs, hcs, hc⟩ := h.head
  have hchar := isNameChar_of_isNameStart hc
  have hother : ∀ d, isNameChar d = false → ¬some c = some d := fun d hd heq =>
    ne_of_isNameChar hchar hd (Option.some.inj heq)
  rw [hcs, List.cons_append] at hdotted ⊢
  rw [value, spaced_cons (isSpace_of_isNameChar hchar), List.head?_cons,
    if_neg (hother _ (by decide)), if_neg (hother _ (by decide)), if_neg (hother _ (by decide)),
    if_neg (hother _ (by decide)), Reading.bind_of_some hdotted]

/-- A path is read as a token. -/
lemma value_path {text : String} (h : Dotted text) (hends : Ends rest) (hn : text.length ≤ n) :
    value (n + 1) (text.toList ++ rest) = some (.token text, rest) := by
  rw [value_dotted h hends.word hends.dot hn,
    Reading.bind_of_some (offered_of_none hends.paren)]
  rfl

/-- A call is a path with one value between parentheses. -/
lemma value_call {callee : String} {argument : Value} (h : Dotted callee)
    (hn : callee.length ≤ n) (hvalue : value n s = some (argument, ')' :: rest)) :
    value (n + 1) (callee.toList ++ '(' :: s) = some (.call callee argument, rest) := by
  rw [value_dotted h (by rfl) (sign_other (by decide) (by decide) _) hn,
    Reading.bind_of_some (offered_of_some (sign_self (by decide) _))]
  show (value n >>= _) s = _
  rw [Reading.bind_of_some hvalue, Reading.bind_of_some (sign_self (by decide) _)]
  rfl

end kinds

/-! ## Lists -/

section listed

variable {α : Type} {close : Char} {entry : Reading α} {s t u : List Char} {n : Nat} {a : α}

/-- A list may end at once. -/
lemma listed_close (h : sign close s = some ((), t)) :
    listed close entry (n + 1) s = some ([], t) := by
  rw [listed, Reading.bind_of_some (offered_of_some h)]
  rfl

/-- A list ends behind its last entry, without a comma. -/
lemma listed_last (hopen : sign close s = none) (hentry : entry s = some (a, t))
    (hcomma : sign ',' t = none) (hclose : sign close t = some ((), u)) :
    listed close entry (n + 1) s = some ([a], u) := by
  rw [listed, Reading.bind_of_some (offered_of_none hopen)]
  show (entry >>= _) s = _
  rw [Reading.bind_of_some hentry, Reading.bind_of_some (offered_of_none hcomma)]
  show (sign close >>= _) t = _
  rw [Reading.bind_of_some hclose]
  rfl

/-- Behind a comma, the list goes on. -/
lemma listed_more {as : List α} {v : List Char} (hopen : sign close s = none)
    (hentry : entry s = some (a, t)) (hcomma : sign ',' t = some ((), u))
    (hmore : listed close entry n u = some (as, v)) :
    listed close entry (n + 1) s = some (a :: as, v) := by
  rw [listed, Reading.bind_of_some (offered_of_none hopen)]
  show (entry >>= _) s = _
  rw [Reading.bind_of_some hentry, Reading.bind_of_some (offered_of_some hcomma)]
  show (listed close entry n >>= _) u = _
  rw [Reading.bind_of_some hmore]
  rfl

/-- An entry is read from its text, after blanks and in front of whatever ends a token, and the
list is not closed there. -/
def ReadsEntry (close : Char) (entry : Reading α) (text : String) (a : α) : Prop :=
  ∀ lead rest : List Char, Blank lead → Ends rest →
    entry (lead ++ (text.toList ++ rest)) = some (a, rest) ∧
      sign close (lead ++ (text.toList ++ rest)) = none

/-- A sign that closes a list. -/
structure Closes (close : Char) : Prop where
  space : isSpace close = false
  word : isWordChar close = false
  other : close ≠ ',' ∧ close ≠ '.' ∧ close ≠ '('

/-- **Entries with commas between them are read one after the other.** -/
lemma listed_separated (hclose : Closes close) (blank : String) (hblank : Blank blank.toList)
    {gap : List Char} (hgap : Blank gap) (rest : List Char) :
    ∀ (items : List (String × α)) (opener : String) (n : Nat), Blank opener.toList →
      (∀ x ∈ items, ReadsEntry close entry x.1 x.2) → items.length < n →
      listed close entry n ((separated opener ("," ++ blank) (items.map Prod.fst)).toList ++
        (gap ++ close :: rest)) = some (items.map Prod.snd, rest)
  | [], _, n + 1, _, _, _ => listed_close ((sign_gap hgap _ _).trans (sign_self hclose.space rest))
  | [(text, a)], opener, n + 1, hopener, hitems, _ => by
      have hends : Ends (gap ++ close :: rest) := ends_of_sign hgap hclose.space hclose.word
        hclose.other.2.1 hclose.other.2.2 rest
      obtain ⟨hentry, hopen⟩ := hitems _ List.mem_cons_self _ _ hopener hends
      have htext : (separated opener ("," ++ blank) ([(text, a)].map Prod.fst)).toList ++
          (gap ++ close :: rest) = opener.toList ++ (text.toList ++ (gap ++ close :: rest)) := by
        simp [separated]
      rw [htext]
      refine listed_last hopen hentry ?_ ?_
      · rw [sign_gap hgap, sign_other hclose.space hclose.other.1]
      · rw [sign_gap hgap, sign_self hclose.space]
  | (text, a) :: next :: items, opener, n + 1, hopener, hitems, hn => by
      have hmore := listed_separated hclose blank hblank hgap rest (next :: items) blank n hblank
        (fun x hx => hitems x (List.mem_cons_of_mem _ hx)) (by simpa using hn)
      generalize hs : (separated blank ("," ++ blank) ((next :: items).map Prod.fst)).toList ++
        (gap ++ close :: rest) = s at hmore
      have hends : Ends ([] ++ ',' :: s) :=
        ends_of_sign blank_nil (by decide) (by decide) (by decide) (by decide) s
      obtain ⟨hentry, hopen⟩ := hitems _ List.mem_cons_self _ _ hopener hends
      have htext : (separated opener ("," ++ blank)
          (((text, a) :: next :: items).map Prod.fst)).toList ++ (gap ++ close :: rest) =
          opener.toList ++ (text.toList ++ ',' :: s) := by
        simp [separated, ← hs]
      rw [htext]
      exact listed_more hopen hentry (sign_self (by decide) _) hmore

end listed

/-! ## Weights -/

namespace Value

lemma weight_pos (v : Value) : 0 < v.weight := by
  cases v <;> simp [weight]

/-- Each property has some weight. -/
lemma length_lt_propertiesWeight (ps : List (String × Value)) : ps.length < propertiesWeight ps := by
  induction ps with
  | nil => rw [propertiesWeight]; exact Nat.zero_lt_one
  | cons p ps ih =>
      have hv := p.2.weight_pos
      rw [propertiesWeight, List.length_cons]
      omega

/-- Each element has some weight. -/
lemma length_lt_elementsWeight (es : List Value) : es.length < elementsWeight es := by
  induction es with
  | nil => rw [elementsWeight]; exact Nat.zero_lt_one
  | cons v es ih =>
      have hv := v.weight_pos
      rw [elementsWeight, List.length_cons]
      omega

end Value

/-! ## Layouts -/

/-- A text that neither begins with a blank nor closes a list. -/
def Starts (text : List Char) : Prop :=
  ∃ c cs, text = c :: cs ∧ isSpace c = false ∧ c ≠ '\x7d' ∧ c ≠ ']'

/-- What begins like a name begins like a value. -/
lemma starts_of_isNameStart {c : Char} (h : isNameStart c = true) (cs : List Char) :
    Starts (c :: cs) := by
  have hc := isNameChar_of_isNameStart h
  exact ⟨c, cs, rfl, isSpace_of_isNameChar hc, ne_of_isNameChar hc (by decide),
    ne_of_isNameChar hc (by decide)⟩

/-- A quoted text begins like a value. -/
lemma starts_quote (text : String) : Starts (quote text).toList := by
  have htext := toList_quote text []
  rw [List.append_nil] at htext
  exact ⟨_, _, htext, by decide, by decide, by decide⟩

lemma Starts.append {s : List Char} (h : Starts s) (t : List Char) : Starts (s ++ t) := by
  obtain ⟨c, cs, rfl, hc⟩ := h
  exact ⟨c, cs ++ t, rfl, hc⟩

/-- A path begins like a value. -/
lemma Dotted.starts {text : String} (h : Dotted text) : Starts text.toList := by
  obtain ⟨c, cs, hcs, hc⟩ := h.head
  rw [hcs]
  exact starts_of_isNameStart hc cs

/-- A key begins like a value, quoted or not. -/
lemma starts_propertyKey (key : String) : Starts (propertyKey key).toList := by
  rw [propertyKey]
  split
  · next hkey => exact (Dotted.name hkey).starts
  · exact starts_quote key

/-- The text of a value neither begins with a blank nor closes a list. -/
lemma starts_layout {v : Value} (h : v.Proper) (depth : Nat) : Starts (v.layout depth).toList := by
  cases v with
  | token text =>
      rw [Value.Proper] at h
      rw [Value.layout]
      rcases h with h | rfl
      · exact h.starts
      · exact ⟨'(', _, rfl, by decide, by decide, by decide⟩
  | string text => rw [Value.layout]; exact starts_quote text
  | object ps =>
      have hopen : Starts "\x7b\n".toList := ⟨'\x7b', _, rfl, by decide, by decide, by decide⟩
      simp only [Value.layout, String.toList_append, List.append_assoc]
      exact hopen.append _
  | array multiline es =>
      have hopen : Starts "[".toList := ⟨'[', _, rfl, by decide, by decide, by decide⟩
      cases multiline <;> simp only [Value.layout, String.toList_append, List.append_assoc] <;>
        exact hopen.append _
  | call callee argument =>
      rw [Value.Proper] at h
      simp only [Value.layout, String.toList_append, List.append_assoc]
      exact h.1.starts.append _

/-- What begins like a value does not begin with the end of a list. -/
lemma Starts.sign_eq_none {text : List Char} (h : Starts text) {close : Char}
    (hclose : close = '\x7d' ∨ close = ']') {lead : List Char} (hlead : Blank lead)
    (rest : List Char) : sign close (lead ++ (text ++ rest)) = none := by
  obtain ⟨c, cs, rfl, hspace, hbrace, hbracket⟩ := h
  rw [sign_gap hlead, List.cons_append]
  rcases hclose with rfl | rfl
  · exact sign_other hspace hbrace _
  · exact sign_other hspace hbracket _

lemma closes_brace : Closes '\x7d' := ⟨by decide, by decide, by decide⟩

lemma closes_bracket : Closes ']' := ⟨by decide, by decide, by decide⟩

namespace Value

/-- The lines of properties, with the properties as they are read from them. -/
def propertyItems (depth : Nat) : List (String × Value) → List (String × (String × Value))
  | [] => []
  | (key, v) :: ps =>
    (indentation depth ++ propertyKey key ++ ": " ++ v.layout depth, (key, v.flat)) ::
      propertyItems depth ps

/-- The texts of elements behind some indentation, with the elements as they are read from them. -/
def elementItems (indent : String) (depth : Nat) : List Value → List (String × Value)
  | [] => []
  | v :: es => (indent ++ v.layout depth, v.flat) :: elementItems indent depth es

/-- The texts of the items are the lines of the properties. -/
lemma map_fst_propertyItems (depth : Nat) (ps : List (String × Value)) :
    (propertyItems depth ps).map Prod.fst = propertyLines depth ps := by
  induction ps with
  | nil => rw [propertyItems, propertyLines]; rfl
  | cons p ps ih => rw [propertyItems, propertyLines, List.map_cons, ih]

/-- There is one item for each property. -/
lemma length_propertyItems (depth : Nat) (ps : List (String × Value)) :
    (propertyItems depth ps).length = ps.length := by
  induction ps with
  | nil => rw [propertyItems]; rfl
  | cons p ps ih => rw [propertyItems, List.length_cons, ih, List.length_cons]

/-- The values of the items are the properties as they are read back. -/
lemma map_snd_propertyItems (depth : Nat) (ps : List (String × Value)) :
    (propertyItems depth ps).map Prod.snd = flatProperties ps := by
  induction ps with
  | nil => rw [propertyItems, flatProperties]; rfl
  | cons p ps ih => rw [propertyItems, flatProperties, List.map_cons, ih]

/-- The texts of the items are those of the elements, each behind its indent. -/
lemma map_fst_elementItems (indent : String) (depth : Nat) (es : List Value) :
    (elementItems indent depth es).map Prod.fst = (elementTexts depth es).map (indent ++ ·) := by
  induction es with
  | nil => rw [elementItems, elementTexts]; rfl
  | cons v es ih => rw [elementItems, elementTexts, List.map_cons, ih]; rfl

/-- There is one item for each element. -/
lemma length_elementItems (indent : String) (depth : Nat) (es : List Value) :
    (elementItems indent depth es).length = es.length := by
  induction es with
  | nil => rw [elementItems]; rfl
  | cons v es ih => rw [elementItems, List.length_cons, ih, List.length_cons]

/-- The values of the items are the elements as they are read back. -/
lemma map_snd_elementItems (indent : String) (depth : Nat) (es : List Value) :
    (elementItems indent depth es).map Prod.snd = flatElements es := by
  induction es with
  | nil => rw [elementItems, flatElements]; rfl
  | cons v es ih => rw [elementItems, flatElements, List.map_cons, ih]

end Value

/-- The inside of an object is made of its lines and blanks. -/
lemma exists_lines (depth : Nat) (lines : List String) :
    ∃ gap : List Char, Blank gap ∧
      "\n" ++ String.intercalate ",\n" lines ++ "\n" ++ indentation depth =
        separated "\n" ("," ++ "\n") lines ++ String.ofList gap := by
  cases lines with
  | nil =>
      refine ⟨_, blank_feed.append (blank_feed.append (blank_indentation depth)), ?_⟩
      rw [String.ofList_append, String.ofList_append, String.ofList_toList, String.ofList_toList,
        String.intercalate_nil, separated, String.append_empty, String.empty_append,
        String.append_assoc]
  | cons line lines =>
      refine ⟨_, blank_feed.append (blank_indentation depth), ?_⟩
      rw [separated_cons, String.ofList_append, String.ofList_toList, String.ofList_toList]
      simp only [String.append_assoc]
      rfl

/-- The inside of a multi-line array is made of its lines and blanks. -/
lemma exists_block (depth : Nat) (lines : List String) :
    ∃ gap : List Char, Blank gap ∧
      block depth lines = separated "\n" ("," ++ "\n") lines ++ String.ofList gap := by
  cases lines with
  | nil => exact ⟨[], blank_nil, by simp [block, separated]⟩
  | cons line lines =>
      refine ⟨_, blank_feed.append (blank_indentation depth), ?_⟩
      rw [separated_cons, block, if_neg (by simp), String.ofList_append, String.ofList_toList,
        String.ofList_toList]
      simp only [String.append_assoc]
      rfl

/-- A key is read from a line of an object, and the rest of the line is left to its value. -/
lemma property_append {v : Value} {n depth : Nat} {lead rest : List Char} (key : String)
    (hlead : Blank lead)
    (hv : value n ((v.layout depth).toList ++ rest) = some (v.flat, rest)) :
    property (value n) (lead ++ ((indentation depth ++ propertyKey key ++ ": " ++
      v.layout depth).toList ++ rest)) = some ((key, v.flat), rest) := by
  have htext : lead ++ ((indentation depth ++ propertyKey key ++ ": " ++
      v.layout depth).toList ++ rest) = (lead ++ (indentation depth).toList) ++
        ((propertyKey key).toList ++ ':' :: ([' '] ++ ((v.layout depth).toList ++ rest))) := by
    simp
  have hname : propertyName ((lead ++ (indentation depth).toList) ++ ((propertyKey key).toList ++
      ':' :: ([' '] ++ ((v.layout depth).toList ++ rest)))) =
        some (key, ':' :: ([' '] ++ ((v.layout depth).toList ++ rest))) := by
    rw [propertyName, spaced_gap (hlead.append (blank_indentation depth))]
    exact propertyName_propertyKey key (by rfl)
  have hvalue : value n ([' '] ++ ((v.layout depth).toList ++ rest)) = some (v.flat, rest) := by
    rw [value_gap (by simp [Blank, isSpace]), hv]
  rw [htext, property, Reading.bind_of_some hname,
    Reading.bind_of_some (sign_self (by decide) _), Reading.bind_of_some hvalue]
  rfl

mutual

/-- **The layout of a value is read as that value**, whatever comes after it. -/
lemma value_layout : ∀ (v : Value) (depth n : Nat) (rest : List Char), v.Proper → v.weight ≤ n →
    (v.isToken = true → Ends rest) →
    value n ((v.layout depth).toList ++ rest) = some (v.flat, rest)
  | .token text, depth, n + 1, rest, hv, hn, hends => by
      have hrest : Ends rest := hends rfl
      rw [Value.Proper] at hv
      rw [Value.weight] at hn
      rw [Value.layout, Value.flat]
      rcases hv with hv | rfl
      · exact value_path hv hrest (by omega)
      · exact value_payload hrest.word
  | .string text, depth, n + 1, rest, hv, hn, hends => by
      rw [Value.layout, Value.flat]
      exact value_string text rest
  | .object ps, depth, n + 1, rest, hv, hn, hends => by
      rw [Value.Proper] at hv
      rw [Value.weight] at hn
      have hlength : (Value.propertyItems (depth + 1) ps).length < n := by
        rw [Value.length_propertyItems]
        exact Nat.lt_of_lt_of_le (Value.length_lt_propertiesWeight ps) (by omega)
      obtain ⟨gap, hgap, hlines⟩ := exists_lines depth (Value.propertyLines (depth + 1) ps)
      have hlist := listed_separated closes_brace "\n" blank_feed hgap rest
        (Value.propertyItems (depth + 1) ps) "\n" n blank_feed
        (readsEntry_properties ps (depth + 1) n hv (by omega)) hlength
      rw [Value.map_fst_propertyItems, Value.map_snd_propertyItems] at hlist
      have htext : (Value.object ps).layout depth = "\x7b" ++ ("\n" ++ String.intercalate ",\n"
          (Value.propertyLines (depth + 1) ps) ++ "\n" ++ indentation depth) ++ "\x7d" := by
        rw [Value.layout, ← String.append_assoc, ← String.append_assoc, ← String.append_assoc]
        rfl
      rw [Value.flat, ← value_object hlist, htext, hlines]
      simp
  | .array false es, depth, n + 1, rest, hv, hn, hends => by
      rw [Value.Proper] at hv
      rw [Value.weight] at hn
      have hlength : (Value.elementItems "" depth es).length < n := by
        rw [Value.length_elementItems]
        exact Nat.lt_of_lt_of_le (Value.length_lt_elementsWeight es) (by omega)
      have hlist := listed_separated closes_bracket " " (by simp [Blank, isSpace]) blank_nil rest
        (Value.elementItems "" depth es) "" n blank_nil
        (readsEntry_elements es depth n blank_nil hv (by omega)) hlength
      rw [Value.map_fst_elementItems, Value.map_snd_elementItems, separated_empty] at hlist
      rw [Value.flat, ← value_array hlist, Value.layout]
      simp
  | .array true es, depth, n + 1, rest, hv, hn, hends => by
      rw [Value.Proper] at hv
      rw [Value.weight] at hn
      have hlength : (Value.elementItems (indentation (depth + 1)) (depth + 1) es).length < n := by
        rw [Value.length_elementItems]
        exact Nat.lt_of_lt_of_le (Value.length_lt_elementsWeight es) (by omega)
      obtain ⟨gap, hgap, hblock⟩ := exists_block depth
        ((Value.elementTexts (depth + 1) es).map (indentation (depth + 1) ++ ·))
      have hlist := listed_separated closes_bracket "\n" blank_feed hgap rest
        (Value.elementItems (indentation (depth + 1)) (depth + 1) es) "\n" n blank_feed
        (readsEntry_elements es (depth + 1) n (blank_indentation _) hv (by omega)) hlength
      rw [Value.map_fst_elementItems, Value.map_snd_elementItems] at hlist
      rw [Value.flat, ← value_array hlist, Value.layout, hblock]
      simp
  | .call callee argument, depth, n + 1, rest, hv, hn, hends => by
      rw [Value.Proper] at hv
      rw [Value.weight] at hn
      have hparen : Ends ([] ++ ')' :: rest) :=
        ends_of_sign blank_nil (by decide) (by decide) (by decide) (by decide) rest
      have hargument := value_layout argument depth n (')' :: rest) hv.2 (by omega) fun _ => hparen
      rw [Value.flat, ← value_call hv.1 (by omega) hargument, Value.layout]
      simp

/-- Each property of an object that can be read is read back as an entry, if the reader may count
far enough. -/
lemma readsEntry_properties : ∀ (ps : List (String × Value)) (depth n : Nat),
    Value.AllProperties ps → Value.propertiesWeight ps ≤ n →
    ∀ x ∈ Value.propertyItems depth ps, ReadsEntry '\x7d' (property (value n)) x.1 x.2
  | [], _, _, _, _ => by simp [Value.propertyItems]
  | (key, v) :: ps, depth, n, hps, hn => by
      rw [Value.AllProperties] at hps
      rw [Value.propertiesWeight] at hn
      refine List.forall_mem_cons.mpr ⟨fun lead rest hlead hends => ⟨?_, ?_⟩, ?_⟩
      · exact property_append key hlead
          (value_layout v depth n rest hps.1 (by omega) fun _ => hends)
      · have htext : lead ++ ((indentation depth ++ propertyKey key ++ ": " ++
            v.layout depth).toList ++ rest) = (lead ++ (indentation depth).toList) ++
              ((propertyKey key).toList ++ (": ".toList ++ (v.layout depth).toList ++ rest)) := by
          simp
        rw [htext]
        exact (starts_propertyKey key).sign_eq_none (.inl rfl)
          (hlead.append (blank_indentation depth)) _
      · exact readsEntry_properties ps depth n hps.2 (by omega)

/-- The same for the elements of an array. -/
lemma readsEntry_elements : ∀ (es : List Value) {indent : String} (depth n : Nat),
    Blank indent.toList → Value.AllProper es → Value.elementsWeight es ≤ n →
    ∀ x ∈ Value.elementItems indent depth es, ReadsEntry ']' (value n) x.1 x.2
  | [], _, _, _, _, _, _ => by simp [Value.elementItems]
  | v :: es, indent, depth, n, hindent, hes, hn => by
      rw [Value.AllProper] at hes
      rw [Value.elementsWeight] at hn
      refine List.forall_mem_cons.mpr ⟨fun lead rest hlead hends => ?_, ?_⟩
      · have htext : lead ++ ((indent ++ v.layout depth).toList ++ rest) =
            (lead ++ indent.toList) ++ ((v.layout depth).toList ++ rest) := by simp
        have hgap := hlead.append hindent
        rw [htext, value_gap hgap]
        exact ⟨value_layout v depth n rest hes.1 (by omega) fun _ => hends,
          (starts_layout hes.1 depth).sign_eq_none (.inr rfl) hgap rest⟩
      · exact readsEntry_elements es depth n hindent hes.2 (by omega)

end

/-! ## The length of a text bounds what a reader has to count -/

/-- Texts in a row are not longer than the row, even with one more character for each. -/
lemma length_le_intercalate {separator : String} (h : 0 < separator.length) (texts : List String) :
    (String.join texts).length + texts.length ≤
      (String.intercalate separator texts).length + 1 := by
  induction texts with
  | nil => exact Nat.zero_le _
  | cons text rest ih =>
      cases rest with
      | nil => simp [String.join_cons]
      | cons next rest =>
          rw [String.intercalate_cons_cons, String.join_cons, List.length_cons]
          simp only [String.length_append]
          omega

/-- Something in front of each text makes the whole no shorter. -/
lemma length_join_le (start : String) (texts : List String) :
    (String.join texts).length ≤ (String.join (texts.map (start ++ ·))).length := by
  induction texts with
  | nil => exact Nat.le_refl _
  | cons text rest ih =>
      simp only [List.map_cons, String.join_cons, String.length_append]
      omega

/-- A block is at least as long as its lines. -/
lemma length_le_block (depth : Nat) (lines : List String) :
    (String.intercalate ",\n" lines).length ≤ (block depth lines).length := by
  cases lines with
  | nil => simp [block]
  | cons line lines =>
      rw [block, if_neg (by simp)]
      simp only [String.length_append]
      omega

namespace Value

/-- There is one text for each element. -/
lemma length_elementTexts (depth : Nat) (es : List Value) :
    (elementTexts depth es).length = es.length := by
  induction es with
  | nil => rw [elementTexts]; rfl
  | cons v es ih => rw [elementTexts, List.length_cons, ih, List.length_cons]

mutual

/-- **The length of its layout bounds the weight of a value.**  By recursion on the value: each
level of nesting has brackets, which are characters too. -/
lemma weight_le : ∀ (v : Value) (depth : Nat), v.weight ≤ (v.layout depth).length + 1
  | .token text, depth => by rw [weight, layout]
  | .string text, depth => by rw [weight]; omega
  | .object ps, depth => by
      have hps := propertiesWeight_le ps (depth + 1)
      have hrow := length_le_intercalate (show 0 < ",\n".length by decide)
        (propertyLines (depth + 1) ps)
      have hopen : "\x7b\n".length = 2 := rfl
      rw [weight, layout]
      simp only [String.length_append]
      omega
  | .array false es, depth => by
      have hes := elementsWeight_le es depth
      have hrow := length_le_intercalate (show 0 < ", ".length by decide) (elementTexts depth es)
      have hopen : "[".length = 1 := rfl
      have hclose : "]".length = 1 := rfl
      rw [length_elementTexts] at hrow
      rw [weight, layout]
      simp only [String.length_append]
      omega
  | .array true es, depth => by
      have hes := elementsWeight_le es (depth + 1)
      have hjoin := length_join_le (indentation (depth + 1)) (elementTexts (depth + 1) es)
      have hrow := length_le_intercalate (show 0 < ",\n".length by decide)
        ((elementTexts (depth + 1) es).map (indentation (depth + 1) ++ ·))
      have hblock := length_le_block depth
        ((elementTexts (depth + 1) es).map (indentation (depth + 1) ++ ·))
      have hopen : "[".length = 1 := rfl
      have hclose : "]".length = 1 := rfl
      rw [List.length_map, length_elementTexts] at hrow
      rw [weight, layout]
      simp only [String.length_append]
      omega
  | .call callee argument, depth => by
      have hargument := argument.weight_le depth
      rw [weight, layout]
      simp only [String.length_append]
      have hopen : "(".length = 1 := rfl
      omega

/-- The lines of some properties bound their weight. -/
lemma propertiesWeight_le : ∀ (ps : List (String × Value)) (depth : Nat),
    propertiesWeight ps ≤ (String.join (propertyLines depth ps)).length + 1
  | [], _ => by rw [propertiesWeight, propertyLines]; rfl
  | (key, v) :: ps, depth => by
      have hv := v.weight_le depth
      have hps := propertiesWeight_le ps depth
      have hcolon : ": ".length = 2 := rfl
      rw [propertiesWeight, propertyLines, String.join_cons]
      simp only [String.length_append]
      omega

/-- The texts of some elements bound their weight.  Each may weigh one more than it has characters,
which the commas and brackets around them make up for. -/
lemma elementsWeight_le : ∀ (es : List Value) (depth : Nat),
    elementsWeight es ≤ (String.join (elementTexts depth es)).length + es.length + 1
  | [], _ => by rw [elementsWeight, elementTexts]; rfl
  | v :: es, depth => by
      have hv := v.weight_le depth
      have hes := elementsWeight_le es depth
      rw [elementsWeight, elementTexts, String.join_cons, List.length_cons, String.length_append]
      omega

end

end Value

/-! ## Writing and reading -/

/-- **What is written is read back.**  From any state whatever, writing a value appends some text
and leaves all else as it was, and a reader that comes to this text finds the value there and
stops right behind it. -/
theorem applyAll_readable (w : Writer) {v : Value} (h : v.Proper) : ∃ text : String,
    w.applyAll v.operations = .ok { w with text := w.text ++ text } ∧
      ∀ rest : List Char, (v.isToken = true → Ends rest) →
        readValue (text.toList ++ rest) = some (v.flat, rest) := by
  refine ⟨v.layout w.depth, w.applyAll_operations v, fun rest hrest => ?_⟩
  refine value_layout v w.depth _ rest h ?_ hrest
  have hweight := v.weight_le w.depth
  rw [List.length_append, String.length_toList]
  omega

/-- A transition with a guard and an update, under a key that has to be quoted. -/
def guardedUpdate : Value :=
  .object [("don't", .object [("target", .string "a\\\u2028'\n"), ("cond", .token "Guards.ready"),
    ("actions", .array true [.call "assign" (.object [("k", .token Output.eventData)])]),
    ("none", .array true []), ("two", .array false [.token "x", .object []])])]

/-- All tokens of the example can be read back. -/
lemma guardedUpdate_proper : guardedUpdate.Proper := by
  have hname : ∀ n : String, isIdentifier n.toList = true → Dotted n := fun _ => .name
  have hready : Dotted "Guards.ready" :=
    @Dotted.more "Guards" "ready" (by decide) (hname "ready" (by decide))
  simp [guardedUpdate, Value.Proper, Value.AllProperties, Value.AllProper, hready,
    hname "assign" (by decide), hname "x" (by decide)]

/-- In an array that has an element already, with a further element after it. -/
theorem applyAll_guardedUpdate : guardedUpdate.Proper ∧ ∃ text : String,
    (⟨"[1", 3, [.array false true]⟩ : Writer).applyAll guardedUpdate.operations =
        .ok ⟨"[1" ++ text, 3, [.array false true]⟩ ∧
      readValue (text.toList ++ ",2]".toList) = some (guardedUpdate.flat, ",2]".toList) := by
  obtain ⟨text, hwrite, hread⟩ :=
    applyAll_readable ⟨"[1", 3, [.array false true]⟩ guardedUpdate_proper
  exact ⟨guardedUpdate_proper, text, hwrite, hread _ nofun⟩

end Statechart.Script
