import Statechart.Proofs.Output.Statements
import Statechart.Proofs.Script.Reading

/-!
# Reading a module back

A reader of modules: imports of names and exports of machines, with any blanks between the lexemes.
Whether an array was written on one line or on several is not seen by a reader, so the statements
that are read have all arrays on one line (`Statement.flat`).

* `readModule` — the statements of a module.
* `Statement.Proper` — all names and tokens are such as can be read.

**`readModule_statementsText`** — the text of statements is read as these statements.
-/

namespace Statechart.Output

open Script

/-! ## The reader -/

/-- What stands between the word for an export and the machine: the name of the machine, or none
for the default. -/
def exportName : Reading (Option String) := do
  let kind ← word
  if kind = "default" then return none
  if kind = "const" then
    let name ← word
    sign '='
    return some name
  failure

/-- An import behind its first word. -/
def importRest (n : Nat) : Reading Statement := do
  sign '\x7b'
  let names ← listed '\x7d' word n
  keyword "from"
  let path ← spaced quoted
  sign ';'
  return .importNames names path

/-- The options of a machine, if there are any, and the end of its statement. -/
def exportEnd (n : Nat) : Reading (Option Value) := do
  if ← offered ',' then
    let options ← value n
    sign ')'
    sign ';'
    return some options
  sign ')'
  sign ';'
  return none

/-- An export behind its first word. -/
def exportRest (n : Nat) : Reading Statement := do
  let name ← exportName
  keyword "Machine"
  sign '('
  let configuration ← value n
  let options ← exportEnd n
  return .exportMachine name configuration options

/-- A statement. -/
def statement (n : Nat) : Reading Statement := do
  let first ← word
  if first = "import" then importRest n
  else if first = "export" then exportRest n
  else failure

/-- Statements up to the end of the text. -/
def allStatements : Nat → Reading (List Statement)
  | 0 => failure
  | n + 1 => fun s =>
    if (skipSpace s).isEmpty then some ([], [])
    else (do return (← statement n) :: (← allStatements n) : Reading (List Statement)) s

/-- The statements of a module. -/
def readModule (text : String) : Option (List Statement) :=
  (allStatements (text.length + 1) text.toList).map Prod.fst

namespace Statement

/-- All names and tokens are such as can be read. -/
def Proper : Statement → Prop
  | importNames names _ => names ≠ [] ∧ ∀ name ∈ names, isIdentifier name.toList = true
  | exportMachine name configuration options =>
    (∀ n ∈ name, isIdentifier n.toList = true) ∧ configuration.Proper ∧ ∀ v ∈ options, v.Proper

/-- The statement with all arrays on one line. -/
def flat : Statement → Statement
  | importNames names path => importNames names path
  | exportMachine name configuration options =>
    exportMachine name configuration.flat (options.map Value.flat)

end Statement

/-! ## Imports -/

/-- A name is read after blanks. -/
lemma word_gap {name : String} (h : isIdentifier name.toList = true) {gap rest : List Char}
    (hgap : Blank gap) (hrest : rest.head?.any isWordChar = false) :
    word (gap ++ (name.toList ++ rest)) = some (name, rest) := by
  rw [word, spaced_gap hgap]
  exact word_append h hrest

lemma readsEntry_word {name : String} (h : isIdentifier name.toList = true) :
    ReadsEntry '\x7d' word name name := by
  intro lead rest hlead hends
  exact ⟨word_gap h hlead hends.word, (Dotted.name h).starts.sign_eq_none (.inl rfl) hlead rest⟩

lemma blank_space : Blank [' '] := by simp [Blank, isSpace]

/-- The names of an import are read up to the closing brace. -/
lemma listed_names {names : List String} (h : ∀ name ∈ names, isIdentifier name.toList = true)
    (hne : names ≠ []) {n : Nat} (hn : names.length < n) (rest : List Char) :
    listed '\x7d' word n (' ' :: ((String.intercalate ", " names).toList ++ ' ' :: '\x7d' :: rest)) =
      some (names, rest) := by
  have hlist := listed_separated closes_brace " " blank_space blank_space rest
    (names.map fun name => (name, name)) " " n blank_space
    (by simpa using fun name hname => readsEntry_word (h name hname)) (by simpa using hn)
  have hcomma : "," ++ " " = ", " := rfl
  obtain ⟨first, more, rfl⟩ := List.exists_cons_of_ne_nil hne
  simp only [List.map_map, Function.comp_def, List.map_id', hcomma, separated_cons] at hlist
  simpa using hlist

/-- An import is read behind its first word. -/
lemma importRest_append {names : List String}
    (h : ∀ name ∈ names, isIdentifier name.toList = true) (hne : names ≠ []) (path : String)
    {n : Nat} (hn : names.length < n) (rest : List Char) :
    importRest n ((" \x7b " ++ String.intercalate ", " names ++ " \x7d from " ++ quote path ++
      ";\n").toList ++ rest) = some (.importNames names path, '\n' :: rest) := by
  have htext : (" \x7b " ++ String.intercalate ", " names ++ " \x7d from " ++ quote path ++
      ";\n").toList ++ rest = [' '] ++ '\x7b' :: ' ' :: ((String.intercalate ", " names).toList ++
        ' ' :: '\x7d' :: ([' '] ++ ("from".toList ++ ([' '] ++ ((quote path).toList ++
          ';' :: '\n' :: rest))))) := by
    simp
  have hpath : spaced quoted ([' '] ++ ((quote path).toList ++ ';' :: '\n' :: rest)) =
      some (path, ';' :: '\n' :: rest) := by
    rw [spaced_gap blank_space]
    have hquoted := quoted_quote path (';' :: '\n' :: rest)
    rw [toList_quote] at hquoted ⊢
    rw [spaced_cons (by decide), hquoted]
  rw [htext, importRest,
    Reading.bind_of_some ((sign_gap blank_space _ _).trans (sign_self (by decide) _)),
    Reading.bind_of_some (listed_names h hne hn _),
    Reading.bind_of_some (keyword_append (by decide) blank_space (by rfl)),
    Reading.bind_of_some hpath, Reading.bind_of_some (sign_self (by decide) _)]
  rfl

/-! ## Exports -/

/-- The text in front of a machine. -/
def exportHead (name : Option String) : String :=
  match name with
  | some name => " const " ++ name ++ " = "
  | none => " default "

/-- The name of an export is read, or the word for none. -/
lemma exportName_append {name : Option String} (h : ∀ n ∈ name, isIdentifier n.toList = true)
    (rest : List Char) :
    exportName ((exportHead name).toList ++ rest) = some (name, [' '] ++ rest) := by
  cases name with
  | none =>
      have htext : (exportHead none).toList ++ rest = [' '] ++ ("default".toList ++ (' ' :: rest)) := by
        simp [exportHead]
      rw [htext, exportName,
        Reading.bind_of_some (@word_gap "default" (by decide) _ _ blank_space (by rfl))]
      rfl
  | some name =>
      have htext : (exportHead (some name)).toList ++ rest = [' '] ++ ("const".toList ++ ([' '] ++
          (name.toList ++ ([' '] ++ '=' :: ' ' :: rest)))) := by
        simp [exportHead]
      rw [htext, exportName, Reading.bind_of_some (word_gap (by decide) blank_space (by rfl))]
      show (word >>= _) _ = _
      rw [Reading.bind_of_some (word_gap (h name rfl) blank_space (by rfl)),
        Reading.bind_of_some ((sign_gap blank_space _ _).trans (sign_self (by decide) _))]
      rfl

/-- A token may stand in front of a comma and of a closing parenthesis. -/
lemma ends_comma (rest : List Char) : Ends (',' :: rest) :=
  ends_of_sign blank_nil (by decide) (by decide) (by decide) (by decide) rest

lemma ends_parenthesis (rest : List Char) : Ends (')' :: rest) :=
  ends_of_sign blank_nil (by decide) (by decide) (by decide) (by decide) rest

/-- The text behind the configuration of a machine. -/
def exportTail (options : Option Value) : String :=
  options.elim "" (fun v => ", " ++ v.layout 0) ++ ");"

/-- The end of an export is read, with or without options. -/
lemma exportEnd_append {options : Option Value} {n : Nat}
    (h : ∀ v ∈ options, v.Proper ∧ v.weight ≤ n) (rest : List Char) :
    exportEnd n ((exportTail options).toList ++ rest) = some (options.map Value.flat, rest) := by
  cases options with
  | none =>
      have htext : (exportTail none).toList ++ rest = ')' :: ';' :: rest := by simp [exportTail]
      have hcomma := offered_of_none (sign_other (c := ',') (d := ')') (by decide) (by decide)
        (';' :: rest))
      rw [htext, exportEnd, Reading.bind_of_some hcomma]
      show (sign ')' >>= _) _ = _
      rw [Reading.bind_of_some (sign_self (by decide) _),
        Reading.bind_of_some (sign_self (by decide) _)]
      rfl
  | some v =>
      obtain ⟨hproper, hweight⟩ := h v rfl
      have htext : (exportTail (some v)).toList ++ rest =
          ',' :: ([' '] ++ ((v.layout 0).toList ++ ')' :: ';' :: rest)) := by
        simp [exportTail]
      have hvalue : value n ([' '] ++ ((v.layout 0).toList ++ ')' :: ';' :: rest)) =
          some (v.flat, ')' :: ';' :: rest) := by
        rw [value_gap blank_space]
        exact value_layout v 0 n _ hproper hweight fun _ => ends_parenthesis _
      rw [htext, exportEnd,
        Reading.bind_of_some (offered_of_some (sign_self (by decide) _))]
      show (value n >>= _) _ = _
      rw [Reading.bind_of_some hvalue, Reading.bind_of_some (sign_self (by decide) _),
        Reading.bind_of_some (sign_self (by decide) _)]
      rfl

/-- Behind a configuration comes a comma or a parenthesis, so a path does not go on. -/
lemma ends_exportTail (options : Option Value) (rest : List Char) :
    Ends ((exportTail options).toList ++ rest) := by
  cases options with
  | none => exact ends_parenthesis (';' :: rest)
  | some v =>
      have htext : (exportTail (some v)).toList ++ rest =
          ',' :: ([' '] ++ ((v.layout 0).toList ++ ')' :: ';' :: rest)) := by
        simp [exportTail]
      rw [htext]
      exact ends_comma _

/-- An export is read behind its first word. -/
lemma exportRest_append {name : Option String} {configuration : Value} {options : Option Value}
    {n : Nat} (hname : ∀ m ∈ name, isIdentifier m.toList = true)
    (hconfiguration : configuration.Proper ∧ configuration.weight ≤ n)
    (hoptions : ∀ v ∈ options, v.Proper ∧ v.weight ≤ n) (rest : List Char) :
    exportRest n ((exportHead name ++ "Machine(" ++ configuration.layout 0 ++
      exportTail options).toList ++ rest) =
      some ((Statement.exportMachine name configuration options).flat, rest) := by
  have htext : (exportHead name ++ "Machine(" ++ configuration.layout 0 ++
      exportTail options).toList ++ rest = (exportHead name).toList ++ ("Machine".toList ++
        '(' :: ((configuration.layout 0).toList ++ ((exportTail options).toList ++ rest))) := by
    simp
  have hvalue := value_layout configuration 0 n ((exportTail options).toList ++ rest)
    hconfiguration.1 hconfiguration.2 fun _ => ends_exportTail options rest
  rw [htext, exportRest, Reading.bind_of_some (exportName_append hname _),
    Reading.bind_of_some (@keyword_append "Machine" (by decide) [' '] _ blank_space (by rfl)),
    Reading.bind_of_some (sign_self (by decide) _), Reading.bind_of_some hvalue,
    Reading.bind_of_some (exportEnd_append hoptions rest)]
  rfl

/-! ## Statements -/

namespace Statement

lemma toList_importNames (names : List String) (path : String) :
    (importNames names path).text.toList = "import".toList ++ (" \x7b " ++
      String.intercalate ", " names ++ " \x7d from " ++ quote path ++ ";\n").toList := by
  simp [text, parts, Part.text]

/-- The text of an export, cut behind its first word. -/
lemma toList_exportMachine (name : Option String) (configuration : Value)
    (options : Option Value) :
    (exportMachine name configuration options).text.toList = ['\n'] ++ ("export".toList ++
      (exportHead name ++ "Machine(" ++ configuration.layout 0 ++
        exportTail options).toList) := by
  cases name <;> cases options <;> simp [text, parts, Part.text, exportHead, exportTail]

/-- **A statement is read from its text**, and blanks may be left over. -/
lemma statement_text (s : Statement) (h : s.Proper) {n : Nat} (hn : s.text.length ≤ n)
    {gap : List Char} (hgap : Blank gap) (rest : List Char) : ∃ left, Blank left ∧
      statement n (gap ++ (s.text.toList ++ rest)) = some (s.flat, left ++ rest) := by
  have hspace : isWordChar ' ' = false := by decide
  rw [← String.length_toList] at hn
  cases s with
  | importNames names path =>
      rw [toList_importNames] at hn ⊢
      have hlength : names.length < n := by
        have hrow := length_le_intercalate (show 0 < ", ".length by decide) names
        have hword : "import".toList.length = 6 := rfl
        simp only [List.length_append, String.length_toList, String.length_append, hword] at hn
        omega
      refine ⟨['\n'], blank_feed, ?_⟩
      rw [List.append_assoc, statement,
        Reading.bind_of_some (word_gap (by decide) hgap (by simp [hspace]))]
      exact importRest_append h.2 h.1 path hlength rest
  | exportMachine name configuration options =>
      rw [toList_exportMachine] at hn ⊢
      have hword : "export".toList.length = 6 := rfl
      simp only [List.length_append, String.length_toList, String.length_append, hword] at hn
      have hgap' : Blank (gap ++ ['\n']) := hgap.append blank_feed
      have hconfiguration : configuration.weight ≤ n := by
        have hweight := configuration.weight_le 0
        omega
      have hoptions : ∀ v ∈ options, v.Proper ∧ v.weight ≤ n := by
        rintro v ⟨⟩
        have hweight := v.weight_le 0
        simp only [exportTail, Option.elim_some, String.length_append] at hn
        exact ⟨h.2.2 v rfl, by omega⟩
      refine ⟨[], blank_nil, ?_⟩
      rw [List.append_assoc, ← List.append_assoc, List.append_assoc "export".toList, statement,
        Reading.bind_of_some
          (word_gap (by decide) hgap' (by cases name <;> simp [exportHead, hspace]))]
      exact exportRest_append h.1 ⟨h.2.1, hconfiguration⟩ hoptions rest

/-- No statement has a text of blanks. -/
lemma exists_text (s : Statement) : ∃ lead c cs, Blank lead ∧ isSpace c = false ∧
    s.text.toList = lead ++ c :: cs := by
  cases s with
  | importNames names path =>
      exact ⟨[], _, _, blank_nil, by decide, toList_importNames names path⟩
  | exportMachine name configuration options =>
      exact ⟨['\n'], _, _, blank_feed, by decide, toList_exportMachine name configuration options⟩

end Statement

section reader

variable {n : Nat} {s t u : List Char}

lemma allStatements_end (h : skipSpace s = []) : allStatements (n + 1) s = some ([], []) :=
  if_pos (by rw [h]; rfl)

/-- A first statement and those behind it. -/
lemma allStatements_more (h : skipSpace s ≠ []) {first : Statement} {more : List Statement}
    (hfirst : statement n s = some (first, t)) (hmore : allStatements n t = some (more, u)) :
    allStatements (n + 1) s = some (first :: more, u) := by
  refine (if_neg (by simpa using h)).trans ?_
  rw [Reading.bind_of_some hfirst, Reading.bind_of_some hmore]
  rfl

end reader

/-- Statements are read one after the other, each from where the one before ended. -/
lemma allStatements_text (ss : List Statement) : ∀ (n : Nat) {gap : List Char}, Blank gap →
    (∀ s ∈ ss, s.Proper) → (statementsText ss).length < n →
    allStatements n (gap ++ (statementsText ss).toList) = some (ss.map Statement.flat, []) := by
  induction ss with
  | nil =>
      intro n gap hgap _ hn
      obtain ⟨n, rfl⟩ := Nat.exists_eq_succ_of_ne_zero (Nat.ne_zero_of_lt hn)
      exact allStatements_end (skipSpace_append hgap [])
  | cons s ss ih =>
      intro n gap hgap h hn
      obtain ⟨hs, hss⟩ := List.forall_mem_cons.mp h
      obtain ⟨n, rfl⟩ := Nat.exists_eq_succ_of_ne_zero (Nat.ne_zero_of_lt hn)
      obtain ⟨lead, c, cs, hlead, hc, htext⟩ := s.exists_text
      rw [statementsText_cons, String.length_append] at hn
      have hpos : 0 < s.text.length := by
        rw [← String.length_toList, htext, List.length_append, List.length_cons]
        omega
      obtain ⟨left, hleft, hread⟩ :=
        s.statement_text hs (n := n) (by omega) hgap (statementsText ss).toList
      rw [statementsText_cons, String.toList_append]
      refine allStatements_more ?_ hread (ih n hleft hss (by omega))
      rw [htext, List.append_assoc, skipSpace_append hgap, skipSpace_append hlead, List.cons_append,
        skipSpace_cons hc]
      exact List.cons_ne_nil _ _

/-- **The text of statements is read as these statements**, with all arrays on one line. -/
lemma readModule_statementsText {ss : List Statement} (h : ∀ s ∈ ss, s.Proper) :
    readModule (statementsText ss) = some (ss.map Statement.flat) := by
  have hread := allStatements_text ss _ blank_nil h (Nat.lt_succ_self _)
  rw [List.nil_append] at hread
  rw [readModule, hread]
  rfl

end Statechart.Output
