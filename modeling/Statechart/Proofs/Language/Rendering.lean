import Mathlib.Tactic.Lemma
import Statechart.Language.Declaration
import Statechart.Language.Parser
import Statechart.Source.Identifier

/-!
# Renderings of charts

The texts of a chart, said without a parser.  A chart is a row of tokens, and between the tokens
stands whatever does not count.

* `Trivia` — blank characters and comments.  A comment ends with its line; only the last one of a
  text may end with the text (`Trailing`).
* `Token` — a word or a sign, a name, a symbol, a path, a number with its unit, a quoted text.
  Nothing stands inside a token.
* `Gap` — what may stand in front of a token: trivia, which must not be empty where two tokens
  would fuse into one name, or, inside a head, one or more blank characters.
* `Spelling` — a text spells a row of tokens, up to some rest.
* `Item.Tokens` — the tokens of a declaration.  **No word is reserved**: a name is any identifier.
  Only imports leave a choice, of their quotes and of how their list of names is written.
* `Renders` — a text is a rendering of a chart.  Spans have no part in it.
-/

namespace Statechart.Language

open Statechart.Language.Parser

/-! ## Between tokens -/

/-- Blank characters and whole comments. -/
inductive Trivia : List Char → Prop
  | nil : Trivia []
  | blank {x : Char} {s : List Char} : isBlank x = true → Trivia s → Trivia (x :: s)
  | comment {line s : List Char} : '\n' ∉ line → Trivia s →
      Trivia ('/' :: '/' :: (line ++ '\n' :: s))

/-- What may stand behind the last token: the last comment needs no end of line. -/
inductive Trailing : List Char → Prop
  | trivia {s : List Char} : Trivia s → Trailing s
  | comment {s line : List Char} : Trivia s → '\n' ∉ line → Trailing (s ++ '/' :: '/' :: line)

/-- Where tokens may stand: anywhere, or inside the head of a declaration behind its first word. -/
inductive Gap where
  | free
  | head

/-- Two characters that would belong to one name if they stood together do not. -/
def Apart (before after : Option Char) : Prop :=
  ¬(before.any isNameChar = true ∧ after.any isNameChar = true)

/-- What may stand in front of a token, given the character before the gap and the first one of
the token. -/
def Gap.Allows (before after : Option Char) (g : List Char) : Gap → Prop
  | free => Trivia g ∧ (g = [] → Apart before after)
  | head => g ≠ [] ∧ ∀ x ∈ g, isBlank x = true

/-! ## Tokens -/

inductive Token where
  /-- A word of the language, or a sign. -/
  | fixed (text : String)
  | name (name : String)
  | symbol (name : String)
  /-- Names joined by dots. -/
  | path (path : String)
  | number (digits : List Char) (unit : Option TimeUnit)
  | quoted (quote : Char) (body : String)

namespace Token

def text : Token → List Char
  | fixed text => text.toList
  | name n => n.toList
  | symbol n => ':' :: n.toList
  | path p => p.toList
  | number digits unit => digits ++ unit.elim [] fun u => u.text.toList
  | quoted quote body => quote :: (body.toList ++ [quote])

/-- The words and signs of the language. -/
def fixedTexts : List String :=
  ["use", "guard", "action", "assign", "delay", "@immediate", "invoke", "initial", "final",
    "state", "machine", "\x7b", "\x7d", "(", ")", ",", "=", "=>"]

/-- Names are identifiers, numbers have digits, and a quoted text is free of its own quote. -/
def Proper : Token → Prop
  | fixed text => text ∈ fixedTexts
  | name n => isIdentifier n.toList = true
  | symbol n => isIdentifier n.toList = true
  | path p => ∃ (first : List Char) (more : List (List Char)), isIdentifier first = true ∧
      (∀ part ∈ more, isIdentifier part = true) ∧
      p.toList = first ++ more.flatMap fun part => '.' :: part
  | number digits _ => digits ≠ [] ∧ ∀ d ∈ digits, d.isDigit = true
  | quoted quote body => (quote = '\'' ∨ quote = '"') ∧ quote ∉ body.toList

end Token

/-- A token, and where it stands. -/
abbrev Lexeme := Gap × Token

/-- A text spells tokens up to some rest.  Before it comes the character `before`, and the last
one of what was spelled is `last`. -/
inductive Spelling : (before : Option Char) → List Lexeme → List Char → (last : Option Char) →
    List Char → Prop
  | nil {before : Option Char} {s : List Char} : Spelling before [] s before s
  | cons {before last : Option Char} {gap : Gap} {t : Token} {ts : List Lexeme}
      {g s r : List Char} : t.Proper → gap.Allows before t.text.head? g →
      Spelling t.text.getLast? ts s last r →
      Spelling before ((gap, t) :: ts) (g ++ (t.text ++ s)) last r

/-! ## The tokens of declarations -/

/-- A word or a sign that may stand anywhere. -/
def sign (text : String) : Lexeme := (.free, .fixed text)

/-- A name that may stand anywhere. -/
def plainName (name : String) : Lexeme := (.free, .name name)

/-- The words of a head. -/
def headTokens : List Token → List Lexeme
  | [] => []
  | t :: ts => (.free, t) :: ts.map fun t => (.head, t)

/-- Tokens between braces. -/
def braced (ts : List Lexeme) : List Lexeme := sign "\x7b" :: (ts ++ [sign "\x7d"])

def Named.lexeme : Named → Lexeme
  | symbol name => (.free, .symbol name)
  | plain name => plainName name

def AssignDecl.tokens (d : AssignDecl) : List Lexeme :=
  sign "assign" :: sign "(" :: plainName d.key ::
    ((d.value.elim [] fun use => [sign ",", use.lexeme]) ++ [sign ")"])

def BindingValue.tokens : BindingValue → List Lexeme
  | assign d => d.tokens
  | named use => [use.lexeme]

def BindingDecl.tokens (d : BindingDecl) : List Lexeme :=
  headTokens [.fixed d.kind.word, .name d.name] ++ sign "=" :: d.value.tokens

def TriggerDecl.tokens : TriggerDecl → List Lexeme
  | immediate => [sign "@immediate"]
  | delay d => [sign "delay", sign "(", (.free, .number d.digits d.unit), sign ")"]
  | event name => [plainName name]

def StepDecl.tokens : StepDecl → List Lexeme
  | guard use => [sign "guard", sign "(", use.lexeme, sign ")"]
  | action use => [sign "action", sign "(", use.lexeme, sign ")"]
  | assign d => d.tokens

def TransitionDecl.tokens (d : TransitionDecl) : List Lexeme :=
  d.trigger.tokens ++ sign "=>" ::
    (d.steps.flatMap (fun step => step.tokens ++ [sign "=>"]) ++ [plainName d.target])

def InvokeDecl.tokens (d : InvokeDecl) : List Lexeme :=
  headTokens [.fixed "invoke", .path d.service] ++ braced (d.transitions.flatMap (·.tokens))

def Modifier.word : Modifier → String
  | initial => "initial"
  | final => "final"

def StateHead.tokens (h : StateHead) : List Lexeme :=
  headTokens (h.modifiers.map (fun m => .fixed m.word) ++ [.fixed "state", .name h.name])

mutual

def StateDecl.tokens : StateDecl → List Lexeme
  | .mk head body _ => head.tokens ++ braced (bodyTokens body)

def Clause.tokens : Clause → List Lexeme
  | .binding d => d.tokens
  | .invoke d => d.tokens
  | .state d => d.tokens
  | .transition d => d.tokens

def bodyTokens : List Clause → List Lexeme
  | [] => []
  | c :: cs => c.tokens ++ bodyTokens cs

end

def MachineClause.tokens : MachineClause → List Lexeme
  | binding d => d.tokens
  | state d => d.tokens

def MachineDecl.tokens (d : MachineDecl) : List Lexeme :=
  headTokens (.fixed "machine" :: d.name.toList.map .name) ++ braced (d.body.flatMap (·.tokens))

/-- The names that an import takes from its module.  If there are none, the braces may be left
out, and the last name may have a comma behind it. -/
inductive SpecifierTokens : List String → List Lexeme → Prop
  | absent : SpecifierTokens [] []
  | empty : SpecifierTokens [] (braced [])
  | names (name : String) (more : List String) (comma : Bool) :
      SpecifierTokens (name :: more) (braced
        (plainName name :: (more.flatMap (fun name => [sign ",", plainName name]) ++
          if comma then [sign ","] else [])))

/-- The tokens of an import, with quotes of either kind. -/
def ImportDecl.Tokens (d : ImportDecl) (ts : List Lexeme) : Prop :=
  ∃ quote names, SpecifierTokens (d.specifiers.map (·.value)) names ∧
    ts = sign "use" :: (.free, .quoted quote d.path) :: names

def Item.Tokens : Item → List Lexeme → Prop
  | importDecl d, ts => d.Tokens ts
  | binding d, ts => ts = d.tokens
  | machine d, ts => ts = d.tokens

/-- The tokens of one thing after the other. -/
inductive Row {α : Type} (tokens : α → List Lexeme → Prop) : List α → List Lexeme → Prop
  | nil : Row tokens [] []
  | cons {a : α} {as : List α} {ts us : List Lexeme} :
      tokens a ts → Row tokens as us → Row tokens (a :: as) (ts ++ us)

/-- A text is a rendering of a chart. -/
def Renders (items : List Item) (text : List Char) : Prop :=
  ∃ ts last rest, Row Item.Tokens items ts ∧ Spelling none ts text last rest ∧ Trailing rest

lemma bodyTokens_eq (body : List Clause) : bodyTokens body = body.flatMap Clause.tokens := by
  induction body with
  | nil => rfl
  | cons c cs ih => rw [bodyTokens, ih, List.flatMap_cons]

end Statechart.Language
