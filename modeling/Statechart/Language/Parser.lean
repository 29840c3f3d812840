import Statechart.Source.Span
import Statechart.Language.Attempts

/-!
# Parsers

A parser looks at the text from a cursor on.  It either accepts, with a value and the cursor
behind what it consumed, or rejects.  In both cases it leaves a mark on the record of attempts.

**What a parser accepts never depends on that record**: a reply has the outcome in one field
and, in another, what the parser does to any record.  So whatever is to be known about the
language can be read off the outcomes alone, and rejecting costs nothing, since the cursor is a
value and not a state.

* `Cursor` — the characters to come, and the byte offset of the first.
* `Reply`, `Parser` — and `Parser` is a monad with ordered choice.
* `literal`, `charsWhile`, `blanks`, `skip` — the leaves.
* `optional`, `many`, `manySpaced` — repetition, greedy and without return.
* `rule` — a named part of the grammar: locates the value, and records the name when missed.
-/

namespace Statechart.Language

/-- A place in a text: what comes next, and its byte offset. -/
structure Cursor where
  rest : List Char
  offset : Nat
deriving DecidableEq

/-- What a parser answers: a value and the place behind it if it accepts, and in any case what
it does to the record of attempts. -/
structure Reply (α : Type) where
  outcome : Option (α × Cursor)
  record : Attempts → Attempts

/-- A parser for values of type `α`. -/
def Parser (α : Type) := Cursor → Reply α

namespace Parser

variable {α β : Type}

/-- Accept and consume nothing. -/
def accept (a : α) : Parser α := fun c => ⟨some (a, c), id⟩

/-- Reject. -/
def reject : Parser α := fun _ => ⟨none, id⟩

/-- One parser after another. -/
def andThen (p : Parser α) (q : α → Parser β) : Parser β := fun c =>
  match p c with
  | ⟨none, record⟩ => ⟨none, record⟩
  | ⟨some (a, c'), record⟩ =>
    let reply := q a c'
    ⟨reply.outcome, fun attempts => reply.record (record attempts)⟩

/-- The first parser if it accepts, and the second otherwise. -/
def orElse (p : Parser α) (q : Unit → Parser α) : Parser α := fun c =>
  match p c with
  | ⟨some found, record⟩ => ⟨some found, record⟩
  | ⟨none, record⟩ =>
    let reply := q () c
    ⟨reply.outcome, fun attempts => reply.record (record attempts)⟩

instance : Monad Parser where
  pure := accept
  bind := andThen

instance : OrElse (Parser α) := ⟨orElse⟩

/-! ## Leaves -/

/-- The place behind the given characters, if these come next. -/
def afterChars : List Char → Cursor → Option Cursor
  | [], c => some c
  | _ :: _, ⟨[], _⟩ => none
  | e :: es, ⟨x :: xs, offset⟩ =>
    if e = x then afterChars es ⟨xs, offset + x.utf8Size⟩ else none

/-- A fixed text. -/
def literal (text : String) : Parser Unit := fun c =>
  ⟨(afterChars text.toList c).map fun c' => ((), c'), id⟩

/-- The characters up to the first that is not in the class, and the place of that one. -/
def spanChars (isIn : Char → Bool) : List Char → Nat → List Char × Cursor
  | [], offset => ([], ⟨[], offset⟩)
  | x :: xs, offset =>
    if isIn x then
      let (taken, c) := spanChars isIn xs (offset + x.utf8Size)
      (x :: taken, c)
    else ([], ⟨x :: xs, offset⟩)

/-- As many characters of a class as there are. -/
def charsWhile (isIn : Char → Bool) : Parser (List Char) := fun c =>
  ⟨some (spanChars isIn c.rest c.offset), id⟩

/-- One character of a class. -/
def char (isIn : Char → Bool) : Parser Char := fun c =>
  match c.rest with
  | [] => ⟨none, id⟩
  | x :: xs => if isIn x then ⟨some (x, ⟨xs, c.offset + x.utf8Size⟩), id⟩ else ⟨none, id⟩

/-- Accept where no character of a class comes next, and consume nothing. -/
def notBefore (isIn : Char → Bool) : Parser Unit := fun c =>
  match c.rest with
  | [] => ⟨some ((), c), id⟩
  | x :: _ => if isIn x then ⟨none, id⟩ else ⟨some ((), c), id⟩

/-- Accept at the end of the text. -/
def atEnd : Parser Unit := fun c =>
  if c.rest.isEmpty then ⟨some ((), c), id⟩ else ⟨none, id⟩

/-! ## Blank text -/

/-- A blank, a tab, a carriage return or a line feed. -/
def isBlank (c : Char) : Bool := c = ' ' || c = '\t' || c = '\r' || c = '\n'

/-- One or more blank characters. -/
def blanks : Parser Unit := do
  let _ ← char isBlank
  let _ ← charsWhile isBlank
  return

/-- The place behind blank characters and comments.  A comment begins with two slashes and ends
with its line. -/
def skipFrom : Bool → List Char → Nat → Cursor
  | _, [], offset => ⟨[], offset⟩
  | true, x :: xs, offset => skipFrom (x != '\n') xs (offset + x.utf8Size)
  | false, '/' :: '/' :: xs, offset => skipFrom true xs (offset + 2)
  | false, x :: xs, offset =>
    if isBlank x then skipFrom false xs (offset + x.utf8Size) else ⟨x :: xs, offset⟩

/-- Skip blank characters and comments. -/
def skip : Parser Unit := fun c => ⟨some ((), skipFrom false c.rest c.offset), id⟩

/-! ## Repetition -/

/-- A part that may be absent. -/
def optional (p : Parser α) : Parser (Option α) :=
  (do return some (← p)) <|> return none

/-- As many repetitions as there are.  A repetition that consumes nothing is the last. -/
def many (p : Parser α) (c : Cursor) : Reply (List α) :=
  match p c with
  | ⟨none, record⟩ => ⟨some ([], c), record⟩
  | ⟨some (a, c'), record⟩ =>
    if c'.rest.length < c.rest.length then
      let reply := many p c'
      ⟨reply.outcome.map fun (as, last) => (a :: as, last),
        fun attempts => reply.record (record attempts)⟩
    else ⟨some ([a], c'), record⟩
termination_by c.rest.length

/-- As many repetitions as there are, with blank text between them. -/
def manySpaced (p : Parser α) : Parser (List α) :=
  (do
    let first ← p
    let more ← many (do skip; p)
    return first :: more) <|> return []

/-! ## Rules -/

/-- A named part of the grammar: its value is located, and its name is recorded when the part
is missed. -/
def rule (name : Rule) (p : Parser α) : Parser (Located α) := fun c =>
  match p c with
  | ⟨some (a, c'), record⟩ => ⟨some (⟨a, ⟨c.offset, c'.offset⟩⟩, c'), record⟩
  | ⟨none, record⟩ =>
    ⟨none, fun attempts => (record attempts).miss name c.offset (attempts.countAt c.offset)⟩

end Parser

end Statechart.Language
