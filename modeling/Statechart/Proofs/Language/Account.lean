import Statechart.Language.Assembly
import Statechart.Proofs.Language.Numbering

/-!
# What is said while a chart is read

A chart that is put together leaves an account: the names that were bound so far, and what was
said on the way.  The account follows from the declarations alone.

* `Account.binding`, `Account.head` — a name that was bound before to something of its kind is
  warned of, and so is an initial state after the first of its machine.
* `Account.state`, `Account.clauses`, `Account.items` — the account after declarations.
* `Assembly.account`, `Assembly.tell` — the account of a chart so far, and the chart with another.
-/

namespace Statechart.Language

/-! ## Accounts -/

/-- The names that were bound so far, the last one first, and what was said. -/
structure Account where
  guards : List String := []
  actions : List String := []
  remarks : List Remark := []

/-- The account of a chart that is being put together. -/
def Assembly.account (a : Assembly) : Account := ⟨a.guards, a.actions, a.remarks.toList⟩

/-- The chart so far with another account. -/
def Assembly.tell (a : Assembly) (acc : Account) : Assembly :=
  { a with guards := acc.guards, actions := acc.actions, remarks := acc.remarks.toArray }

@[simp] lemma Assembly.account_tell (a : Assembly) (acc : Account) : (a.tell acc).account = acc := by
  simp [account, tell]

namespace Account

/-- The names of one kind. -/
def names (acc : Account) : BindingKind → List String
  | .guard => acc.guards
  | .action => acc.actions

/-- One more name of a kind. -/
def bind (acc : Account) (kind : BindingKind) (name : String) : Account :=
  match kind with
  | .guard => { acc with guards := name :: acc.guards }
  | .action => { acc with actions := name :: acc.actions }

/-- One more entry for the log. -/
def log (acc : Account) (message : String) : Account :=
  { acc with remarks := acc.remarks ++ [.log ⟨.debug, .reading, message⟩] }

/-- One more warning, which is logged first. -/
def warn (acc : Account) (file : Nat) (span : Span) (message : String) : Account :=
  { acc with remarks := (acc.log message).remarks ++ [.span ⟨span, file⟩ .warning message] }

/-- The account after a binding. -/
def binding (acc : Account) (file : Nat) (d : BindingDecl) : Account :=
  if d.name ∈ acc.names d.kind then
    (acc.bind d.kind d.name).warn file d.head
      ("`" ++ d.name ++ "` is declared more than once, the last declaration wins")
  else acc.bind d.kind d.name

/-- The account after the head of a state, in a machine that may have an initial state. -/
def head (acc : Account) (file : Nat) (initial : Option String) (h : StateHead) : Account :=
  match initial with
  | some first =>
    if h.isInitial then
      acc.warn file h.span
        ("`" ++ first ++ "` is already the initial state, `" ++ h.name ++ "` is ignored")
    else acc
  | none => acc

/-- The account after a clause that is not a state. -/
def clause (acc : Account) (file : Nat) : Clause → Account
  | .binding d => acc.binding file d
  | _ => acc

mutual

/-- The account after a state, in a machine that may have an initial state. -/
def state (file : Nat) (initial : Option String) : StateDecl → Account → Account
  | .mk h body _, acc => clauses file none body (acc.head file initial h)

/-- The account after clauses of a state, whose inner states so far may have an initial one. -/
def clauses (file : Nat) (initial : Option String) : List Clause → Account → Account
  | [], acc => acc
  | .binding d :: rest, acc => clauses file initial rest (acc.binding file d)
  | .invoke _ :: rest, acc => clauses file initial rest acc
  | .transition _ :: rest, acc => clauses file initial rest acc
  | .state d :: rest, acc =>
    clauses file (initial.or (firstInitial [d.head])) rest (state file initial d acc)

end

/-- The account after clauses of a machine. -/
def machineClauses (file : Nat) (initial : Option String) :
    List MachineClause → Account → Account
  | [], acc => acc
  | .binding d :: rest, acc => machineClauses file initial rest (acc.binding file d)
  | .state d :: rest, acc =>
    machineClauses file (initial.or (firstInitial [d.head])) rest (state file initial d acc)

/-- The account after a declaration of the top level. -/
def item (file : Nat) : Item → Account → Account
  | .importDecl _, acc => acc
  | .binding d, acc => acc.binding file d
  | .machine d, acc =>
    machineClauses file none d.body (acc.log ("parsing machine " ++ d.name.getD "(default)"))

/-- The account after declarations of the top level. -/
def items (file : Nat) : List Item → Account → Account
  | [], acc => acc
  | i :: rest, acc => items file rest (item file i acc)

/-- Clauses that are not states come one by one. -/
lemma clauses_cons {c : Clause} (hc : c.state? = none) (file : Nat) (initial : Option String)
    (rest : List Clause) (acc : Account) :
    clauses file initial (c :: rest) acc = clauses file initial rest (acc.clause file c) := by
  cases c with
  | state d => cases hc
  | _ => rw [clauses]; rfl

end Account

end Statechart.Language
