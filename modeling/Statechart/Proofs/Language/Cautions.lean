import Statechart.Proofs.Language.Freshness
import Statechart.Proofs.Output.Warnings

/-!
# What a chart is warned of while it is read

Two things are warned of: a binding whose kind and name were declared before, anywhere in the text
and at any depth, and a state that is marked as the initial one after another state of its machine
was.  Here both are said by looking back from a declaration, without any account of what was met so
far.

* `Item.declared` — the bindings of a declaration in the order of the text.
* `repeated` — the bindings with an earlier one of the same kind and name.
* `Item.rows` — the states of each machine, at any depth.
* `lateInitials` — the initial states after the first one, each with the name of the first.
* `cautions` — the warnings for all of them.
* `Account.Tallies` — a part of a chart adds bindings and warnings to an account.

**`reports_account`** — the account of a chart has these warnings and no others.
-/

namespace Statechart.Language

open Output

/-! ## Bindings -/

mutual

/-- The bindings of a state, at any depth, in the order of the text. -/
def StateDecl.declared : StateDecl → List BindingDecl
  | .mk _ body _ => declaredIn body

/-- The bindings of some clauses, at any depth, in the order of the text. -/
def declaredIn : List Clause → List BindingDecl
  | [] => []
  | .binding d :: rest => d :: declaredIn rest
  | .invoke _ :: rest => declaredIn rest
  | .transition _ :: rest => declaredIn rest
  | .state d :: rest => d.declared ++ declaredIn rest

end

/-- The bindings of a clause of a machine. -/
def MachineClause.declared : MachineClause → List BindingDecl
  | .binding d => [d]
  | .state d => d.declared

/-- The bindings of a declaration of the top level. -/
def Item.declared : Item → List BindingDecl
  | .importDecl _ => []
  | .binding d => [d]
  | .machine d => d.body.flatMap MachineClause.declared

/-- Two bindings have the same kind and the same name. -/
def BindingDecl.clashes (d e : BindingDecl) : Bool := e.kind = d.kind && e.name = d.name

/-- The bindings with an earlier one of the same kind and name. -/
def repeated (ds : List BindingDecl) : List BindingDecl :=
  (ds.zipIdx.filter fun x => (ds.take x.2).any x.1.clashes).map Prod.fst

/-- The same, one by one, after other bindings. -/
def repeatedAfter (before : List BindingDecl) : List BindingDecl → List BindingDecl
  | [] => []
  | d :: ds => (if before.any d.clashes then [d] else []) ++ repeatedAfter (before ++ [d]) ds

/-- To look at those met before is to look at the front of the list. -/
lemma repeatedAfter_eq (before ds : List BindingDecl) : repeatedAfter before ds =
    ((ds.zipIdx before.length).filter fun x =>
      ((before ++ ds).take x.2).any x.1.clashes).map Prod.fst := by
  induction ds generalizing before with
  | nil => rfl
  | cons d ds ih =>
      have hrest := ih (before ++ [d])
      rw [List.length_append, List.length_singleton, List.append_assoc,
        List.singleton_append] at hrest
      rw [repeatedAfter, hrest, List.zipIdx_cons, List.filter_cons, List.take_left]
      cases before.any d.clashes <;> rfl

lemma repeated_eq (ds : List BindingDecl) : repeated ds = repeatedAfter [] ds :=
  (repeatedAfter_eq [] ds).symm

/-- The bindings of two parts, of which the second looks back at the first. -/
lemma repeatedAfter_append (before ds es : List BindingDecl) :
    repeatedAfter before (ds ++ es) =
      repeatedAfter before ds ++ repeatedAfter (before ++ ds) es := by
  induction ds generalizing before with
  | nil => simp [repeatedAfter]
  | cons d ds ih => simp [repeatedAfter, ih]

/-- **The later one of two bindings** of the same kind and name is repeated. -/
lemma mem_repeated {ds : List BindingDecl} {d e : BindingDecl} (hds : [d, e].Sublist ds)
    (h : e.clashes d = true) : e ∈ repeated ds := by
  obtain ⟨before, rest, rfl, hd, hrest⟩ := List.cons_sublist_iff.mp hds
  obtain ⟨between, after, rfl⟩ := List.append_of_mem (List.singleton_sublist.mp hrest)
  have hbefore : (before ++ between).any e.clashes = true :=
    List.any_eq_true.mpr ⟨d, List.mem_append_left _ hd, h⟩
  rw [repeated_eq, ← List.append_assoc, repeatedAfter_append, List.nil_append, repeatedAfter,
    hbefore]
  simp

/-! ## Initial states -/

mutual

/-- The states inside a state, machine by machine. -/
def StateDecl.rows : StateDecl → List (List StateHead)
  | .mk _ body _ => innerHeads body :: rowsIn body

/-- The states inside the states among some clauses, machine by machine. -/
def rowsIn : List Clause → List (List StateHead)
  | [] => []
  | .binding _ :: rest => rowsIn rest
  | .invoke _ :: rest => rowsIn rest
  | .transition _ :: rest => rowsIn rest
  | .state d :: rest => d.rows ++ rowsIn rest

end

/-- The states inside a clause of a machine, machine by machine. -/
def MachineClause.rows : MachineClause → List (List StateHead)
  | .binding _ => []
  | .state d => d.rows

/-- The states of a declaration of the top level, machine by machine. -/
def Item.rows : Item → List (List StateHead)
  | .machine d => stateHeads d.body :: d.body.flatMap MachineClause.rows
  | _ => []

/-- The initial states after the first one, each with the name of the first. -/
def lateInitials (heads : List StateHead) : List (String × StateHead) :=
  heads.zipIdx.filterMap fun x =>
    if x.1.isInitial then (firstInitial (heads.take x.2)).map fun first => (first, x.1) else none

/-- The same, one by one, in a machine that may have an initial state. -/
def lateAfter (initial : Option String) : List StateHead → List (String × StateHead)
  | [] => []
  | h :: hs =>
    (if h.isInitial then (initial.map fun first => (first, h)).toList else []) ++
      lateAfter (initial.or (firstInitial [h])) hs

lemma firstInitial_append (hs ks : List StateHead) :
    firstInitial (hs ++ ks) = (firstInitial hs).or (firstInitial ks) := by
  simp [firstInitial, Option.map_or]

/-- The initial state met first is the first one at the front of the list. -/
lemma lateAfter_eq (before heads : List StateHead) : lateAfter (firstInitial before) heads =
    (heads.zipIdx before.length).filterMap fun x =>
      if x.1.isInitial then
        (firstInitial ((before ++ heads).take x.2)).map fun first => (first, x.1)
      else none := by
  induction heads generalizing before with
  | nil => rfl
  | cons h hs ih =>
      have hrest := ih (before ++ [h])
      rw [List.length_append, List.length_singleton, List.append_assoc, List.singleton_append,
        firstInitial_append] at hrest
      rw [lateAfter, hrest, List.zipIdx_cons, List.filterMap_cons, List.take_left]
      cases h.isInitial with
      | false => rfl
      | true => cases firstInitial before <;> rfl

lemma lateInitials_eq (heads : List StateHead) : lateInitials heads = lateAfter none heads :=
  (lateAfter_eq [] heads).symm

/-! ## Warnings -/

/-- The warning about a binding that was declared before. -/
def redeclaration (file : Nat) (d : BindingDecl) : Remark :=
  .span ⟨d.head, file⟩ .warning
    ("`" ++ d.name ++ "` is declared more than once, the last declaration wins")

/-- The warning about an initial state after the first one. -/
def lateInitial (file : Nat) (x : String × StateHead) : Remark :=
  .span ⟨x.2.span, file⟩ .warning
    ("`" ++ x.1 ++ "` is already the initial state, `" ++ x.2.name ++ "` is ignored")

/-- The warnings about the states of some machines. -/
def rowCautions (file : Nat) (rows : List (List StateHead)) : List Remark :=
  rows.flatMap fun row => (lateInitials row).map (lateInitial file)

/-- All that a chart is warned of while it is read. -/
def cautions (file : Nat) (items : List Item) : List Remark :=
  (repeated (items.flatMap Item.declared)).map (redeclaration file) ++
    rowCautions file (items.flatMap Item.rows)

lemma rowCautions_cons (file : Nat) (row : List StateHead) (rows : List (List StateHead)) :
    rowCautions file (row :: rows) =
      (lateAfter none row).map (lateInitial file) ++ rowCautions file rows := by
  rw [rowCautions, List.flatMap_cons, lateInitials_eq, rowCautions]

lemma rowCautions_append (file : Nat) (rows rows' : List (List StateHead)) :
    rowCautions file (rows ++ rows') = rowCautions file rows ++ rowCautions file rows' :=
  List.flatMap_append

namespace Account

/-- The names of the account are those of the given bindings. -/
def Knows (acc : Account) (ds : List BindingDecl) : Prop :=
  ∀ d : BindingDecl, d.name ∈ acc.names d.kind ↔ ds.any d.clashes = true

/-- After some bindings, a part of a chart adds its bindings to the account, with a warning for each
that is repeated, and other warnings. -/
def Tallies (file : Nat) (acc acc' : Account) (ds : List BindingDecl) (late : List Remark) : Prop :=
  ∀ before, acc.Knows before → acc'.Knows (before ++ ds) ∧
    (reports acc'.remarks).Perm (reports acc.remarks ++
      ((repeatedAfter before ds).map (redeclaration file) ++ late))

section tallies

variable {file : Nat} {acc acc' acc'' : Account} {ds es : List BindingDecl}
variable {late late' : List Remark}

lemma Tallies.refl (acc : Account) : Tallies file acc acc [] [] := by
  intro before h
  simpa [repeatedAfter] using h

lemma Tallies.perm (h : Tallies file acc acc' ds late) (hperm : late.Perm late') :
    Tallies file acc acc' ds late' := by
  intro before hbefore
  obtain ⟨hknows, hreports⟩ := h before hbefore
  exact ⟨hknows, hreports.trans ((hperm.append_left _).append_left _)⟩

/-- One part of a chart after another. -/
lemma Tallies.trans (h : Tallies file acc acc' ds late) (h' : Tallies file acc' acc'' es late') :
    Tallies file acc acc'' (ds ++ es) (late ++ late') := by
  intro before hbefore
  obtain ⟨hknows, hreports⟩ := h before hbefore
  obtain ⟨hknows', hreports'⟩ := h' _ hknows
  refine ⟨by rwa [← List.append_assoc], hreports'.trans ?_⟩
  refine (hreports.append_right _).trans ?_
  rw [repeatedAfter_append, List.map_append]
  simp only [List.append_assoc]
  exact ((List.perm_append_comm_assoc _ _ _).append_left _).append_left _

end tallies

/-! ## Steps -/

section steps

variable {acc : Account}

lemma mem_names_bind {d : BindingDecl} (kind : BindingKind) (name : String) :
    d.name ∈ (acc.bind kind name).names d.kind ↔
      (kind = d.kind ∧ name = d.name) ∨ d.name ∈ acc.names d.kind := by
  cases kind <;> cases hd : d.kind <;> simp [bind, names, eq_comm]

lemma knows_bind {before : List BindingDecl} (h : acc.Knows before) (d : BindingDecl) :
    (acc.bind d.kind d.name).Knows (before ++ [d]) := by
  intro e
  rw [mem_names_bind, h e]
  simp [BindingDecl.clashes, or_comm]

lemma reports_warn (acc : Account) (file : Nat) (span : Span) (message : String) :
    reports (acc.warn file span message).remarks =
      reports acc.remarks ++ [.span ⟨span, file⟩ .warning message] := by
  rw [warn, log, reports_append, reports_append, List.append_assoc]
  rfl

lemma names_warn (acc : Account) (file : Nat) (span : Span) (message : String)
    (kind : BindingKind) : (acc.warn file span message).names kind = acc.names kind := by
  cases kind <;> rfl

lemma names_log (acc : Account) (message : String) (kind : BindingKind) :
    (acc.log message).names kind = acc.names kind := by
  cases kind <;> rfl

/-- A binding is warned of if its name is known. -/
lemma tallies_binding (file : Nat) (acc : Account) (d : BindingDecl) :
    Tallies file acc (acc.binding file d) [d] [] := by
  intro before hbefore
  have hbind := knows_bind hbefore d
  rw [binding, repeatedAfter, repeatedAfter, List.append_nil, List.append_nil]
  by_cases hd : before.any d.clashes = true
  · rw [if_pos ((hbefore d).mpr hd), if_pos hd]
    refine ⟨fun e => by rw [names_warn, hbind e], ?_⟩
    rw [reports_warn, remarks_bind]
    exact .refl _
  · rw [if_neg (mt (hbefore d).mp hd), if_neg hd]
    refine ⟨hbind, ?_⟩
    rw [remarks_bind]
    simp

lemma tallies_log (file : Nat) (acc : Account) (message : String) :
    Tallies file acc (acc.log message) [] [] := by
  intro before hbefore
  refine ⟨fun e => by rw [names_log, hbefore e, List.append_nil], ?_⟩
  simp [log, repeatedAfter]

/-- The head of a state is warned of if it is marked and there is an initial state. -/
lemma tallies_head (file : Nat) (acc : Account) (initial : Option String) (h : StateHead) :
    Tallies file acc (acc.head file initial h) []
      ((lateAfter initial [h]).map (lateInitial file)) := by
  intro before hbefore
  rw [List.append_nil, lateAfter, lateAfter, List.append_nil, repeatedAfter]
  cases initial with
  | none => cases h.isInitial <;> exact ⟨hbefore, by simp [head]⟩
  | some first =>
      rw [head]
      cases h.isInitial with
      | false => exact ⟨hbefore, by simp⟩
      | true =>
          refine ⟨fun e => by rw [if_pos rfl, names_warn, hbefore e], ?_⟩
          rw [if_pos rfl, reports_warn]
          exact .refl _

end steps

/-! ## Charts -/

/-- A state of a row and what is inside it, before the rest of the row. -/
lemma Tallies.row {file : Nat} {acc acc' acc'' : Account} {ds es : List BindingDecl}
    {initial : Option String} {h : StateHead} {hs : List StateHead}
    {rows rows' : List (List StateHead)}
    (hstate : Tallies file acc acc' ds
      ((lateAfter initial [h]).map (lateInitial file) ++ rowCautions file rows))
    (hrest : Tallies file acc' acc'' es
      ((lateAfter (initial.or (firstInitial [h])) hs).map (lateInitial file) ++
        rowCautions file rows')) :
    Tallies file acc acc'' (ds ++ es)
      ((lateAfter initial (h :: hs)).map (lateInitial file) ++
        rowCautions file (rows ++ rows')) := by
  refine (hstate.trans hrest).perm ?_
  have hhead : lateAfter initial (h :: hs) =
      lateAfter initial [h] ++ lateAfter (initial.or (firstInitial [h])) hs := by
    simp [lateAfter]
  rw [hhead, List.map_append, rowCautions_append]
  -- what is inside the first state is warned of before the rest of the row
  simp only [List.append_assoc]
  exact (List.perm_append_comm_assoc _ _ _).append_left _

mutual

/-- A state adds its bindings, the warning about itself and those about inner machines. -/
lemma tallies_state (file : Nat) : ∀ (d : StateDecl) (initial : Option String) (acc : Account),
    Tallies file acc (acc.state file initial d) d.declared
      ((lateAfter initial [d.head]).map (lateInitial file) ++ rowCautions file d.rows)
  | .mk h body _, initial, acc => by
      rw [state, StateDecl.declared, StateDecl.rows, rowCautions_cons]
      exact (tallies_head file acc initial h).trans (tallies_clauses file body none _)

/-- So does a body, with the warnings about the states of its own machine. -/
lemma tallies_clauses (file : Nat) : ∀ (body : List Clause) (initial : Option String)
    (acc : Account), Tallies file acc (acc.clauses file initial body) (declaredIn body)
      ((lateAfter initial (innerHeads body)).map (lateInitial file) ++
        rowCautions file (rowsIn body))
  | [], initial, acc => by
      rw [clauses, declaredIn, rowsIn]
      exact .refl acc
  | .binding d :: rest, initial, acc => by
      rw [clauses, declaredIn, rowsIn]
      exact (tallies_binding file acc d).trans (tallies_clauses file rest initial _)
  | .invoke _ :: rest, initial, acc => by
      rw [clauses, declaredIn, rowsIn]
      exact tallies_clauses file rest initial acc
  | .transition _ :: rest, initial, acc => by
      rw [clauses, declaredIn, rowsIn]
      exact tallies_clauses file rest initial acc
  | .state d :: rest, initial, acc => by
      rw [clauses, declaredIn, rowsIn, innerHeads_cons_state]
      exact (tallies_state file d initial acc).row (tallies_clauses file rest _ _)

end

/-- The same for the clauses of a machine. -/
lemma tallies_machineClauses (file : Nat) (body : List MachineClause) :
    ∀ (initial : Option String) (acc : Account),
      Tallies file acc (acc.machineClauses file initial body)
        (body.flatMap MachineClause.declared)
        ((lateAfter initial (stateHeads body)).map (lateInitial file) ++
          rowCautions file (body.flatMap MachineClause.rows)) := by
  induction body with
  | nil => exact fun _ acc => .refl acc
  | cons c rest ih =>
      intro initial acc
      cases c with
      | binding d => exact (tallies_binding file acc d).trans (ih _ _)
      | state d => exact (tallies_state file d initial acc).row (ih _ _)

/-- A declaration adds its bindings and the warnings about its machines. -/
lemma tallies_item (file : Nat) (item : Item) (acc : Account) :
    Tallies file acc (acc.item file item) item.declared (rowCautions file item.rows) := by
  cases item with
  | importDecl d => exact .refl acc
  | binding d => exact tallies_binding file acc d
  | machine d =>
      rw [Item.rows, rowCautions_cons]
      exact (tallies_log file acc _).trans (tallies_machineClauses file d.body none _)

/-- **A chart** adds what its declarations do. -/
lemma tallies_items (file : Nat) (is : List Item) : ∀ acc : Account,
    Tallies file acc (acc.items file is) (is.flatMap Item.declared)
      (rowCautions file (is.flatMap Item.rows)) := by
  induction is with
  | nil => exact fun acc => .refl acc
  | cons item rest ih =>
      intro acc
      rw [List.flatMap_cons, List.flatMap_cons, rowCautions_append]
      exact (tallies_item file item acc).trans (ih _)

end Account

/-- **What is warned of while a chart is read** are the repeated bindings and the late initial
states, each once. -/
lemma reports_account (file : Nat) (items : List Item) :
    (reports (Account.items file items {}).remarks).Perm (cautions file items) := by
  have hknows : ({} : Account).Knows [] := by
    intro d
    cases hd : d.kind <;> simp [Account.names]
  rw [cautions, repeated_eq]
  exact (Account.tallies_items file items {} [] hknows).2

/-- Where all of this is said, each repeated binding was warned of. -/
lemma mem_of_repeated {file : Nat} {items : List Item} {said : List Remark}
    (h : (reports said).Perm (cautions file items)) {d : BindingDecl}
    (hd : d ∈ repeated (items.flatMap Item.declared)) : redeclaration file d ∈ said := by
  have hmem : redeclaration file d ∈ cautions file items :=
    List.mem_append_left _ (List.mem_map_of_mem hd)
  exact List.mem_of_mem_filter (h.mem_iff.mpr hmem)

/-! ## Payloads -/

mutual

lemma map_declared : ∀ d : StateDecl, d.declared.map BindingDecl.binding = d.written
  | .mk _ body _ => by
      rw [StateDecl.declared, StateDecl.written]
      exact map_declaredIn body

/-- The bindings that a body declares are those that are written in it. -/
lemma map_declaredIn : ∀ body : List Clause,
    (declaredIn body).map BindingDecl.binding = writtenIn body
  | [] => by rw [declaredIn, writtenIn, List.map_nil]
  | .binding d :: rest => by rw [declaredIn, writtenIn, List.map_cons, map_declaredIn rest]
  | .invoke _ :: rest => by rw [declaredIn, writtenIn, map_declaredIn rest]
  | .transition _ :: rest => by rw [declaredIn, writtenIn, map_declaredIn rest]
  | .state d :: rest => by
      rw [declaredIn, writtenIn, List.map_append, map_declared d, map_declaredIn rest]

end

/-- What the bindings of a chart become are its bindings in the written order. -/
lemma map_flatMap_declared (items : List Item) :
    (items.flatMap Item.declared).map BindingDecl.binding =
      items.flatMap (Item.bindings StateDecl.written) := by
  rw [List.map_flatMap]
  refine List.flatMap_congr fun item _ => ?_
  cases item with
  | importDecl d => rfl
  | binding d => rfl
  | machine d =>
      rw [Item.declared, Item.bindings, List.map_flatMap]
      refine List.flatMap_congr fun c _ => ?_
      cases c with
      | binding b => rfl
      | state s => exact map_declared s

end Statechart.Language
