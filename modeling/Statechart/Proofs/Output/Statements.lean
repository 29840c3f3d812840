import Statechart.Proofs.Output.Hoisting

/-!
# The statements of a module

A module is a row of statements: what it imports, and the machines that it exports.  A statement is
plain text around literals, which are the configuration of a machine and its options.

* `Part`, `moduleParts`, `literals` — the parts of a module.
* `Statement`, `statements` — its statements.
* `Statement.boundNames` — the names that a statement binds at the top level.

**`moduleText_eq_partsText`**, **`moduleText_eq_statementsText`** — both views have the text of the
module.
-/

namespace Statechart.Output

open Script

/-! ## The parts of a module -/

/-- A part of the text of a module. -/
inductive Part where
  | plain (text : String)
  | literal (value : Value)

namespace Part

/-- The text of a part. -/
def text : Part → String
  | plain text => text
  | literal value => value.layout 0

/-- The value of a part that is a literal. -/
def value? : Part → Option Value
  | plain _ => none
  | literal value => some value

end Part

/-- The text of parts that stand one after the other. -/
def partsText (parts : List Part) : String := String.join (parts.map Part.text)

/-- The literals among some parts. -/
def literals (parts : List Part) : List Value := parts.filterMap Part.value?

/-- The configuration of a machine. -/
def configuration (m : Machine) (children : List Tree) : Value :=
  .object (machineProperties m (stateProperties children))

/-- The parts for the options of a piece. -/
def optionsParts (piece : List Binding) : List Part :=
  if piece.isEmpty then [] else [.plain ", ", .literal (pieceOptions piece)]

/-- The parts for a top-level machine that takes a piece. -/
def machineParts (m : Machine) (children : List Tree) (piece : List Binding) : List Part :=
  .plain ((match m.name with
    | some name => "\nexport const " ++ name ++ " = "
    | none => "\nexport default ") ++ "Machine(") ::
    .literal (configuration m children) :: optionsParts piece ++ [.plain ");"]

/-- The parts for top-level trees, where each machine takes the next of the given pieces. -/
def rootParts (pieces : List (List Binding)) : List Tree → List Part
  | [] => []
  | t :: ts =>
    match t.payload with
    | .importModule path => .plain (importText path t.children) :: rootParts pieces ts
    | .machine m => machineParts m t.children (pieces.headD []) ++ rootParts pieces.tail ts
    | _ => rootParts pieces ts

/-- The parts of the module for top-level trees. -/
def moduleParts (usesAssign : Bool) (library : Library) (roots : List Tree) : List Part :=
  (if roots.isEmpty then [] else [.plain (headerText usesAssign library)]) ++
    rootParts (piecesFrom [] roots) roots

@[simp] lemma partsText_nil : partsText [] = "" := rfl

@[simp] lemma partsText_cons (part : Part) (parts : List Part) :
    partsText (part :: parts) = part.text ++ partsText parts := by
  rw [partsText, List.map_cons, String.join_cons, partsText]

@[simp] lemma partsText_append (as bs : List Part) :
    partsText (as ++ bs) = partsText as ++ partsText bs := by
  rw [partsText, List.map_append, String.join_append, partsText, partsText]

@[simp] lemma literals_nil : literals [] = [] := rfl

@[simp] lemma literals_plain (text : String) (parts : List Part) :
    literals (.plain text :: parts) = literals parts := rfl

@[simp] lemma literals_literal (value : Value) (parts : List Part) :
    literals (.literal value :: parts) = value :: literals parts := rfl

@[simp] lemma literals_append (as bs : List Part) :
    literals (as ++ bs) = literals as ++ literals bs := List.filterMap_append

lemma partsText_optionsParts (piece : List Binding) :
    partsText (optionsParts piece) = optionsText piece := by
  rw [optionsParts, optionsText]
  cases piece.isEmpty <;> simp [Part.text]

lemma partsText_machineParts (m : Machine) (children : List Tree) (piece : List Binding) :
    partsText (machineParts m children piece) =
      configurationText m children ++ optionsText piece ++ ");" := by
  rw [machineParts, configurationText, ← partsText_optionsParts]
  cases m.name <;> simp [Part.text, configuration, String.append_assoc]

/-- The parts of the top-level trees have the text of these trees. -/
lemma partsText_rootParts (ts : List Tree) : ∀ pieces : List (List Binding),
    partsText (rootParts pieces ts) = textWith (pieces.map optionsText) ts := by
  induction ts with
  | nil => intro pieces; rfl
  | cons t ts ih =>
      intro pieces
      rw [rootParts, textWith]
      cases t.payload with
      | importModule path => simp [Part.text, ih]
      | machine m =>
          have hhead : (pieces.map optionsText).headD "" = optionsText (pieces.headD []) := by
            cases pieces <;> rfl
          simp only [partsText_append, partsText_machineParts, ih, hhead, List.map_tail]
      | _ => exact ih pieces

/-- **A module is the text of its parts.** -/
lemma moduleText_eq_partsText (usesAssign : Bool) (library : Library) {roots : List Tree}
    (hshape : Tree.allShaped none roots = true) :
    moduleText usesAssign library roots = partsText (moduleParts usesAssign library roots) := by
  rw [moduleText, moduleParts, partsText_append, partsText_rootParts,
    rootsText_eq_textWith hshape collects_nil]
  cases roots.isEmpty <;> simp [Part.text]

/-! ## Statements -/

/-- A statement of a module. -/
inductive Statement where
  /-- Names that are taken from another module. -/
  | importNames (names : List String) (path : String)
  /-- A machine that is exported, under a name or as the default. -/
  | exportMachine (name : Option String) (configuration : Value) (options : Option Value)

namespace Statement

/-- The parts of a statement. -/
def parts : Statement → List Part
  | importNames names path =>
    [.plain ("import \x7b " ++ String.intercalate ", " names ++ " \x7d from " ++ quote path ++
      ";\n")]
  | exportMachine name configuration options =>
    .plain ((match name with
      | some name => "\nexport const " ++ name ++ " = "
      | none => "\nexport default ") ++ "Machine(") ::
      .literal configuration :: (options.elim [] fun value => [.plain ", ", .literal value]) ++
        [.plain ");"]

/-- The text of a statement. -/
def text (s : Statement) : String := partsText s.parts

/-- The literals of a statement. -/
def values : Statement → List Value
  | importNames _ _ => []
  | exportMachine _ configuration options => configuration :: options.toList

/-- The names that a statement binds at the top level. -/
def boundNames : Statement → List String
  | importNames names _ => names
  | exportMachine name _ _ => name.toList

/-- The statement is a default export. -/
def isDefault : Statement → Bool
  | exportMachine none _ _ => true
  | _ => false

end Statement

/-- The text of statements that stand one after the other. -/
def statementsText (statements : List Statement) : String :=
  partsText (statements.flatMap Statement.parts)

/-- What a module takes from the library. -/
def runtimeNames (usesAssign : Bool) : List String :=
  "Machine" :: if usesAssign then ["assign"] else []

/-- The first statement of a module. -/
def header (usesAssign : Bool) (library : Library) : Statement :=
  .importNames (runtimeNames usesAssign) library.specifier

/-- The statement for a machine that takes a piece. -/
def machineStatement (m : Machine) (children : List Tree) (piece : List Binding) : Statement :=
  .exportMachine m.name (configuration m children)
    (if piece.isEmpty then none else some (pieceOptions piece))

/-- The statements for top-level trees, where each machine takes the next of the given pieces.
There is none for an import that brings in nothing. -/
def rootStatements (pieces : List (List Binding)) : List Tree → List Statement
  | [] => []
  | t :: ts =>
    match t.payload with
    | .importModule path =>
      (if (specifierNames t.children).isEmpty then []
        else [.importNames (specifierNames t.children) path]) ++ rootStatements pieces ts
    | .machine m =>
      machineStatement m t.children (pieces.headD []) :: rootStatements pieces.tail ts
    | _ => rootStatements pieces ts

/-- A statement is for an import that brings in something, or for a machine and a piece. -/
lemma mem_rootStatements {s : Statement} {ts : List Tree} :
    ∀ {pieces : List (List Binding)}, s ∈ rootStatements pieces ts →
      (∃ t ∈ ts, ∃ path, t.payload = .importModule path ∧ specifierNames t.children ≠ [] ∧
        s = .importNames (specifierNames t.children) path) ∨
      ∃ t ∈ ts, ∃ m piece, t.payload = .machine m ∧ piece.Sublist pieces.flatten ∧
        s = machineStatement m t.children piece := by
  induction ts with
  | nil => intro pieces h; cases h
  | cons t ts ih =>
      intro pieces h
      rw [rootStatements] at h
      simp only [List.exists_mem_cons_iff]
      cases hp : t.payload with
      | importModule path =>
          simp only [hp, List.mem_append] at h
          rcases h with h | h
          · split at h
            · cases h
            · next hnames =>
              exact .inl (.inl ⟨path, rfl, by simpa using hnames, List.mem_singleton.mp h⟩)
          · exact (ih h).imp .inr .inr
      | machine m =>
          simp only [hp, List.mem_cons] at h
          rcases h with rfl | h
          · refine .inr (.inl ⟨m, _, rfl, ?_, rfl⟩)
            cases pieces <;> simp
          · refine (ih h).imp .inr ?_
            rintro ⟨u, hu, m, piece, hm, hpiece, hs⟩
            refine .inr ⟨u, hu, m, piece, hm, hpiece.trans ?_, hs⟩
            cases pieces <;> simp
      | _ =>
          simp only [hp] at h
          exact (ih h).imp .inr .inr

/-- The statements of the module for top-level trees. -/
def statements (usesAssign : Bool) (library : Library) (roots : List Tree) : List Statement :=
  (if roots.isEmpty then [] else [header usesAssign library]) ++
    rootStatements (piecesFrom [] roots) roots

@[simp] lemma statementsText_nil : statementsText [] = "" := rfl

@[simp] lemma statementsText_cons (s : Statement) (ss : List Statement) :
    statementsText (s :: ss) = s.text ++ statementsText ss := by
  rw [statementsText, List.flatMap_cons, partsText_append, statementsText, Statement.text]

@[simp] lemma statementsText_append (ss ts : List Statement) :
    statementsText (ss ++ ts) = statementsText ss ++ statementsText ts := by
  rw [statementsText, List.flatMap_append, partsText_append, statementsText, statementsText]

/-- The first statement has the text of the header. -/
lemma text_header (usesAssign : Bool) (library : Library) :
    (header usesAssign library).text = headerText usesAssign library := by
  have hnames : "import \x7b " ++ String.intercalate ", " (runtimeNames usesAssign) =
      "import \x7b Machine" ++ if usesAssign then ", assign" else "" := by
    cases usesAssign <;> decide +kernel
  unfold headerText
  rw [header, Statement.text, Statement.parts, partsText_cons, partsText_nil, String.append_empty,
    Part.text, hnames]

lemma parts_machineStatement (m : Machine) (children : List Tree) (piece : List Binding) :
    (machineStatement m children piece).parts = machineParts m children piece := by
  rw [machineStatement, machineParts, optionsParts]
  cases piece.isEmpty <;> cases m.name <;> rfl

/-- The statements of the top-level trees have the text of their parts. -/
lemma statementsText_rootStatements (ts : List Tree) : ∀ pieces : List (List Binding),
    statementsText (rootStatements pieces ts) = partsText (rootParts pieces ts) := by
  induction ts with
  | nil => intro pieces; rfl
  | cons t ts ih =>
      intro pieces
      rw [rootStatements, rootParts]
      cases t.payload with
      | importModule path =>
          simp only [statementsText_append, partsText_cons, ih, Part.text, importText]
          cases (specifierNames t.children).isEmpty <;>
            simp [Statement.text, Statement.parts, Part.text]
      | machine m =>
          simp only [statementsText_cons, Statement.text, partsText_append, parts_machineStatement,
            ih]
      | _ => exact ih pieces

/-- **A module is the text of its statements.** -/
lemma moduleText_eq_statementsText (usesAssign : Bool) (library : Library) {roots : List Tree}
    (hshape : Tree.allShaped none roots = true) :
    moduleText usesAssign library roots =
      statementsText (statements usesAssign library roots) := by
  rw [moduleText_eq_partsText usesAssign library hshape, moduleParts, statements,
    partsText_append, statementsText_append, statementsText_rootStatements]
  cases roots.isEmpty <;> simp [text_header, Part.text]

end Statechart.Output
