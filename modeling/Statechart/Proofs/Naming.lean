import Statechart.Proofs.Transcript
import Statechart.Proofs.Output.Legibility

/-!
# The names that a module binds

A module has names from four places: what it takes from the library, what the chart imports, the
machines with a name, and the default exports for those without one.

* `WellNamed` — no name is bound twice, and there is one default export at most.
* `NamesApart` — the declarations of a chart from which this follows.

**`compile_wellNamed_iff`** — the module of a chart is well named exactly if the declarations are
apart.  This is not checked on the way: **`compile_namedTwice`**.
-/

namespace Statechart

namespace Output

/-- No name is bound twice at the top level, and there is one default export at most. -/
def WellNamed (ss : List Statement) : Prop :=
  ss.countP Statement.isDefault ≤ 1 ∧ (ss.flatMap Statement.boundNames).Nodup

instance (ss : List Statement) : Decidable (WellNamed ss) := by
  unfold WellNamed
  infer_instance

/-- Whether arrays are written on one line does not matter. -/
lemma names_flat (ss : List Statement) :
    (ss.map Statement.flat).flatMap Statement.boundNames = ss.flatMap Statement.boundNames ∧
      (ss.map Statement.flat).countP Statement.isDefault = ss.countP Statement.isDefault := by
  have hnames : Statement.boundNames ∘ Statement.flat = Statement.boundNames := by
    funext s
    cases s <;> rfl
  have hdefault : Statement.isDefault ∘ Statement.flat = Statement.isDefault := by
    funext s
    rcases s with _ | ⟨_ | _, _, _⟩ <;> rfl
  rw [List.flatMap_map, List.countP_map, hdefault]
  exact ⟨congrArg (ss.flatMap ·) hnames, rfl⟩

end Output

namespace Language

open Output

namespace Item

/-- The names that a declaration binds in the module. -/
def declaredNames : Item → List String
  | importDecl d => d.specifiers.map (·.value)
  | binding _ => []
  | machine d => d.name.toList

/-- The declaration is a machine without a name. -/
def isNameless : Item → Bool
  | machine d => d.name.isNone
  | _ => false

end Item

/-- The names that a chart declares are different from each other and from those that its module
takes from the library, and there is one machine without a name at most. -/
structure NamesApart (items : List Item) : Prop where
  nameless : items.countP Item.isNameless ≤ 1
  names : (items.flatMap Item.declaredNames).Nodup
  machine : "Machine" ∉ items.flatMap Item.declaredNames
  assign : items.any Item.updates = true → "assign" ∉ items.flatMap Item.declaredNames

instance (items : List Item) : Decidable (NamesApart items) :=
  decidable_of_iff (items.countP Item.isNameless ≤ 1 ∧ (items.flatMap Item.declaredNames).Nodup ∧
    "Machine" ∉ items.flatMap Item.declaredNames ∧
    (items.any Item.updates = true → "assign" ∉ items.flatMap Item.declaredNames))
    ⟨fun ⟨hnameless, hnames, hmachine, hassign⟩ => ⟨hnameless, hnames, hmachine, hassign⟩,
      fun h => ⟨h.nameless, h.names, h.machine, h.assign⟩⟩

/-- The names that an import brings in are those of its specifiers. -/
lemma specifierNames_leaves (specifiers : List (Located String)) (n : NodeId) :
    specifierNames (numbered (fun n s => Tree.leaf n (.specifier s.value none)) n specifiers) =
      specifiers.map (·.value) := by
  induction specifiers generalizing n with
  | nil => rfl
  | cons s specifiers ih =>
      rw [numbered, List.map_cons, ← ih]
      rfl

/-- The names and the default exports of a module are those of the declarations. -/
lemma names_rootStatements (items : List Item) : ∀ (pieces : List (List Binding)) (n : NodeId),
    (rootStatements pieces (numbered Item.tree n items)).flatMap Statement.boundNames =
        items.flatMap Item.declaredNames ∧
      (rootStatements pieces (numbered Item.tree n items)).countP Statement.isDefault =
        items.countP Item.isNameless := by
  induction items with
  | nil => intro pieces n; exact ⟨rfl, rfl⟩
  | cons item items ih =>
      intro pieces n
      rw [numbered, rootStatements, List.flatMap_cons, List.countP_cons]
      cases item with
      | importDecl d =>
          obtain ⟨hnames, hdefaults⟩ := ih pieces (n + (ImportDecl.tree n d).size)
          simp only [Item.tree, ImportDecl.tree, Tree.payload_node, Tree.children_node,
            specifierNames_leaves, List.flatMap_append, List.countP_append] at hnames hdefaults ⊢
          rw [hnames, hdefaults]
          cases hd : d.specifiers <;> simp [hd, Item.declaredNames, Item.isNameless,
            Statement.boundNames, Statement.isDefault]
      | binding d =>
          exact ih pieces (n + (Item.tree n (.binding d)).size)
      | machine d =>
          obtain ⟨hnames, hdefaults⟩ := ih pieces.tail (n + (MachineDecl.tree n d).size)
          simp only [Item.tree, MachineDecl.tree, Tree.payload_node, Tree.children_node,
            List.flatMap_cons, List.countP_cons] at hnames hdefaults ⊢
          rw [hnames, hdefaults]
          cases hd : d.name <;> simp [hd, machineStatement, Item.declaredNames, Item.isNameless,
            Statement.boundNames, Statement.isDefault]

/-- A module binds what it takes from the library, and what the chart declares. -/
lemma names_statements (usesAssign : Bool) (library : Library) (items : List Item) :
    (statements usesAssign library (itemTrees items)).flatMap Statement.boundNames =
        (if items.isEmpty then [] else runtimeNames usesAssign) ++
          items.flatMap Item.declaredNames ∧
      (statements usesAssign library (itemTrees items)).countP Statement.isDefault =
        items.countP Item.isNameless := by
  have hroots : (itemTrees items).isEmpty = items.isEmpty := by cases items <;> rfl
  obtain ⟨hnames, hdefaults⟩ := names_rootStatements items (piecesFrom [] (itemTrees items)) 0
  rw [← itemTrees] at hnames hdefaults
  rw [statements, List.flatMap_append, List.countP_append, hnames, hdefaults, hroots]
  cases items.isEmpty <;> simp [header, Statement.boundNames, Statement.isDefault]

/-- The names of a module are different if those of the chart are, and if none of them is taken from
the library. -/
lemma nodup_runtimeNames (usesAssign : Bool) (names : List String) :
    (runtimeNames usesAssign ++ names).Nodup ↔
      names.Nodup ∧ "Machine" ∉ names ∧ (usesAssign = true → "assign" ∉ names) := by
  cases usesAssign
  · simp [runtimeNames, and_comm]
  · simp [runtimeNames]
    tauto

end Language

open Statechart.Language Output

/-- **When a module is well named.**  The module can be read; it binds what it takes from the
library and then the names that the chart declares, and has a default export for each machine
without a name.  So it is well named exactly if the declarations are apart. -/
theorem compile_wellNamed_iff {source : SourceFile} {library : Library} {text : String}
    {j j' : Journal} (h : compile source library j = .ok (some text) j') :
    ∃ items ss, Language.parse source.content = .ok items ∧ readModule text = some ss ∧
      ss.flatMap Statement.boundNames =
        (if items.isEmpty then [] else runtimeNames (items.any Item.updates)) ++
          items.flatMap Item.declaredNames ∧
      ss.countP Statement.isDefault = items.countP Item.isNameless ∧
      (WellNamed ss ↔ NamesApart items) := by
  obtain ⟨items, hparse, -, rfl⟩ := moduleText_of_compile h
  obtain ⟨hbound, hcount⟩ := names_statements (items.any Item.updates) library items
  rw [← (names_flat _).1] at hbound
  rw [← (names_flat _).2] at hcount
  refine ⟨items, _, hparse, readModule_moduleText hparse _ library, hbound, hcount, ?_⟩
  rw [WellNamed, hbound, hcount]
  cases items with
  | nil => exact ⟨fun _ => ⟨by simp, by simp, by simp, by simp⟩, fun _ => ⟨by simp, by simp⟩⟩
  | cons item items =>
      rw [List.isEmpty_cons, if_neg (by simp), nodup_runtimeNames]
      exact ⟨fun ⟨hnameless, hnodup, hmachine, hassign⟩ => ⟨hnameless, hnodup, hmachine, hassign⟩,
        fun h => ⟨h.nameless, h.names, h.machine, h.assign⟩⟩

/-- A chart that imports a name, and has a machine with another name and one without. -/
def namedApart : String :=
  "use './m'\x7bf\x7d machine m\x7bstate a\x7bgo=>assign(k)=>a\x7d\x7d machine\x7b\x7d"

lemma namedApart_apart : (match Language.parse namedApart with
    | .ok items => items.all Item.valid && decide (NamesApart items)
    | .error _ => false) = true := by
  decide +kernel

/-- The module of such a chart is well named. -/
theorem compile_namedApart : ∃ text j ss,
    compile ⟨"m.lucy", namedApart⟩ .package {} = .ok (some text) j ∧ readModule text = some ss ∧
      WellNamed ss := by
  have hapart := namedApart_apart
  generalize hitems : Language.parse namedApart = outcome at hapart
  cases outcome with
  | error attempts => cases hapart
  | ok items =>
      rw [Bool.and_eq_true, decide_eq_true_eq] at hapart
      obtain ⟨-, -, j, -, -, hcompile⟩ := compile_of_parse ⟨"m.lucy", namedApart⟩ hitems hapart.1
        (by decide) .package {}
      obtain ⟨items', ss, hparse, hread, -, -, hiff⟩ := compile_wellNamed_iff hcompile
      obtain rfl : items' = items := Except.ok.inj (hparse.symm.trans hitems)
      exact ⟨_, j, ss, hcompile, hread, hiff.mpr hapart.2⟩

/-- A chart with a machine that has the name of an import, and two machines without a name. -/
def namedTwice : String := "use './m'\x7bm\x7d machine m\x7b\x7d machine\x7b\x7d machine\x7b\x7d"

/-- The module of the example binds a name twice, and has more than one default export. -/
lemma namedTwice_module : (match compile ⟨"m.lucy", namedTwice⟩ .package {} with
    | .ok (some text) j =>
      j.errors = 0 && j.warnings = 0 && (readModule text).any fun ss =>
        1 < ss.countP Statement.isDefault && !(ss.flatMap Statement.boundNames).Nodup
    | _ => false) = true := by
  decide +kernel

/-- **A name that is bound twice** and a second default export pass without a report. -/
theorem compile_namedTwice : ∃ text j ss,
    compile ⟨"m.lucy", namedTwice⟩ .package {} = .ok (some text) j ∧ j.errors = 0 ∧
      j.warnings = 0 ∧ readModule text = some ss ∧ 1 < ss.countP Statement.isDefault ∧
      ¬ (ss.flatMap Statement.boundNames).Nodup := by
  have hmodule := namedTwice_module
  generalize compile ⟨"m.lucy", namedTwice⟩ .package {} = outcome at hmodule
  rcases outcome with ⟨_ | text, j⟩ | ⟨fault, j⟩
  · cases hmodule
  · simp only [Bool.and_eq_true, decide_eq_true_eq, Option.any_eq_true, Bool.not_eq_true',
      decide_eq_false_iff_not] at hmodule
    obtain ⟨⟨herrors, hwarnings⟩, ss, hread, hdefaults, hnames⟩ := hmodule
    exact ⟨text, j, ss, rfl, herrors, hwarnings, hread, hdefaults, hnames⟩
  · cases hmodule

end Statechart
