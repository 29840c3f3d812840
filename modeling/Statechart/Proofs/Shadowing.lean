import Statechart.Proofs.Compilation
import Statechart.Proofs.Language.Freshness
import Statechart.Proofs.Output.Literals
import Statechart.Proofs.Output.Statements

/-!
# Charts that compile without a warning

A module is plain text around literals: the configuration of each top-level machine, and its
options.

* `distinctKeys_pieceOptions` — the options have no key twice if no name is bound twice.
* `distinctKeys_literals` — the configurations have none if the transitions below each node wait for
  different things.

**`compile_distinctKeys_iff`** — if a chart compiles without a warning, no object in its module has
a key twice exactly if no two transitions of a node wait for the same event or the same delay, and
no state has two invocations.  These are not warned of: **`compile_twiceAwaited`**.
-/

namespace Statechart

namespace Output

open Script

/-! ## Literals -/

/-- The entries of some bindings of one kind have different names if these have. -/
lemma distinctKeys_entries {kind : BindingKind} {entryOf : Binding → Option (String × Value)}
    (hentry : ∀ b p, entryOf b = some p →
      b.kind = kind ∧ p.1 = b.name ∧ p.2.distinctKeys = true)
    {piece : List Binding} (h : ((piece.filter (·.kind = kind)).map Binding.name).Nodup) :
    (Value.object (piece.filterMap entryOf)).distinctKeys = true := by
  have hkeys : ((piece.filterMap entryOf).map Prod.fst).Sublist
      ((piece.filter (·.kind = kind)).map Binding.name) := by
    clear h
    induction piece with
    | nil => exact .slnil
    | cons b piece ih =>
        cases hb : entryOf b with
        | none =>
            rw [List.filterMap_cons_none hb]
            exact ih.trans (((List.sublist_cons_self b piece).filter _).map _)
        | some p =>
            obtain ⟨hkind, hname, -⟩ := hentry b p hb
            rw [List.filterMap_cons_some hb, List.filter_cons_of_pos (by simpa using hkind),
              List.map_cons, List.map_cons, hname]
            exact ih.cons_cons _
  refine Value.distinctKeys_object.mpr ⟨h.sublist hkeys, fun p hp => ?_⟩
  obtain ⟨b, -, hb⟩ := List.mem_filterMap.mp hp
  exact (hentry b p hb).2.2

/-- The options of a piece have no key twice if no name is bound twice. -/
lemma distinctKeys_pieceOptions {piece : List Binding}
    (h : ∀ kind, ((piece.filter (·.kind = kind)).map Binding.name).Nodup) :
    (pieceOptions piece).distinctKeys = true := by
  have hguards : (Value.object (piece.filterMap guardEntryOf)).distinctKeys = true := by
    refine distinctKeys_entries (fun b p hb => ?_) (h .guard)
    rcases b with ⟨_ | _, name, _ | _ | _ | _ | _⟩ <;> cases hb
    exact ⟨rfl, rfl, Value.distinctKeys_token _⟩
  have hactions : (Value.object (piece.filterMap actionEntryOf)).distinctKeys = true := by
    refine distinctKeys_entries (fun b p hb => ?_) (h .action)
    rcases b with ⟨_ | _, name, _ | _ | _ | _ | _⟩ <;> cases hb
    · exact ⟨rfl, rfl, Value.distinctKeys_token _⟩
    · exact ⟨rfl, rfl, distinctKeys_updateOf _⟩
  rw [pieceOptions, Value.distinctKeys_object]
  cases piece.any (·.kind = .guard) <;> cases piece.any (·.kind = .action) <;>
    simp [hguards, hactions]

section rows

variable {locate : NodeId → Option Location}

/-- The configuration of a machine of a chart of which nothing was warned. -/
lemma distinctKeys_configuration {t : Tree} {m : Machine} (ht : t.payload = .machine m)
    (h : ∀ u ∈ t.within, Settled locate u)
    (hshape : Tree.allShaped (some .machine) t.children = true) :
    (configuration m t.children).distinctKeys = true ↔
      t.singular = true ∧ ∀ u ∈ Tree.allWithin t.children, u.singular = true := by
  obtain ⟨hself, hinside⟩ := Tree.forall_within.mp h
  have hkeys : ((machineProperties m (stateProperties t.children)).map Prod.fst).Nodup :=
    .sublist (machineKeys_sublist m _) (by decide)
  have hproperties : otherProperties t = machineProperties m (stateProperties t.children) := by
    rw [otherProperties, ht]
  rw [← distinctKeys_machineNode ht hself hshape ((distinctKeys_rows _ hinside).1 hshape),
    configuration, Value.distinctKeys_object, hproperties, and_iff_right hkeys]

/-- **The literals of top-level trees**, if nothing was warned of and the options have no key
twice. -/
lemma distinctKeys_literals (ts : List Tree) : ∀ pieces : List (List Binding),
    (∀ piece ∈ pieces, (pieceOptions piece).distinctKeys = true) →
    Tree.allShaped none ts = true → (∀ u ∈ Tree.allWithin ts, Settled locate u) →
    ((∀ v ∈ literals (rootParts pieces ts), v.distinctKeys = true) ↔
      ∀ u ∈ Tree.allWithin ts, u.singular = true) := by
  induction ts with
  | nil => simp [rootParts]
  | cons t ts ih =>
      intro pieces hpieces hshape hsettled
      obtain ⟨hold, -, hchildren, hshape⟩ := Tree.allShaped_cons.mp hshape
      obtain ⟨ht, hrest⟩ := Tree.forall_allWithin_cons.mp hsettled
      rw [Tree.forall_allWithin_cons, rootParts]
      cases hp : t.payload with
      | importModule path =>
          rw [hp] at hchildren
          have hkind : ∀ u ∈ t.children, u.payload.kind = .specifier := fun u hu => by
            simpa [Tree.mayHold, Node.kind] using (Tree.allShaped_of_mem hchildren hu).1
          have hself : t.singular = true := singular_of_none fun u hu => by simp [hkind u hu]
          have hinside := singular_leaves (by decide) hchildren hkind
          rw [literals_plain, ih pieces hpieces hshape hrest, and_iff_right ⟨hself, hinside⟩]
      | binding b =>
          have hleaf := singular_leaf (eq_nil_of_allShaped (by simp [hp, Node.kind]) hchildren)
          rw [ih pieces hpieces hshape hrest, and_iff_right hleaf]
      | machine m =>
          rw [hp] at hchildren
          have hoptions : ∀ v ∈ literals (optionsParts (pieces.headD [])),
              v.distinctKeys = true := by
            cases pieces with
            | nil => simp [optionsParts]
            | cons piece pieces =>
                have hpiece := hpieces piece List.mem_cons_self
                rw [List.headD_cons, optionsParts]
                cases piece.isEmpty <;> simp [hpiece]
          have htail : ∀ piece ∈ pieces.tail, (pieceOptions piece).distinctKeys = true :=
            fun piece hpiece => hpieces piece (List.mem_of_mem_tail hpiece)
          have hconfiguration :=
            distinctKeys_configuration hp (Tree.forall_within.mpr ht) hchildren
          rw [literals_append, List.forall_mem_append, ih pieces.tail htail hshape hrest,
            ← hconfiguration]
          refine and_congr_left' ?_
          simp only [machineParts, List.cons_append, literals_plain, literals_literal,
            literals_append, literals_nil, List.append_nil, List.forall_mem_cons]
          exact and_iff_left hoptions
      | _ => simp [hp, Tree.mayHold, Node.kind] at hold

end rows

/-! ## Remarks -/

/-- If all that is said are log entries, this is so below each node. -/
lemma rowQuiet_of_isLog {locate : NodeId → Option Location} {roots : List Tree}
    (h : ∀ r ∈ allRemarks locate roots, r.isLog = true) :
    ∀ t ∈ Tree.allWithin roots, RowQuiet locate t.payload t.children := by
  intro t ht before u after hchildren r hr
  rw [allRemarks_eq] at h
  exact h r (List.mem_append_left _ (enterRemarks_subset roots none [] t ht hchildren hr))

end Output

section charts

open Statechart.Language Output

/-- **What a compilation without a warning leaves unsaid.**  The module is written from literals.
The options have no key twice.  No object in any literal, at any depth, has one exactly if below
each node the transitions wait for different events and for different delays, and there is one
invocation at most. -/
theorem compile_distinctKeys_iff {source : SourceFile} {library : Library} {coloured : Bool}
    {text : String} {j : Journal}
    (h : compile source library { coloured } = .ok (some text) j) (hquiet : j.warnings = 0) :
    ∃ items, Language.parse source.content = .ok items ∧
      text = partsText (moduleParts (items.any Item.updates) library (itemTrees items)) ∧
      (∀ piece ∈ pieces StateDecl.gathered items, (pieceOptions piece).distinctKeys = true) ∧
      ((∀ v ∈ literals (moduleParts (items.any Item.updates) library (itemTrees items)),
          v.distinctKeys = true) ↔
        ∀ t ∈ Tree.allWithin (itemTrees items), t.singular = true) := by
  obtain ⟨program, j₂, hparsed, hgenerated⟩ := compile_eq_ok h
  obtain ⟨remarks, j₁, hread, hreading, hwarnings, hreported⟩ := parse_eq_ok hparsed
  obtain ⟨emitted, hemit, hemitting⟩ := generate_eq_ok hgenerated
  obtain ⟨items, hparse, hvalid, rep, -, huses⟩ := read_eq_ok hread
  have shape := allShaped_itemTrees items
  -- no warning is counted in the end, so each remark on the way is an entry for the log
  have hle := Reporting.warnings_le_noteAll hemitting
  rw [read_remarks hread hparse] at hreading
  obtain ⟨hlogged, hnone⟩ :=
    Reporting.isLog_of_noteAll (isMild_account _ items) rfl hreading (by omega)
  rw [generate_eq rep shape library, huses, Prod.mk.injEq] at hemit
  obtain ⟨htext, rfl⟩ := hemit
  obtain ⟨hsilent, -⟩ := Reporting.isLog_of_noteAll (isMild_allRemarks _ (itemTrees items))
    (hreported.trans hnone) hemitting hquiet
  have hsettled : ∀ t ∈ Tree.allWithin (itemTrees items), Settled program.forest.location t :=
    fun t ht => ⟨rowQuiet_of_isLog hsilent t ht, orderly_itemTrees hvalid t ht⟩
  have hoptions : ∀ piece ∈ pieces StateDecl.gathered items,
      (pieceOptions piece).distinctKeys = true := fun piece hpiece =>
    distinctKeys_pieceOptions (nodup_pieces hlogged hpiece)
  have hheader : ∀ v ∈ literals (if (itemTrees items).isEmpty then []
      else [.plain (headerText (items.any Item.updates) library)]), v.distinctKeys = true := by
    cases (itemTrees items).isEmpty <;> simp
  refine ⟨items, hparse, ?_, hoptions, ?_⟩
  · rw [← Except.ok.inj htext, moduleText_eq_partsText _ _ shape]
  · rw [moduleParts, literals_append, List.forall_mem_append, and_iff_right hheader,
      piecesFrom_itemTrees]
    exact distinctKeys_literals _ _ hoptions shape hsettled

/-- A chart with transitions of all kinds, no two of them for the same event or delay. -/
def onceAwaited : String :=
  "guard g=f machine m\x7bstate a\x7bgo=>b stop=>a delay(1)=>b invoke s\x7bdone=>b\x7d " ++
    "state c\x7bgo=>c\x7d\x7d state b\x7b\x7d\x7d"

lemma onceAwaited_quiet : (match compile ⟨"m.lucy", onceAwaited⟩ .package {} with
    | .ok (some _) j => j.warnings = 0
    | _ => false) = true := by
  decide +kernel

lemma onceAwaited_singular : (match Language.parse onceAwaited with
    | .ok items => (Tree.allWithin (itemTrees items)).all Tree.singular
    | .error _ => false) = true := by
  decide +kernel

/-- The literals of such a chart have no key twice. -/
theorem compile_onceAwaited : ∃ text j items,
    compile ⟨"m.lucy", onceAwaited⟩ .package {} = .ok (some text) j ∧ j.warnings = 0 ∧
      Language.parse onceAwaited = .ok items ∧
      text = partsText (moduleParts (items.any Item.updates) .package (itemTrees items)) ∧
      ∀ v ∈ literals (moduleParts (items.any Item.updates) .package (itemTrees items)),
        v.distinctKeys = true := by
  have hquiet := onceAwaited_quiet
  have hsingular := onceAwaited_singular
  generalize hcompile : compile ⟨"m.lucy", onceAwaited⟩ .package {} = outcome at hquiet
  rcases outcome with ⟨_ | text, j⟩ | ⟨fault, j⟩
  · cases hquiet
  · obtain ⟨items, hparse, htext, -, hiff⟩ :=
      compile_distinctKeys_iff hcompile (by simpa using hquiet)
    change Language.parse onceAwaited = .ok items at hparse
    rw [hparse] at hsingular
    exact ⟨text, j, items, rfl, by simpa using hquiet, hparse, htext,
      hiff.mpr (List.all_eq_true.mp hsingular)⟩
  · cases hquiet

/-- A chart with two transitions for one event. -/
def twiceAwaited : String :=
  "machine m\x7bstate a\x7bgo=>a go=>b\x7d state b\x7b\x7d\x7d"

/-- The module of this chart, where the key of the event stands twice. -/
def twiceAwaitedModule : String :=
  "import \x7b Machine \x7d from 'xstate';\n\nexport const m = Machine(\x7b\n  states: \x7b\n" ++
    "    a: \x7b\n      on: \x7b\n        go: 'a',\n        go: 'b'\n      \x7d\n    \x7d,\n" ++
    "    b: \x7b\n\n    \x7d\n  \x7d\n\x7d);"

lemma twiceAwaited_module : (match compile ⟨"m.lucy", twiceAwaited⟩ .package {} with
    | .ok (some text) j => j.warnings = 0 && text = twiceAwaitedModule
    | _ => false) = true := by
  decide +kernel

/-- The module of the example has an object with a key twice. -/
lemma twiceAwaited_literals : (match Language.parse twiceAwaited with
    | .ok items =>
      let parts := moduleParts (items.any Item.updates) .package (itemTrees items)
      twiceAwaitedModule = partsText parts && !(literals parts).all (·.distinctKeys)
    | .error _ => false) = true := by
  decide +kernel

/-- **Two transitions for one event** have the same key.  This is not warned of, and the first of
them is lost. -/
theorem compile_twiceAwaited : ∃ j items,
    compile ⟨"m.lucy", twiceAwaited⟩ .package {} = .ok (some twiceAwaitedModule) j ∧
      j.warnings = 0 ∧ Language.parse twiceAwaited = .ok items ∧
      twiceAwaitedModule =
        partsText (moduleParts (items.any Item.updates) .package (itemTrees items)) ∧
      ¬ ∀ v ∈ literals (moduleParts (items.any Item.updates) .package (itemTrees items)),
        v.distinctKeys = true := by
  have hmodule := twiceAwaited_module
  have hliterals := twiceAwaited_literals
  generalize compile ⟨"m.lucy", twiceAwaited⟩ .package {} = outcome at hmodule
  generalize Language.parse twiceAwaited = declared at hliterals
  rcases outcome with ⟨_ | text, j⟩ | ⟨fault, j⟩
  · cases hmodule
  · rcases declared with attempts | items
    · cases hliterals
    · simp only [Bool.and_eq_true, decide_eq_true_eq] at hmodule hliterals
      obtain ⟨hquiet, rfl⟩ := hmodule
      obtain ⟨htext, hrepeated⟩ := hliterals
      refine ⟨j, items, rfl, hquiet, rfl, htext, fun hdistinct => ?_⟩
      rw [List.all_eq_true.mpr hdistinct] at hrepeated
      cases hrepeated
  · cases hmodule

end charts

end Statechart
