import Statechart.Proofs.Accounting
import Statechart.Proofs.Language.Cautions
import Statechart.Proofs.Output.Entries
import Statechart.Proofs.Rejecting

/-!
# Repeated declarations

The bindings of a chart end up in maps of guards and of actions, one of each for a machine of the
top level.  Nothing keeps a map from having a key twice, and then one of the two entries has no
effect.  Whenever this happens, two declarations had the same kind and name, and so the later one
was warned of while the chart was read, although it may well come first in the map.

* `mapKey`, `entryOf` — the map for bindings of a kind, and the entry of a binding.
* `follows_pieceOptions` — a map in the options has just the entries of the bindings.
* `exists_declared` — two bindings that one machine takes are two declarations.

**`parse_warns_exactly`** — what is warned of while a chart is read, and what this says about the
maps of its module.
-/

namespace Statechart

namespace Output

open Script

/-! ## Maps -/

/-- The key of the map for bindings of a kind. -/
def mapKey : BindingKind → String
  | .guard => "guards"
  | .action => "actions"

/-- The entry of a binding in the map for bindings of a kind. -/
def entryOf : BindingKind → Binding → Option (String × Value)
  | .guard => guardEntryOf
  | .action => actionEntryOf

/-- An entry is that of a binding of the kind, under its name. -/
lemma entryOf_eq_some {kind : BindingKind} {b : Binding} {p : String × Value}
    (h : entryOf kind b = some p) : b.kind = kind ∧ b.name = p.1 ∧ p.2.flat = p.2 := by
  cases kind with
  | guard =>
      rcases b with ⟨_ | _, name, _ | _ | _ | _ | _⟩ <;> cases h
      exact ⟨rfl, rfl, by simp [Value.flat]⟩
  | action =>
      rcases b with ⟨_ | _, name, _ | _ | _ | _ | _⟩ <;> cases h
      · exact ⟨rfl, rfl, by simp [Value.flat]⟩
      · exact ⟨rfl, rfl, by simp [updateOf, Value.flat, Value.flatProperties]⟩

/-- Properties whose values have all arrays on one line stay as they are. -/
lemma flatProperties_of_flat {ps : List (String × Value)} (h : ∀ p ∈ ps, p.2.flat = p.2) :
    Value.flatProperties ps = ps := by
  induction ps with
  | nil => rw [Value.flatProperties]
  | cons p ps ih =>
      obtain ⟨hp, hps⟩ := List.forall_mem_cons.mp h
      rw [Value.flatProperties, hp, ih hps]

/-- There is no array in the options. -/
lemma flat_pieceOptions (piece : List Binding) :
    (pieceOptions piece).flat = pieceOptions piece := by
  have hmap : ∀ kind, (Value.object (piece.filterMap (entryOf kind))).flat =
      .object (piece.filterMap (entryOf kind)) := fun kind => by
    rw [Value.flat, flatProperties_of_flat]
    intro p hp
    obtain ⟨b, -, hb⟩ := List.mem_filterMap.mp hp
    exact (entryOf_eq_some hb).2.2
  have hguards := hmap .guard
  have hactions := hmap .action
  rw [pieceOptions, Value.flat, flatProperties_of_flat]
  intro p hp
  rcases List.mem_append.mp hp with hp | hp <;> split at hp
  · rw [List.mem_singleton.mp hp]
    exact hguards
  · cases hp
  · rw [List.mem_singleton.mp hp]
    exact hactions
  · cases hp

/-- **A map in the options** has the entries of the bindings of its kind. -/
lemma follows_pieceOptions {piece : List Binding} {kind : BindingKind} {v : Value}
    (h : (pieceOptions piece).Follows [mapKey kind] v) :
    v = .object (piece.filterMap (entryOf kind)) := by
  cases h with
  | property hmem hself =>
      cases hself
      cases kind <;> simp [mapKey] at hmem <;> exact hmem.2

/-- The keys of a map are different if it has no two entries under one key. -/
lemma nodup_keys {ps : List (String × Value)}
    (h : ∀ key v w, ¬ [(key, v), (key, w)].Sublist ps) : (ps.map Prod.fst).Nodup := by
  rw [List.nodup_iff_sublist]
  intro key hkey
  obtain ⟨qs, hqs, hkeys⟩ := List.sublist_map_iff.mp hkey
  have hlength := congrArg List.length hkeys
  obtain ⟨⟨key', v⟩, ⟨key'', w⟩, rfl⟩ := List.length_eq_two.mp (by simpa using hlength.symm)
  simp only [List.map_cons, List.map_nil, List.cons.injEq, and_true] at hkeys
  obtain ⟨rfl, rfl⟩ := hkeys
  exact h key v w hqs

/-- The options of a statement of a module are those of a piece. -/
lemma options_of_mem_statements {usesAssign : Bool} {library : Library} {roots : List Tree}
    {name : Option String} {config options : Value}
    (h : .exportMachine name config (some options) ∈
      (statements usesAssign library roots).map Statement.flat) :
    ∃ piece, piece.Sublist (piecesFrom [] roots).flatten ∧ options = pieceOptions piece := by
  obtain ⟨s, hs, hflat⟩ := List.mem_map.mp h
  rcases List.mem_append.mp hs with hs | hs
  · split at hs
    · cases hs
    · rw [List.mem_singleton.mp hs] at hflat
      cases hflat
  · rcases mem_rootStatements hs with ⟨t, -, path, -, -, rfl⟩ | ⟨t, -, m, piece, -, hpiece, rfl⟩
    · cases hflat
    · obtain ⟨-, -, hoptions⟩ := Statement.exportMachine.inj hflat
      split at hoptions
      · cases hoptions
      · rw [Option.map_some, flat_pieceOptions] at hoptions
        exact ⟨piece, hpiece, (Option.some.inj hoptions).symm⟩

end Output

namespace Language

open Output

/-! ## Declarations -/

/-- **Two bindings that one machine takes** are two declarations, in one order or the other. -/
lemma exists_declared {items : List Item} {piece : List Binding} {b c : Binding}
    (hpiece : piece.Sublist (pieces StateDecl.gathered items).flatten)
    (h : [b, c].Sublist piece) : ∃ d d', [d, d'].Sublist (items.flatMap Item.declared) ∧
      [d.binding, d'.binding].Perm [b, c] := by
  have hperm := flatten_pieces_perm items
  rw [← map_flatMap_declared] at hperm
  -- the order of the two is lost on the way from the piece to the text, but they stay two
  obtain ⟨bs, hbs, hsublist⟩ := (h.trans hpiece).subperm.trans hperm.subperm
  obtain ⟨ds, hds, rfl⟩ := List.sublist_map_iff.mp hsublist
  obtain ⟨d, d', rfl⟩ := List.length_eq_two.mp (by simpa using hbs.length_eq)
  exact ⟨d, d', hds, hbs⟩

/-- Two results in order come from two members in order. -/
lemma exists_pair_of_filterMap {α β : Type} {f : α → Option β} {as : List α} {p q : β}
    (h : [p, q].Sublist (as.filterMap f)) :
    ∃ a b, [a, b].Sublist as ∧ f a = some p ∧ f b = some q := by
  obtain ⟨before, after, hsplit, hp, hq⟩ := List.cons_sublist_iff.mp h
  obtain ⟨as, bs, rfl, rfl, rfl⟩ := List.filterMap_eq_append_iff.mp hsplit
  obtain ⟨a, ha, hfa⟩ := List.mem_filterMap.mp hp
  obtain ⟨b, hb, hfb⟩ := List.mem_filterMap.mp (List.singleton_sublist.mp hq)
  exact ⟨a, b, (List.singleton_sublist.mpr ha).append (List.singleton_sublist.mpr hb), hfa, hfb⟩

/-- **Two entries under one key** are those of two declarations of one kind and name, the later of
which is repeated. -/
lemma exists_repeated {items : List Item} {piece : List Binding} {kind : BindingKind} {key : String}
    {v w : Script.Value} (hpiece : piece.Sublist (pieces StateDecl.gathered items).flatten)
    (h : [(key, v), (key, w)].Sublist (piece.filterMap (entryOf kind))) :
    ∃ d d', [d, d'].Sublist (items.flatMap Item.declared) ∧
      (∀ e ∈ [d, d'], e.kind = kind ∧ e.name = key) ∧
      [entryOf kind d.binding, entryOf kind d'.binding].Perm [some (key, v), some (key, w)] ∧
      d' ∈ repeated (items.flatMap Item.declared) := by
  obtain ⟨b, c, hbc, hb, hc⟩ := exists_pair_of_filterMap h
  obtain ⟨d, d', hds, hperm⟩ := exists_declared hpiece hbc
  have hentries := hperm.map (entryOf kind)
  simp only [List.map_cons, List.map_nil, hb, hc] at hentries
  have hsame : ∀ b' ∈ [b, c], b'.kind = kind ∧ b'.name = key := by
    obtain ⟨hkind, hname, -⟩ := entryOf_eq_some hb
    obtain ⟨hkind', hname', -⟩ := entryOf_eq_some hc
    simp [hkind, hname, hkind', hname']
  have hboth : ∀ e ∈ [d, d'], e.kind = kind ∧ e.name = key := fun e he =>
    hsame e.binding (hperm.mem_iff.mp
      (List.mem_map_of_mem he : e.binding ∈ [d, d'].map BindingDecl.binding))
  refine ⟨d, d', hds, hboth, hentries, mem_repeated hds ?_⟩
  obtain ⟨hkind, hname⟩ := hboth d (by simp)
  obtain ⟨hkind', hname'⟩ := hboth d' (by simp)
  simp [BindingDecl.clashes, hkind, hname, hkind', hname']

end Language

/-! ## Charts that are read -/

open Statechart.Language Output Script

section reading

variable {source : SourceFile} {program : Program} {items : List Item}

/-- What is reported while a chart is read, and nothing that is said is an error. -/
lemma reports_readingRemarks {file : Nat} (h : readingResult source file = .ok program)
    (hitems : Language.parse source.content = .ok items) :
    (reports (readingRemarks source file)).Perm (cautions file items) ∧
      ∀ r ∈ readingRemarks source file, r.isMild = true := by
  have hresult := readingResult_eq_ok.mp h
  have hmild := isMild_read file source.content
  unfold readingRemarks
  generalize hread : read file source.content = outcome at hresult hmild ⊢
  obtain ⟨result, remarks⟩ := outcome
  obtain rfl : result = .ok program := hresult
  rw [reports_append, reports_log, reports_nil, List.append_nil, List.forall_mem_append]
  refine ⟨?_, hmild, List.forall_mem_singleton.mpr rfl⟩
  rw [read_remarks hread hitems]
  exact reports_account file items

end reading

/-- **Reading warns exactly of what is repeated.**  A chart was read.  Then no error is added, and
the warnings that are added are the following, each once.  There is one at the head of each binding
with an earlier one of the same kind and name, anywhere in the text and at any depth.  There is one
at the head of each state that is marked as initial after another state of its machine was, with
the name of the first one.

The module of the chart can be read.  If a map of guards or of actions in it has a key twice, these
are the entries of two declarations, and the later one of them was warned of.  If no binding of the
kind was warned of, the keys of the map are different. -/
theorem parse_warns_exactly {source : SourceFile} {j j₁ : Journal} {program : Program}
    (h : parse source j = .ok (.ok program) j₁) :
    ∃ items said, Language.parse source.content = .ok items ∧ Heard j j₁ said j₁.shown ∧
      (reports said).Perm (cautions j.files.size items) ∧ j₁.errors = j.errors ∧
      j₁.warnings = j.warnings + (cautions j.files.size items).length ∧
      ∀ library, ∃ text emitted ss, Output.generate program library = (.ok text, emitted) ∧
        readModule text = some ss ∧
        ∀ name config options kind entries, .exportMachine name config (some options) ∈ ss →
          options.Follows [mapKey kind] (.object entries) →
          (∀ key v w, [(key, v), (key, w)].Sublist entries →
            ∃ d d', [d, d'].Sublist (items.flatMap Item.declared) ∧
              (∀ e ∈ [d, d'], e.kind = kind ∧ e.name = key) ∧
              [entryOf kind d.binding, entryOf kind d'.binding].Perm
                [some (key, v), some (key, w)] ∧
              redeclaration j.files.size d' ∈ said) ∧
          ((∀ d ∈ items.flatMap Item.declared, d.kind = kind →
              redeclaration j.files.size d ∉ said) →
            (entries.map Prod.fst).Nodup) := by
  obtain ⟨hresult, hheard⟩ := heard_of_parse h
  obtain ⟨items, hitems, -⟩ := generate_of_readingResult hresult.symm .package
  obtain ⟨hperm, hmild⟩ := reports_readingRemarks hresult.symm hitems
  refine ⟨items, _, hitems, hheard, hperm, errors_of_parse h, ?_, fun library => ?_⟩
  · rw [hheard.warnings, (countP_warning hmild).2, hperm.length_eq]
  · obtain ⟨items', hitems', -, -, -, hgenerate⟩ := generate_of_readingResult hresult.symm library
    obtain rfl : items = items' := Except.ok.inj (hitems.symm.trans hitems')
    refine ⟨_, _, _, hgenerate, readModule_moduleText hitems _ library, ?_⟩
    intro name config options kind entries hs hfollows
    obtain ⟨piece, hpiece, rfl⟩ := options_of_mem_statements hs
    obtain rfl := Value.object.inj (follows_pieceOptions hfollows)
    rw [piecesFrom_itemTrees] at hpiece
    refine ⟨fun key v w htwice => ?_, fun hnone => ?_⟩
    · obtain ⟨d, d', hds, hboth, hentries, hrepeated⟩ := exists_repeated hpiece htwice
      exact ⟨d, d', hds, hboth, hentries, mem_of_repeated hperm hrepeated⟩
    · refine nodup_keys fun key v w htwice => ?_
      obtain ⟨d, d', hds, hboth, -, hrepeated⟩ := exists_repeated hpiece htwice
      have hmem : d' ∈ [d, d'] := by simp
      exact hnone d' (hds.subset hmem) (hboth d' hmem).1 (mem_of_repeated hperm hrepeated)

/-- Bindings and initial states that are repeated, inside states and in another machine. -/
def repeatingChart : String :=
  "machine m\x7binitial state a\x7binitial state b\x7bguard g=x\x7d guard h=p " ++
    "initial state c\x7bguard h=q guard g=y\x7d\x7d initial state d\x7baction g=w\x7d\x7d " ++
    "machine n\x7bguard g=z\x7d"

/-- The warnings of this chart.  There is none about the action. -/
def repeatingCautions : List Remark :=
  [.span ⟨⟨79, 86⟩, 0⟩ .warning "`h` is declared more than once, the last declaration wins",
    .span ⟨⟨89, 96⟩, 0⟩ .warning "`g` is declared more than once, the last declaration wins",
    .span ⟨⟨140, 147⟩, 0⟩ .warning "`g` is declared more than once, the last declaration wins",
    .span ⟨⟨101, 116⟩, 0⟩ .warning "`a` is already the initial state, `d` is ignored",
    .span ⟨⟨63, 78⟩, 0⟩ .warning "`b` is already the initial state, `c` is ignored"]

/-- What the first machine takes.  The earlier one of the two bindings of `h` comes later here. -/
def repeatingPiece : List Binding :=
  [⟨.guard, "g", .identifier "x"⟩, ⟨.guard, "h", .identifier "q"⟩, ⟨.guard, "g", .identifier "y"⟩,
    ⟨.guard, "h", .identifier "p"⟩, ⟨.action, "g", .identifier "w"⟩]

/-- The warnings of the example, and what its first machine takes. -/
lemma repeatingChart_expected : (match Language.parse repeatingChart with
    | .ok items => items.all Item.valid && items.head?.any Item.isMachine &&
      decide (cautions 0 items = repeatingCautions) &&
      decide ((pieces StateDecl.gathered items).head? = some repeatingPiece)
    | .error _ => false) = true := by
  decide +kernel

/-- The options of a machine that comes first in its chart. -/
lemma mem_statements_first {d : MachineDecl} {rest : List Item} {piece : List Binding}
    (hpiece : (pieces StateDecl.gathered (.machine d :: rest)).head? = some piece)
    (hne : piece.isEmpty = false) (usesAssign : Bool) (library : Library) :
    ∃ config, .exportMachine d.name config (some (pieceOptions piece)) ∈
      (statements usesAssign library (itemTrees (.machine d :: rest))).map Statement.flat := by
  obtain ⟨more, hmore⟩ := List.head?_eq_some_iff.mp hpiece
  have hoptions : ((if piece.isEmpty then none else some (pieceOptions piece)).map Value.flat) =
      some (pieceOptions piece) := by
    rw [hne, if_neg (by simp), Option.map_some, flat_pieceOptions]
  rw [← hoptions, statements, piecesFrom_itemTrees, hmore]
  exact ⟨_, List.mem_map_of_mem (List.mem_append_right _ List.mem_cons_self)⟩

/-- There are five warnings, and two entries for `h` in one map. -/
theorem parse_repeatingChart : ∃ program j₁ said text emitted ss name config options entries,
    parse ⟨"repeating.chart", repeatingChart⟩ {} = .ok (.ok program) j₁ ∧
      Heard {} j₁ said j₁.shown ∧ (reports said).Perm repeatingCautions ∧
      j₁.errors = 0 ∧ j₁.warnings = 5 ∧
      Output.generate program .package = (.ok text, emitted) ∧ readModule text = some ss ∧
      .exportMachine name config (some options) ∈ ss ∧
      options.Follows ["guards"] (.object entries) ∧
      [("h", .token "q"), ("h", .token "p")].Sublist entries ∧
      ∃ d : BindingDecl, d.name = "h" ∧ redeclaration 0 d ∈ said := by
  have hexpected := repeatingChart_expected
  have hsize : byteLength repeatingChart.toList + 1 < Report.offsetCount := by decide +kernel
  generalize hitems : Language.parse repeatingChart = outcome at hexpected
  cases outcome with
  | error attempts => cases hexpected
  | ok items =>
      simp only [Bool.and_eq_true, decide_eq_true_eq] at hexpected
      obtain ⟨⟨⟨hvalid, hmachine⟩, hcautions⟩, hpiece⟩ := hexpected
      generalize repeatingChart = text at hitems hsize ⊢
      obtain ⟨program, j₁, -, hparse, -⟩ :=
        compile_of_parse ⟨"repeating.chart", text⟩ hitems hvalid hsize .package {}
      obtain ⟨items', said, hitems', hheard, hperm, herrors, hwarnings, hmodule⟩ :=
        parse_warns_exactly hparse
      obtain rfl : items = items' := Except.ok.inj (hitems.symm.trans hitems')
      change (reports said).Perm (cautions 0 items) at hperm
      change j₁.warnings = 0 + (cautions 0 items).length at hwarnings
      rw [hcautions] at hperm hwarnings
      obtain ⟨text', emitted, ss, hgenerate, hread, hmaps⟩ := hmodule .package
      obtain ⟨items', hitems', -, -, -, hgenerated⟩ :=
        generate_of_readingResult (heard_of_parse hparse).1.symm .package
      obtain rfl : items = items' := Except.ok.inj (hitems.symm.trans hitems')
      rw [hgenerated] at hgenerate
      cases hgenerate
      obtain rfl := Option.some.inj ((readModule_moduleText hitems _ .package).symm.trans hread)
      have hfollows : (pieceOptions repeatingPiece).Follows [mapKey .guard]
          (.object (repeatingPiece.filterMap guardEntryOf)) :=
        .property List.mem_cons_self (.self _)
      have htwice : [("h", .token "q"), ("h", .token "p")].Sublist
          (repeatingPiece.filterMap guardEntryOf) :=
        .cons _ (.cons_cons _ (.cons _ (.refl _)))
      rcases items with _ | ⟨_ | _ | d, rest⟩
      · cases hmachine
      · cases hmachine
      · cases hmachine
      · obtain ⟨config, hmem⟩ := mem_statements_first hpiece rfl
          ((Item.machine d :: rest).any Item.updates) .package
        obtain ⟨hwarned, -⟩ := hmaps _ _ _ .guard _ hmem hfollows
        obtain ⟨d', e, -, hnames, -, he⟩ := hwarned _ _ _ htwice
        exact ⟨program, j₁, said, _, _, _, _, config, _, _, hparse, hheard, hperm, herrors,
          hwarnings, hgenerated, hread, hmem, hfollows, htwice, e, (hnames e (by simp)).2, he⟩

end Statechart
