import Statechart.Proofs.Language.Names
import Statechart.Proofs.Output.Code
import Statechart.Proofs.Output.Reading

/-!
# The module of a chart can be read

All code in the module of a chart that was read is names, names with dots between them, and calls of
one function.  So a reader of modules finds in the text of the module the statements that it was
written from.

* `Value.Plain` — a token or a call is such as can be read.

**`readModule_moduleText`** — the module of every chart that can be read.
-/

namespace Statechart

namespace Script.Value

/-- The token, or the name of the function that is called, is such as can be read. -/
def Plain : Value → Prop
  | token text => Dotted text ∨ text = Output.eventData
  | call callee _ => Dotted callee
  | _ => True

mutual

/-- A value can be read if the code in it can. -/
lemma proper_of_code : ∀ v : Value, (∀ u ∈ v.code, u.Plain) → v.Proper
  | token text, h => by
      rw [Proper]
      exact h (token text) (by simp)
  | string text, _ => by
      rw [Proper]
      trivial
  | object ps, h => by
      rw [Proper]
      exact allProperties_of_code ps (by simpa [code] using h)
  | array lines es, h => by
      rw [Proper]
      exact allProper_of_code es (by simpa [code] using h)
  | call callee argument, h => by
      rw [code_call] at h
      obtain ⟨hcallee, hargument⟩ := List.forall_mem_cons.mp h
      rw [Proper]
      exact ⟨hcallee, proper_of_code argument hargument⟩

/-- Properties can be read if all code in them can. -/
lemma allProperties_of_code : ∀ ps : List (String × Value),
    (∀ u ∈ propertiesCode ps, u.Plain) → AllProperties ps
  | [], _ => by
      rw [AllProperties]
      trivial
  | (key, v) :: ps, h => by
      rw [propertiesCode, List.forall_mem_append] at h
      rw [AllProperties]
      exact ⟨proper_of_code v h.1, allProperties_of_code ps h.2⟩

/-- Elements can be read if all code in them can. -/
lemma allProper_of_code : ∀ es : List Value, (∀ u ∈ elementsCode es, u.Plain) → AllProper es
  | [], _ => by
      rw [AllProper]
      trivial
  | v :: es, h => by
      rw [elementsCode, List.forall_mem_append] at h
      rw [AllProper]
      exact ⟨proper_of_code v h.1, allProper_of_code es h.2⟩

end

end Script.Value

namespace Output

open Script

lemma dotted_assign : Dotted "assign" := .name (by decide)

lemma plain_token {name : String} (h : isIdentifier name.toList = true) :
    ∀ u ∈ (Value.token name).code, u.Plain := by
  rw [Value.code_token]
  exact List.forall_mem_singleton.mpr (.inl (.name h))

/-- An update calls a function by its name, and its value is a name or the data of the event. -/
lemma plain_updateOf {a : Assignment} (h : (Expr.assign a).Named) :
    ∀ u ∈ (updateOf a).code, u.Plain := by
  have hvalue : (Value.token (a.value.getD "(context, event) => event.data")).Plain := by
    cases ha : a.value with
    | none => exact .inr rfl
    | some name => exact .inl (.name (h name ha))
  rw [updateOf, Value.code_call]
  refine List.forall_mem_cons.mpr ⟨dotted_assign, ?_⟩
  simpa using hvalue

/-- A guard is a name, or a quoted one. -/
lemma plain_guardOf {r : Reference} (h : r.Named) {v : Value} (hv : guardOf r = some v) :
    ∀ u ∈ v.code, u.Plain := by
  rcases r with name | (name | _ | name | _ | _) <;> cases hv
  · simp
  · exact plain_token h
  · exact plain_token h

/-- An action is a name, a quoted one or an update. -/
lemma plain_actionOf {r : Reference} (h : r.Named) {v : Value} (hv : actionOf r = some v) :
    ∀ u ∈ v.code, u.Plain := by
  rcases r with name | (name | a | _ | name | _) <;> cases hv
  · simp
  · exact plain_token h
  · exact plain_updateOf h
  · exact plain_token h

/-- What a node brings in can be read. -/
lemma plain_codeOf {node : Node} (h : node.Named) : ∀ u ∈ codeOf node, u.Plain := by
  intro u hu
  cases node with
  | transition t =>
      rw [codeOf, code_transitionOf, List.mem_append] at hu
      rcases hu with hu | hu
      · obtain ⟨v, hv, hu⟩ := List.mem_flatMap.mp hu
        obtain ⟨r, hr, hguard⟩ := List.mem_filterMap.mp hv
        exact plain_guardOf (h.1 r hr) hguard u hu
      · obtain ⟨v, hv, hu⟩ := List.mem_flatMap.mp hu
        obtain ⟨r, hr, haction⟩ := List.mem_filterMap.mp hv
        exact plain_actionOf (h.2 r hr) haction u hu
  | invoke service =>
      rw [List.mem_singleton.mp hu]
      exact .inl h
  | binding b =>
      rw [codeOf] at hu
      rcases b with ⟨_ | _, name, value | a | _ | _ | _⟩ <;>
        simp only [guardEntryOf, actionEntryOf, Option.toList_some, Option.toList_none,
          List.flatMap_cons, List.flatMap_nil, List.append_nil, List.nil_append,
          List.not_mem_nil] at hu
      · exact plain_token h u hu
      · exact plain_token h u hu
      · exact plain_updateOf h u hu
  | _ => cases hu

/-- The specifiers of an import are names if its children are named. -/
lemma identifier_specifierNames {ts : List Tree} (h : ∀ t ∈ ts, t.payload.Named) :
    ∀ name ∈ specifierNames ts, isIdentifier name.toList = true := by
  intro name hname
  obtain ⟨t, ht, hspecifier⟩ := List.mem_filterMap.mp hname
  have hnamed := h t ht
  cases hp : t.payload with
  | specifier imported renamed =>
      rw [hp] at hspecifier hnamed
      cases hspecifier
      exact hnamed
  | _ => simp [hp] at hspecifier

/-- The trees of declarations are those of single declarations. -/
lemma exists_item_of_mem {items : List Language.Item} {t : Tree} : ∀ {n : NodeId},
    t ∈ Language.numbered Language.Item.tree n items → ∃ item ∈ items, ∃ k, t = item.tree k := by
  induction items with
  | nil => intro n h; cases h
  | cons item items ih =>
      intro n h
      rcases List.mem_cons.mp h with rfl | h
      · exact ⟨item, List.mem_cons_self, n, rfl⟩
      · obtain ⟨item', hitem', k, ht⟩ := ih h
        exact ⟨item', List.mem_cons_of_mem _ hitem', k, ht⟩

/-- **All statements of a module can be read.** -/
lemma proper_statements {text : String} {items : List Language.Item}
    (h : Language.parse text = .ok items) (usesAssign : Bool) (library : Library) :
    ∀ s ∈ statements usesAssign library (Language.itemTrees items), s.Proper := by
  obtain ⟨hmachines, hnodes⟩ := Language.named_of_parse h
  have hrows : ∀ t ∈ Language.itemTrees items, ∀ u ∈ t.children, u.payload.Named :=
    fun t ht u hu => hnodes _ (Tree.payloads_children ht (Tree.payload_mem_payloads hu))
  have hvalues : ∀ s ∈ statements usesAssign library (Language.itemTrees items),
      ∀ v ∈ s.values, v.Proper := fun s hs v hv => by
    refine v.proper_of_code fun u hu => ?_
    obtain ⟨node, hnode, hcode⟩ := List.mem_flatMap.mp (code_of_mem_statements hs hv hu)
    exact plain_codeOf (hnodes node hnode) u hcode
  intro s hs
  have hproper := hvalues s hs
  rcases List.mem_append.mp hs with hs | hs
  · split at hs
    · cases hs
    · rw [List.mem_singleton.mp hs]
      cases usesAssign <;> exact ⟨by simp [runtimeNames], by decide⟩
  · rcases mem_rootStatements hs with ⟨t, ht, path, -, hne, rfl⟩ | ⟨t, ht, m, piece, hm, -, rfl⟩
    · exact ⟨hne, identifier_specifierNames (hrows t ht)⟩
    · obtain ⟨item, hitem, k, rfl⟩ := exists_item_of_mem ht
      rw [machineStatement] at hproper ⊢
      refine ⟨?_, hproper _ List.mem_cons_self, fun v hv => hproper v ?_⟩
      · cases item with
        | machine d =>
            cases hm
            exact hmachines d hitem
        | _ => cases hm
      · exact List.mem_cons_of_mem _ (Option.mem_toList.mpr hv)

/-- **The module of every chart can be read**, and has the statements that it was written from. -/
lemma readModule_moduleText {text : String} {items : List Language.Item}
    (h : Language.parse text = .ok items) (usesAssign : Bool) (library : Library) :
    readModule (moduleText usesAssign library (Language.itemTrees items)) =
      some ((statements usesAssign library (Language.itemTrees items)).map Statement.flat) := by
  rw [moduleText_eq_statementsText usesAssign library (Language.allShaped_itemTrees items)]
  exact readModule_statementsText (proper_statements h usesAssign library)

end Output

end Statechart
