import Statechart.Proofs.Language.Payloads
import Statechart.Proofs.Output.Literals
import Statechart.Proofs.Output.Statements

/-!
# The code in a module

In a literal, strings and keys are data; tokens and calls are code.  All code in a module was
brought in by a node of the chart: a guard or an action of a transition, the service of an
invocation, or the value of a binding.

* `Value.code` — the code in a value, at any depth.
* `codeOf` — the code that a node brings in.

**`code_of_mem_statements`** — there is no other code in the literals of a module.
-/

namespace Statechart

namespace Script.Value

mutual

/-- The tokens and calls in a value, at any depth. -/
def code : Value → List Value
  | token text => [token text]
  | string _ => []
  | object properties => propertiesCode properties
  | array _ elements => elementsCode elements
  | call callee argument => call callee argument :: argument.code

/-- The tokens and calls in the values of some properties. -/
def propertiesCode : List (String × Value) → List Value
  | [] => []
  | (_, value) :: rest => value.code ++ propertiesCode rest

/-- The tokens and calls in some elements. -/
def elementsCode : List Value → List Value
  | [] => []
  | value :: rest => value.code ++ elementsCode rest

end

@[simp] lemma code_token (text : String) : (token text).code = [token text] := by rw [code]

@[simp] lemma code_string (text : String) : (string text).code = [] := by rw [code]

@[simp] lemma code_call (callee : String) (argument : Value) :
    (call callee argument).code = call callee argument :: argument.code := by rw [code]

/-- The code in an object is that of its values. -/
@[simp] lemma code_object (ps : List (String × Value)) :
    (object ps).code = ps.flatMap (·.2.code) := by
  rw [code]
  induction ps with
  | nil => rw [propertiesCode]; rfl
  | cons p ps ih => rw [propertiesCode, ih, List.flatMap_cons]

/-- The code in an array is that of its elements. -/
@[simp] lemma code_array (lines : Bool) (es : List Value) :
    (array lines es).code = es.flatMap code := by
  rw [code]
  induction es with
  | nil => rw [elementsCode]; rfl
  | cons v es ih => rw [elementsCode, ih, List.flatMap_cons]

end Script.Value

namespace Output

open Script

/-- The code that a node brings in. -/
def codeOf : Node → List Value
  | .transition t => (transitionOf t).code
  | .invoke service => [.token service]
  | .binding b => (guardEntryOf b).toList.flatMap (·.2.code) ++
      (actionEntryOf b).toList.flatMap (·.2.code)
  | _ => []

lemma code_conditionOf (guards : List Value) :
    (conditionOf guards).flatMap (·.2.code) = guards.flatMap Value.code := by
  rcases guards with _ | ⟨guard, _ | ⟨next, guards⟩⟩ <;> simp [conditionOf]

/-- The code in a transition is that in its guards and actions. -/
lemma code_transitionOf (t : Transition) :
    (transitionOf t).code = (t.guards.filterMap guardOf).flatMap Value.code ++
      (t.actions.filterMap actionOf).flatMap Value.code := by
  rw [transitionOf]
  split
  · next h => simp [List.isEmpty_iff.mp h.1, List.isEmpty_iff.mp h.2.1]
  · cases t.actions.filterMap actionOf <;> simp [code_conditionOf]

/-- The code that the nodes of some trees bring in. -/
def rowCode (ts : List Tree) : List Value := (Tree.payloads ts).flatMap codeOf

@[simp] lemma rowCode_cons (t : Tree) (ts : List Tree) :
    rowCode (t :: ts) = codeOf t.payload ++ rowCode t.children ++ rowCode ts := by
  simp [rowCode]

/-! ## Configurations -/

/-- The code in a section. -/
def Section.code (part : Section) : List Value := part.properties.flatMap (·.2.code)

lemma Section.additive_code : Section.Additive Section.code where
  events p ps := by simp [Section.code, Section.properties]
  immediates v vs := by simp [Section.code, Section.properties]
  delays p ps := by simp [Section.code, Section.properties, Section.delayProperties]
  empty := rfl

lemma code_single (value : Value) (trigger : Trigger) :
    (Section.single value trigger).code = value.code := by
  cases trigger <;>
    simp [Section.code, Section.single, Section.properties, Section.delayProperties]

/-- The code in the answers of an invocation is that of its transitions. -/
lemma code_answers (ts : List Tree) : (answers ts).flatMap (·.2.code) ⊆ rowCode ts := by
  intro v hv
  obtain ⟨p, hp, hv⟩ := List.mem_flatMap.mp hv
  obtain ⟨t, ht, hanswer⟩ := List.mem_filterMap.mp hp
  cases hpayload : t.payload with
  | transition u =>
      simp only [hpayload] at hanswer
      obtain ⟨key, -, rfl⟩ := Option.map_eq_some_iff.mp hanswer
      refine List.mem_flatMap.mpr ⟨t.payload, ?_, ?_⟩
      · exact Tree.payload_mem_payloads ht
      · rw [hpayload]
        exact hv
  | _ => simp [hpayload] at hanswer

lemma code_machineProperties (m : Machine) (states : List (String × Value)) :
    (machineProperties m states).flatMap (·.2.code) = states.flatMap (·.2.code) := by
  rw [machineProperties, initialProperty]
  cases m.initial <;> cases states <;> simp

/-- The code in the section of a tree is that of its nodes, if this is so for states below it. -/
lemma code_sectionOf {t : Tree}
    (h : (stateProperties t.children).flatMap (·.2.code) ⊆ rowCode t.children) :
    (sectionOf t).code ⊆ codeOf t.payload ++ rowCode t.children := by
  rw [sectionOf]
  cases hp : t.payload with
  | transition u =>
      rw [code_single]
      exact List.subset_append_left _ _
  | invoke service =>
      simp only [otherProperties, hp, Section.code, Section.properties, invocation]
      simpa [codeOf] using List.cons_subset_cons _ (code_answers t.children)
  | machine m =>
      simp only [otherProperties, hp, Section.code, Section.properties, code_machineProperties]
      exact List.subset_append_of_subset_right _ h
  | _ => simp [otherProperties, hp, Section.code, Section.properties]

/-- The code in the states of a machine, beginning with the first. -/
lemma code_stateProperties_cons (t : Tree) (ts : List Tree) :
    (stateProperties (t :: ts)).flatMap (·.2.code) =
      (if t.isState then (sections t.children).flatMap Section.code else []) ++
        (stateProperties ts).flatMap (·.2.code) := by
  obtain ⟨id, payload, children⟩ := t
  cases payload with
  | state s =>
      have hfinal : (finalProperty s).flatMap (·.2.code) = [] := by
        rw [finalProperty]
        cases s.isFinal <;> simp
      rw [stateProperties, List.flatMap_cons, Value.code_object, List.flatMap_append, hfinal,
        List.nil_append, List.flatMap_assoc]
      rfl
  | _ => simp only [stateProperties]; rfl

/-- **The code in a configuration** was brought in by nodes of the chart. -/
lemma code_rows (ts : List Tree) :
    (stateProperties ts).flatMap (·.2.code) ⊆ rowCode ts ∧
      (sections ts).flatMap Section.code ⊆ rowCode ts := by
  induction ts using Tree.row_induction with
  | nil => simp
  | cons t ts hchildren hrest =>
      rw [rowCode_cons]
      constructor
      · rw [code_stateProperties_cons]
        refine List.append_subset.mpr ⟨?_, List.subset_append_of_subset_right _ hrest.1⟩
        refine List.subset_append_of_subset_left _ (List.subset_append_of_subset_right _ ?_)
        split
        · exact hchildren.2
        · exact List.nil_subset _
      · rw [flatMap_sections _ Section.additive_code, List.flatMap_cons,
          ← flatMap_sections _ Section.additive_code]
        exact List.append_subset.mpr
          ⟨List.subset_append_of_subset_left _ (code_sectionOf hchildren.1),
            List.subset_append_of_subset_right _ hrest.2⟩

/-! ## Modules -/

/-- A binding that is met in a row is a node of it. -/
lemma mem_payloads_of_mem_contents {b : Binding} {ts : List Tree} (h : b ∈ contents ts) :
    .binding b ∈ Tree.payloads ts := by
  obtain ⟨⟨kind, hoisted⟩, hmem, rfl⟩ := List.mem_map.mp h
  obtain ⟨⟨id, payload⟩, hentry, hbinding⟩ := List.mem_filterMap.mp hmem
  cases payload with
  | binding b =>
      cases hbinding
      exact List.mem_map_of_mem hentry
  | _ => cases hbinding

/-- What waits and what is declared are in the pieces, and nothing else. -/
lemma mem_contents_of_mem_pieces {b : Binding} {piece : List Binding} (hb : b ∈ piece) :
    ∀ {ts : List Tree} {waiting : List Binding}, piece ∈ piecesFrom waiting ts →
      b ∈ waiting ∨ b ∈ contents ts := by
  intro ts
  induction ts with
  | nil =>
      intro waiting h
      rw [piecesFrom, List.mem_singleton] at h
      exact .inl (h ▸ hb)
  | cons t ts ih =>
      intro waiting h
      rw [← List.singleton_append, contents_append, List.mem_append]
      rw [piecesFrom] at h
      split at h
      · rcases List.mem_cons.mp h with rfl | h
        · exact (List.mem_append.mp hb).imp_right .inl
        · exact .inr (.inr ((ih h).resolve_left List.not_mem_nil))
      · rcases ih h with hwaiting | hrest
        · exact (List.mem_append.mp hwaiting).imp_right .inl
        · exact .inr (.inr hrest)

/-- The code in a map of the options is that of the bindings in it. -/
lemma code_entries {entryOf : Binding → Option (String × Value)}
    (h : ∀ b, (entryOf b).toList.flatMap (·.2.code) ⊆ codeOf (.binding b))
    (piece : List Binding) : (Value.object (piece.filterMap entryOf)).code ⊆
      piece.flatMap fun b => codeOf (.binding b) := by
  intro v hv
  rw [Value.code_object, List.filterMap_eq_flatMap_toList, List.flatMap_assoc] at hv
  obtain ⟨b, hb, hv⟩ := List.mem_flatMap.mp hv
  exact List.mem_flatMap.mpr ⟨b, hb, h b hv⟩

/-- The code in the options is that of the bindings that the machine takes. -/
lemma code_pieceOptions (piece : List Binding) :
    (pieceOptions piece).code ⊆ piece.flatMap fun b => codeOf (.binding b) := by
  have hguards := code_entries (fun b => List.subset_append_left _ _ :
    ∀ b, (guardEntryOf b).toList.flatMap (·.2.code) ⊆ codeOf (.binding b)) piece
  have hactions := code_entries (fun b => List.subset_append_right _ _ :
    ∀ b, (actionEntryOf b).toList.flatMap (·.2.code) ⊆ codeOf (.binding b)) piece
  rw [pieceOptions, Value.code_object, List.flatMap_append]
  refine List.append_subset.mpr ⟨?_, ?_⟩
  · split
    · simpa using hguards
    · exact List.nil_subset _
  · split
    · simpa using hactions
    · exact List.nil_subset _

/-- The code in the statement of a machine is that of its own nodes and of the piece it takes. -/
lemma code_machineStatement {m : Machine} {children : List Tree} {piece : List Binding} {v u : Value}
    (hv : v ∈ (machineStatement m children piece).values) (hu : u ∈ v.code) :
    u ∈ rowCode children ∨ ∃ b ∈ piece, u ∈ codeOf (.binding b) := by
  rw [machineStatement, Statement.values] at hv
  rcases List.mem_cons.mp hv with rfl | hv
  · rw [configuration, Value.code_object, code_machineProperties] at hu
    exact .inl ((code_rows children).1 hu)
  · split at hv
    · cases hv
    · rw [Option.toList_some, List.mem_singleton] at hv
      rw [hv] at hu
      exact .inr (List.mem_flatMap.mp (code_pieceOptions piece hu))

/-- **There is no code in a module but that of the nodes.** -/
lemma code_of_mem_statements {usesAssign : Bool} {library : Library} {roots : List Tree}
    {s : Statement} (hs : s ∈ statements usesAssign library roots) {v u : Value}
    (hv : v ∈ s.values) (hu : u ∈ v.code) : u ∈ rowCode roots := by
  rcases List.mem_append.mp hs with hs | hs
  · split at hs
    · cases hs
    · rw [List.mem_singleton.mp hs] at hv
      cases hv
  · rcases mem_rootStatements hs with ⟨t, -, path, -, -, rfl⟩ | ⟨t, ht, m, piece, -, hpiece, rfl⟩
    · cases hv
    · rcases code_machineStatement hv hu with hrow | ⟨b, hb, hcode⟩
      · obtain ⟨node, hnode, hcode⟩ := List.mem_flatMap.mp hrow
        exact List.mem_flatMap.mpr ⟨node, Tree.payloads_children ht hnode, hcode⟩
      · obtain ⟨piece', hpiece', hb'⟩ := List.mem_flatten.mp (hpiece.subset hb)
        have hmem := (mem_contents_of_mem_pieces hb' hpiece').resolve_left List.not_mem_nil
        exact List.mem_flatMap.mpr ⟨_, mem_payloads_of_mem_contents hmem, hcode⟩

end Output

end Statechart
