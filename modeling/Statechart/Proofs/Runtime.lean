import Statechart.Proofs.Transcript
import Statechart.Proofs.Output.Legibility

/-!
# What a module takes from the library

Whether a module takes `assign` from the library is settled by a flag that is set while the chart is
read.  The calls are written much later, in transitions and in options, and not all of them are
written.

* `Statement.callees` — the functions that a statement calls, at any depth.
* `TakesFromLibrary` — the first statement of a module takes a name from the library.

**`compile_runtime`** — the flag is set exactly if a node of the chart holds an update, and every
function that a module calls is taken from the library.
-/

namespace Statechart

/-! ## Calls -/

namespace Script.Value

mutual

/-- Whether arrays are written on one line does not matter. -/
lemma code_flat : ∀ v : Value, v.flat.code = v.code.map flat
  | token text => by simp [flat]
  | string text => by simp [flat]
  | object ps => by
      rw [flat, code, code]
      exact propertiesCode_flat ps
  | array lines es => by
      rw [flat, code, code]
      exact elementsCode_flat es
  | call callee argument => by
      rw [flat, code_call, code_call, code_flat argument, List.map_cons, flat]

/-- The code in some properties, with all arrays on one line. -/
lemma propertiesCode_flat : ∀ ps : List (String × Value),
    propertiesCode (flatProperties ps) = (propertiesCode ps).map flat
  | [] => by rw [flatProperties, propertiesCode, List.map_nil]
  | (key, v) :: ps => by
      rw [flatProperties, propertiesCode, propertiesCode, code_flat v, propertiesCode_flat ps,
        List.map_append]

/-- The code in some elements, with all arrays on one line. -/
lemma elementsCode_flat : ∀ es : List Value,
    elementsCode (flatElements es) = (elementsCode es).map flat
  | [] => by rw [flatElements, elementsCode, List.map_nil]
  | v :: es => by
      rw [flatElements, elementsCode, elementsCode, code_flat v, elementsCode_flat es,
        List.map_append]

end

/-- The function that is called, if the value is a call. -/
def callee? : Value → Option String
  | call callee _ => some callee
  | _ => none

/-- The functions that are called in a value, at any depth. -/
def callees (v : Value) : List String := v.code.filterMap callee?

lemma callees_flat (v : Value) : v.flat.callees = v.callees := by
  have hcallee : callee? ∘ flat = callee? := by
    funext u
    cases u <;> simp [flat, callee?]
  rw [callees, code_flat, List.filterMap_map, hcallee, callees]

/-- A function is called in a value if there is a call of it at some depth. -/
lemma mem_callees {v : Value} {callee : String} :
    callee ∈ v.callees ↔ ∃ argument, call callee argument ∈ v.code := by
  rw [callees, List.mem_filterMap]
  constructor
  · rintro ⟨u, hu, hcallee⟩
    cases u with
    | call c argument =>
        cases hcallee
        exact ⟨argument, hu⟩
    | _ => cases hcallee
  · rintro ⟨argument, hcall⟩
    exact ⟨_, hcall, rfl⟩

end Script.Value

namespace Output

open Script

/-- The functions that a statement calls: the one that makes a machine, and those in its literals. -/
def Statement.callees : Statement → List String
  | importNames _ _ => []
  | exportMachine _ configuration options =>
    "Machine" :: (configuration :: options.toList).flatMap Value.callees

lemma callees_flat (s : Statement) : s.flat.callees = s.callees := by
  rcases s with _ | ⟨_, _, _ | _⟩ <;> simp [Statement.flat, Statement.callees, Value.callees_flat]

/-- A function that is called makes a machine, or is called in a literal. -/
lemma exists_call_of_mem {s : Statement} {callee : String} (h : callee ∈ s.callees) :
    callee = "Machine" ∨ ∃ v ∈ s.values, ∃ argument, Value.call callee argument ∈ v.code := by
  cases s with
  | importNames names path => cases h
  | exportMachine name configuration options =>
      refine (List.mem_cons.mp h).imp_right fun h => ?_
      obtain ⟨v, hv, hcallee⟩ := List.mem_flatMap.mp h
      exact ⟨v, hv, Value.mem_callees.mp hcallee⟩

/-- The first statement of a module takes the given name from the library. -/
def TakesFromLibrary (library : Library) (name : String) (ss : List Statement) : Prop :=
  ∃ names, ss.head? = some (.importNames names library.specifier) ∧ name ∈ names

/-- What a module takes from the library does not depend on line breaks. -/
lemma takesFromLibrary_flat {library : Library} {name : String} {ss : List Statement}
    (h : TakesFromLibrary library name ss) :
    TakesFromLibrary library name (ss.map Statement.flat) := by
  obtain ⟨names, hhead, hname⟩ := h
  refine ⟨names, ?_, hname⟩
  rw [List.head?_map, hhead]
  rfl

/-- A module for something takes its names from the library in its first statement. -/
lemma takesFromLibrary_statements {usesAssign : Bool} (library : Library) {roots : List Tree}
    (h : roots ≠ []) {name : String} (hname : name ∈ runtimeNames usesAssign) :
    TakesFromLibrary library name ((statements usesAssign library roots).map Statement.flat) := by
  refine takesFromLibrary_flat ⟨runtimeNames usesAssign, ?_, hname⟩
  rw [statements, if_neg (by simpa using h)]
  rfl

section calls

variable {callee : String} {argument : Value}

/-- An update of the context calls no other function. -/
lemma eq_assign_of_call_mem {a : Assignment} (h : .call callee argument ∈ (updateOf a).code) :
    callee = "assign" := by
  rw [updateOf, Value.code_call] at h
  rcases List.mem_cons.mp h with h | h
  · cases h
    rfl
  · simp at h

lemma call_not_mem_guardOf {r : Reference} {v : Value} (hv : guardOf r = some v) :
    .call callee argument ∉ v.code := by
  rcases r with _ | (_ | _ | _ | _ | _) <;> cases hv <;> simp

/-- An action with a call in it is an update of the context. -/
lemma isAssign_of_call_mem {r : Reference} {v : Value} (hv : actionOf r = some v)
    (h : .call callee argument ∈ v.code) : callee = "assign" ∧ r.isAssign = true := by
  rcases r with _ | (_ | a | _ | _ | _) <;> cases hv
  · simp at h
  · simp at h
  · exact ⟨eq_assign_of_call_mem h, rfl⟩
  · simp at h

/-- The only calls that a node brings in are updates of the context. -/
lemma updates_of_call_mem {node : Node} (h : .call callee argument ∈ codeOf node) :
    callee = "assign" ∧ node.updates = true := by
  cases node with
  | transition t =>
      rw [codeOf, code_transitionOf, List.mem_append] at h
      rcases h with h | h
      · obtain ⟨v, hv, hcall⟩ := List.mem_flatMap.mp h
        obtain ⟨r, -, hguard⟩ := List.mem_filterMap.mp hv
        exact absurd hcall (call_not_mem_guardOf hguard)
      · obtain ⟨v, hv, hcall⟩ := List.mem_flatMap.mp h
        obtain ⟨r, hr, haction⟩ := List.mem_filterMap.mp hv
        obtain ⟨hcallee, hassign⟩ := isAssign_of_call_mem haction hcall
        exact ⟨hcallee, List.any_eq_true.mpr ⟨r, hr, hassign⟩⟩
  | invoke service => simp [codeOf] at h
  | binding b =>
      rw [codeOf] at h
      rcases b with ⟨_ | _, name, _ | a | _ | _ | _⟩ <;>
        simp only [guardEntryOf, actionEntryOf, Option.toList_some, Option.toList_none,
          List.flatMap_cons, List.flatMap_nil, List.append_nil, List.nil_append,
          List.not_mem_nil] at h
      · simp at h
      · simp at h
      · exact ⟨eq_assign_of_call_mem h, rfl⟩
  | _ => cases h

end calls

end Output

/-! ## Modules -/

open Statechart.Language Output

/-- The nodes of a chart that was read are those of its trees. -/
lemma node?_eq_some_iff {f : Forest} {roots : List Tree} (hrep : f.Represents roots)
    (hsize : f.nodes.size = (Tree.ids roots).length) {id : NodeId} {node : Node} :
    f.node? id = some node ↔ (id, node) ∈ Tree.allEntries roots := by
  refine ⟨fun h => ?_, fun h => hrep.live _ h⟩
  have hlt : id < f.nodes.size := by
    by_contra hlt
    rw [Forest.node?, Array.getElem?_eq_none (Nat.not_lt.mp hlt)] at h
    cases h
  have hperm : (Tree.ids roots).Perm (List.range f.nodes.size) := by
    refine (List.subperm_of_subset hrep.distinct hrep.subset_range).perm_of_length_le ?_
    rw [List.length_range, hsize]
    exact Nat.le_refl _
  obtain ⟨⟨id', node'⟩, hentry, rfl⟩ :=
    List.mem_map.mp (hperm.mem_iff.mpr (List.mem_range.mpr hlt))
  have hlive := hrep.live _ hentry
  rw [h] at hlive
  cases hlive
  exact hentry

/-- **The flag of a chart and the imports of its module.**  The flag is set exactly if an action of a
transition or the value of a binding is an update of the context.  Every module that a chart is
compiled to can be read, and takes each function that it calls from the library: the one that makes
a machine, and all that are called in literals, at any depth. -/
theorem compile_runtime {source : SourceFile} {j j₁ : Journal} {program : Program}
    (h : parse source j = .ok (.ok program) j₁) :
    (program.usesAssign = true ↔
      ∃ id node, program.forest.node? id = some node ∧ node.updates = true) ∧
    ∀ {library : Library} {text : String} {j₂ : Journal},
      compile source library j = .ok (some text) j₂ → ∃ ss, readModule text = some ss ∧
        ∀ callee ∈ ss.flatMap Statement.callees, TakesFromLibrary library callee ss := by
  obtain ⟨remarks, j₂, hread, -, -, -⟩ := parse_eq_ok h
  obtain ⟨items, hparse, -, hrep, hsize, huses⟩ := read_eq_ok hread
  refine ⟨?_, fun {library text j₃} hcompile => ?_⟩
  · rw [huses, ← any_updates_itemTrees]
    simp only [node?_eq_some_iff hrep hsize, Tree.payloads, List.mem_map, Prod.exists,
      exists_eq_right]
    constructor
    · rintro ⟨node, ⟨id, hentry⟩, hupdates⟩
      exact ⟨id, node, hentry, hupdates⟩
    · rintro ⟨id, node, hentry, hupdates⟩
      exact ⟨node, ⟨id, hentry⟩, hupdates⟩
  · obtain ⟨items', hparse', -, rfl⟩ := moduleText_of_compile hcompile
    obtain rfl : items' = items := Except.ok.inj (hparse'.symm.trans hparse)
    refine ⟨_, readModule_moduleText hparse _ library, fun callee hcallee => ?_⟩
    obtain ⟨flattened, hflattened, hcallee⟩ := List.mem_flatMap.mp hcallee
    obtain ⟨s, hs, rfl⟩ := List.mem_map.mp hflattened
    rw [callees_flat] at hcallee
    -- without trees there is no statement that calls anything
    have hroots : itemTrees items' ≠ [] := fun hnil => by
      rw [hnil] at hs
      cases hs
    refine takesFromLibrary_statements library hroots ?_
    rcases exists_call_of_mem hcallee with rfl | ⟨v, hv, argument, hcall⟩
    · exact List.mem_cons_self
    · obtain ⟨node, hnode, hcode⟩ := List.mem_flatMap.mp (code_of_mem_statements hs hv hcall)
      obtain ⟨rfl, hupdates⟩ := updates_of_call_mem hcode
      have hany := (any_updates_itemTrees items').mp ⟨node, hnode, hupdates⟩
      simp [hany, runtimeNames]

/-- A chart with an update in a transition of an inner state, and one in the options. -/
def innerUpdate : String :=
  "machine m\x7bstate a\x7bstate b\x7baction h=assign(x) go=>assign(k,:v)=>b\x7d\x7d\x7d"

/-- The example calls `assign` twice, once in a transition and once in its options. -/
lemma innerUpdate_callees : (match Language.parse innerUpdate with
    | .ok items => items.all Item.valid && items.any Item.updates &&
      decide ((statements true .package (itemTrees items)).flatMap Statement.callees =
        ["Machine", "assign", "assign"])
    | .error _ => false) = true := by
  decide +kernel

/-- Both updates are calls, and the module takes the function from the library. -/
theorem compile_innerUpdate : ∃ program j text j' ss,
    parse ⟨"m.lucy", innerUpdate⟩ {} = .ok (.ok program) j ∧ program.usesAssign = true ∧
      (∃ id node, program.forest.node? id = some node ∧ node.updates = true) ∧
      compile ⟨"m.lucy", innerUpdate⟩ .package {} = .ok (some text) j' ∧
      readModule text = some ss ∧
      ss.flatMap Statement.callees = ["Machine", "assign", "assign"] ∧
      TakesFromLibrary .package "assign" ss := by
  have hcallees := innerUpdate_callees
  generalize hitems : Language.parse innerUpdate = outcome at hcallees
  cases outcome with
  | error attempts => cases hcallees
  | ok items =>
      rw [Bool.and_eq_true, Bool.and_eq_true, decide_eq_true_eq] at hcallees
      obtain ⟨⟨hvalid, hupdates⟩, hcallees⟩ := hcallees
      obtain ⟨program, j, j', hparse, huses, hcompile⟩ :=
        compile_of_parse ⟨"m.lucy", innerUpdate⟩ hitems hvalid (by decide) .package {}
      rw [hupdates] at huses hcompile
      have hread := readModule_moduleText hitems true .package
      have hflat : ((statements true .package (itemTrees items)).map Statement.flat).flatMap
          Statement.callees = ["Machine", "assign", "assign"] := by
        rw [List.flatMap_map, ← hcallees]
        exact List.flatMap_congr fun s _ => callees_flat s
      obtain ⟨hiff, hmodule⟩ := compile_runtime hparse
      obtain ⟨ss, hss, htakes⟩ := hmodule hcompile
      obtain rfl := Option.some.inj (hread.symm.trans hss)
      exact ⟨program, j, _, j', _, hparse, huses, hiff.mp huses, hcompile, hread, hflat,
        htakes _ (by rw [hflat]; simp)⟩

end Statechart
