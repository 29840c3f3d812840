import Statechart.Proofs.Output.Reading

/-!
# The items of a module

What a module says can be read off its statements item by item: the names that it imports, its
machines and states with their marks, transitions and invocations, and the options.

* `Construct` — an item of a module.  A transition is one item with its target and with all of its
  guards and actions.
* `Value.constructs` — the items of a configuration, at any depth.
* `Statement.constructs` — the items of a statement, as it is read.

**`Statement.constructs_flat`** — the items do not depend on line breaks in arrays.
-/

namespace Statechart

/-! ## Items -/

/-- A guard, an action or the value of an option, as it is written. -/
inductive Term where
  /-- A name in quotes, to be looked up among the options. -/
  | quoted (name : String)
  /-- A piece of code as it stands. -/
  | bare (text : String)
  /-- An update of one key of the context. -/
  | update (key value : String)
deriving DecidableEq

/-- What a transition does. -/
structure Move where
  targets : List String
  guards : List Term
  actions : List Term
deriving DecidableEq

namespace Output

/-- An item of a module. -/
inductive Construct where
  | importName (path name : String)
  | machine (name : Option String)
  | initial (name : String)
  | state (name : String)
  | mark (text : String)
  | transition (batch : Batch) (key : Option String) (move : Move)
  | invoke (service : String)
  | answer (key : String) (move : Move)
  | option (group name : String) (terms : List Term)
deriving DecidableEq

end Output

/-! ## Items of values -/

namespace Script.Value

/-- A term as it is written. -/
def term? : Value → Option Term
  | string name => some (.quoted name)
  | token text => some (.bare text)
  | call callee (object [(key, token value)]) =>
    if callee = "assign" then some (.update key value) else none
  | _ => none

/-- The terms of a list, or a single one. -/
def terms : Value → List Term
  | array _ es => es.filterMap term?
  | v => v.term?.toList

/-- The values of the properties with a key. -/
def valuesAt (key : String) : Value → List Value
  | object ps => ps.filterMap fun p => if p.1 = key then some p.2 else none
  | _ => []

/-- The text of a string or of code. -/
def plainText : Value → String
  | string text => text
  | token text => text
  | _ => ""

/-- What a transition does: it has a target alone, or properties. -/
def move (v : Value) : Move :=
  match v with
  | string target => ⟨[target], [], []⟩
  | v => ⟨(v.valuesAt "target").map plainText, (v.valuesAt "cond").flatMap terms,
      (v.valuesAt "actions").flatMap terms⟩

mutual

/-- The items of a machine or a state. -/
def constructs : Value → List Output.Construct
  | object ps => propertiesConstructs ps
  | _ => []

/-- The items of some properties of a machine or a state. -/
def propertiesConstructs : List (String × Value) → List Output.Construct
  | [] => []
  | (key, value) :: rest => propertyConstructs key value ++ propertiesConstructs rest

/-- The items of a property of a machine or a state. -/
def propertyConstructs (key : String) : Value → List Output.Construct
  | object ps =>
    if key = "states" then statesConstructs ps
    else if key = "on" then ps.map fun p => .transition .on (some p.1) p.2.move
    else if key = "delay" then ps.map fun p => .transition .delay (some p.1) p.2.move
    else if key = "invoke" then
      ps.map fun p => if p.1 = "src" then .invoke p.2.plainText else .answer p.1 p.2.move
    else []
  | array _ es => if key = "always" then es.map fun v => .transition .always none v.move else []
  | string text =>
    if key = "initial" then [.initial text] else if key = "type" then [.mark text] else []
  | _ => []

/-- The items of some states. -/
def statesConstructs : List (String × Value) → List Output.Construct
  | [] => []
  | (name, value) :: rest => .state name :: constructs value ++ statesConstructs rest

end

/-- The items of the options of a machine. -/
def options : Value → List Output.Construct
  | object groups => groups.flatMap fun group =>
    match group.2 with
    | object ps => ps.map fun p => .option group.1 p.1 p.2.terms
    | _ => []
  | _ => []

lemma propertiesConstructs_eq (ps : List (String × Value)) :
    propertiesConstructs ps = ps.flatMap fun p => propertyConstructs p.1 p.2 := by
  induction ps with
  | nil => rw [propertiesConstructs]; rfl
  | cons p ps ih => rw [propertiesConstructs, ih, List.flatMap_cons]

/-! Line breaks in arrays are of no account. -/

lemma flatElements_eq (es : List Value) : flatElements es = es.map flat := by
  induction es with
  | nil => rw [flatElements]; rfl
  | cons v es ih => rw [flatElements, ih, List.map_cons]

lemma flatProperties_eq (ps : List (String × Value)) :
    flatProperties ps = ps.map fun p => (p.1, p.2.flat) := by
  induction ps with
  | nil => rw [flatProperties]; rfl
  | cons p ps ih => rw [flatProperties, ih, List.map_cons]

/-- A guard or an action is the same term. -/
lemma term?_flat (v : Value) : v.flat.term? = v.term? := by
  cases v with
  | call callee argument =>
      rcases argument with _ | _ | ps | _ | _
      · simp [flat, term?]
      · simp [flat, term?]
      · rcases ps with _ | ⟨⟨key, value⟩, _ | _⟩
        · simp [flat, flatProperties, term?]
        · cases value <;> simp [flat, flatProperties, term?]
        · simp [flat, flatProperties, term?]
      · simp [flat, term?]
      · simp [flat, term?]
  | _ => simp [flat, term?]

/-- A list of guards or actions has the same terms. -/
lemma terms_flat (v : Value) : v.flat.terms = v.terms := by
  cases v with
  | array lines es =>
      rw [flat, terms, terms, flatElements_eq, List.filterMap_map]
      exact List.filterMap_congr fun v _ => term?_flat v
  | token text => rfl
  | string text => rfl
  | object ps => exact congrArg Option.toList (term?_flat (object ps))
  | call callee argument => exact congrArg Option.toList (term?_flat (call callee argument))

/-- The values of a key are those of the key, each with its arrays on one line. -/
lemma valuesAt_flat (key : String) (v : Value) :
    v.flat.valuesAt key = (v.valuesAt key).map flat := by
  cases v with
  | object ps =>
      rw [flat, valuesAt, valuesAt, flatProperties_eq, List.filterMap_map, List.map_filterMap]
      refine List.filterMap_congr fun p _ => ?_
      by_cases hp : p.1 = key <;> simp [hp]
  | _ => simp [flat, valuesAt]

lemma plainText_flat (v : Value) : v.flat.plainText = v.plainText := by
  cases v <;> simp [flat, plainText]

/-- A transition has the same targets, guards and actions. -/
lemma move_flat (v : Value) : v.flat.move = v.move := by
  have hplain : plainText ∘ flat = plainText := funext plainText_flat
  have hterms : (fun v : Value => v.flat.terms) = terms := funext terms_flat
  have hmove : ∀ u : Value, (⟨(u.flat.valuesAt "target").map plainText,
      (u.flat.valuesAt "cond").flatMap terms, (u.flat.valuesAt "actions").flatMap terms⟩ : Move) =
      ⟨(u.valuesAt "target").map plainText, (u.valuesAt "cond").flatMap terms,
        (u.valuesAt "actions").flatMap terms⟩ := fun u => by
    simp only [valuesAt_flat, List.map_map, List.flatMap_map, hplain, hterms]
  cases v with
  | string target => rfl
  | token text => rfl
  | object ps => exact hmove (object ps)
  | array lines es => exact hmove (array lines es)
  | call callee argument => exact hmove (call callee argument)

mutual

/-- A configuration has the same items. -/
lemma constructs_flat : ∀ v : Value, v.flat.constructs = v.constructs
  | object ps => by
      rw [flat, constructs, constructs]
      exact propertiesConstructs_flat ps
  | token _ => by rw [flat]
  | string _ => by rw [flat]
  | array _ _ => by rw [flat]; simp only [constructs]
  | call _ _ => by rw [flat]; simp only [constructs]

/-- Properties have the same items. -/
lemma propertiesConstructs_flat : ∀ ps : List (String × Value),
    propertiesConstructs (flatProperties ps) = propertiesConstructs ps
  | [] => by rw [flatProperties]
  | (key, v) :: ps => by
      rw [flatProperties, propertiesConstructs, propertiesConstructs, propertyConstructs_flat key v,
        propertiesConstructs_flat ps]

/-- Each property has the same items, which its key decides on. -/
lemma propertyConstructs_flat (key : String) : ∀ v : Value,
    propertyConstructs key v.flat = propertyConstructs key v
  | object ps => by
      have hstates := statesConstructs_flat ps
      rw [flat, propertyConstructs, propertyConstructs, hstates, flatProperties_eq]
      simp only [List.map_map, Function.comp_def, move_flat, plainText_flat]
  | array _ es => by
      rw [flat, propertyConstructs, propertyConstructs, flatElements_eq]
      simp only [List.map_map, Function.comp_def, move_flat]
  | token _ => by rw [flat]
  | string _ => by rw [flat]
  | call _ _ => by rw [flat]; simp only [propertyConstructs]

/-- States have the same items. -/
lemma statesConstructs_flat : ∀ ps : List (String × Value),
    statesConstructs (flatProperties ps) = statesConstructs ps
  | [] => by rw [flatProperties]
  | (name, v) :: ps => by
      rw [flatProperties, statesConstructs, statesConstructs, constructs_flat v,
        statesConstructs_flat ps]

end

/-- Options have the same items. -/
lemma options_flat (v : Value) : v.flat.options = v.options := by
  cases v with
  | object groups =>
      rw [flat, options, options, flatProperties_eq, List.flatMap_map]
      refine List.flatMap_congr fun group _ => ?_
      obtain ⟨name, value⟩ := group
      cases value with
      | object ps => simp [flat, flatProperties_eq, Function.comp_def, terms_flat]
      | _ => simp [flat]
  | _ => simp [flat, options]

end Script.Value

namespace Output

open Script

/-- The items of a statement. -/
def Statement.constructs : Statement → List Construct
  | importNames names path => names.map (Construct.importName path)
  | exportMachine name configuration options =>
    .machine name :: configuration.constructs ++ options.toList.flatMap Value.options

lemma Statement.constructs_flat (s : Statement) : s.flat.constructs = s.constructs := by
  rcases s with _ | ⟨_, _, _ | _⟩ <;>
    simp [Statement.flat, Statement.constructs, Value.constructs_flat, Value.options_flat]

end Output

end Statechart
