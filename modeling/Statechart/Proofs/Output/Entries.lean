import Statechart.Proofs.Output.Literals
import Statechart.Proofs.Output.Statements

/-!
# Entries of a configuration

A configuration is made of objects inside objects.  Each of its values is found along the keys of the
objects around it, and its text stands behind the last of these keys.

* `Contains` — one text stands somewhere in another.
* `Value.Follows` — a value is found in another one along a row of keys.
* `statePath` — the keys to a state that stands inside others.
* `stateObject` — the object of a state.

**`Value.Follows.text`** — the key and the value stand in the text of the configuration.
**`follows_stateObject`**, **`mem_delays`** — where states and delayed transitions are found.
-/

namespace Statechart

/-- One text stands somewhere in another. -/
def Contains (text part : String) : Prop := ∃ before after, text = before ++ part ++ after

namespace Contains

variable {text part inner : String}

lemma refl (text : String) : Contains text text := ⟨"", "", by simp⟩

lemma trans (h : Contains text part) (h' : Contains part inner) : Contains text inner := by
  obtain ⟨before, after, rfl⟩ := h
  obtain ⟨before', after', rfl⟩ := h'
  exact ⟨before ++ before', after' ++ after, by simp only [String.append_assoc]⟩

lemma append_left (h : Contains text part) (other : String) : Contains (other ++ text) part := by
  obtain ⟨before, after, rfl⟩ := h
  exact ⟨other ++ before, after, by simp only [String.append_assoc]⟩

lemma append_right (h : Contains text part) (other : String) : Contains (text ++ other) part := by
  obtain ⟨before, after, rfl⟩ := h
  exact ⟨before, after ++ other, by simp only [String.append_assoc]⟩

/-- Each of some texts stands in what they are joined to. -/
lemma intercalate {texts : List String} (h : text ∈ texts) (separator : String) :
    Contains (String.intercalate separator texts) text := by
  induction texts with
  | nil => simp at h
  | cons first rest ih =>
      cases rest with
      | nil =>
          obtain rfl := List.mem_singleton.mp h
          rw [String.intercalate_singleton]
          exact refl text
      | cons second rest =>
          rw [String.intercalate_cons_cons]
          rcases List.mem_cons.mp h with rfl | h
          · exact ((refl text).append_right _).append_right _
          · exact (ih h).append_left _

end Contains

namespace Script.Value

/-! ## Keys to a value -/

/-- A value is found in another one along the keys of objects. -/
inductive Follows : Value → List String → Value → Prop
  | self (v : Value) : Follows v [] v
  | property {ps : List (String × Value)} {key : String} {v w : Value} {path : List String} :
      (key, v) ∈ ps → Follows v path w → Follows (.object ps) (key :: path) w

lemma Follows.append {u v w : Value} {path path' : List String} (h : Follows u path v)
    (h' : Follows v path' w) : Follows u (path ++ path') w := by
  induction h with
  | self => exact h'
  | property hmem _ ih => exact .property hmem (ih h')

/-- Each property has a line with its key and its value. -/
lemma mem_propertyLines {ps : List (String × Value)} {key : String} {v : Value} (h : (key, v) ∈ ps)
    (depth : Nat) :
    indentation depth ++ propertyKey key ++ ": " ++ v.layout depth ∈ propertyLines depth ps := by
  induction ps with
  | nil => simp at h
  | cons p ps ih =>
      obtain ⟨key', v'⟩ := p
      rw [propertyLines]
      rcases List.mem_cons.mp h with heq | h
      · obtain ⟨rfl, rfl⟩ := Prod.mk.inj heq
        exact List.mem_cons_self
      · exact List.mem_cons_of_mem _ (ih h)

/-- The text of an object has each key in front of its value. -/
lemma contains_property {ps : List (String × Value)} {key : String} {v : Value} (h : (key, v) ∈ ps)
    (depth : Nat) :
    Contains ((object ps).layout depth) (propertyKey key ++ ": " ++ v.layout (depth + 1)) := by
  have hline : Contains (indentation (depth + 1) ++ propertyKey key ++ ": " ++ v.layout (depth + 1))
      (propertyKey key ++ ": " ++ v.layout (depth + 1)) :=
    ⟨indentation (depth + 1), "", by simp [String.append_assoc]⟩
  have hlines := (Contains.intercalate (mem_propertyLines h (depth + 1)) ",\n").trans hline
  rw [layout]
  exact (((hlines.append_left _).append_right _).append_right _).append_right _

/-- **A value stands behind its key** in the text of all that it is found in. -/
lemma Follows.text {u v : Value} {path : List String} {key : String}
    (h : Follows u (path ++ [key]) v) (depth : Nat) :
    ∃ depth', Contains (u.layout depth) (propertyKey key ++ ": " ++ v.layout depth') := by
  induction path generalizing u depth with
  | nil =>
      cases h with
      | property hmem hrest =>
          cases hrest
          exact ⟨depth + 1, contains_property hmem depth⟩
  | cons first path ih =>
      cases h with
      | property hmem hrest =>
          obtain ⟨depth', hinner⟩ := ih hrest (depth + 1)
          exact ⟨depth', ((contains_property hmem depth).trans
            ((Contains.refl _).append_left _)).trans hinner⟩

end Script.Value

namespace Output

open Script

/-! ## States -/

/-- The keys to a state, given the names of the states around it and its own. -/
def statePath (names : List String) : List String := names.flatMap fun name => ["states", name]

/-- The object of a state with the given trees below it. -/
def stateObject (s : State) (children : List Tree) : Value :=
  .object (finalProperty s ++ (sections children).flatMap Section.properties)

/-- Each state of a row has an object under its name. -/
lemma mem_stateProperties {ts : List Tree} {t : Tree} {s : State} (ht : t ∈ ts)
    (hs : t.payload = .state s) : (s.name, stateObject s t.children) ∈ stateProperties ts := by
  induction ts with
  | nil => simp at ht
  | cons u us ih =>
      obtain ⟨id, payload, children⟩ := u
      rcases List.mem_cons.mp ht with rfl | hrest
      · obtain rfl : payload = .state s := hs
        rw [stateProperties_state]
        exact List.mem_cons_self
      · cases payload with
        | state s' =>
            rw [stateProperties_state]
            exact List.mem_cons_of_mem _ (ih hrest)
        | _ =>
            simp only [stateProperties]
            exact ih hrest

/-- The states of a machine are found in its properties. -/
lemma mem_machineProperties {ts : List Tree} {t : Tree} {s : State} (ht : t ∈ ts)
    (hs : t.payload = .state s) (m : Machine) :
    ("states", .object (stateProperties ts)) ∈ machineProperties m (stateProperties ts) := by
  have hmem := mem_stateProperties ht hs
  have hne : (stateProperties ts).isEmpty = false := by
    rw [List.isEmpty_eq_false_iff]
    exact List.ne_nil_of_mem hmem
  rw [machineProperties, hne]
  simp

/-- **A state is found among the properties of its machine**, one step further down. -/
lemma follows_stateObject {ts : List Tree} {t : Tree} {s : State} (ht : t ∈ ts)
    (hs : t.payload = .state s) {ps : List (String × Value)}
    (hps : ("states", .object (stateProperties ts)) ∈ ps) :
    (Value.object ps).Follows (statePath [s.name]) (stateObject s t.children) :=
  .property hps (.property (mem_stateProperties ht hs) (.self _))

/-! ## Sections -/

/-- What has nothing to do with transitions is written as it is. -/
lemma Section.others_subset (part : Section) : part.others ⊆ part.properties := by
  cases part with
  | other ps => exact List.Subset.refl ps
  | _ => exact List.nil_subset _

/-- The states of a nested machine are found in the object of the state above it. -/
lemma mem_sections_machine {ts us : List Tree} {t u : Tree} {m : Machine} {s : State} (ht : t ∈ ts)
    (hm : t.payload = .machine m) (hus : t.children = us) (hu : u ∈ us) (hs : u.payload = .state s) :
    ("states", .object (stateProperties us)) ∈ (sections ts).flatMap Section.properties := by
  subst hus
  have hother : ("states", .object (stateProperties t.children)) ∈ otherProperties t := by
    rw [otherProperties, hm]
    exact mem_machineProperties hu hs m
  have hmem : ("states", .object (stateProperties t.children)) ∈
      (sections ts).flatMap Section.others := by
    rw [flatMap_others]
    exact List.mem_flatMap_of_mem ht hother
  obtain ⟨part, hpart, hin⟩ := List.mem_flatMap.mp hmem
  exact List.mem_flatMap_of_mem hpart (part.others_subset hin)

/-- The delayed transitions of a section. -/
def Section.delayed : Section → List (Nat × Value)
  | delays transitions => transitions
  | _ => []

lemma Section.additive_delayed : Additive delayed :=
  ⟨fun _ _ => rfl, fun _ _ => rfl, fun _ _ => rfl, rfl⟩

/-- **A delayed transition is found in an object for delays**, under the digits of its delay. -/
lemma mem_delays {ts : List Tree} {t : Tree} {u : Transition} {milliseconds : Nat} (ht : t ∈ ts)
    (hu : t.payload = .transition u) (hdelay : u.trigger = .delay milliseconds) (s : State) :
    (stateObject s ts).Follows ["delay", toString milliseconds] (transitionOf u) := by
  have hsingle : (sectionOf t).delayed = [(milliseconds, transitionOf u)] := by
    rw [sectionOf, hu]
    simp only [hdelay]
    rfl
  have hmem : (milliseconds, transitionOf u) ∈ (sections ts).flatMap Section.delayed := by
    rw [flatMap_sections ts Section.additive_delayed]
    exact List.mem_flatMap_of_mem ht (by rw [hsingle]; exact List.mem_singleton_self _)
  obtain ⟨part, hpart, hin⟩ := List.mem_flatMap.mp hmem
  cases part with
  | delays ds =>
      have hdelays : ("delay", .object (Section.delayProperties ds)) ∈
          finalProperty s ++ (sections ts).flatMap Section.properties :=
        List.mem_append_right _ (List.mem_flatMap_of_mem hpart (List.mem_singleton_self _))
      have hentry : (toString milliseconds, transitionOf u) ∈ Section.delayProperties ds := by
        rw [Section.delayProperties]
        exact List.mem_map_of_mem hin
      exact .property hdelays (.property hentry (.self _))
  | _ => simp [Section.delayed] at hin

/-! ## Statements -/

/-- Each machine of the top level has a statement. -/
lemma mem_rootStatements_machine {ts : List Tree} {t : Tree} {m : Machine} (ht : t ∈ ts)
    (hm : t.payload = .machine m) (pieces : List (List Binding)) :
    ∃ piece, machineStatement m t.children piece ∈ rootStatements pieces ts := by
  induction ts generalizing pieces with
  | nil => simp at ht
  | cons u us ih =>
      rw [rootStatements]
      rcases List.mem_cons.mp ht with rfl | ht
      · rw [hm]
        exact ⟨pieces.headD [], List.mem_cons_self⟩
      · cases u.payload with
        | importModule path =>
            obtain ⟨piece, hmem⟩ := ih ht pieces
            exact ⟨piece, List.mem_append_right _ hmem⟩
        | machine m' =>
            obtain ⟨piece, hmem⟩ := ih ht pieces.tail
            exact ⟨piece, List.mem_cons_of_mem _ hmem⟩
        | _ => exact ih ht pieces

/-- There is a statement for every machine of the top level. -/
lemma mem_statements_machine {roots : List Tree} {t : Tree} {m : Machine} (ht : t ∈ roots)
    (hm : t.payload = .machine m) (usesAssign : Bool) (library : Library) :
    ∃ options, .exportMachine m.name (configuration m t.children) options ∈
      statements usesAssign library roots := by
  obtain ⟨piece, hmem⟩ := mem_rootStatements_machine ht hm (piecesFrom [] roots)
  exact ⟨_, List.mem_append_right _ hmem⟩

/-- The text of some parts has the text of each. -/
lemma contains_part {parts : List Part} {part : Part} (h : part ∈ parts) :
    Contains (partsText parts) part.text := by
  induction parts with
  | nil => simp at h
  | cons p ps ih =>
      rw [partsText_cons]
      rcases List.mem_cons.mp h with rfl | h
      · exact (Contains.refl _).append_right _
      · exact (ih h).append_left _

/-- The text of a module has the configuration of each of its machines. -/
lemma contains_configuration {ss : List Statement} {name : Option String} {config : Value}
    {options : Option Value} (h : .exportMachine name config options ∈ ss) :
    Contains (statementsText ss) (config.layout 0) := by
  have hpart : .literal config ∈ (Statement.exportMachine name config options).parts := by
    simp [Statement.parts]
  exact contains_part (List.mem_flatMap_of_mem h hpart)

end Output

end Statechart
