import Statechart.Proofs.Language.Shape
import Statechart.Proofs.Output.Remarks

/-!
# The keys of the objects in a module

An object that has a key twice keeps the last property of that key, and the one before it is lost.
Where can this happen in what is written for a chart?

* `Script.Value.distinctKeys` — no object in a value has a key twice, at any depth.
* `flatMap_sections` — what is read off the sections of a state is read off the trees below it.
* `RowQuiet` — nothing is warned of on entering the nodes of a row.  Then no container of a state
  is opened again (`RowQuiet.nodup_batches`), and every transition of an invocation answers it
  (`RowQuiet.answerOf`).
* `Tree.singular` — below a node, no event, no delay and no invocation comes twice.

**`distinctKeys_rows`** — below a machine or a state of which nothing is warned, no key comes twice
exactly if all nodes are singular.
-/

namespace Statechart

/-! ## Values -/

namespace Script.Value

mutual

/-- Whether no object in the value has a key twice. -/
def distinctKeys : Value → Bool
  | .token _ => true
  | .string _ => true
  | .object ps => decide ((ps.map Prod.fst).Nodup) && propertiesDistinct ps
  | .array _ es => elementsDistinct es
  | .call _ argument => argument.distinctKeys

/-- Whether no object in the values of some properties has a key twice. -/
def propertiesDistinct : List (String × Value) → Bool
  | [] => true
  | (_, v) :: ps => v.distinctKeys && propertiesDistinct ps

/-- Whether no object in some elements has a key twice. -/
def elementsDistinct : List Value → Bool
  | [] => true
  | v :: es => v.distinctKeys && elementsDistinct es

end

@[simp] lemma distinctKeys_token (text : String) : (token text).distinctKeys = true := by
  rw [distinctKeys]

@[simp] lemma distinctKeys_string (text : String) : (string text).distinctKeys = true := by
  rw [distinctKeys]

/-- No key comes twice in an object if it has none twice itself, nor has any of its values. -/
lemma distinctKeys_object {ps : List (String × Value)} : (object ps).distinctKeys = true ↔
    (ps.map Prod.fst).Nodup ∧ ∀ p ∈ ps, p.2.distinctKeys = true := by
  have hvalues : propertiesDistinct ps = true ↔ ∀ p ∈ ps, p.2.distinctKeys = true := by
    induction ps with
    | nil => simp [propertiesDistinct]
    | cons p ps ih => rw [propertiesDistinct, Bool.and_eq_true, ih, List.forall_mem_cons]
  rw [distinctKeys, Bool.and_eq_true, decide_eq_true_eq, hvalues]

/-- An array has no keys of its own. -/
lemma distinctKeys_array {lines : Bool} {es : List Value} :
    (array lines es).distinctKeys = true ↔ ∀ v ∈ es, v.distinctKeys = true := by
  rw [distinctKeys]
  induction es with
  | nil => simp [elementsDistinct]
  | cons v es ih => rw [elementsDistinct, Bool.and_eq_true, ih, List.forall_mem_cons]

end Script.Value

namespace Output

open Script

/-! ## Transitions -/

lemma distinctKeys_updateOf (a : Assignment) : (updateOf a).distinctKeys = true := by
  rw [updateOf, Value.distinctKeys, Value.distinctKeys_object]
  simp

lemma distinctKeys_guardOf {r : Reference} {v : Value} (h : guardOf r = some v) :
    v.distinctKeys = true := by
  rcases r with name | (_ | _ | _ | _ | _) <;> cases h <;> simp

lemma distinctKeys_actionOf {r : Reference} {v : Value} (h : actionOf r = some v) :
    v.distinctKeys = true := by
  rcases r with name | (_ | _ | _ | _ | _) <;> cases h <;> simp [distinctKeys_updateOf]

/-- **A transition has no key twice.** -/
lemma distinctKeys_transitionOf (t : Transition) : (transitionOf t).distinctKeys = true := by
  have hguards : ∀ v ∈ t.guards.filterMap guardOf, v.distinctKeys = true := fun v hv => by
    obtain ⟨r, -, hr⟩ := List.mem_filterMap.mp hv
    exact distinctKeys_guardOf hr
  have hactions : ∀ v ∈ t.actions.filterMap actionOf, v.distinctKeys = true := fun v hv => by
    obtain ⟨r, -, hr⟩ := List.mem_filterMap.mp hv
    exact distinctKeys_actionOf hr
  rw [transitionOf]
  generalize t.guards.filterMap guardOf = guards at hguards ⊢
  generalize t.actions.filterMap actionOf = actions at hactions ⊢
  split
  · exact Value.distinctKeys_string _
  · rw [Value.distinctKeys_object]
    rcases guards with _ | ⟨g, _ | ⟨g', guards⟩⟩ <;> by_cases hempty : actions.isEmpty = true <;>
      simp_all [conditionOf, Value.distinctKeys_array]

/-! ## Sections -/

/-- The event that a tree waits for, if it is a transition on one. -/
def eventOf (t : Tree) : Option String :=
  match t.payload with
  | .transition u =>
    match u.trigger with
    | .event name => some name
    | _ => none
  | _ => none

/-- The delay that a tree waits for, if it is a transition after one. -/
def delayOf (t : Tree) : Option Nat :=
  match t.payload with
  | .transition u =>
    match u.trigger with
    | .delay milliseconds => some milliseconds
    | _ => none
  | _ => none

namespace Section

/-- The section of a single transition. -/
def single (value : Value) : Trigger → Section
  | .event name => events [(name, value)]
  | .immediate => immediates [value]
  | .delay milliseconds => delays [(milliseconds, value)]

/-- The events of a section. -/
def eventKeys : Section → List String
  | events transitions => transitions.map Prod.fst
  | _ => []

/-- The delays of a section. -/
def delayKeys : Section → List Nat
  | delays transitions => transitions.map Prod.fst
  | _ => []

/-- The transitions of a section. -/
def values : Section → List Value
  | events transitions => transitions.map Prod.snd
  | immediates transitions => transitions
  | delays transitions => transitions.map Prod.snd
  | other _ => []

/-- The properties of a section that have nothing to do with transitions. -/
def others : Section → List (String × Value)
  | other properties => properties
  | _ => []

/-- What is read off a section is read off its transitions one at a time. -/
structure Additive {β : Type} (f : Section → List β) : Prop where
  events : ∀ p ps, f (events (p :: ps)) = f (events [p]) ++ f (events ps)
  immediates : ∀ v vs, f (immediates (v :: vs)) = f (immediates [v]) ++ f (immediates vs)
  delays : ∀ p ps, f (delays (p :: ps)) = f (delays [p]) ++ f (delays ps)
  empty : f (other []) = []

lemma additive_eventKeys : Additive eventKeys := ⟨fun _ _ => rfl, fun _ _ => rfl, fun _ _ => rfl, rfl⟩
lemma additive_delayKeys : Additive delayKeys := ⟨fun _ _ => rfl, fun _ _ => rfl, fun _ _ => rfl, rfl⟩
lemma additive_values : Additive values := ⟨fun _ _ => rfl, fun _ _ => rfl, fun _ _ => rfl, rfl⟩
lemma additive_others : Additive others := ⟨fun _ _ => rfl, fun _ _ => rfl, fun _ _ => rfl, rfl⟩

/-- It does not matter which transitions stand together. -/
lemma Additive.flatMap_addTransition {β : Type} {f : Section → List β} (h : Additive f)
    (trigger : Trigger) (value : Value) (parts : List Section) :
    (addTransition trigger value parts).flatMap f =
      f (single value trigger) ++ parts.flatMap f := by
  -- there is something to show only if the transition joins the first section
  rcases parts with _ | ⟨ps | vs | ds | _, rest⟩ <;> cases trigger <;> first
    | rfl
    | exact (congrArg (· ++ rest.flatMap f) (h.events (_, value) ps)).trans (List.append_assoc _ _ _)
    | exact (congrArg (· ++ rest.flatMap f) (h.immediates value vs)).trans (List.append_assoc _ _ _)
    | exact (congrArg (· ++ rest.flatMap f) (h.delays (_, value) ds)).trans (List.append_assoc _ _ _)

end Section

/-- The properties of a state that come from a tree below it and have nothing to do with
transitions. -/
def otherProperties (t : Tree) : List (String × Value) :=
  match t.payload with
  | .invoke service => [("invoke", invocation service t.children)]
  | .machine m => machineProperties m (stateProperties t.children)
  | _ => []

/-- The section that a tree below a state is by itself. -/
def sectionOf (t : Tree) : Section :=
  match t.payload with
  | .transition u => .single (transitionOf u) u.trigger
  | _ => .other (otherProperties t)

section observers

variable (ts : List Tree)

/-- **What is read off the sections of a row** can be read off its trees. -/
lemma flatMap_sections {β : Type} {f : Section → List β} (h : Section.Additive f) :
    (sections ts).flatMap f = ts.flatMap fun t => f (sectionOf t) := by
  induction ts with
  | nil => rw [sections]; rfl
  | cons t ts ih =>
      obtain ⟨id, payload, children⟩ := t
      rw [List.flatMap_cons, ← ih]
      cases payload with
      | transition u => rw [sections_transition, h.flatMap_addTransition]; rfl
      | invoke service => rw [sections_invoke]; rfl
      | machine m => rw [sections_machine]; rfl
      | _ =>
          rw [show sectionOf _ = .other [] from rfl, h.empty, List.nil_append]
          simp only [sections]

/-- The events of the sections are those of the trees. -/
lemma flatMap_eventKeys : (sections ts).flatMap Section.eventKeys = ts.filterMap eventOf := by
  rw [flatMap_sections ts Section.additive_eventKeys, List.filterMap_eq_flatMap_toList]
  refine List.flatMap_congr fun t _ => ?_
  rw [sectionOf, eventOf]
  cases t.payload with
  | transition u => rcases u with ⟨_ | _ | _, _, _, _⟩ <;> rfl
  | _ => rfl

/-- The delays of the sections are those of the trees. -/
lemma flatMap_delayKeys : (sections ts).flatMap Section.delayKeys = ts.filterMap delayOf := by
  rw [flatMap_sections ts Section.additive_delayKeys, List.filterMap_eq_flatMap_toList]
  refine List.flatMap_congr fun t _ => ?_
  rw [sectionOf, delayOf]
  cases t.payload with
  | transition u => rcases u with ⟨_ | _ | _, _, _, _⟩ <;> rfl
  | _ => rfl

/-- All other properties of the sections are those of the trees. -/
lemma flatMap_others : (sections ts).flatMap Section.others = ts.flatMap otherProperties := by
  rw [flatMap_sections ts Section.additive_others]
  refine List.flatMap_congr fun t _ => ?_
  rw [sectionOf]
  cases ht : t.payload with
  | transition u => rw [otherProperties, ht]; rcases u with ⟨_ | _ | _, _, _, _⟩ <;> rfl
  | _ => rfl

/-- Every transition that is written below a state has no key twice. -/
lemma distinctKeys_values : ∀ part ∈ sections ts, ∀ v ∈ part.values, v.distinctKeys = true := by
  intro part hpart v hv
  have hmem : v ∈ (sections ts).flatMap Section.values := List.mem_flatMap.mpr ⟨part, hpart, hv⟩
  rw [flatMap_sections ts Section.additive_values] at hmem
  obtain ⟨t, -, hvalue⟩ := List.mem_flatMap.mp hmem
  rw [sectionOf] at hvalue
  cases ht : t.payload with
  | transition u =>
      rw [ht] at hvalue
      have hv : v = transitionOf u := by
        cases htrigger : u.trigger <;> simpa [htrigger, Section.single, Section.values] using hvalue
      rw [hv]
      exact distinctKeys_transitionOf u
  | _ => rw [ht] at hvalue; cases hvalue

end observers

/-! ## Properties of a state -/

namespace Section

/-- The keys of sections are those of their batches and the other ones. -/
lemma keys_perm (parts : List Section) : ((parts.flatMap properties).map Prod.fst).Perm
    ((parts.filterMap batch?).map Batch.key ++ (parts.flatMap others).map Prod.fst) := by
  induction parts with
  | nil => exact .refl _
  | cons part parts ih =>
      rw [List.flatMap_cons, List.map_append]
      cases part with
      | other ps =>
          rw [List.filterMap_cons_none rfl, List.flatMap_cons, List.map_append]
          exact (ih.append_left _).trans (List.perm_append_comm_assoc _ _ _)
      | _ => exact ih.cons _

/-- The digits of a number say which number it is. -/
lemma toString_injective : Function.Injective (toString : Nat → String) := by
  intro m n h
  have hdigits : Nat.toDigits 10 m = Nat.toDigits 10 n := String.ofList_injective h
  calc m = Nat.ofDigitChars 10 (Nat.toDigits 10 m) 0 := Nat.ofDigitChars_ten_toDigits.symm
    _ = Nat.ofDigitChars 10 (Nat.toDigits 10 n) 0 := by rw [hdigits]
    _ = n := Nat.ofDigitChars_ten_toDigits

/-- Different delays have different keys. -/
lemma nodup_delayProperties (ds : List (Nat × Value)) :
    ((delayProperties ds).map Prod.fst).Nodup ↔ (ds.map Prod.fst).Nodup := by
  have hkeys : (delayProperties ds).map Prod.fst = (ds.map Prod.fst).map toString := by
    rw [delayProperties, List.map_map, List.map_map]
    rfl
  rw [hkeys, List.nodup_map_iff toString_injective]

/-- The values of a section have no key twice if its transitions have none and wait for different
things. -/
lemma distinctKeys_properties {part : Section} (h : ∀ v ∈ part.values, v.distinctKeys = true) :
    (∀ p ∈ part.properties, p.2.distinctKeys = true) ↔
      (part.eventKeys.Nodup ∧ part.delayKeys.Nodup) ∧
        ∀ p ∈ part.others, p.2.distinctKeys = true := by
  cases part with
  | events ps =>
      have hvalues : ∀ p ∈ ps, p.2.distinctKeys = true := fun p hp => h _ (List.mem_map_of_mem hp)
      rw [properties, List.forall_mem_singleton, Value.distinctKeys_object]
      simp only [eventKeys, delayKeys, others, List.nodup_nil, List.not_mem_nil, false_implies,
        implies_true, and_true]
      exact and_iff_left hvalues
  | immediates vs =>
      rw [properties, List.forall_mem_singleton, Value.distinctKeys_array]
      rw [values] at h
      simpa [eventKeys, delayKeys, others] using h
  | delays ds =>
      have hvalues : ∀ p ∈ delayProperties ds, p.2.distinctKeys = true := fun p hp => by
        obtain ⟨d, hd, rfl⟩ := List.mem_map.mp hp
        exact h _ (List.mem_map_of_mem hd)
      rw [properties, List.forall_mem_singleton, Value.distinctKeys_object, nodup_delayProperties]
      simp only [eventKeys, delayKeys, others, List.nodup_nil, List.not_mem_nil, false_implies,
        implies_true, and_true, true_and]
      exact and_iff_left hvalues
  | other ps => simp [properties, eventKeys, delayKeys, others]

/-- What at most one of some sections has anything of can be looked at section by section. -/
lemma nodup_flatMap_of_batches {β : Type} {f : Section → List β} {b : Batch}
    (hf : ∀ part, part.batch? ≠ some b → f part = []) {parts : List Section}
    (h : (parts.filterMap batch?).Nodup) :
    (∀ part ∈ parts, (f part).Nodup) ↔ (parts.flatMap f).Nodup := by
  induction parts with
  | nil => simp
  | cons part parts ih =>
      rw [List.forall_mem_cons, List.flatMap_cons]
      by_cases hpart : part.batch? = some b
      · rw [List.filterMap_cons_some hpart, List.nodup_cons] at h
        -- no other section has the batch
        have hrest : ∀ p ∈ parts, f p = [] := fun p hp =>
          hf p fun hb => h.1 (List.mem_filterMap.mpr ⟨p, hp, hb⟩)
        rw [List.flatMap_eq_nil_iff.mpr hrest, List.append_nil]
        exact and_iff_left fun p hp => by rw [hrest p hp]; exact List.nodup_nil
      · rw [hf part hpart, List.nil_append, ih (h.sublist ?_)]
        · exact and_iff_right List.nodup_nil
        · exact List.Sublist.filterMap _ (List.sublist_cons_self _ _)

end Section

/-! ## Batches that are not opened again -/

/-- A batch has been written if it was just written or had been before. -/
lemma get_set_true (f : BatchFlags) (b c : Batch) :
    (f.set b true).get c = (decide (c = b) || f.get c) := by
  rw [BatchFlags.get_set]
  by_cases h : c = b <;> simp [h]

/-- A transition goes on with the batch that is open, or its batch was not open before. -/
def Fits (entered : List Tree) (t : Tree) : Prop :=
  ∀ u, t.payload = .transition u → sharedBatch entered [t] = none →
    (batchesIn entered).get (.ofTrigger u.trigger) = false

/-- The batches of sections that follow other trees: none of them comes twice, and none but the
one that is open came before. -/
def Apart (entered ts : List Tree) : Prop :=
  ((sections ts).filterMap Section.batch?).Nodup ∧
    ∀ b ∈ (if sharedBatch entered ts = none then (sections ts).filterMap Section.batch?
      else ((sections ts).filterMap Section.batch?).tail), (batchesIn entered).get b = false

/-- The batches of a row with a transition in front: that of the transition, and those of the
sections that it does not join. -/
lemma batches_addTransition (trigger : Trigger) (value : Value) (parts : List Section) :
    (addTransition trigger value parts).filterMap Section.batch? =
      .ofTrigger trigger :: if firstBatch parts = some (.ofTrigger trigger) then
        (parts.filterMap Section.batch?).tail else parts.filterMap Section.batch? := by
  rcases parts with _ | ⟨_ | _ | _ | _, rest⟩ <;> cases trigger <;> rfl

/-- A transition in front of a row. -/
lemma apart_transition {t : Tree} {u : Transition} {entered ts : List Tree}
    (ht : t.payload = .transition u)
    (hsections : sections (t :: ts) = addTransition u.trigger (transitionOf u) (sections ts))
    (hfirst : firstBatch (sections ts) = (Tree.firstWriting ts).bind batchOf)
    (hfits : Fits entered t) (ih : Apart (entered ++ [t]) ts) : Apart entered (t :: ts) := by
  have hk : t.payload.kind ≠ .binding := by simp [ht, Node.kind]
  have hb : batchOf t.payload = some (.ofTrigger u.trigger) := by rw [ht]; rfl
  rw [Apart, sharedBatch_concat_eq _ _ hk, batchesIn_concat_transition _ hb,
    sharedBatch_transition hk hb hfirst] at ih
  rw [Apart, sharedBatch_cons_eq _ _ hk, hsections, batches_addTransition]
  obtain ⟨hnodup, hbefore⟩ := ih
  -- the batches behind that of the transition are others, and did not come before
  generalize hlater : (if firstBatch (sections ts) = some (.ofTrigger u.trigger) then
    ((sections ts).filterMap Section.batch?).tail else (sections ts).filterMap Section.batch?) = later
  have hnew : later.Nodup ∧ ∀ b ∈ later,
      b ≠ .ofTrigger u.trigger ∧ (batchesIn entered).get b = false := by
    simp only [get_set_true, Bool.or_eq_false_iff, decide_eq_false_iff_not] at hbefore
    by_cases hjoin : firstBatch (sections ts) = some (.ofTrigger u.trigger)
    · rw [if_pos hjoin] at hlater
      rw [if_pos hjoin.symm, if_neg (Option.some_ne_none _), hlater] at hbefore
      exact ⟨hlater ▸ hnodup.sublist (List.tail_sublist _), hbefore⟩
    · rw [if_neg hjoin] at hlater
      rw [if_neg (Ne.symm hjoin), if_pos rfl, hlater] at hbefore
      exact ⟨hlater ▸ hnodup, hbefore⟩
  refine ⟨List.nodup_cons.mpr ⟨fun h => (hnew.2 _ h).1 rfl, hnew.1⟩, fun b hmem => ?_⟩
  split at hmem
  · rcases List.mem_cons.mp hmem with rfl | hmem
    · exact hfits u ht ‹_›
    · exact (hnew.2 b hmem).2
  · exact (hnew.2 b hmem).2

/-- **No batch comes twice** in a row whose transitions fit. -/
lemma apart_of_fits : ∀ (ts entered : List Tree), Tree.allShaped (some .state) ts = true →
    (∀ before t after, ts = before ++ t :: after → Fits (entered ++ before) t) → Apart entered ts
  | [], entered, _, _ => by simp [Apart]
  | .node id payload children :: ts, entered, hshape, hfits => by
      obtain ⟨hold, -, hchildren, hrest⟩ := Tree.allShaped_cons.mp hshape
      have hfirst := hfits [] _ ts rfl
      rw [List.append_nil] at hfirst
      have ih := apart_of_fits ts (entered ++ [.node id payload children]) hrest
        fun before t after hts => by
          rw [List.append_assoc]
          exact hfits (_ :: before) t after (by rw [hts]; rfl)
      cases payload with
      | transition u =>
          exact apart_transition rfl (sections_transition _ _ _ _) (firstBatch_sections hrest) hfirst ih
      | invoke service =>
          rw [Apart, sharedBatch_concat_other _ _ (by simp [Node.kind]) rfl,
            batchesIn_concat_other _ rfl] at ih
          rwa [Apart, sharedBatch_cons_other _ _ (by simp [Node.kind]) rfl, sections_invoke]
      | machine m =>
          rw [Apart, sharedBatch_concat_other _ _ (by simp [Node.kind]) rfl,
            batchesIn_concat_other _ rfl] at ih
          rwa [Apart, sharedBatch_cons_other _ _ (by simp [Node.kind]) rfl, sections_machine]
      | binding b =>
          rw [Apart, sharedBatch_concat_binding _ _ rfl, batchesIn_concat_other _ rfl] at ih
          rwa [Apart, sharedBatch_cons_binding _ _ rfl, sections_binding]
      | _ => simp [Tree.mayHold, Node.kind] at hold

/-- What is said on entering the nodes of a row are log entries. -/
def RowQuiet (locate : NodeId → Option Location) (parent : Node) (ts : List Tree) : Prop :=
  ∀ before t after, ts = before ++ t :: after →
    ∀ r ∈ enterRemarks locate (some parent) before t, r.isLog = true

lemma not_isLog_warning {locate : NodeId → Option Location} {id : NodeId} {message : String} :
    ¬ ∀ r ∈ warning locate id message, r.isLog = true := by
  intro h
  have hlog := h _ (List.mem_cons_of_mem _ (List.mem_singleton_self _))
  cases hlog

/-- If nothing is warned of below a state, none of its batches is opened again. -/
lemma RowQuiet.nodup_batches {locate : NodeId → Option Location} {s : State} {ts : List Tree}
    (h : RowQuiet locate (.state s) ts) (hshape : Tree.allShaped (some .state) ts = true) :
    ((sections ts).filterMap Section.batch?).Nodup := by
  refine (apart_of_fits ts [] hshape fun before t after hts u ht hshared => ?_).1
  by_contra hopen
  have hquiet := h before t after hts
  rw [List.nil_append] at hshared hopen
  rw [Bool.not_eq_false] at hopen
  have hstate : (some (Node.state s)).any Node.isInvoke = false := rfl
  simp only [enterRemarks, ht, hshared, hopen, hstate, true_and, if_true, Bool.false_eq_true,
    if_false] at hquiet
  exact not_isLog_warning fun r hr =>
    hquiet r (List.mem_cons_of_mem _ (List.mem_append_left _ hr))

/-- If nothing is warned of below an invocation, every transition there answers it. -/
lemma RowQuiet.answerOf {locate : NodeId → Option Location} {service : String} {ts : List Tree}
    (h : RowQuiet locate (.invoke service) ts) {t : Tree} (hmem : t ∈ ts) {u : Transition}
    (ht : t.payload = .transition u) : (answerOf u.trigger).isSome = true := by
  obtain ⟨before, after, hts⟩ := List.append_of_mem hmem
  have hquiet := h before t after hts
  have hinvoke : (some (Node.invoke service)).any Node.isInvoke = true := rfl
  rw [← answerKey_eq]
  cases hkey : Emission.answerKey u.trigger with
  | ok key => rfl
  | error message =>
      simp only [enterRemarks, ht, hinvoke, if_true, hkey] at hquiet
      exact (not_isLog_warning fun r hr => hquiet r (List.mem_cons_of_mem _ hr)).elim

/-! ## Objects -/

/-- Two events can be answered. -/
lemma eq_event_of_answerOf {trigger : Trigger} (h : (answerOf trigger).isSome = true) :
    ∃ name, trigger = .event name ∧ (name = "done" ∨ name = "error") := by
  cases trigger with
  | event name =>
      refine ⟨name, rfl, ?_⟩
      by_contra hother
      rw [not_or] at hother
      simp [answerOf, hother.1, hother.2] at h
  | immediate => cases h
  | delay milliseconds => cases h

/-- The key of the answer to an event. -/
def answerName (event : String) : String := if event = "done" then "onDone" else "onError"

/-- **The answers to an invocation** have different keys if they wait for different events. -/
lemma nodup_answers {ts : List Tree}
    (h : ∀ t ∈ ts, ∀ u, t.payload = .transition u → (answerOf u.trigger).isSome = true) :
    ((answers ts).map Prod.fst).Nodup ↔ (ts.filterMap eventOf).Nodup := by
  have hevents : ∀ name ∈ ts.filterMap eventOf, name = "done" ∨ name = "error" := by
    intro name hname
    obtain ⟨t, ht, hevent⟩ := List.mem_filterMap.mp hname
    rw [eventOf] at hevent
    cases hp : t.payload with
    | transition u =>
        obtain ⟨other, htrigger, hcases⟩ := eq_event_of_answerOf (h t ht u hp)
        simp only [hp, htrigger, Option.some.injEq] at hevent
        exact hevent ▸ hcases
    | _ => simp only [hp] at hevent; cases hevent
  have hkeys : (answers ts).map Prod.fst = (ts.filterMap eventOf).map answerName := by
    rw [answers, List.map_filterMap, List.map_filterMap]
    refine List.filterMap_congr fun t ht => ?_
    rw [eventOf]
    cases hp : t.payload with
    | transition u =>
        obtain ⟨name, htrigger, rfl | rfl⟩ := eq_event_of_answerOf (h t ht u hp) <;>
          simp only [htrigger] <;> rfl
    | _ => rfl
  rw [hkeys]
  refine ⟨List.Nodup.of_map _, fun hnodup => hnodup.map_on fun a ha b hb hab => ?_⟩
  rcases hevents a ha with rfl | rfl <;> rcases hevents b hb with rfl | rfl
  · rfl
  · exact absurd hab (by decide)
  · exact absurd hab (by decide)
  · rfl

/-- No answer of an invocation has the key of its service, and none has a key twice. -/
lemma answers_keys {ts : List Tree} {p : String × Value} (h : p ∈ answers ts) :
    p.1 ≠ "src" ∧ p.2.distinctKeys = true := by
  obtain ⟨t, -, ht⟩ := List.mem_filterMap.mp h
  cases hp : t.payload with
  | transition u =>
      simp only [hp] at ht
      obtain ⟨key, hkey, rfl⟩ := Option.map_eq_some_iff.mp ht
      refine ⟨?_, distinctKeys_transitionOf u⟩
      obtain ⟨name, htrigger, rfl | rfl⟩ := eq_event_of_answerOf (by rw [hkey]; rfl) <;>
        (rw [htrigger] at hkey; cases hkey; simp)
  | _ => simp only [hp] at ht; cases ht

/-- **An invocation** has no key twice if its answers wait for different events. -/
lemma distinctKeys_invocation {ts : List Tree} (service : String)
    (h : ∀ t ∈ ts, ∀ u, t.payload = .transition u → (answerOf u.trigger).isSome = true) :
    (invocation service ts).distinctKeys = true ↔ (ts.filterMap eventOf).Nodup := by
  have hsrc : "src" ∉ (answers ts).map Prod.fst := fun hmem => by
    obtain ⟨p, hp, heq⟩ := List.mem_map.mp hmem
    exact (answers_keys hp).1 heq
  have hvalues : ∀ p ∈ answers ts, p.2.distinctKeys = true := fun p hp => (answers_keys hp).2
  rw [invocation, Value.distinctKeys_object, List.map_cons, List.nodup_cons, nodup_answers h,
    List.forall_mem_cons]
  exact ⟨fun hall => hall.1.2, fun hnodup => ⟨⟨hsrc, hnodup⟩, Value.distinctKeys_token _, hvalues⟩⟩

section keys

variable (ts : List Tree)

/-- The keys that have nothing to do with transitions: one for each invocation, and those of the
machines. -/
lemma otherKeys_perm : ((ts.flatMap otherProperties).map Prod.fst).Perm
    (List.replicate (ts.countP (·.payload.isInvoke)) "invoke" ++
      ((ts.filter (·.payload.isMachine)).flatMap otherProperties).map Prod.fst) := by
  induction ts with
  | nil => exact .refl _
  | cons t ts ih =>
      rw [List.flatMap_cons, List.map_append, List.countP_cons, List.filter_cons]
      cases ht : t.payload with
      | invoke service =>
          have hkeys : (otherProperties t).map Prod.fst = ["invoke"] := by
            rw [otherProperties, ht]
            rfl
          rw [hkeys]
          exact ih.cons _
      | machine m =>
          have hmachine : (Node.machine m).isMachine = true := rfl
          rw [if_pos hmachine, List.flatMap_cons, List.map_append]
          exact (ih.append_left _).trans (List.perm_append_comm_assoc _ _ _)
      | _ =>
          have hkeys : (otherProperties t).map Prod.fst = [] := by
            rw [otherProperties, ht]
            rfl
          rw [hkeys]
          exact ih

lemma machineKeys_sublist (m : Machine) (states : List (String × Value)) :
    ((machineProperties m states).map Prod.fst).Sublist ["initial", "states"] := by
  rw [machineProperties, initialProperty]
  cases m.initial <;> cases states.isEmpty <;> simp

/-- There is one machine at most, so there is one object of inner states at most. -/
lemma otherKeys_sublist {ts : List Tree} (h : ts.countP (·.payload.isMachine) ≤ 1) :
    (((ts.filter (·.payload.isMachine)).flatMap otherProperties).map Prod.fst).Sublist
      ["initial", "states"] := by
  rw [List.countP_eq_length_filter] at h
  have hmem : ∀ t ∈ ts.filter (·.payload.isMachine), t.payload.isMachine = true := fun t ht =>
    (List.mem_filter.mp ht).2
  generalize ts.filter (·.payload.isMachine) = ms at h hmem
  rcases ms with _ | ⟨t, _ | ⟨u, ms⟩⟩
  · exact List.nil_sublist _
  · have ht := hmem t List.mem_cons_self
    rw [List.flatMap_singleton, otherProperties]
    cases hp : t.payload with
    | machine m => exact machineKeys_sublist _ _
    | _ => rw [hp] at ht; cases ht
  · simp at h

lemma key_injective : Function.Injective Batch.key := by
  intro b c h
  cases b <;> cases c <;> first | rfl | exact absurd h (by decide)

/-- Different batches have some of three keys. -/
lemma batchKeys_subperm {bs : List Batch} (h : bs.Nodup) :
    (bs.map Batch.key).Subperm ["on", "always", "delay"] := by
  refine List.subperm_of_subset (h.map key_injective) fun k hk => ?_
  obtain ⟨b, -, rfl⟩ := List.mem_map.mp hk
  cases b <;> simp [Batch.key]

/-- **The keys of a state** are different if no batch is opened again and there is one invocation
at most. -/
lemma nodup_stateKeys (s : State) {ts : List Tree}
    (hbatches : ((sections ts).filterMap Section.batch?).Nodup)
    (hmachines : ts.countP (·.payload.isMachine) ≤ 1) :
    ((finalProperty s ++ (sections ts).flatMap Section.properties).map Prod.fst).Nodup ↔
      ts.countP (·.payload.isInvoke) ≤ 1 := by
  have hperm : ((finalProperty s ++ (sections ts).flatMap Section.properties).map Prod.fst).Perm
      ((finalProperty s).map Prod.fst ++ (((sections ts).filterMap Section.batch?).map Batch.key ++
        (List.replicate (ts.countP (·.payload.isInvoke)) "invoke" ++
          ((ts.filter (·.payload.isMachine)).flatMap otherProperties).map Prod.fst))) := by
    rw [List.map_append]
    refine ((Section.keys_perm _).trans ?_).append_left _
    rw [flatMap_others]
    exact (otherKeys_perm ts).append_left _
  rw [hperm.nodup_iff]
  constructor
  · intro h
    have hinvokes := (List.nodup_append.mp (List.nodup_append.mp (List.nodup_append.mp h).2.1).2.1).1
    exact List.nodup_replicate.mp hinvokes
  · intro h
    -- all keys are among seven different ones, and each part has some of its own
    have hfinal : ((finalProperty s).map Prod.fst).Sublist ["type"] := by
      rw [finalProperty]
      split <;> simp
    have hinvoke : (List.replicate (ts.countP (·.payload.isInvoke)) "invoke").Sublist ["invoke"] :=
      (List.replicate_sublist_replicate "invoke").mpr h
    obtain ⟨keys, hkeys, hall⟩ := hfinal.subperm.append
      ((batchKeys_subperm hbatches).append
        (hinvoke.subperm.append (otherKeys_sublist hmachines).subperm))
    refine hkeys.nodup_iff.mp (List.Nodup.sublist hall ?_)
    decide

/-- **A state** has no key twice, at any depth, exactly if its transitions wait for different
events and different delays, it invokes one service at most, and what else hangs below it has no
key twice. -/
lemma distinctKeys_state (s : State) {ts : List Tree}
    (hbatches : ((sections ts).filterMap Section.batch?).Nodup)
    (hmachines : ts.countP (·.payload.isMachine) ≤ 1) :
    (Value.object (finalProperty s ++ (sections ts).flatMap Section.properties)).distinctKeys = true ↔
      (ts.countP (·.payload.isInvoke) ≤ 1 ∧ (ts.filterMap eventOf).Nodup ∧
        (ts.filterMap delayOf).Nodup) ∧
        ∀ t ∈ ts, ∀ p ∈ otherProperties t, p.2.distinctKeys = true := by
  have hfinal : ∀ p ∈ finalProperty s, p.2.distinctKeys = true := by
    rw [finalProperty]
    split <;> simp
  have hevents := Section.nodup_flatMap_of_batches (f := Section.eventKeys) (b := .on)
    (fun part hpart => by cases part <;> first | rfl | exact absurd rfl hpart) hbatches
  have hdelays := Section.nodup_flatMap_of_batches (f := Section.delayKeys) (b := .delay)
    (fun part hpart => by cases part <;> first | rfl | exact absurd rfl hpart) hbatches
  have hothers : (∀ part ∈ sections ts, ∀ p ∈ part.others, p.2.distinctKeys = true) ↔
      ∀ t ∈ ts, ∀ p ∈ otherProperties t, p.2.distinctKeys = true := by
    rw [← List.forall_mem_flatMap, ← List.forall_mem_flatMap, flatMap_others]
  have hsections : (∀ p ∈ (sections ts).flatMap Section.properties, p.2.distinctKeys = true) ↔
      ((ts.filterMap eventOf).Nodup ∧ (ts.filterMap delayOf).Nodup) ∧
        ∀ t ∈ ts, ∀ p ∈ otherProperties t, p.2.distinctKeys = true := by
    rw [List.forall_mem_flatMap, ← hothers, ← flatMap_eventKeys, ← flatMap_delayKeys, ← hevents,
      ← hdelays, ← forall₂_and, ← forall₂_and]
    exact forall₂_congr fun part hpart =>
      Section.distinctKeys_properties (distinctKeys_values ts part hpart)
  rw [Value.distinctKeys_object, nodup_stateKeys s hbatches hmachines, List.forall_mem_append,
    hsections]
  tauto

end keys

end Output

/-- The transitions below the node wait for different events and for different delays, and there
is one invocation at most. -/
def Tree.singular (t : Tree) : Bool :=
  decide (t.children.countP (·.payload.isInvoke) ≤ 1) &&
    (decide (t.children.filterMap Output.eventOf).Nodup &&
      decide (t.children.filterMap Output.delayOf).Nodup)

namespace Output

open Script

lemma singular_iff {t : Tree} : t.singular = true ↔ t.children.countP (·.payload.isInvoke) ≤ 1 ∧
    (t.children.filterMap eventOf).Nodup ∧ (t.children.filterMap delayOf).Nodup := by
  simp [Tree.singular]

/-- Where no transition and no invocation hangs below a node, nothing can come twice. -/
lemma singular_of_none {t : Tree} (h : ∀ u ∈ t.children, u.payload.kind ≠ .transition ∧
    u.payload.kind ≠ .invoke) : t.singular = true := by
  have hevents : t.children.filterMap eventOf = [] := List.filterMap_eq_nil_iff.mpr fun u hu => by
    rw [eventOf]
    cases hp : u.payload with
    | transition d => exact absurd (by rw [hp]; rfl) (h u hu).1
    | _ => rfl
  have hdelays : t.children.filterMap delayOf = [] := List.filterMap_eq_nil_iff.mpr fun u hu => by
    rw [delayOf]
    cases hp : u.payload with
    | transition d => exact absurd (by rw [hp]; rfl) (h u hu).1
    | _ => rfl
  have hinvokes : t.children.countP (·.payload.isInvoke) = 0 := List.countP_eq_zero.mpr fun u hu => by
    simpa [Node.isInvoke] using (h u hu).2
  rw [singular_iff, hevents, hdelays, hinvokes]
  exact ⟨Nat.zero_le 1, List.nodup_nil, List.nodup_nil⟩

/-- A node without children is singular, and so is all that is inside it. -/
lemma singular_leaf {t : Tree} (h : t.children = []) :
    t.singular = true ∧ ∀ u ∈ Tree.allWithin t.children, u.singular = true := by
  refine ⟨singular_of_none (by simp [h]), by simp [h]⟩

/-- A row of nodes that can hold nothing. -/
lemma singular_leaves {k : Kind} (hk : k ∈ [.binding, .transition, .specifier])
    {parent : Option Kind} {ts : List Tree} (hshape : Tree.allShaped parent ts = true)
    (hkind : ∀ u ∈ ts, u.payload.kind = k) : ∀ u ∈ Tree.allWithin ts, u.singular = true := by
  refine Tree.forall_allWithin.mpr fun u hu => Tree.forall_within.mpr (singular_leaf ?_)
  have hchildren := (Tree.allShaped_of_mem hshape hu).2
  rw [hkind u hu] at hchildren
  exact eq_nil_of_allShaped hk hchildren

/-! ## All rows -/

/-- The names of the states are their keys. -/
lemma map_fst_stateProperties {ts : List Tree} (h : Tree.allShaped (some .machine) ts = true) :
    (stateProperties ts).map Prod.fst = Tree.stateNames ts := by
  induction ts with
  | nil => rw [stateProperties_nil]; rfl
  | cons t ts ih =>
      obtain ⟨id, payload, children⟩ := t
      obtain ⟨hold, -, -, hrest⟩ := Tree.allShaped_cons.mp h
      cases payload with
      | state s => rw [stateProperties_state, List.map_cons, ih hrest]; rfl
      | binding b => rw [stateProperties_binding, ih hrest]; rfl
      | _ => simp [Tree.mayHold, Node.kind] at hold

/-- In the properties of a machine no key comes twice exactly if its states have different names and
in none of them a key comes twice. -/
lemma distinctKeys_machineProperties (m : Machine) (states : List (String × Value)) :
    (∀ p ∈ machineProperties m states, p.2.distinctKeys = true) ↔
      (states.map Prod.fst).Nodup ∧ ∀ p ∈ states, p.2.distinctKeys = true := by
  have hinitial : ∀ p ∈ initialProperty m, p.2.distinctKeys = true := by
    rw [initialProperty]
    cases m.initial <;> simp
  rw [machineProperties, List.forall_mem_append]
  cases states with
  | nil => simpa using hinitial
  | cons p ps =>
      rw [if_neg (by simp), List.forall_mem_singleton, Value.distinctKeys_object]
      exact and_iff_right hinitial

/-- What is known of a node of a chart of which nothing was warned. -/
structure Settled (locate : NodeId → Option Location) (t : Tree) : Prop where
  quiet : RowQuiet locate t.payload t.children
  orderly : t.Orderly

/-- What is to be shown about a row below a machine. -/
def StatesDistinct (ts : List Tree) : Prop :=
  (∀ p ∈ stateProperties ts, p.2.distinctKeys = true) ↔
    ∀ u ∈ Tree.allWithin ts, u.singular = true

/-- What is to be shown about a row below a state. -/
def PartsDistinct (ts : List Tree) : Prop :=
  (∀ t ∈ ts, ∀ p ∈ otherProperties t, p.2.distinctKeys = true) ↔
    ∀ u ∈ Tree.allWithin ts, u.singular = true

section nodes

variable {locate : NodeId → Option Location} {t : Tree}

/-- A state, given what hangs below it. -/
lemma distinctKeys_stateNode {s : State} (ht : t.payload = .state s) (h : Settled locate t)
    (hshape : Tree.allShaped (some .state) t.children = true) (below : PartsDistinct t.children) :
    (Value.object (finalProperty s ++
        (sections t.children).flatMap Section.properties)).distinctKeys = true ↔
      t.singular = true ∧ ∀ u ∈ Tree.allWithin t.children, u.singular = true := by
  have hquiet := h.quiet
  rw [ht] at hquiet
  rw [PartsDistinct] at below
  have hstate : t.isState = true := by rw [Tree.isState, ht]; rfl
  rw [distinctKeys_state s (hquiet.nodup_batches hshape) (h.orderly.machines hstate),
    singular_iff, below]

/-- A machine, given its states. -/
lemma distinctKeys_machineNode {m : Machine} (ht : t.payload = .machine m) (h : Settled locate t)
    (hshape : Tree.allShaped (some .machine) t.children = true)
    (below : StatesDistinct t.children) :
    (∀ p ∈ otherProperties t, p.2.distinctKeys = true) ↔
      t.singular = true ∧ ∀ u ∈ Tree.allWithin t.children, u.singular = true := by
  rw [StatesDistinct] at below
  have hproperties : otherProperties t = machineProperties m (stateProperties t.children) := by
    rw [otherProperties, ht]
  have hnames : ((stateProperties t.children).map Prod.fst).Nodup := by
    rw [map_fst_stateProperties hshape]
    exact h.orderly.names (by rw [ht]; rfl)
  have hself : t.singular = true := singular_of_none fun u hu => by
    have hold := (Tree.allShaped_of_mem hshape hu).1
    constructor <;> intro hk <;> simp [hk, Tree.mayHold] at hold
  rw [hproperties, distinctKeys_machineProperties, below, and_iff_right hnames, and_iff_right hself]

/-- An invocation. -/
lemma distinctKeys_invokeNode {service : String} (ht : t.payload = .invoke service)
    (h : Settled locate t) (hshape : Tree.allShaped (some .invoke) t.children = true) :
    (∀ p ∈ otherProperties t, p.2.distinctKeys = true) ↔
      t.singular = true ∧ ∀ u ∈ Tree.allWithin t.children, u.singular = true := by
  have hproperties : otherProperties t = [("invoke", invocation service t.children)] := by
    rw [otherProperties, ht]
  have hquiet := h.quiet
  rw [ht] at hquiet
  have hanswers : ∀ u ∈ t.children, ∀ d, u.payload = .transition d →
      (answerOf d.trigger).isSome = true := fun u hu d hd => hquiet.answerOf hu hd
  -- below an invocation are transitions on events, and nothing below these
  have hkind : ∀ u ∈ t.children, u.payload.kind = .transition := fun u hu => by
    simpa [Tree.mayHold] using (Tree.allShaped_of_mem hshape hu).1
  have hbelow := singular_leaves (by decide) hshape hkind
  have hinvokes : t.children.countP (·.payload.isInvoke) = 0 :=
    List.countP_eq_zero.mpr fun u hu => by simp [Node.isInvoke, hkind u hu]
  have hdelays : t.children.filterMap delayOf = [] :=
    List.filterMap_eq_nil_iff.mpr fun u hu => by
      rw [delayOf]
      cases hp : u.payload with
      | transition d =>
          obtain ⟨name, htrigger, -⟩ := eq_event_of_answerOf (hanswers u hu d hp)
          simp only [htrigger]
      | _ => rfl
  rw [hproperties, List.forall_mem_singleton, distinctKeys_invocation service hanswers, singular_iff,
    hinvokes, hdelays, and_iff_left hbelow]
  simp

end nodes

/-- **The rows of a chart of which nothing was warned**: no object that is written for them has a
key twice exactly if all their nodes are singular. -/
lemma distinctKeys_rows {locate : NodeId → Option Location} (ts : List Tree) :
    (∀ u ∈ Tree.allWithin ts, Settled locate u) →
      (Tree.allShaped (some .machine) ts = true → StatesDistinct ts) ∧
      (Tree.allShaped (some .state) ts = true → PartsDistinct ts) := by
  induction ts using Tree.row_induction with
  | nil => simp [StatesDistinct, PartsDistinct]
  | cons t ts below ih =>
      intro hsettled
      obtain ⟨⟨ht, hinside⟩, hrest⟩ := Tree.forall_allWithin_cons.mp hsettled
      constructor
      · intro hshape
        obtain ⟨hold, -, hchildren, hshape⟩ := Tree.allShaped_cons.mp hshape
        have hstates := (ih hrest).1 hshape
        rw [StatesDistinct] at hstates ⊢
        rw [Tree.forall_allWithin_cons]
        obtain ⟨id, payload, children⟩ := t
        cases payload with
        | state s =>
            have hnode := distinctKeys_stateNode rfl ht hchildren ((below hinside).2 hchildren)
            rw [stateProperties_state, List.forall_mem_cons, hstates]
            exact and_congr_left' hnode
        | binding b =>
            have hleaf := singular_leaf (t := .node id (.binding b) children)
              (eq_nil_of_allShaped (by simp [Node.kind]) hchildren)
            rw [stateProperties_binding, hstates, and_iff_right hleaf]
        | _ => simp [Tree.mayHold, Node.kind] at hold
      · intro hshape
        obtain ⟨hold, -, hchildren, hshape⟩ := Tree.allShaped_cons.mp hshape
        have hparts := (ih hrest).2 hshape
        rw [PartsDistinct] at hparts ⊢
        rw [Tree.forall_allWithin_cons, List.forall_mem_cons, hparts]
        refine and_congr_left' ?_
        cases hp : t.payload with
        | invoke service =>
            rw [hp] at hchildren
            exact distinctKeys_invokeNode hp ht hchildren
        | machine m =>
            rw [hp] at hchildren
            exact distinctKeys_machineNode hp ht hchildren ((below hinside).1 hchildren)
        | transition u =>
            have hleaf := singular_leaf (eq_nil_of_allShaped (by simp [hp, Node.kind]) hchildren)
            simpa [otherProperties, hp] using hleaf
        | binding b =>
            have hleaf := singular_leaf (eq_nil_of_allShaped (by simp [hp, Node.kind]) hchildren)
            simpa [otherProperties, hp] using hleaf
        | _ => simp [hp, Tree.mayHold, Node.kind] at hold

end Output

end Statechart
