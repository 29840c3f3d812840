import Statechart.Proofs.Output.Tracking

/-!
# Entering a node at a position

One lemma for each kind of node and each kind of place that it can have, and `enter_follows` for
all of them: an emitter that tracks a position in front of a tree enters the tree without a
fault, and then tracks the next position.
-/

namespace Statechart.Output

open Script

/-- Only the first state marks the machine above it. -/
lemma marked_concat (entered : List Tree) {t : Tree} (n : Node)
    (h : t.isState = true → entered.any Tree.isState = true) :
    Position.marked (entered ++ [t]) n = Position.marked entered n := by
  have hany : (entered ++ [t]).any Tree.isState = entered.any Tree.isState := by
    cases hs : t.isState with
    | false => simp [hs]
    | true => rw [h hs]; simp [hs]
  cases n <;> simp only [Position.marked, hany]

/-- A tree that is entered changes nothing above it, unless it is the first state of its machine. -/
lemma liveAbove_concat (path : List Level) (entered : List Tree) {t : Tree}
    (h : t.isState = true → entered.any Tree.isState = true) :
    Position.liveAbove path (entered ++ [t]) = Position.liveAbove path entered := by
  cases path with
  | nil => rfl
  | cons l path => rw [Position.liveAbove, Position.liveAbove, marked_concat _ _ h]

/-- The log entry with which a node is entered. -/
def enterLog (id : NodeId) : Remark := .log ⟨.debug, .emission, "enter " ++ NodeId.label id⟩

/-- A tree in a row is entered as it should be. -/
def Enters (f : Forest) (path : List Level) (entered : List Tree) (t : Tree) (rest : List Tree)
    (e : Emitter) : Prop :=
  Follows (Emission.enter t.id) () e f ⟨⟨entered, t, rest⟩ :: path, [], t.children⟩
    (enterOperations (parentPayload path) entered t)
    (enterRemarks f.location (parentPayload path) entered t)

section entering

variable {f : Forest} {roots : List Tree} (rep : f.Represents roots)
variable (shape : Tree.allShaped none roots = true)
variable {path : List Level} {entered rest : List Tree} {t : Tree} {e : Emitter}
variable (hr : Position.RowIn roots path (entered ++ t :: rest))
variable (tr : Tracks f ⟨path, entered, t :: rest⟩ e)

include tr in
/-- In front of a tree all nodes of the tree, after it and above it are live. -/
lemma live_ahead : e.forest.node? t.id = some t.payload ∧
    (∀ x ∈ Tree.allEntries t.children, e.forest.node? x.1 = some x.2) ∧
    (∀ x ∈ Tree.allEntries rest, e.forest.node? x.1 = some x.2) ∧
    ∀ x ∈ Position.liveAbove path entered, e.forest.node? x.1 = some x.2 := by
  have live := tr.live
  simp only [Position.live, Tree.allEntries_cons, List.mem_append, List.mem_cons] at live
  exact ⟨live (t.id, t.payload) (.inl (.inl (.inl rfl))),
    fun x hx => live x (.inl (.inl (.inr hx))), fun x hx => live x (.inl (.inr hx)),
    fun x hx => live x (.inr hx)⟩

include tr in
/-- Unless it is the first state of a machine, a node that is entered keeps all live nodes as they
are. -/
lemma live_enter (hs : t.isState = true → entered.any Tree.isState = true) :
    ∀ x ∈ Position.live ⟨⟨entered, t, rest⟩ :: path, [], t.children⟩,
      e.forest.node? x.1 = some x.2 := by
  obtain ⟨ht, hchildren, hrest, habove⟩ := live_ahead tr
  intro x hx
  rw [Position.live, Position.liveAbove, Position.marked_nil] at hx
  simp only [Level.entered, liveAbove_concat _ _ hs, List.mem_append, List.mem_cons] at hx
  rcases hx with hx | rfl | hx | hx
  · exact hchildren x hx
  · exact ht
  · exact hrest x hx
  · exact habove x hx

include tr in
/-- The scopes stay as they are for all kinds of nodes but three. -/
lemma scopes_enter (hk : t.payload.kind ∉ [.machine, .state, .transition]) :
    e.scope :: e.enclosing = scopesAt (⟨entered, t, rest⟩ :: path) [] t.children := by
  simp only [List.mem_cons, List.not_mem_nil, or_false, not_or] at hk
  rw [tr.scopes, ← scopesAt_concat_cons path entered rest hk.2.1 hk.2.2]
  cases hp : t.payload with
  | machine m => simp [hp, Node.kind] at hk
  | state s => simp [hp, Node.kind] at hk
  | _ => simp only [scopesAt, hp]; rfl

include tr in
/-- A transition of a state has its batch open and noted, whether it is the one that opens it or
not. -/
lemma scopes_batched {u : Transition} {s : State} (ht : t.payload = .transition u)
    (hp : parentPayload path = some (.state s)) :
    e.scope = ⟨flagsOf (sharedBatch entered [t]), batchesIn entered⟩ ∧
      scopesAt (⟨entered, t, rest⟩ :: path) [] t.children =
        ⟨flagsOf (some (.ofTrigger u.trigger)),
          (batchesIn entered).set (.ofTrigger u.trigger) true⟩ :: e.enclosing := by
  have hk : t.payload.kind ≠ .binding := by simp [ht, Node.kind]
  have hb : batchOf t.payload = some (.ofTrigger u.trigger) := by rw [ht]; rfl
  obtain ⟨l, outer, rfl, hl⟩ := eq_cons_of_parentPayload hp
  have hscope := tr.scopes
  simp only [scopesAt, hl, sharedBatch_cons_eq _ _ hk] at hscope
  obtain ⟨hscope, henclosing⟩ := List.cons.inj hscope
  refine ⟨hscope, ?_⟩
  simp only [scopesAt, ht, hl, Level.entered, Level.ahead, sharedBatch_concat_cons _ _ hk,
    batchesIn_concat_transition _ hb, henclosing]
  rfl

include shape hr tr

/-- The operations on entry fit. -/
lemma exists_enter : ∃ w,
    e.writer.applyAll (enterOperations (parentPayload path) entered t) = .ok w := by
  have hfit := fitAll_enter shape hr
  rw [← tr.containers] at hfit
  obtain ⟨w, hw, -⟩ := applyAll_of_fitAll hfit
  exact ⟨w, hw⟩

/-- What has to be shown about entering a node.  The containers follow from what is written. -/
lemma enters_of_ok {e' : Emitter} {n : Node} (ht : t.payload = n)
    (henter : Emission.enterNode t.id n (e.say [enterLog t.id]) = .ok () e')
    (hw : e.writer.applyAll (enterOperations (parentPayload path) entered t) = .ok e'.writer)
    (hremarks : e'.remarks =
      e.remarks ++ enterRemarks f.location (parentPayload path) entered t)
    (hlinks : e'.forest.links = f.links) (hlocations : e'.forest.locations = f.locations)
    (hlive : ∀ x ∈ Position.live ⟨⟨entered, t, rest⟩ :: path, [], t.children⟩,
      e'.forest.node? x.1 = some x.2)
    (hscopes : e'.scope :: e'.enclosing =
      scopesAt (⟨entered, t, rest⟩ :: path) [] t.children)
    (hbindings : e'.bindings =
      (Tree.bindingOf (t.id, n)).toList.foldl (fun b x => b.register x.1 x.2) e.bindings) :
    Enters f path entered t rest e := by
  subst ht
  have hfit := fitAll_enter shape hr
  rw [← tr.containers] at hfit
  refine ⟨e', (Emission.enter_eq (live_ahead tr).1).trans henter, hw, hremarks, ?_⟩
  refine ⟨hlinks, hlocations, hlive, hscopes, ?_, containers_of_applyAll hfit hw⟩
  rw [hbindings, foldl_register, tr.bindings, pendingAt_enter]

/-! ## Specifiers, bindings, invocations and imports -/

/-- A specifier was written with its import. -/
lemma enter_specifier {imported : String} {renamed : Option String}
    (ht : t.payload = .specifier imported renamed) : Enters f path entered t rest e := by
  have hlive := live_enter tr (by simp [Tree.isState, ht, Node.isState, Node.kind])
  have hscopes := scopes_enter tr (by simp [ht, Node.kind])
  refine enters_of_ok shape hr tr ht (Emission.pure_eq () (e.say [enterLog t.id])) ?_ ?_ tr.links
    tr.locations hlive hscopes rfl
  · simp only [enterOperations, ht]
    rfl
  · simp only [enterRemarks, ht]
    rfl

/-- A binding waits for the next machine to be left. -/
lemma enter_binding {b : Binding} (ht : t.payload = .binding b) :
    Enters f path entered t rest e := by
  have hlive := live_enter tr (by simp [Tree.isState, ht, Node.isState, Node.kind])
  have hscopes := scopes_enter tr (by simp [ht, Node.kind])
  refine enters_of_ok shape hr tr ht (Emission.enterBinding_eq t.id b (e.say [enterLog t.id])) ?_
    ?_ tr.links tr.locations hlive hscopes rfl
  · simp only [enterOperations, ht]
    rfl
  · simp only [Emitter.say_remarks]
    rw [Emitter.append_append_remarks]
    simp only [enterRemarks, ht]
    rfl

/-- An invocation opens an object in its state. -/
lemma enter_invoke {service : String} (ht : t.payload = .invoke service) :
    Enters f path entered t rest e := by
  obtain ⟨w, hw⟩ := exists_enter shape hr tr
  have hw' := hw
  simp only [enterOperations, ht] at hw'
  have hlive := live_enter tr (by simp [Tree.isState, ht, Node.isState, Node.kind])
  have hscopes := scopes_enter tr (by simp [ht, Node.kind])
  refine enters_of_ok shape hr tr ht
    (Emission.enterInvoke_of_ok (e := e.say [enterLog t.id]) hw') hw ?_ tr.links tr.locations hlive
    hscopes rfl
  simp only [enterRemarks, ht]
  rfl

include rep

/-- An import writes its line. -/
lemma enter_import {source : String} (ht : t.payload = .importModule source) :
    Enters f path entered t rest e := by
  obtain ⟨w, hw⟩ := exists_enter shape hr tr
  have hnames : Emission.importedNames e.forest t.id = specifierNames t.children := by
    rw [Emission.importedNames, children_eq rep hr tr.links]
    exact filterMap_specifiers fun u hu => (live_ahead tr).2.1 _ (Tree.mem_allEntries hu)
  have hw' := hw
  simp only [enterOperations, ht] at hw'
  have hlive := live_enter tr (by simp [Tree.isState, ht, Node.isState, Node.kind])
  have hscopes := scopes_enter tr (by simp [ht, Node.kind])
  refine enters_of_ok shape hr tr ht
    (Emission.enterImport_of_ok (e := e.say [enterLog t.id]) hnames hw') hw ?_ tr.links
    tr.locations hlive hscopes rfl
  simp only [Emitter.say_remarks, Emitter.withWriter, Emitter.say_forest]
  rw [Emitter.append_append_remarks, location_eq tr.locations]
  simp only [enterRemarks, ht]
  rfl

/-! ## Machines -/

/-- A machine inside a state goes on in the object of that state, and any other one begins an
export. -/
lemma enter_machine {m : Machine} (ht : t.payload = .machine m) :
    Enters f path entered t rest e := by
  obtain ⟨w, hw⟩ := exists_enter shape hr tr
  have hw' := hw
  obtain ⟨hnode, -, -, habove⟩ := live_ahead tr
  have hnested := isNestedMachine_eq rep hr tr.links habove hnode (by rw [ht]; rfl)
  have hlive := live_enter tr (by simp [Tree.isState, ht, Node.isState, Node.kind])
  have hscopes : {} :: e.scope :: e.enclosing =
      scopesAt (⟨entered, t, rest⟩ :: path) [] t.children := by
    rw [tr.scopes, ← scopesAt_concat_cons path entered rest (by simp [ht, Node.kind])
      (by simp [ht, Node.kind])]
    simp only [scopesAt, ht]
    rfl
  have hold := mayHold_row shape hr
  rw [ht] at hold
  rcases above_machine hold with hp | ⟨s, hp⟩
  · obtain rfl := eq_nil_of_parentPayload hp
    simp only [enterOperations, ht, hp, Option.isSome_none, Bool.false_eq_true, if_false] at hw'
    refine enters_of_ok shape hr tr ht
      (Emission.enterMachine_top (e := e.say [enterLog t.id]) hnested hw') hw ?_ tr.links
      tr.locations hlive hscopes rfl
    simp only [enterRemarks, ht]
    rfl
  · obtain ⟨l, outer, rfl, hl⟩ := eq_cons_of_parentPayload hp
    rw [hp] at hnested
    have hclosed : e.scope.isOpen = {} := by
      have hscope := tr.scopes
      simp only [scopesAt, hl] at hscope
      rw [(List.cons.inj hscope).1, sharedBatch_cons_other _ _ (by simp [ht, Node.kind])
        (by rw [ht]; rfl)]
      rfl
    simp only [enterOperations, ht, hp, Option.isSome_some, if_true, List.nil_append] at hw'
    refine enters_of_ok shape hr tr ht
      (Emission.enterMachine_nested (e := e.say [enterLog t.id]) hnested hclosed hw') hw ?_
      tr.links tr.locations hlive hscopes rfl
    simp only [enterRemarks, ht]
    rfl

/-! ## States -/

omit shape in
/-- The first state of a machine marks the machine, and nothing else. -/
lemma live_enter_first {l : Level} {outer : List Level} {m : Machine} (hpath : path = l :: outer)
    (hl : l.tree.payload = .machine m) (hs : t.isState = true) :
    ∀ x ∈ Position.live ⟨⟨entered, t, rest⟩ :: path, [], t.children⟩,
      (e.forest.setNode l.tree.id (.machine { m with hasStates := true })).node? x.1 =
        some x.2 := by
  subst hpath
  obtain ⟨ht, hchildren, hrest, habove⟩ := live_ahead tr
  have hmachine := habove (l.tree.id, _) List.mem_cons_self
  have hin : Position.In roots ⟨⟨entered, t, rest⟩ :: l :: outer, [], t.children⟩ := ⟨rfl, hr⟩
  have hnodup := Position.nodup_live rep.distinct hin
  have hmarked : (l.tree.id, Node.machine { m with hasStates := true }) ∈
      Position.live ⟨⟨entered, t, rest⟩ :: l :: outer, [], t.children⟩ := by
    simp [Position.live, Position.liveAbove, Level.entered, Position.marked, hl, hs]
  intro x hx
  rw [Forest.node?_setNode hmachine]
  by_cases heq : x.1 = l.tree.id
  · rw [if_pos heq, List.inj_on_of_nodup_map hnodup hx hmarked heq]
  · rw [if_neg heq]
    simp only [Position.live, Position.liveAbove, Position.marked_nil, List.mem_append,
      List.mem_cons] at hx
    rcases hx with hx | rfl | hx | rfl | hx
    · exact hchildren x hx
    · exact ht
    · exact hrest x hx
    · exact absurd rfl heq
    · exact habove x (List.mem_cons_of_mem _ (List.mem_append.mpr hx))

/-- The first state of a machine opens the object of all states and marks the machine.  Every state
opens an object of its own. -/
lemma enter_state {s : State} (ht : t.payload = .state s) : Enters f path entered t rest e := by
  obtain ⟨w, hw⟩ := exists_enter shape hr tr
  have hw' := hw
  have hs : t.isState = true := by rw [Tree.isState, ht]; rfl
  have hold := mayHold_row shape hr
  rw [ht] at hold
  obtain ⟨m, hp⟩ := above_state hold
  obtain ⟨l, outer, rfl, hl⟩ := eq_cons_of_parentPayload hp
  have hunopened : m.hasStates = false := by
    have hrow := (Tree.allShaped_append.mp (Position.allShaped_row shape hr.2)).2
    simpa [hl, Tree.isUnopened] using (Tree.allShaped_cons.mp hrow).2.1
  have hparent : e.forest.parent t.id = some l.tree.id := by
    rw [Forest.parent, linksOf_eq tr.links, linksOf_row rep hr]
    rfl
  have hmachine : e.forest.machine? l.tree.id =
      some { m with hasStates := entered.any Tree.isState } := by
    rw [Forest.machine?, (live_ahead tr).2.2.2 (l.tree.id, _) List.mem_cons_self, hl]
    simp only [Position.marked, hunopened, Bool.false_or]
  have hscopes : { e.scope with written := {} } :: e.enclosing =
      scopesAt (⟨entered, t, rest⟩ :: l :: outer) [] t.children := by
    have hscope := tr.scopes
    simp only [scopesAt, hl] at hscope
    obtain ⟨hscope, henclosing⟩ := List.cons.inj hscope
    simp only [scopesAt, ht, hl, hscope, henclosing, sharedBatch_nil_left]
    rfl
  simp only [enterOperations, ht] at hw'
  refine enters_of_ok shape hr tr ht
    (Emission.enterState_of_ok (e := e.say [enterLog t.id]) hparent hmachine hw') hw ?_ ?_ ?_ ?_
    hscopes rfl
  · simp only [enterRemarks, ht]
    rfl
  · show Forest.links (if entered.any Tree.isState = true then e.forest else _) = _
    split
    · exact tr.links
    · rw [Forest.links_setNode]
      exact tr.links
  · show Forest.locations (if entered.any Tree.isState = true then e.forest else _) = _
    split
    · exact tr.locations
    · rw [Forest.locations_setNode]
      exact tr.locations
  · show ∀ x : NodeId × Node, x ∈ _ →
      Forest.node? (if entered.any Tree.isState = true then e.forest else _) x.1 = _
    split
    · next hany => exact live_enter tr fun _ => hany
    · exact live_enter_first (m := m) rep hr tr rfl hl hs

/-! ## Transitions -/

/-- An answer to an invocation is written, or it is left out with a warning. -/
lemma enter_answer {u : Transition} {service : String} (ht : t.payload = .transition u)
    (hp : parentPayload path = some (.invoke service)) : Enters f path entered t rest e := by
  obtain ⟨w, hw⟩ := exists_enter shape hr tr
  have hw' := hw
  have hlive := live_enter tr (by simp [Tree.isState, ht, Node.isState, Node.kind])
  have hinvoke : (some (Node.invoke service)).any Node.isInvoke = true := rfl
  obtain ⟨l, outer, rfl, hl⟩ := eq_cons_of_parentPayload hp
  have hin := inInvoke_eq rep hr tr.links (live_ahead tr).2.2.2
  rw [hp, hinvoke] at hin
  have hscopes : e.scope :: e.enclosing =
      scopesAt (⟨entered, t, rest⟩ :: l :: outer) [] t.children := by
    rw [tr.scopes]
    simp only [scopesAt, ht, hl]
  simp only [enterOperations, ht, hp, hinvoke, if_true] at hw'
  cases hk : Emission.answerKey u.trigger with
  | ok key =>
      rw [hk] at hw'
      refine enters_of_ok shape hr tr ht
        (Emission.enterTransition_answer (e := e.say [enterLog t.id]) hin hk hw') hw ?_ tr.links
        tr.locations hlive hscopes rfl
      simp only [Emitter.say_remarks, Emitter.withWriter, Emitter.say_forest]
      rw [Emitter.append_append_remarks, location_eq tr.locations]
      simp only [enterRemarks, ht, hp, hinvoke, hk, if_true]
      rfl
  | error message =>
      rw [hk] at hw'
      cases hw'
      refine enters_of_ok shape hr tr ht
        (Emission.enterTransition_refused (e := e.say [enterLog t.id]) hin hk) hw ?_ tr.links
        tr.locations hlive hscopes rfl
      simp only [Emitter.say_remarks, Emitter.say_forest]
      rw [Emitter.append_append_remarks, location_eq tr.locations]
      simp only [enterRemarks, ht, hp, hinvoke, hk, if_true]
      rfl

/-- A transition of a state goes into its batch, which it opens unless it is open. -/
lemma enter_batched {u : Transition} {s : State} (ht : t.payload = .transition u)
    (hp : parentPayload path = some (.state s)) : Enters f path entered t rest e := by
  obtain ⟨w, hw⟩ := exists_enter shape hr tr
  have hw' := hw
  have hlive := live_enter tr (by simp [Tree.isState, ht, Node.isState, Node.kind])
  have hinvoke : (some (Node.state s)).any Node.isInvoke = false := rfl
  have hin := inInvoke_eq rep hr tr.links (live_ahead tr).2.2.2
  rw [hp, hinvoke] at hin
  obtain ⟨hscope, hnext⟩ := scopes_batched tr ht hp
  simp only [enterOperations, ht, hp, hinvoke, Bool.false_eq_true, if_false] at hw'
  cases hshared : sharedBatch entered [t] with
  | some b =>
      have hbatch := eq_batchOf_of_sharedBatch (by simp [ht, Node.kind]) hshared
      rw [ht] at hbatch
      obtain rfl := Option.some.inj hbatch
      rw [hshared, if_neg (by simp), List.nil_append] at hw'
      rw [hshared] at hscope
      have hopen : e.scope.isOpen.get (.ofTrigger u.trigger) = true := by
        rw [hscope]
        exact get_flagsOf_some _
      have hscopes : e.scope :: e.enclosing =
          scopesAt (⟨entered, t, rest⟩ :: path) [] t.children := by
        rw [hnext, hscope, set_eq_self (batchesIn_of_sharedBatch hshared)]
      refine enters_of_ok shape hr tr ht
        (Emission.enterTransition_open (e := e.say [enterLog t.id]) hin hopen hw') hw ?_ tr.links
        tr.locations hlive hscopes rfl
      simp only [Emitter.say_remarks, Emitter.withWriter, Emitter.say_forest]
      rw [Emitter.append_append_remarks, location_eq tr.locations]
      simp only [enterRemarks, ht, hp, hinvoke, hshared, Bool.false_eq_true, if_false,
        reduceCtorEq, false_and, List.nil_append]
      rfl
  | none =>
      rw [hshared, if_pos rfl] at hw'
      rw [hshared] at hscope
      have hclosed : e.scope.isOpen.get (.ofTrigger u.trigger) = false := by
        rw [hscope]
        cases Batch.ofTrigger u.trigger <;> rfl
      have hscopes : ⟨e.scope.isOpen.set (.ofTrigger u.trigger) true,
            e.scope.written.set (.ofTrigger u.trigger) true⟩ :: e.enclosing =
          scopesAt (⟨entered, t, rest⟩ :: path) [] t.children := by
        rw [hnext, hscope]
        rfl
      refine enters_of_ok shape hr tr ht
        (Emission.enterTransition_closed (e := e.say [enterLog t.id]) hin hclosed hw') hw ?_
        tr.links tr.locations hlive hscopes rfl
      have hwritten : e.scope.written = batchesIn entered := by rw [hscope]
      simp only [Emitter.say_remarks, Emitter.say_forest, Emitter.say_scope, hwritten]
      rw [Emitter.append_append_remarks, location_eq tr.locations]
      simp only [enterRemarks, ht, hp, hinvoke, hshared, Bool.false_eq_true, if_false, true_and]
      rfl

/-! ## All nodes -/

/-- **Every tree is entered as it should be.** -/
lemma enters : Enters f path entered t rest e := by
  cases ht : t.payload with
  | importModule source => exact enter_import rep shape hr tr ht
  | specifier imported renamed => exact enter_specifier shape hr tr ht
  | binding b => exact enter_binding shape hr tr ht
  | invoke service => exact enter_invoke shape hr tr ht
  | machine m => exact enter_machine rep shape hr tr ht
  | state s => exact enter_state rep shape hr tr ht
  | transition u =>
      have hold := mayHold_row shape hr
      rw [ht] at hold
      rcases above_transition hold with ⟨s, hp⟩ | ⟨service, hp⟩
      · exact enter_batched rep shape hr tr ht hp
      · exact enter_answer rep shape hr tr ht hp

end entering

end Statechart.Output
