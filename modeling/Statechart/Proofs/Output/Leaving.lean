import Statechart.Proofs.Output.Entering

/-!
# Leaving a node at a position

The counterpart of entering: an emitter that tracks a position at the end of a tree leaves the
topmost node of the tree without a fault.  The node is destroyed only after that, so the forest
stays as it was here.
-/

namespace Statechart.Output

open Script

/-- The log entry with which a node is left. -/
def leaveLog (id : NodeId) : Remark := .log ⟨.debug, .emission, "exit " ++ NodeId.label id⟩

/-- A tree in a row is left as it should be. -/
def Leaves (f : Forest) (path : List Level) (entered : List Tree) (t : Tree) (rest : List Tree)
    (e : Emitter) : Prop :=
  ∃ e', Emission.leave t.id e = .ok () e' ∧
    e.writer.applyAll (leaveOperations (parentPayload path) t rest e.bindings) = .ok e'.writer ∧
    e'.remarks = e.remarks ++ leaveRemarks f.location (parentPayload path) t e.bindings ∧
    e'.forest = e.forest ∧ e'.scope :: e'.enclosing = scopesAt path (entered ++ [t]) rest ∧
    e'.bindings = pendingAt path (entered ++ [t])

/-- There is always the scope outside of all machines. -/
lemma scopesAt_ne_nil (path : List Level) (entered ahead : List Tree) :
    scopesAt path entered ahead ≠ [] := by
  induction path generalizing entered ahead with
  | nil => simp [scopesAt]
  | cons l path ih => cases hl : l.tree.payload <;> simp [scopesAt, hl, ih]

/-- A batch goes on exactly if the next node that writes something belongs to it. -/
lemma any_isInBatch {t : Tree} {u : Transition} (ht : t.payload = .transition u)
    (rest : List Tree) :
    (Tree.firstWriting rest).any (Emission.isInBatch (.ofTrigger u.trigger)) =
      (sharedBatch [t] rest).isSome := by
  have hlast : (Tree.lastWriting [t]).bind batchOf = some (.ofTrigger u.trigger) := by
    have hk : t.payload.kind ≠ .binding := by simp [ht, Node.kind]
    rw [show Tree.lastWriting [t] = _ from Tree.lastWriting_concat [] t, if_neg hk, ht]
    rfl
  rw [sharedBatch, hlast]
  cases Tree.firstWriting rest with
  | none => rfl
  | some n =>
      have hbatch : Emission.isInBatch (.ofTrigger u.trigger) n =
          decide (some (Batch.ofTrigger u.trigger) = batchOf n) := by
        cases n <;> simp [Emission.isInBatch, batchOf, eq_comm]
      rw [Option.any_some, hbatch, Option.bind_some]
      by_cases h : some (Batch.ofTrigger u.trigger) = batchOf n
      · rw [if_pos h, decide_eq_true h]
        rfl
      · rw [if_neg h, decide_eq_false h]
        rfl

section leaving

variable {f : Forest} {roots : List Tree} (rep : f.Represents roots)
variable (shape : Tree.allShaped none roots = true)
variable {path : List Level} {entered rest : List Tree} {t : Tree} {e : Emitter}
variable (hr : Position.RowIn roots path (entered ++ t :: rest))
variable (tr : Tracks f ⟨⟨entered, t, rest⟩ :: path, t.children, []⟩ e)

include tr in
/-- At the end of a tree its topmost node and all nodes after it and above it are live. -/
lemma live_behind :
    e.forest.node? t.id = some (Position.marked t.children t.payload) ∧
    (∀ x ∈ Tree.allEntries rest, e.forest.node? x.1 = some x.2) ∧
    ∀ x ∈ Position.liveAbove path (entered ++ [t]), e.forest.node? x.1 = some x.2 := by
  have live := tr.live
  simp only [Position.live, Position.liveAbove, Tree.allEntries_nil, List.nil_append,
    List.mem_append, List.mem_cons] at live
  exact ⟨live (t.id, _) (.inl rfl), fun x hx => live x (.inr (.inl hx)),
    fun x hx => live x (.inr (.inr hx))⟩

include tr in
/-- The scopes stay as they are for all kinds of nodes but three. -/
lemma scopes_leave (hk : t.payload.kind ∉ [.machine, .state, .transition]) :
    e.scope :: e.enclosing = scopesAt path (entered ++ [t]) rest := by
  simp only [List.mem_cons, List.not_mem_nil, or_false, not_or] at hk
  rw [tr.scopes, ← scopesAt_concat_rest path entered rest hk.2.2]
  cases hp : t.payload with
  | machine m => simp [hp, Node.kind] at hk
  | state s => simp [hp, Node.kind] at hk
  | _ => simp only [scopesAt, hp]; rfl

include tr in
/-- When a machine is left, the scope around it is the one that was kept. -/
lemma scopes_leave_machine {m : Machine} (ht : t.payload = .machine m) :
    e.enclosing.headD {} :: e.enclosing.tail = scopesAt path (entered ++ [t]) rest := by
  have hscope := tr.scopes
  simp only [scopesAt, ht] at hscope
  have henclosing : e.enclosing = scopesAt path (entered ++ [t]) (t :: rest) :=
    (List.cons.inj hscope).2
  rw [← scopesAt_concat_rest path entered rest (by simp [ht, Node.kind]), henclosing]
  cases h : scopesAt path (entered ++ [t]) (t :: rest) with
  | nil => exact absurd h (scopesAt_ne_nil _ _ _)
  | cons scope scopes => rfl

include tr in
/-- Only a top-level machine takes bindings. -/
lemma bindings_leave (h : path ≠ [] ∨ t.payload.kind ≠ .machine) :
    e.bindings = pendingAt path (entered ++ [t]) := by
  have hnot : ¬(path.isEmpty && t.payload.isMachine) = true := by
    simp only [Bool.and_eq_true, List.isEmpty_iff, Node.isMachine, decide_eq_true_eq, not_and]
    intro hpath
    exact h.resolve_left (not_not.mpr hpath)
  rw [tr.bindings, pendingAt_leave path entered rest t, if_neg hnot]

include tr in
/-- How a node is left, given its payload. -/
lemma leave_eq_of_tracks :
    Emission.leave t.id e = Emission.leaveNode t.id (Position.marked t.children t.payload)
      (e.say [leaveLog t.id]) :=
  Emission.leave_eq (live_behind tr).1

include tr in
/-- Imports, specifiers and bindings have nothing to close. -/
lemma leave_quiet (hk : t.payload.kind ∈ [.importModule, .specifier, .binding]) :
    Leaves f path entered t rest e := by
  have hscopes := scopes_leave tr (by revert hk; cases t.payload <;> simp [Node.kind])
  have hbindings := bindings_leave tr (.inr (by revert hk; cases t.payload <;> simp [Node.kind]))
  refine ⟨e.say [leaveLog t.id], ?_, ?_, ?_, rfl, hscopes, hbindings⟩
  · rw [leave_eq_of_tracks tr]
    cases ht : t.payload <;> first | rfl | simp [ht, Node.kind] at hk
  · cases ht : t.payload <;>
      first | (simp only [leaveOperations, ht]; rfl) | simp [ht, Node.kind] at hk
  · cases ht : t.payload <;>
      first | (simp only [leaveRemarks, ht]; rfl) | simp [ht, Node.kind] at hk

include shape hr tr

/-- The operations on exit fit. -/
lemma exists_leave : ∃ w,
    e.writer.applyAll (leaveOperations (parentPayload path) t rest e.bindings) = .ok w := by
  have hfit := fitAll_leave shape e.bindings hr
  rw [← tr.containers] at hfit
  obtain ⟨w, hw, -⟩ := applyAll_of_fitAll hfit
  exact ⟨w, hw⟩

/-- Leaving an invocation closes its object. -/
lemma leave_invoke {service : String} (ht : t.payload = .invoke service) :
    Leaves f path entered t rest e := by
  obtain ⟨w, hw⟩ := exists_leave shape hr tr
  have hscopes := scopes_leave tr (by simp [ht, Node.kind])
  have hbindings := bindings_leave tr (.inr (by simp [ht, Node.kind]))
  refine ⟨(e.say [leaveLog t.id]).withWriter w, ?_, hw, ?_, rfl, hscopes, hbindings⟩
  · simp only [leaveOperations, ht] at hw
    obtain ⟨u, hu, hw⟩ := Writer.applyAll_cons_eq_ok.mp hw
    cases hw
    rw [leave_eq_of_tracks tr, ht]
    exact Emission.write_of_ok (e := e.say [leaveLog t.id]) hu
  · simp only [leaveRemarks, ht]
    rfl

include rep

/-! ## Machines -/

omit shape in
/-- A machine below a state writes nothing and takes nothing. -/
lemma leave_nested {m : Machine} {s : State} (ht : t.payload = .machine m)
    (hp : parentPayload path = some (.state s)) : Leaves f path entered t rest e := by
  obtain ⟨hnode, -, habove⟩ := live_behind tr
  have hscopes := scopes_leave_machine tr ht
  have hbindings := bindings_leave tr (.inl (by rintro rfl; cases hp))
  have hnested := isNestedMachine_eq rep hr tr.links habove hnode (by rw [ht]; rfl)
  rw [hp] at hnested
  have hleave := leave_eq_of_tracks tr
  rw [ht] at hleave
  refine ⟨_, hleave.trans (Emission.leaveMachine_nested (e := e.say [leaveLog t.id]) hnested), ?_,
    ?_, rfl, hscopes, hbindings⟩
  · simp only [leaveOperations, ht, hp]
    rfl
  · simp only [leaveRemarks, ht, hp]
    rfl

/-- A top-level machine closes its call, and takes all bindings that wait. -/
lemma leave_top {m : Machine} (ht : t.payload = .machine m) (hp : parentPayload path = none) :
    Leaves f path entered t rest e := by
  obtain ⟨w, hw⟩ := exists_leave shape hr tr
  obtain ⟨hnode, -, habove⟩ := live_behind tr
  have hscopes := scopes_leave_machine tr ht
  have hnested := isNestedMachine_eq rep hr tr.links habove hnode (by rw [ht]; rfl)
  obtain rfl := eq_nil_of_parentPayload hp
  have hbindings : ({} : Bindings) = pendingAt [] (entered ++ [t]) := by
    rw [pendingAt_leave [] entered rest t]
    simp [ht, Node.isMachine, Node.kind]
  have hleave := leave_eq_of_tracks tr
  rw [ht] at hleave
  have hw' := hw
  simp only [leaveOperations, ht, hp, Option.isSome_none, Bool.false_eq_true, if_false] at hw'
  refine ⟨_, hleave.trans (Emission.leaveMachine_top (e := e.say [leaveLog t.id]) hnested hw'), hw,
    ?_, rfl, hscopes, hbindings⟩
  simp only [Emitter.say_remarks, Emitter.say_forest, Emitter.say_bindings]
  rw [Emitter.append_append_remarks, location_eq tr.locations]
  simp only [leaveRemarks, ht, hp, Option.isSome_none, Bool.false_eq_true, if_false]
  rfl

/-! ## States and transitions -/

/-- Leaving a state closes its object.  The last state of a machine closes the object of all states,
too. -/
lemma leave_state {s : State} (ht : t.payload = .state s) : Leaves f path entered t rest e := by
  obtain ⟨w, hw⟩ := exists_leave shape hr tr
  obtain ⟨-, hrest, habove⟩ := live_behind tr
  have hs : t.isState = true := by rw [Tree.isState, ht]; rfl
  have hbindings := bindings_leave tr (.inr (by simp [ht, Node.kind]))
  have hold := mayHold_row shape hr
  rw [ht] at hold
  obtain ⟨m, hp⟩ := above_state hold
  obtain ⟨l, outer, rfl, hl⟩ := eq_cons_of_parentPayload hp
  have hstates : ((e.forest.parent t.id).bind e.forest.machine?).any Machine.hasStates = true := by
    rw [Forest.parent, linksOf_eq tr.links, linksOf_row rep hr, parentId_cons, Option.bind_some,
      Forest.machine?, habove (l.tree.id, _) List.mem_cons_self, hl]
    simp [Position.marked, hs]
  have hmore : Emission.hasState e.forest (e.forest.following t.id) =
      .ok (rest.any Tree.isState) := by
    rw [following_eq rep hr tr.links]
    exact hasState_eq fun u hu => hrest _ (Tree.mem_allEntries hu)
  have hscopes : e.scope :: e.enclosing = scopesAt (l :: outer) (entered ++ [t]) rest := by
    rw [tr.scopes]
    simp only [scopesAt, ht, hl, sharedBatch_nil_right, lastStateBatches_concat, hs]
    rfl
  have hw' := hw
  simp only [leaveOperations, ht] at hw'
  have hleave := leave_eq_of_tracks tr
  rw [ht] at hleave
  refine ⟨_, hleave.trans (Emission.leaveState_of_ok (e := e.say [leaveLog t.id]) hstates hmore
    hw'), hw, ?_, rfl, hscopes, hbindings⟩
  simp only [leaveRemarks, ht]
  rfl

omit shape in
/-- Leaving a transition of an invocation closes nothing. -/
lemma leave_answer {u : Transition} {service : String} (ht : t.payload = .transition u)
    (hp : parentPayload path = some (.invoke service)) : Leaves f path entered t rest e := by
  have hbindings := bindings_leave tr (.inr (by simp [ht, Node.kind]))
  have hinvoke : (some (Node.invoke service)).any Node.isInvoke = true := rfl
  have hin := inInvoke_eq rep hr tr.links (live_behind tr).2.2
  rw [hp, hinvoke] at hin
  obtain ⟨l, outer, rfl, hl⟩ := eq_cons_of_parentPayload hp
  have hscopes : e.scope :: e.enclosing = scopesAt (l :: outer) (entered ++ [t]) rest := by
    rw [tr.scopes]
    simp only [scopesAt, ht, hl]
  have hleave := leave_eq_of_tracks tr
  rw [ht] at hleave
  refine ⟨_, hleave.trans (Emission.leaveTransition_answer (e := e.say [leaveLog t.id]) hin), ?_,
    ?_, rfl, hscopes, hbindings⟩
  · simp only [leaveOperations, ht, hp, hinvoke, Bool.true_or, if_true]
    rfl
  · simp only [leaveRemarks, ht]
    rfl

/-- The last transition of a batch closes the batch. -/
lemma leave_batched {u : Transition} {s : State} (ht : t.payload = .transition u)
    (hp : parentPayload path = some (.state s)) : Leaves f path entered t rest e := by
  obtain ⟨w, hw⟩ := exists_leave shape hr tr
  obtain ⟨-, hrest, habove⟩ := live_behind tr
  have hbindings := bindings_leave tr (.inr (by simp [ht, Node.kind]))
  have hinvoke : (some (Node.state s)).any Node.isInvoke = false := rfl
  have hin := inInvoke_eq rep hr tr.links habove
  rw [hp, hinvoke] at hin
  have hk : t.payload.kind ≠ .binding := by simp [ht, Node.kind]
  have hb : batchOf t.payload = some (.ofTrigger u.trigger) := by rw [ht]; rfl
  obtain ⟨l, outer, rfl, hl⟩ := eq_cons_of_parentPayload hp
  have hnext : Emission.firstWriting e.forest (e.forest.following t.id) =
      .ok (Tree.firstWriting rest) := by
    rw [following_eq rep hr tr.links]
    exact firstWriting_eq fun u hu => hrest _ (Tree.mem_allEntries hu)
  have hscope := tr.scopes
  simp only [scopesAt, ht, hl, Level.entered, Level.ahead, sharedBatch_concat_cons _ _ hk] at hscope
  obtain ⟨hscope, henclosing⟩ := List.cons.inj hscope
  have hopen : e.scope.isOpen.get (.ofTrigger u.trigger) = true := by
    rw [hscope]
    exact get_flagsOf_some _
  have hscopes : (if (Tree.firstWriting rest).any (Emission.isInBatch (.ofTrigger u.trigger)) then
        e.scope
      else { e.scope with isOpen := e.scope.isOpen.set (.ofTrigger u.trigger) false }) ::
        e.enclosing = scopesAt (l :: outer) (entered ++ [t]) rest := by
    rw [any_isInBatch ht]
    simp only [scopesAt, hl, sharedBatch_concat_eq _ _ hk, hscope, henclosing, Level.entered,
      Level.ahead]
    cases hshared : sharedBatch [t] rest with
    | none => simp [batchOf, set_flagsOf_some]
    | some b =>
        have hbatch := (batchOf_of_sharedBatch hk hshared).symm.trans hb
        simp [batchOf, Option.some.inj hbatch]
  have hw' := hw
  simp only [leaveOperations, ht, hp, hinvoke, Bool.false_or, ← any_isInBatch ht] at hw'
  have hleave := leave_eq_of_tracks tr
  rw [ht] at hleave
  refine ⟨_, hleave.trans (Emission.leaveTransition_of_ok (e := e.say [leaveLog t.id]) hin hnext
    hopen hw'), hw, ?_, rfl, hscopes, hbindings⟩
  simp only [leaveRemarks, ht]
  rfl

/-! ## All nodes -/

/-- **Every tree is left as it should be.** -/
lemma leaves : Leaves f path entered t rest e := by
  have hold := mayHold_row shape hr
  cases ht : t.payload with
  | importModule source => exact leave_quiet tr (by simp [ht, Node.kind])
  | specifier imported renamed => exact leave_quiet tr (by simp [ht, Node.kind])
  | binding b => exact leave_quiet tr (by simp [ht, Node.kind])
  | invoke service => exact leave_invoke shape hr tr ht
  | machine m =>
      rw [ht] at hold
      rcases above_machine hold with hp | ⟨s, hp⟩
      · exact leave_top rep shape hr tr ht hp
      · exact leave_nested rep hr tr ht hp
  | state s => exact leave_state rep shape hr tr ht
  | transition u =>
      rw [ht] at hold
      rcases above_transition hold with ⟨s, hp⟩ | ⟨service, hp⟩
      · exact leave_batched rep shape hr tr ht hp
      · exact leave_answer rep hr tr ht hp

end leaving

end Statechart.Output
