import Statechart.Proofs.Output.Plan

/-!
# How the plan changes in a step

The functions of a position — open containers, scopes, waiting bindings, remaining operations —
at the position after a step, in terms of those before it.

* `fitAll_enter`, `fitAll_leave` — what is written in a step fits the open containers, and leaves
  open what the next position says.
* `scopesAt_…`, `pendingAt_…` — scopes and bindings.
* `remaining_enter`, `remaining_leave` — a step writes the first of the remaining operations.
-/

namespace Statechart.Output

open Script

/-! ## Batches -/

@[simp] lemma sharedBatch_nil_left (ahead : List Tree) : sharedBatch [] ahead = none := by
  rw [sharedBatch, Tree.lastWriting_nil, Option.bind_none, ite_self]

@[simp] lemma sharedBatch_nil_right (entered : List Tree) : sharedBatch entered [] = none := by
  simp [sharedBatch]

lemma batchOf_eq_none {n : Node} (h : n.kind ≠ .transition) : batchOf n = none := by
  cases n <;> first | rfl | exact absurd rfl h

section neighbours

variable {t : Tree} (entered ahead : List Tree)

/-- Bindings do not come between two transitions. -/
lemma sharedBatch_concat_binding (h : t.payload.kind = .binding) :
    sharedBatch (entered ++ [t]) ahead = sharedBatch entered ahead := by
  simp [sharedBatch, h]

lemma sharedBatch_cons_binding (h : t.payload.kind = .binding) :
    sharedBatch entered (t :: ahead) = sharedBatch entered ahead := by
  simp [sharedBatch, h]

/-- A node that writes something and is no transition has no open batch on either side. -/
lemma sharedBatch_concat_other (h : t.payload.kind ≠ .binding) (hb : batchOf t.payload = none) :
    sharedBatch (entered ++ [t]) ahead = none := by
  simp [sharedBatch, h, hb]

lemma sharedBatch_cons_other (h : t.payload.kind ≠ .binding) (hb : batchOf t.payload = none) :
    sharedBatch entered (t :: ahead) = none := by
  simp [sharedBatch, h, hb]

/-- The batch of a transition is open while the transition is visited. -/
lemma sharedBatch_concat_cons (h : t.payload.kind ≠ .binding) :
    sharedBatch (entered ++ [t]) (t :: ahead) = batchOf t.payload := by
  simp [sharedBatch, h]

/-- Whether a transition continues a batch does not depend on what follows it. -/
lemma sharedBatch_cons_eq (h : t.payload.kind ≠ .binding) :
    sharedBatch entered (t :: ahead) = sharedBatch entered [t] := by
  simp [sharedBatch, h]

/-- Whether a batch goes on after a transition does not depend on what was before it. -/
lemma sharedBatch_concat_eq (h : t.payload.kind ≠ .binding) :
    sharedBatch (entered ++ [t]) ahead = sharedBatch [t] ahead := by
  have hl : Tree.lastWriting [t] = some t.payload := by
    simpa [h] using Tree.lastWriting_concat [] t
  simp [sharedBatch, h, hl]

/-- A node that is no transition leaves the open batch alone on entry, -/
lemma sharedBatch_enter (ht : t.payload.kind ≠ .transition) :
    sharedBatch (entered ++ [t]) (t :: ahead) = sharedBatch entered (t :: ahead) := by
  by_cases hk : t.payload.kind = .binding
  · exact sharedBatch_concat_binding _ _ hk
  · have hb := batchOf_eq_none ht
    rw [sharedBatch_concat_other _ _ hk hb, sharedBatch_cons_other _ _ hk hb]

/-- and on exit. -/
lemma sharedBatch_leave (ht : t.payload.kind ≠ .transition) :
    sharedBatch (entered ++ [t]) (t :: ahead) = sharedBatch (entered ++ [t]) ahead := by
  by_cases hk : t.payload.kind = .binding
  · exact sharedBatch_cons_binding _ _ hk
  · have hb := batchOf_eq_none ht
    rw [sharedBatch_concat_other _ _ hk hb, sharedBatch_concat_other _ _ hk hb]

end neighbours

/-- A shared batch is that of the transition on the right. -/
lemma eq_batchOf_of_sharedBatch {entered rest : List Tree} {t : Tree} {b : Batch}
    (h : t.payload.kind ≠ .binding) (hs : sharedBatch entered (t :: rest) = some b) :
    batchOf t.payload = some b := by
  simp only [sharedBatch, Tree.firstWriting_cons, if_neg h, Option.bind_some] at hs
  split at hs
  · rename_i heq
    rw [← heq, hs]
  · cases hs

/-- A shared batch is that of the transition on the left. -/
lemma batchOf_of_sharedBatch {t : Tree} {after : List Tree} {b : Batch}
    (h : t.payload.kind ≠ .binding) (hs : sharedBatch [t] after = some b) :
    batchOf t.payload = some b := by
  have hlast : Tree.lastWriting [t] = some t.payload := by
    simpa [h] using Tree.lastWriting_concat [] t
  simp only [sharedBatch, hlast, Option.bind_some] at hs
  split at hs
  · exact hs
  · cases hs

/-- A state has written a batch that it shares. -/
lemma batchesIn_of_sharedBatch {entered ahead : List Tree} {b : Batch}
    (h : sharedBatch entered ahead = some b) : (batchesIn entered).get b = true := by
  have hlast : (Tree.lastWriting entered).bind batchOf = some b := by
    simp only [sharedBatch] at h
    split at h
    · exact h
    · cases h
  have hmem : ∀ ts : List Tree, (Tree.firstWriting ts).bind batchOf = some b →
      ∃ t ∈ ts, batchOf t.payload = some b := by
    intro ts
    induction ts with
    | nil => intro h; cases h
    | cons t ts ih =>
        intro h
        rw [Tree.firstWriting_cons] at h
        split at h
        · obtain ⟨u, hu, hb⟩ := ih h
          exact ⟨u, List.mem_cons_of_mem _ hu, hb⟩
        · exact ⟨t, List.mem_cons_self, h⟩
  obtain ⟨t, ht, hb⟩ := hmem _ hlast
  have hany : (entered.any fun t => batchOf t.payload = some b) = true :=
    List.any_eq_true.mpr ⟨t, List.mem_reverse.mp ht, by simpa using hb⟩
  cases b <;> exact hany

lemma batchesIn_concat_other (entered : List Tree) {t : Tree} (h : batchOf t.payload = none) :
    batchesIn (entered ++ [t]) = batchesIn entered := by
  simp [batchesIn, h]

lemma batchesIn_concat_transition (entered : List Tree) {t : Tree} {b : Batch}
    (h : batchOf t.payload = some b) :
    batchesIn (entered ++ [t]) = (batchesIn entered).set b true := by
  cases b <;> simp [batchesIn, h, BatchFlags.set]

/-! ## What a node hangs below -/

section above

variable {p : Option Node}

lemma above_machine (h : Tree.mayHold (p.map Node.kind) .machine = true) :
    p = none ∨ ∃ s, p = some (.state s) := by
  rcases p with _ | n
  · exact .inl rfl
  · cases n <;> simp [Tree.mayHold, Node.kind] at h ⊢

lemma above_state (h : Tree.mayHold (p.map Node.kind) .state = true) :
    ∃ m, p = some (.machine m) := by
  rcases p with _ | n
  · simp [Tree.mayHold] at h
  · cases n <;> simp [Tree.mayHold, Node.kind] at h ⊢

lemma above_transition (h : Tree.mayHold (p.map Node.kind) .transition = true) :
    (∃ s, p = some (.state s)) ∨ ∃ service, p = some (.invoke service) := by
  rcases p with _ | n
  · simp [Tree.mayHold] at h
  · cases n <;> simp [Tree.mayHold, Node.kind] at h ⊢

lemma above_invoke (h : Tree.mayHold (p.map Node.kind) .invoke = true) :
    ∃ s, p = some (.state s) := by
  rcases p with _ | n
  · simp [Tree.mayHold] at h
  · cases n <;> simp [Tree.mayHold, Node.kind] at h ⊢

end above

lemma eq_nil_of_parentPayload {path : List Level} (h : parentPayload path = none) :
    path = [] := by
  cases path with
  | nil => rfl
  | cons l path => simp at h

/-- Below a node, the path has a last level. -/
lemma eq_cons_of_parentPayload {path : List Level} {n : Node}
    (h : parentPayload path = some n) :
    ∃ l outer, path = l :: outer ∧ l.tree.payload = n := by
  cases path with
  | nil => simp at h
  | cons l path => exact ⟨l, path, rfl, by simpa using h⟩

/-! ## Containers -/

/-- Opening a batch in an object. -/
@[simp] lemma fitAll_openOperations (cs : List Container) (b : Batch) :
    fitAll (.object :: cs) (openOperations b) = some (batchContainer b :: .object :: cs) := by
  cases b <;> rfl

/-- Closing a batch. -/
@[simp] lemma fit_closeOperation (cs : List Container) (b : Batch) :
    fit (batchContainer b :: cs) (closeOperation b) = some cs := by
  cases b <;> rfl

/-- A transition fits its batch. -/
@[simp] lemma fit_startOperation (cs : List Container) (trigger : Trigger) :
    fit (batchContainer (.ofTrigger trigger) :: cs) (startOperation trigger) =
      some (batchContainer (.ofTrigger trigger) :: cs) := by
  cases trigger <;> rfl

section quiet

variable {t : Tree} {path : List Level} {entered rest : List Tree}

/-- Only states and transitions change what is open around them on entry. -/
lemma containersAt_enter (hs : t.payload.kind ≠ .state) (ht : t.payload.kind ≠ .transition)
    (done ahead : List Tree) :
    containersAt (⟨entered, t, rest⟩ :: path) done ahead =
      ownContainers (parentPayload path) t.payload done ahead ++
        containersAt path entered (t :: rest) := by
  have hstate : t.isState = false := by simp [Tree.isState, Node.isState, hs]
  have haround : containersAt path (entered ++ [t]) (t :: rest) =
      containersAt path entered (t :: rest) := by
    cases path with
    | nil => rfl
    | cons l path =>
        cases hl : l.tree.payload <;>
          simp [containersAt, ownContainers, hl, hstate, sharedBatch_enter _ _ ht]
  rw [← haround]
  rfl

/-- Only states and transitions change what is open around them on exit. -/
lemma containersAt_leave (hs : t.payload.kind ≠ .state) (ht : t.payload.kind ≠ .transition)
    (done ahead : List Tree) :
    containersAt (⟨entered, t, rest⟩ :: path) done ahead =
      ownContainers (parentPayload path) t.payload done ahead ++
        containersAt path (entered ++ [t]) rest := by
  have hstate : t.isState = false := by simp [Tree.isState, Node.isState, hs]
  have haround : containersAt path (entered ++ [t]) (t :: rest) =
      containersAt path (entered ++ [t]) rest := by
    cases path with
    | nil => rfl
    | cons l path =>
        cases hl : l.tree.payload <;>
          simp [containersAt, ownContainers, hl, hstate, sharedBatch_leave _ _ ht]
  rw [← haround]
  rfl

/-- Around a node of a state that writes something and is no transition is the object of the
state. -/
lemma containersAt_state {s : State} (before after : List Tree)
    (hp : parentPayload path = some (.state s)) (hk : t.payload.kind ≠ .binding)
    (hb : batchOf t.payload = none) :
    ∃ outer, containersAt path before (t :: after) = .object :: outer := by
  obtain ⟨l, outer, rfl, hl⟩ := eq_cons_of_parentPayload hp
  refine ⟨containersAt outer l.entered l.ahead, ?_⟩
  simp [containersAt, hl, ownContainers, sharedBatch_cons_other _ _ hk hb]

end quiet

section containers

variable {roots : List Tree} (shape : Tree.allShaped none roots = true)
include shape

lemma mayHold_row {path : List Level} {entered rest : List Tree} {t : Tree}
    (hr : Position.RowIn roots path (entered ++ t :: rest)) :
    Tree.mayHold ((parentPayload path).map Node.kind) t.payload.kind = true :=
  (Tree.allShaped_cons.mp
    (Tree.allShaped_append.mp (Position.allShaped_row shape hr)).2).1

/-- Around the states of a machine is an object: its configuration, or that of the state that it
stands in, because no batch is open where a machine stands. -/
lemma containers_machine {path : List Level} {before after : List Tree} {t : Tree} {m : Machine}
    (hr : Position.RowIn roots path (before ++ t :: after)) (ht : t.payload = .machine m) :
    ∃ outer, (if (parentPayload path).isSome then [] else [Container.object]) ++
      containersAt path (before ++ [t]) (t :: after) = .object :: outer := by
  have hk : t.payload.kind = .machine := by rw [ht]; rfl
  rcases above_machine (hk ▸ mayHold_row shape hr) with hp | ⟨s, hp⟩
  · rw [hp]
    exact ⟨_, rfl⟩
  · obtain ⟨outer, houter⟩ := containersAt_state (t := t) (before ++ [t]) after hp (by simp [hk])
      (by rw [ht]; rfl)
    exact ⟨outer, by simp [hp, houter]⟩

/-- **What is written on entering a node fits, and opens what is open inside of the node.** -/
lemma fitAll_enter {path : List Level} {entered rest : List Tree} {t : Tree}
    (hr : Position.RowIn roots path (entered ++ t :: rest)) :
    fitAll (containersAt path entered (t :: rest)) (enterOperations (parentPayload path) entered t) =
      some (containersAt (⟨entered, t, rest⟩ :: path) [] t.children) := by
  have hold := mayHold_row shape hr
  cases ht : t.payload with
  | importModule source =>
      rw [containersAt_enter (by simp [ht, Node.kind]) (by simp [ht, Node.kind])]
      simp only [enterOperations, ht, ownContainers]
      split <;> simp [fit]
  | specifier imported renamed =>
      rw [containersAt_enter (by simp [ht, Node.kind]) (by simp [ht, Node.kind])]
      simp [enterOperations, ht, ownContainers]
  | binding b =>
      rw [containersAt_enter (by simp [ht, Node.kind]) (by simp [ht, Node.kind])]
      simp [enterOperations, ht, ownContainers]
  | invoke service =>
      rw [ht] at hold
      obtain ⟨s, hp⟩ := above_invoke hold
      obtain ⟨outer, houter⟩ := containersAt_state (t := t) entered rest hp
        (by simp [ht, Node.kind]) (by rw [ht]; rfl)
      rw [containersAt_enter (by simp [ht, Node.kind]) (by simp [ht, Node.kind]), houter]
      simp [enterOperations, ht, ownContainers, fit]
  | machine m =>
      rw [containersAt_enter (by simp [ht, Node.kind]) (by simp [ht, Node.kind])]
      rw [ht] at hold
      rcases above_machine hold with hp | ⟨s, hp⟩
      · obtain rfl := eq_nil_of_parentPayload hp
        simp [enterOperations, ht, containersAt, ownContainers, fit]
      · obtain ⟨outer, houter⟩ := containersAt_state (t := t) entered rest hp
          (by simp [ht, Node.kind]) (by rw [ht]; rfl)
        simp [enterOperations, ht, ownContainers, hp, houter]
  | state s =>
      have hstate : t.isState = true := by rw [Tree.isState, ht]; rfl
      rw [ht] at hold
      obtain ⟨m, hp⟩ := above_state hold
      obtain ⟨l, outer, rfl, hl⟩ := eq_cons_of_parentPayload hp
      obtain ⟨cs, hcs⟩ := containers_machine shape hr.2 hl
      simp only [enterOperations, ht, containersAt, ownContainers, hl, Level.entered, Level.ahead,
        List.any_cons, List.any_append, hstate]
      by_cases hany : entered.any Tree.isState = true
      · simp [hany, fit]
      · simp [hany, hcs, fit]
  | transition u =>
      have hk : t.payload.kind ≠ .binding := by simp [ht, Node.kind]
      have hb : batchOf t.payload = some (.ofTrigger u.trigger) := by rw [ht]; rfl
      rw [ht] at hold
      rcases above_transition hold with ⟨s, hp⟩ | ⟨service, hp⟩
      · obtain ⟨l, outer, rfl, hl⟩ := eq_cons_of_parentPayload hp
        simp only [enterOperations, ht, containersAt, ownContainers, hl, Level.entered,
          Level.ahead, parentPayload_cons, sharedBatch_concat_cons _ _ hk]
        cases hshared : sharedBatch entered (t :: rest) with
        | none =>
            rw [sharedBatch_cons_eq _ _ hk] at hshared
            simp [hshared, Node.isInvoke, Node.kind, batchOf]
        | some b =>
            have hbatch := eq_batchOf_of_sharedBatch hk hshared
            rw [hb] at hbatch
            cases hbatch
            rw [sharedBatch_cons_eq _ _ hk] at hshared
            simp [hshared, Node.isInvoke, Node.kind, batchOf]
      · obtain ⟨l, outer, rfl, hl⟩ := eq_cons_of_parentPayload hp
        simp only [enterOperations, ht, containersAt, ownContainers, hl, Level.entered,
          Level.ahead, parentPayload_cons]
        cases Emission.answerKey u.trigger <;> simp [fit, Node.isInvoke, Node.kind]

/-- **What is written on leaving a node fits, and closes all that the node has opened.** -/
lemma fitAll_leave {path : List Level} {entered rest : List Tree} {t : Tree} (bound : Bindings)
    (hr : Position.RowIn roots path (entered ++ t :: rest)) :
    fitAll (containersAt (⟨entered, t, rest⟩ :: path) t.children [])
        (leaveOperations (parentPayload path) t rest bound) =
      some (containersAt path (entered ++ [t]) rest) := by
  have hold := mayHold_row shape hr
  cases ht : t.payload with
  | importModule source =>
      rw [containersAt_leave (by simp [ht, Node.kind]) (by simp [ht, Node.kind])]
      simp [leaveOperations, ht, ownContainers]
  | specifier imported renamed =>
      rw [containersAt_leave (by simp [ht, Node.kind]) (by simp [ht, Node.kind])]
      simp [leaveOperations, ht, ownContainers]
  | binding b =>
      rw [containersAt_leave (by simp [ht, Node.kind]) (by simp [ht, Node.kind])]
      simp [leaveOperations, ht, ownContainers]
  | invoke service =>
      rw [containersAt_leave (by simp [ht, Node.kind]) (by simp [ht, Node.kind])]
      simp [leaveOperations, ht, ownContainers, fit]
  | machine m =>
      rw [containersAt_leave (by simp [ht, Node.kind]) (by simp [ht, Node.kind])]
      cases hp : (parentPayload path).isSome <;> cases hbound : bound.isEmpty <;>
        simp [leaveOperations, ht, ownContainers, fit, hp, hbound]
  | state s =>
      have hstate : t.isState = true := by rw [Tree.isState, ht]; rfl
      rw [ht] at hold
      obtain ⟨m, hp⟩ := above_state hold
      obtain ⟨l, outer, rfl, hl⟩ := eq_cons_of_parentPayload hp
      by_cases hany : rest.any Tree.isState = true <;>
        simp [leaveOperations, ht, containersAt, ownContainers, hl, Level.entered, Level.ahead,
          hstate, hany, fit]
  | transition u =>
      have hk : t.payload.kind ≠ .binding := by simp [ht, Node.kind]
      rw [ht] at hold
      rcases above_transition hold with ⟨s, hp⟩ | ⟨service, hp⟩
      · obtain ⟨l, outer, rfl, hl⟩ := eq_cons_of_parentPayload hp
        simp only [leaveOperations, ht, containersAt, ownContainers, hl, Level.entered,
          Level.ahead, parentPayload_cons, sharedBatch_concat_cons _ _ hk,
          sharedBatch_concat_eq _ _ hk]
        cases hshared : sharedBatch [t] rest with
        | none => simp [Node.isInvoke, Node.kind, batchOf]
        | some b =>
            have hlast := batchOf_of_sharedBatch hk hshared
            rw [ht] at hlast
            simp [hlast]
      · obtain ⟨l, outer, rfl, hl⟩ := eq_cons_of_parentPayload hp
        simp [leaveOperations, ht, containersAt, ownContainers, hl, Level.entered, Level.ahead,
          Node.isInvoke, Node.kind]

end containers

/-! ## Scopes -/

@[simp] lemma flagsOf_none : flagsOf none = {} := rfl

lemma get_flagsOf_some (b : Batch) : (flagsOf (some b)).get b = true := by cases b <;> rfl

lemma set_flagsOf_some (b : Batch) : (flagsOf (some b)).set b false = {} := by cases b <;> rfl

/-- To note a batch that is noted changes nothing. -/
lemma set_eq_self {f : BatchFlags} {b : Batch} {value : Bool} (h : f.get b = value) :
    f.set b value = f := by
  cases b <;> (cases h; rfl)

lemma lastStateBatches_concat (entered : List Tree) (t : Tree) :
    lastStateBatches (entered ++ [t]) =
      if t.isState then batchesIn t.children else lastStateBatches entered := by
  cases h : t.isState <;> simp [lastStateBatches, List.filter_append, h]

section scopes

variable {t : Tree} (path : List Level) (entered rest : List Tree)

/-- Only states and transitions change a scope on entry. -/
lemma scopesAt_concat_cons (hs : t.payload.kind ≠ .state) (ht : t.payload.kind ≠ .transition) :
    scopesAt path (entered ++ [t]) (t :: rest) = scopesAt path entered (t :: rest) := by
  have hstate : t.isState = false := by simp [Tree.isState, Node.isState, hs]
  cases path with
  | nil => rfl
  | cons l path =>
      simp only [scopesAt, sharedBatch_enter _ _ ht, lastStateBatches_concat, hstate,
        batchesIn_concat_other _ (batchOf_eq_none ht)]
      rfl

/-- Only states and transitions change a scope on exit. -/
lemma scopesAt_concat_rest (ht : t.payload.kind ≠ .transition) :
    scopesAt path (entered ++ [t]) (t :: rest) = scopesAt path (entered ++ [t]) rest := by
  cases path with
  | nil => rfl
  | cons l path => simp only [scopesAt, sharedBatch_leave _ _ ht]

end scopes

/-! ## Bindings -/

@[simp] lemma registerAll_nil (b : Bindings) : b.registerAll [] = b := by
  simp [Bindings.registerAll]

lemma registerAll_append (b : Bindings) (as bs : List (BindingKind × Hoisted)) :
    b.registerAll (as ++ bs) = (b.registerAll as).registerAll bs := by
  simp [Bindings.registerAll]

/-- **Bindings that are registered one by one** are added by their kinds. -/
lemma foldl_register (added : List (BindingKind × Hoisted)) : ∀ b : Bindings,
    added.foldl (fun b x => b.register x.1 x.2) b = b.registerAll added := by
  induction added with
  | nil => exact fun b => (registerAll_nil b).symm
  | cons x added ih =>
      intro b
      have hone : b.register x.1 x.2 = b.registerAll [x] := by
        obtain ⟨_ | _, h⟩ := x <;> simp [Bindings.register, Bindings.registerAll]
      rw [List.foldl_cons, ih, hone, ← registerAll_append, List.singleton_append]

lemma bindingsIn_append (ts us : List Tree) :
    Tree.bindingsIn (ts ++ us) = Tree.bindingsIn ts ++ Tree.bindingsIn us := by
  rw [Tree.bindingsIn, Position.allEntries_append, List.filterMap_append]
  rfl

/-- The bindings of a tree are its own and those below it. -/
lemma bindingsIn_singleton (t : Tree) :
    Tree.bindingsIn [t] =
      (Tree.bindingOf (t.id, t.payload)).toList ++ Tree.bindingsIn t.children := by
  simp only [Tree.bindingsIn, Tree.allEntries_cons, Tree.allEntries_nil, List.append_nil]
  rw [List.filterMap_cons]
  cases Tree.bindingOf (t.id, t.payload) <;> rfl

/-- What waits behind a further tree.  A machine has taken all. -/
lemma pendingAfter_concat (bound : Bindings) (ts : List Tree) (t : Tree) :
    pendingAfter bound (ts ++ [t]) =
      if t.payload.isMachine then {}
      else (pendingAfter bound ts).registerAll (Tree.bindingsIn [t]) := by
  induction ts generalizing bound with
  | nil => rfl
  | cons u us ih => exact ih _

/-- On entry a node adds its own binding. -/
lemma pendingAt_enter (path : List Level) (entered rest : List Tree) (t : Tree) :
    pendingAt (⟨entered, t, rest⟩ :: path) [] =
      (pendingAt path entered).registerAll (Tree.bindingOf (t.id, t.payload)).toList := by
  simp [pendingAt, Tree.bindingsIn]

/-- When a node is left, all bindings of its tree have been added. -/
lemma pendingAt_children (path : List Level) (entered rest : List Tree) (t : Tree) :
    pendingAt (⟨entered, t, rest⟩ :: path) t.children =
      (pendingAt path entered).registerAll (Tree.bindingsIn [t]) := by
  rw [pendingAt, bindingsIn_singleton]

/-- A top-level machine takes the bindings that wait, and no other node does. -/
lemma pendingAt_leave (path : List Level) (entered rest : List Tree) (t : Tree) :
    pendingAt path (entered ++ [t]) =
      if path.isEmpty && t.payload.isMachine then {}
      else pendingAt (⟨entered, t, rest⟩ :: path) t.children := by
  rw [pendingAt_children]
  cases path with
  | nil => simp [pendingAt, pendingAfter_concat]
  | cons l path => simp [pendingAt, bindingsIn_append, registerAll_append]

/-! ## Remaining operations -/

/-- Below a node, nothing that is written depends on the bindings that wait. -/
lemma leaveOperations_some (n : Node) (t : Tree) (after : List Tree) (bound bound' : Bindings) :
    leaveOperations (some n) t after bound = leaveOperations (some n) t after bound' := by
  simp [leaveOperations]

/-- **On entry the first of the remaining operations are carried out.** -/
lemma remaining_enter (path : List Level) (entered rest : List Tree) (t : Tree) :
    remaining path entered (t :: rest) =
      enterOperations (parentPayload path) entered t ++
        remaining (⟨entered, t, rest⟩ :: path) [] t.children := by
  cases path with
  | nil => simp [remaining, rootOperations, pendingAt, Level.entered]
  | cons l path =>
      have htree : treeOperations l.tree.payload entered rest t =
          enterOperations (some l.tree.payload) entered t ++
            rowOperations t.payload [] t.children ++
            leaveOperations (some l.tree.payload) t rest {} := by
        cases t
        rw [treeOperations]
        rfl
      simp only [remaining, rowOperations, htree, parentPayload_cons, List.append_assoc,
        Level.entered]
      rw [leaveOperations_some _ _ _ {}]

/-- **On exit the first of the remaining operations are carried out.** -/
lemma remaining_leave (path : List Level) (entered rest : List Tree) (t : Tree) :
    remaining (⟨entered, t, rest⟩ :: path) t.children [] =
      leaveOperations (parentPayload path) t rest
        (pendingAt (⟨entered, t, rest⟩ :: path) t.children) ++
        remaining path (entered ++ [t]) rest := by
  rw [pendingAt_children, remaining, rowOperations]
  rfl

end Statechart.Output
