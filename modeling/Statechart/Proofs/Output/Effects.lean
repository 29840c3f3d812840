import Statechart.Proofs.Output.Plan

/-!
# Running an emission

Every step of an emission is a function from emitters to results.  The lemmas here say what the
small steps do to an emitter, so that no later proof has to look into the monad.

* `Emitter.say` — the emitter with more remarks.
* `bind_of_ok` and its companions — how a `do` block is taken apart.
* `writeAll_of_ok`, `valuesOf_eq`, `warn_eq` — the steps that everything else is made of.
-/

namespace Statechart.Output

open Script

/-- The emitter with more remarks. -/
def Emitter.say (e : Emitter) (rs : List Remark) : Emitter :=
  { e with remarks := e.remarks ++ rs }

/-- The emitter with another writer. -/
def Emitter.withWriter (e : Emitter) (w : Writer) : Emitter := { e with writer := w }

namespace Emitter

@[simp] lemma say_forest (e : Emitter) (rs : List Remark) : (e.say rs).forest = e.forest := rfl
@[simp] lemma say_writer (e : Emitter) (rs : List Remark) : (e.say rs).writer = e.writer := rfl
@[simp] lemma say_scope (e : Emitter) (rs : List Remark) : (e.say rs).scope = e.scope := rfl
@[simp] lemma say_enclosing (e : Emitter) (rs : List Remark) :
    (e.say rs).enclosing = e.enclosing := rfl
@[simp] lemma say_bindings (e : Emitter) (rs : List Remark) :
    (e.say rs).bindings = e.bindings := rfl

@[simp] lemma say_nil (e : Emitter) : e.say [] = e := by
  simp [say]

@[simp] lemma say_remarks (e : Emitter) (rs : List Remark) :
    (e.say rs).remarks = e.remarks ++ rs := rfl

lemma append_append_remarks (a : Array Remark) (rs ss : List Remark) :
    a ++ rs ++ ss = a ++ (rs ++ ss) :=
  Array.ext' (by simp)

@[simp] lemma say_say (e : Emitter) (rs ss : List Remark) :
    (e.say rs).say ss = e.say (rs ++ ss) := by
  rw [say, say, say, append_append_remarks]

lemma withWriter_say (e : Emitter) (rs : List Remark) (w : Writer) :
    (e.say rs).withWriter w = (e.withWriter w).say rs := rfl

@[simp] lemma toList_remarks_say (e : Emitter) (rs : List Remark) :
    (e.say rs).remarks.toList = e.remarks.toList ++ rs := by
  simp [say]

end Emitter

namespace Emission

variable {α β : Type}

/-! ## Blocks -/

/-- The rest of a block runs from where its first step ended. -/
lemma bind_of_ok {x : Emission α} {f : α → Emission β} {e e' : Emitter} {a : α}
    (h : x e = .ok a e') : (x >>= f) e = f a e' := by
  show EStateM.bind x f e = _
  rw [EStateM.bind, h]

lemma get_bind (f : Emitter → Emission β) (e : Emitter) : (get >>= f) e = f e e := rfl

lemma modify_bind (g : Emitter → Emitter) (f : PUnit → Emission β) (e : Emitter) :
    (modify g >>= f) e = f ⟨⟩ (g e) := rfl

lemma modifyGet_bind (g : Emitter → α × Emitter) (f : α → Emission β) (e : Emitter) :
    (modifyGet g >>= f) e = f (g e).1 (g e).2 := rfl

lemma expect_bind (a : α) (f : α → Emission β) (e : Emitter) :
    (expect (.ok a) >>= f) e = f a e := rfl

lemma pure_eq (a : α) (e : Emitter) : (pure a : Emission α) e = .ok a e := rfl

/-! ## Remarks -/

lemma remark_eq (r : Remark) (e : Emitter) : remark r e = .ok () (e.say [r]) := by
  show EStateM.Result.ok () _ = EStateM.Result.ok () _
  simp [Emitter.say]

lemma log_eq (level : Log.Level) (part : Log.Part) (message : String) (e : Emitter) :
    log level part message e = .ok () (e.say [.log ⟨level, part, message⟩]) :=
  remark_eq _ e

lemma warn_eq (id : NodeId) (message : String) (e : Emitter) :
    warn id message e = .ok () (e.say (warning e.forest.location id message)) := by
  rw [warn, bind_of_ok (log_eq _ _ _ e), get_bind, remark_eq, Emitter.say_say]
  rfl

/-! ## Writing -/

lemma write_of_ok {op : Operation} {e : Emitter} {w : Writer} (h : e.writer.apply op = .ok w) :
    write op e = .ok () (e.withWriter w) := by
  rw [write, get_bind, h]
  rfl

lemma write_bind_of_ok {op : Operation} {e : Emitter} {w : Writer} {f : Unit → Emission β}
    (h : e.writer.apply op = .ok w) : (write op >>= f) e = f () (e.withWriter w) :=
  bind_of_ok (write_of_ok h)

/-- Operations that fit are carried out, and nothing but the writer changes. -/
lemma writeAll_of_ok {ops : List Operation} {e : Emitter} {w : Writer}
    (h : e.writer.applyAll ops = .ok w) : writeAll ops e = .ok () (e.withWriter w) := by
  induction ops generalizing e with
  | nil =>
      cases h
      rfl
  | cons op ops ih =>
      rw [Writer.applyAll] at h
      cases hw : e.writer.apply op with
      | error fault => rw [hw] at h; cases h
      | ok w' =>
          rw [hw] at h
          rw [writeAll, bind_of_ok (write_of_ok hw)]
          exact ih (e := e.withWriter w') h

/-- A property that fits is written. -/
lemma writeProperty_of_ok {key : String} {v : Value} {e : Emitter} {w : Writer}
    (h : e.writer.applyAll (Value.propertyOperations [(key, v)]) = .ok w) :
    writeProperty key v e = .ok () (e.withWriter w) := by
  rw [Value.propertyOperations, Value.propertyOperations, List.append_nil] at h
  exact writeAll_of_ok h

/-! ## Values -/

/-- The values of those things that have one. -/
def valuesIn (value : α → Except String Value) (as : List α) : List (α × Value) :=
  as.filterMap fun a => (value a).toOption.map fun v => (a, v)

/-- What is collected for each thing, without the thing. -/
lemma map_valuesIn (value : α → Except String Value) (entry : α → Value → β)
    (written : α → Option β)
    (h : ∀ a, (value a).toOption.map (entry a) = written a) (as : List α) :
    (valuesIn value as).map (fun x => entry x.1 x.2) = as.filterMap written := by
  rw [valuesIn, List.map_filterMap]
  refine List.filterMap_congr fun a _ => ?_
  rw [← h a, Option.map_map]
  rfl

/-- The guards of a transition that can be written. -/
lemma guards_eq (t : Transition) :
    (valuesIn guardValue t.guards).map Prod.snd = t.guards.filterMap guardOf :=
  map_valuesIn _ (fun _ v => v) _ (fun r => by rcases r with _ | (_ | _ | _ | _ | _) <;> rfl) _

/-- The actions of a transition that can be written. -/
lemma actions_eq (t : Transition) :
    (valuesIn actionValue t.actions).map Prod.snd = t.actions.filterMap actionOf :=
  map_valuesIn _ (fun _ v => v) _ (fun r => by rcases r with _ | (_ | _ | _ | _ | _) <;> rfl) _

/-- Only updates of the context take several lines. -/
lemma any_isCall (as : List Reference) :
    (as.filterMap actionOf).any isCall = as.any Reference.isAssign := by
  rw [List.any_filterMap]
  congr 1
  funext a
  rcases a with _ | (_ | _ | _ | _ | _) <;> rfl

/-- The value that is computed for a transition. -/
lemma transitionValue_eq (t : Transition) :
    transitionValue t ((valuesIn guardValue t.guards).map Prod.snd)
      ((valuesIn actionValue t.actions).map Prod.snd) = transitionOf t := by
  rw [guards_eq, actions_eq, transitionValue, transitionOf]
  have hactions : actionsProperty (t.actions.filterMap actionOf) =
      if (t.actions.filterMap actionOf).isEmpty then []
      else [("actions", .array (t.actions.any Reference.isAssign)
        (t.actions.filterMap actionOf))] := by
    rw [← any_isCall]
    cases t.actions.filterMap actionOf <;> rfl
  have hcondition : conditionProperty (t.guards.filterMap guardOf) =
      conditionOf (t.guards.filterMap guardOf) := by
    rcases t.guards.filterMap guardOf with _ | ⟨g, _ | _⟩ <;> rfl
  rw [hactions, hcondition]
  simp [Transition.isImmediate, and_assoc]

/-- The options that are computed for bindings. -/
lemma options_eq (bound : Bindings) :
    Value.object
      (optionsProperty "guards" bound.guards
          ((valuesIn hoistedGuard bound.guards).map fun (h, v) => (h.name, v)) ++
        optionsProperty "actions" bound.actions
          ((valuesIn hoistedAction bound.actions).map fun (h, v) => (h.name, v))) =
      optionsValue bound := by
  have hguards := map_valuesIn hoistedGuard (fun h v => (h.name, v)) guardEntry (fun h => by rw [hoistedGuard, guardEntry]; cases h.value <;> rfl)
    bound.guards
  have hactions := map_valuesIn hoistedAction (fun h v => (h.name, v)) actionEntry (fun h => by rw [hoistedAction, actionEntry]; cases h.value <;> rfl)
    bound.actions
  rw [hguards, hactions, optionsProperty, optionsProperty, optionsValue]

/-- The values of some things are collected in order, with a warning for each that has none. -/
lemma valuesOf_eq (origin : α → NodeId) (value : α → Except String Value) (as : List α)
    (e : Emitter) :
    valuesOf origin value as e =
      .ok (valuesIn value as) (e.say (refusals e.forest.location origin value as)) := by
  induction as generalizing e with
  | nil => simp [valuesOf, valuesIn, refusals, pure_eq]
  | cons a as ih =>
      cases hv : value a with
      | ok v =>
          simp only [valuesOf, hv]
          rw [bind_of_ok (ih e)]
          simp [valuesIn, refusals, hv, Except.toOption, pure_eq]
      | error message =>
          simp only [valuesOf, hv]
          rw [bind_of_ok (warn_eq _ _ e), ih]
          simp [valuesIn, refusals, hv, Except.toOption]

/-- Writing the value of a transition. -/
lemma writeTransition_of_ok {id : NodeId} {t : Transition} {e : Emitter} {w : Writer}
    (h : e.writer.applyAll (transitionOf t).operations = .ok w) :
    writeTransition id t e =
      .ok () ((e.withWriter w).say (transitionRefusals e.forest.location id t)) := by
  rw [writeTransition, bind_of_ok (valuesOf_eq _ _ _ e), bind_of_ok (valuesOf_eq _ _ _ _)]
  rw [Emitter.say_say, writeValue, transitionValue_eq]
  exact writeAll_of_ok h

/-! ## Nodes and batches -/

/-- A live node is found. -/
lemma node_of_some {id : NodeId} {n : Node} {e : Emitter} (h : e.forest.node? id = some n) :
    node id e = .ok n e := by
  rw [node, get_bind, Forest.node_of_node? h]
  rfl

/-- A batch that is not open need not be closed. -/
lemma closeBatch_of_closed {b : Batch} {e : Emitter} (h : e.scope.isOpen.get b = false) :
    closeBatch b e = .ok () e := by
  rw [closeBatch, get_bind, h]
  rfl

/-- Closing an open batch. -/
lemma closeBatch_of_open {b : Batch} {e : Emitter} {w : Writer}
    (h : e.scope.isOpen.get b = true) (hw : e.writer.apply (closeOperation b) = .ok w) :
    closeBatch b e =
      .ok () { e with writer := w, scope := { e.scope with isOpen := e.scope.isOpen.set b false } } := by
  rw [closeBatch, get_bind, h, if_pos rfl, modifyScope, modify_bind]
  exact write_of_ok hw

/-- An open batch is not opened again. -/
lemma openBatch_of_open {id : NodeId} {b : Batch} {e : Emitter}
    (h : e.scope.isOpen.get b = true) : openBatch id b e = .ok () e := by
  rw [openBatch, get_bind, h]
  rfl

/-- Opening a batch: it is warned about if the state has written it before. -/
lemma openBatch_of_closed {id : NodeId} {b : Batch} {e : Emitter} {w : Writer}
    (h : e.scope.isOpen.get b = false) (hw : e.writer.applyAll (openOperations b) = .ok w) :
    openBatch id b e =
      .ok () ({ e with
        writer := w
        scope := ⟨e.scope.isOpen.set b true, e.scope.written.set b true⟩ }.say
          (if e.scope.written.get b = true then
            warning e.forest.location id (repeatedMessage b) else [])) := by
  rw [openOperations] at hw
  rw [openBatch, get_bind, h, if_neg (by simp), modifyScope, modify_bind]
  obtain ⟨u, hu, hw⟩ := Writer.applyAll_cons_eq_ok.mp hw
  obtain ⟨v, hv, hw⟩ := Writer.applyAll_cons_eq_ok.mp hw
  cases hw
  by_cases hwritten : e.scope.written.get b = true
  · rw [if_pos hwritten, if_pos hwritten, bind_of_ok (warn_eq _ _ _)]
    beta_reduce
    rw [modifyScope, modify_bind, write_bind_of_ok (w := u)]
    · exact write_of_ok hv
    · exact hu
  · rw [if_neg hwritten, if_neg hwritten, Emitter.say_nil]
    beta_reduce
    rw [modifyScope, modify_bind, write_bind_of_ok (w := u)]
    · exact write_of_ok hv
    · exact hu

end Emission

end Statechart.Output
