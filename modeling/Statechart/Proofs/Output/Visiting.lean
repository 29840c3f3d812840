import Statechart.Proofs.Output.Effects

/-!
# What a visit does

One lemma for each way in which a node is entered or left.  Each says what becomes of the whole
emitter, provided that the operations of the visit fit; which operations these are, and that they
do fit, depends on where the node stands and is not the business of this module.
-/

namespace Statechart.Output.Emission

open Script

/-! ## Imports, invocations and bindings -/

/-- An import is one line of text.  One without names is warned of and writes nothing. -/
lemma enterImport_of_ok {id : NodeId} {path : String} {names : List String} {e : Emitter}
    {w : Writer} (hn : importedNames e.forest id = names)
    (hw : e.writer.applyAll (if names.isEmpty then [] else
      [.raw "import \x7b ", .raw (String.intercalate ", " names), .raw " \x7d from ",
        .string path, .raw ";\n"]) = .ok w) :
    enterImport id path e = .ok () ((e.withWriter w).say (if names.isEmpty then
      warning e.forest.location id "imports without specifiers are not supported" else [])) := by
  rw [enterImport, get_bind, hn]
  by_cases hempty : names.isEmpty = true
  · rw [if_pos hempty] at hw ⊢
    rw [if_pos hempty, warn_eq]
    cases hw
    rfl
  · rw [if_neg hempty] at hw ⊢
    rw [if_neg hempty, Emitter.say_nil]
    exact writeAll_of_ok hw

/-- An invocation begins with the name of its service. -/
lemma enterInvoke_of_ok {service : String} {e : Emitter} {w : Writer}
    (hw : e.writer.applyAll ([.startProperty "invoke", .startObject] ++
      Value.propertyOperations [("src", .token service)]) = .ok w) :
    enterInvoke service e = .ok () (e.withWriter w) := by
  obtain ⟨u, hu, hw⟩ := Writer.applyAll_cons_eq_ok.mp hw
  obtain ⟨v, hv, hw⟩ := Writer.applyAll_cons_eq_ok.mp hw
  rw [enterInvoke, write_bind_of_ok hu, write_bind_of_ok (w := v)]
  · exact writeProperty_of_ok hw
  · exact hv

/-- A binding is registered and logged, and writes nothing. -/
lemma enterBinding_eq (id : NodeId) (b : Binding) (e : Emitter) :
    enterBinding id b e =
      .ok () ({ e with bindings := e.bindings.register b.kind ⟨b.name, b.value, id⟩ }.say
        [.log ⟨.debug, .bindings, "hoisting " ++ b.kind.word ++ " `" ++ b.name ++ "`"⟩]) := by
  rw [enterBinding, bind_of_ok (log_eq _ _ _ e)]
  rfl

/-! ## Machines -/

/-- The end of every entry into a machine. -/
private lemma openScope_of_ok {m : Machine} {e : Emitter} {w : Writer}
    (hw : e.writer.applyAll (Value.propertyOperations (initialProperty m)) = .ok w) :
    (do
      if let some initial := m.initial then
        writeProperty "initial" (.string initial)
      modify fun e => { e with enclosing := e.scope :: e.enclosing, scope := {} } : Emission Unit) e =
      .ok () { e with writer := w, enclosing := e.scope :: e.enclosing, scope := {} } := by
  rw [initialProperty] at hw
  cases hi : m.initial with
  | none =>
      rw [hi, Value.propertyOperations] at hw
      cases hw
      rfl
  | some initial =>
      rw [hi] at hw
      exact bind_of_ok (writeProperty_of_ok hw)

/-- A machine inside a state writes its initial state into the object of that state, if no batch is
open there. -/
lemma enterMachine_nested {id : NodeId} {m : Machine} {e : Emitter} {w : Writer}
    (hn : e.forest.isNestedMachine id = true) (ho : e.scope.isOpen = {})
    (hw : e.writer.applyAll (Value.propertyOperations (initialProperty m)) = .ok w) :
    enterMachine id m e =
      .ok () { e with writer := w, enclosing := e.scope :: e.enclosing, scope := {} } := by
  have closed : ∀ b, closeBatch b e = .ok () e := fun b =>
    closeBatch_of_closed (by rw [ho]; cases b <;> rfl)
  rw [enterMachine, get_bind, hn, if_pos rfl, bind_of_ok (closed .on), bind_of_ok (closed .always),
    bind_of_ok (closed .delay)]
  exact openScope_of_ok hw

/-- Any other machine begins an export. -/
lemma enterMachine_top {id : NodeId} {m : Machine} {e : Emitter} {w : Writer}
    (hn : e.forest.isNestedMachine id = false)
    (hw : e.writer.applyAll ([.raw (exportText m), .startCall "Machine", .startObject] ++
      Value.propertyOperations (initialProperty m)) = .ok w) :
    enterMachine id m e =
      .ok () { e with writer := w, enclosing := e.scope :: e.enclosing, scope := {} } := by
  obtain ⟨u, hu, hw⟩ := Writer.applyAll_append_eq_ok.mp hw
  rw [enterMachine, get_bind, hn, if_neg (by simp), bind_of_ok (writeAll_of_ok hu)]
  exact openScope_of_ok (e := e.withWriter u) hw

/-- Options are written if anything is bound, and what has no value is warned of. -/
lemma writeOptions_of_ok {bound : Bindings} {e : Emitter} {w : Writer}
    (hw : e.writer.applyAll (if bound.isEmpty then [] else
      .raw ", " :: (optionsValue bound).operations) = .ok w) :
    writeOptions bound e =
      .ok () ((e.withWriter w).say
        (refusals e.forest.location Hoisted.origin hoistedGuard bound.guards ++
          refusals e.forest.location Hoisted.origin hoistedAction bound.actions)) := by
  rw [writeOptions]
  by_cases hempty : bound.isEmpty = true
  · have hlists : bound.guards = [] ∧ bound.actions = [] := by
      simpa [Bindings.isEmpty] using hempty
    rw [if_pos hempty] at hw
    cases hw
    rw [hempty, if_neg (by simp), hlists.1, hlists.2]
    exact congrArg _ (Emitter.say_nil e).symm
  · rw [if_neg hempty] at hw
    obtain ⟨u, hu, hw⟩ := Writer.applyAll_cons_eq_ok.mp hw
    rw [if_pos (by simpa using hempty), bind_of_ok (valuesOf_eq _ _ _ e),
      bind_of_ok (valuesOf_eq _ _ _ _), Emitter.say_say, write_bind_of_ok (w := u)]
    · rw [← options_eq] at hw
      exact writeAll_of_ok hw
    · exact hu

/-- Leaving a machine inside a state only returns to the scope of that state. -/
lemma leaveMachine_nested {id : NodeId} {m : Machine} {e : Emitter}
    (hn : e.forest.isNestedMachine id = true) :
    leaveMachine id m e =
      .ok () { e with scope := e.enclosing.headD {}, enclosing := e.enclosing.tail } := by
  rw [leaveMachine, modify_bind, get_bind]
  rw [show ({ e with scope := e.enclosing.headD {}, enclosing := e.enclosing.tail } : Emitter).forest
    = e.forest from rfl, hn]
  rfl

/-- Leaving any other machine writes all that is bound as its options, and forgets it. -/
lemma leaveMachine_top {id : NodeId} {m : Machine} {e : Emitter} {w : Writer}
    (hn : e.forest.isNestedMachine id = false)
    (hw : e.writer.applyAll (.endObject :: (if e.bindings.isEmpty then [] else
      .raw ", " :: (optionsValue e.bindings).operations) ++ [.endCall, .raw ";"]) = .ok w) :
    leaveMachine id m e =
      .ok () ({ e with
        writer := w
        bindings := {}
        scope := e.enclosing.headD {}
        enclosing := e.enclosing.tail }.say
          (refusals e.forest.location Hoisted.origin hoistedGuard e.bindings.guards ++
            refusals e.forest.location Hoisted.origin hoistedAction e.bindings.actions ++
            [Remark.log ⟨.info, .emission, "emitted machine `" ++ m.name.getD "default" ++ "`"⟩])) := by
  obtain ⟨v, hv, hw⟩ := Writer.applyAll_append_eq_ok.mp hw
  obtain ⟨u, hu, hv⟩ := Writer.applyAll_cons_eq_ok.mp hv
  rw [leaveMachine, modify_bind, get_bind]
  rw [show ({ e with scope := e.enclosing.headD {}, enclosing := e.enclosing.tail } : Emitter).forest
    = e.forest from rfl, hn, if_pos (show (!false) = true from rfl), write_bind_of_ok (w := u)]
  · rw [modifyGet_bind]
    show (do writeOptions e.bindings; writeAll _; log _ _ _ : Emission Unit)
      { e with
        writer := u
        bindings := {}
        scope := e.enclosing.headD {}
        enclosing := e.enclosing.tail } = _
    rw [bind_of_ok (writeOptions_of_ok (w := v) hv), bind_of_ok (writeAll_of_ok (w := w) hw),
      log_eq, Emitter.withWriter_say, Emitter.say_say]
    rfl
  · exact hu

/-! ## States -/

/-- The states of a machine are opened unless it is marked, and it is marked then. -/
lemma openStates_eq {p : NodeId} {m : Machine} {e : Emitter} (hm : e.forest.machine? p = some m) :
    openStates (some p) e =
      .ok (!m.hasStates) { e with
        forest := if m.hasStates then e.forest
          else e.forest.setNode p (.machine { m with hasStates := true }) } := by
  rw [openStates, get_bind, hm]
  obtain ⟨name, initial, hasStates⟩ := m
  cases hasStates <;> rfl

/-- The end of every entry into a state. -/
private lemma openState_of_ok {s : State} {e : Emitter} {w : Writer}
    (hw : e.writer.applyAll ([.startProperty s.name, .startObject] ++
      Value.propertyOperations (finalProperty s)) = .ok w) :
    (do
      modifyScope fun scope => { scope with written := {} }
      write (.startProperty s.name)
      write .startObject
      if s.isFinal then
        writeProperty "type" (.string "final") : Emission Unit) e =
      .ok () { e with writer := w, scope := { e.scope with written := {} } } := by
  obtain ⟨u, hu, hw⟩ := Writer.applyAll_cons_eq_ok.mp hw
  obtain ⟨v, hv, hw⟩ := Writer.applyAll_cons_eq_ok.mp hw
  rw [modifyScope, modify_bind, write_bind_of_ok (w := u), write_bind_of_ok (w := v)]
  · rw [finalProperty] at hw
    cases hf : s.isFinal with
    | true =>
        rw [hf, if_pos rfl] at hw
        exact writeProperty_of_ok hw
    | false =>
        rw [hf, if_neg (by simp)] at hw
        cases hw
        rfl
  · exact hv
  · exact hu

/-- A state of a machine is entered.  The first one opens the `states` of the machine. -/
lemma enterState_of_ok {id p : NodeId} {s : State} {m : Machine} {e : Emitter} {w : Writer}
    (hp : e.forest.parent id = some p) (hm : e.forest.machine? p = some m)
    (hw : e.writer.applyAll ((if m.hasStates then [] else [.startProperty "states", .startObject]) ++
      [.startProperty s.name, .startObject] ++ Value.propertyOperations (finalProperty s)) =
        .ok w) :
    enterState id s e =
      .ok () { e with
        forest := if m.hasStates then e.forest
          else e.forest.setNode p (.machine { m with hasStates := true })
        writer := w
        scope := { e.scope with written := {} } } := by
  have hnode : e.forest.node? p = some (.machine m) := by
    rw [Forest.machine?] at hm
    split at hm
    · cases hm; assumption
    · cases hm
  have hmachine : (e.forest.parentNode? id).any Node.isMachine = true := by
    rw [Forest.parentNode?, hp, Option.bind_some, hnode]
    rfl
  rw [List.append_assoc] at hw
  obtain ⟨u, hu, hw⟩ := Writer.applyAll_append_eq_ok.mp hw
  rw [enterState, get_bind, hmachine, if_neg (by simp)]
  beta_reduce
  rw [hp, bind_of_ok (openStates_eq hm)]
  cases hs : m.hasStates with
  | true =>
      rw [hs, if_pos rfl] at hu
      cases hu
      exact openState_of_ok hw
  | false =>
      rw [hs, if_neg (by simp)] at hu
      obtain ⟨v, hv, hu⟩ := Writer.applyAll_cons_eq_ok.mp hu
      obtain ⟨v', hv', hu⟩ := Writer.applyAll_cons_eq_ok.mp hu
      cases hu
      show (do write _; let r ← write _; _ : Emission Unit) _ = _
      rw [write_bind_of_ok (w := v), write_bind_of_ok (w := u)]
      · exact openState_of_ok hw
      · exact hv'
      · exact hv

/-- A state is left.  After the last one the `states` of its machine are closed. -/
lemma leaveState_of_ok {id : NodeId} {more : Bool} {e : Emitter} {w : Writer}
    (hs : ((e.forest.parent id).bind e.forest.machine?).any Machine.hasStates = true)
    (hmore : hasState e.forest (e.forest.following id) = .ok more)
    (hw : e.writer.applyAll (.endObject :: (if more then [] else [.endObject])) = .ok w) :
    leaveState id e = .ok () (e.withWriter w) := by
  obtain ⟨u, hu, hw⟩ := Writer.applyAll_cons_eq_ok.mp hw
  rw [leaveState, write_bind_of_ok hu, get_bind]
  show (do let more ← expect (hasState e.forest (e.forest.following id)); _ : Emission Unit) _ = _
  rw [hmore, expect_bind]
  show (if (((e.forest.parent id).bind e.forest.machine?).any Machine.hasStates && !more) = true
    then write .endObject else pure () : Emission Unit) _ = _
  rw [hs]
  cases more with
  | true =>
      cases hw
      rfl
  | false =>
      obtain ⟨v, hv, hw⟩ := Writer.applyAll_cons_eq_ok.mp hw
      cases hw
      exact write_of_ok hv

/-! ## Transitions -/

/-- The answer to an invocation, if it has a key. -/
lemma enterTransition_answer {id : NodeId} {t : Transition} {key : String} {e : Emitter}
    {w : Writer} (hi : inInvoke e.forest id = true) (hk : answerKey t.trigger = .ok key)
    (hw : e.writer.applyAll (.startProperty key :: (transitionOf t).operations) = .ok w) :
    enterTransition id t e =
      .ok () ((e.withWriter w).say (transitionRefusals e.forest.location id t)) := by
  obtain ⟨u, hu, hw⟩ := Writer.applyAll_cons_eq_ok.mp hw
  rw [enterTransition, get_bind, if_pos hi, hk]
  exact (write_bind_of_ok hu).trans (writeTransition_of_ok (e := e.withWriter u) hw)

/-- An answer that no invocation has a key for is left out. -/
lemma enterTransition_refused {id : NodeId} {t : Transition} {message : String} {e : Emitter}
    (hi : inInvoke e.forest id = true) (hk : answerKey t.trigger = .error message) :
    enterTransition id t e = .ok () (e.say (warning e.forest.location id message)) := by
  rw [enterTransition, get_bind, if_pos hi, hk]
  exact warn_eq id message e

/-- A transition in a batch that is open. -/
lemma enterTransition_open {id : NodeId} {t : Transition} {e : Emitter} {w : Writer}
    (hi : inInvoke e.forest id = false)
    (ho : e.scope.isOpen.get (.ofTrigger t.trigger) = true)
    (hw : e.writer.applyAll (startOperation t.trigger :: (transitionOf t).operations) = .ok w) :
    enterTransition id t e =
      .ok () ((e.withWriter w).say (transitionRefusals e.forest.location id t)) := by
  obtain ⟨u, hu, hw⟩ := Writer.applyAll_cons_eq_ok.mp hw
  have started : startInBatch id t.trigger e = .ok () (e.withWriter u) := by
    cases ht : t.trigger <;> rw [ht] at hu ho <;> rw [startInBatch] <;>
      exact (bind_of_ok (openBatch_of_open ho)).trans (write_of_ok hu)
  rw [enterTransition, get_bind, hi, if_neg (by simp), bind_of_ok started]
  exact writeTransition_of_ok (e := e.withWriter u) hw

/-- A transition that opens its batch. -/
lemma enterTransition_closed {id : NodeId} {t : Transition} {e : Emitter} {w : Writer}
    (hi : inInvoke e.forest id = false)
    (ho : e.scope.isOpen.get (.ofTrigger t.trigger) = false)
    (hw : e.writer.applyAll (openOperations (.ofTrigger t.trigger) ++
      startOperation t.trigger :: (transitionOf t).operations) = .ok w) :
    enterTransition id t e =
      .ok () ({ e with
        writer := w
        scope := ⟨e.scope.isOpen.set (.ofTrigger t.trigger) true,
          e.scope.written.set (.ofTrigger t.trigger) true⟩ }.say
          ((if e.scope.written.get (.ofTrigger t.trigger) = true then
            warning e.forest.location id (repeatedMessage (.ofTrigger t.trigger)) else []) ++
            transitionRefusals e.forest.location id t)) := by
  obtain ⟨v, hv, hw⟩ := Writer.applyAll_append_eq_ok.mp hw
  obtain ⟨u, hu, hw⟩ := Writer.applyAll_cons_eq_ok.mp hw
  have started : startInBatch id t.trigger e =
      .ok () ({ e with
        writer := u
        scope := ⟨e.scope.isOpen.set (.ofTrigger t.trigger) true,
          e.scope.written.set (.ofTrigger t.trigger) true⟩ }.say
          (if e.scope.written.get (.ofTrigger t.trigger) = true then
            warning e.forest.location id (repeatedMessage (.ofTrigger t.trigger)) else [])) := by
    cases ht : t.trigger <;> rw [ht] at hu ho hv <;> rw [startInBatch] <;>
      exact (bind_of_ok (openBatch_of_closed ho hv)).trans (write_of_ok hu)
  rw [enterTransition, get_bind, hi, if_neg (by simp), bind_of_ok started,
    writeTransition_of_ok (w := w) hw, Emitter.withWriter_say, Emitter.say_say]
  rfl

lemma leaveTransition_answer {id : NodeId} {t : Transition} {e : Emitter}
    (hi : inInvoke e.forest id = true) : leaveTransition id t e = .ok () e := by
  rw [leaveTransition, get_bind, hi]
  rfl

/-- A transition of a batch is left: the batch is closed unless it goes on. -/
lemma leaveTransition_of_ok {id : NodeId} {t : Transition} {next : Option Node} {e : Emitter}
    {w : Writer} (hi : inInvoke e.forest id = false)
    (hn : firstWriting e.forest (e.forest.following id) = .ok next)
    (ho : e.scope.isOpen.get (.ofTrigger t.trigger) = true)
    (hw : e.writer.applyAll (if next.any (isInBatch (.ofTrigger t.trigger)) then []
      else [closeOperation (.ofTrigger t.trigger)]) = .ok w) :
    leaveTransition id t e =
      .ok () { e with
        writer := w
        scope := if next.any (isInBatch (.ofTrigger t.trigger)) then e.scope
          else { e.scope with
            isOpen := e.scope.isOpen.set (.ofTrigger t.trigger) false } } := by
  rw [leaveTransition, get_bind, hi, if_pos (show (!false) = true from rfl), hn, expect_bind]
  cases hb : next.any (isInBatch (.ofTrigger t.trigger)) with
  | true =>
      rw [hb, if_pos rfl] at hw
      cases hw
      rfl
  | false =>
      rw [hb, if_neg (by simp)] at hw
      obtain ⟨u, hu, hw⟩ := Writer.applyAll_cons_eq_ok.mp hw
      cases hw
      exact closeBatch_of_open ho hu

/-! ## All nodes -/

/-- What entering a node does, given its payload. -/
def enterNode (id : NodeId) : Node → Emission Unit
  | .importModule path => enterImport id path
  | .machine m => enterMachine id m
  | .state s => enterState id s
  | .transition t => enterTransition id t
  | .invoke service => enterInvoke service
  | .binding b => enterBinding id b
  | .specifier _ _ => return

/-- What leaving a node does, given its payload. -/
def leaveNode (id : NodeId) : Node → Emission Unit
  | .machine m => leaveMachine id m
  | .state _ => leaveState id
  | .transition t => leaveTransition id t
  | .invoke _ => write .endObject
  | .importModule _ => return
  | .specifier _ _ => return
  | .binding _ => return

lemma enter_eq {id : NodeId} {n : Node} {e : Emitter} (hn : e.forest.node? id = some n) :
    enter id e = enterNode id n (e.say [.log ⟨.debug, .emission, "enter " ++ NodeId.label id⟩]) := by
  rw [enter, bind_of_ok (log_eq _ _ _ e), bind_of_ok (node_of_some (e := e.say _) hn)]
  cases n <;> rfl

lemma leave_eq {id : NodeId} {n : Node} {e : Emitter} (hn : e.forest.node? id = some n) :
    leave id e = leaveNode id n (e.say [.log ⟨.debug, .emission, "exit " ++ NodeId.label id⟩]) := by
  rw [leave, bind_of_ok (log_eq _ _ _ e), bind_of_ok (node_of_some (e := e.say _) hn)]
  cases n <;> rfl

end Statechart.Output.Emission
