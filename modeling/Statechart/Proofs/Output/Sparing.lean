import Statechart.Proofs.Output.Module

/-!
# What an emission spares

The proofs about the text that is written need to know the shape of the trees.  What a visit does
to the *forest* can be said for nodes of any kind in any order, provided that a writer which is
told something that does not fit may stop the emission.

* `Fault.isWriting` — the faults of a writer.
* `Passes` — an emission either ends as described, or a writer stops it.
* `Spares` — nothing but marks of machines has changed in the forest, and all that was said points
  to places that the forest knows.
* `Ready` — the node that is visited, the one above it, and those that a visit looks ahead to are
  live.
* **`passes_step_entering`**, **`passes_step_leaving`** — one step of the walk.

Most parts of an emission spare the forest whatever it is like (`Sparing`), and these are closed
under everything that a block is made of.
-/

namespace Statechart

/-- Whether the fault is that of a writer that was told something that does not fit. -/
def Fault.isWriting : Fault → Bool
  | propertyOutsideObject _ => true
  | elementOutsideArray => true
  | noArrayToClose => true
  | noObjectToClose => true
  | _ => false

/-- A writer has no other faults than its own. -/
lemma Script.Writer.isWriting_of_apply {w : Script.Writer} {op : Script.Operation} {fault : Fault}
    (h : w.apply op = .error fault) : fault.isWriting = true := by
  cases op with
  | endObject =>
      rw [apply, endObject] at h
      split at h <;> cases h
      rfl
  | startProperty key =>
      rw [apply, startProperty] at h
      split at h <;> cases h
      rfl
  | startElement =>
      rw [apply, startElement] at h
      split at h
      · split at h <;> cases h
      · cases h; rfl
  | endArray =>
      rw [apply, endArray] at h
      split at h
      · split at h <;> cases h
      · cases h; rfl
  | _ => cases h

/-- A node without the mark that a machine gets when its states are opened. -/
def Node.unmarked : Node → Node
  | machine m => machine { m with hasStates := false }
  | n => n

/-- The remark can be placed by every journal that can place all locations of the forest. -/
def Forest.Sites (f : Forest) (r : Remark) : Prop :=
  ∀ j : Journal, j.Locates f → j.Places r.location

namespace Output

open Script

/-! ## Emitters -/

/-- Nothing but marks of machines has changed in the forest. -/
structure Spares (e e' : Emitter) : Prop where
  links : e'.forest.links = e.forest.links
  locations : e'.forest.locations = e.forest.locations
  body : e'.forest.body = e.forest.body
  size : e'.forest.nodes.size = e.forest.nodes.size
  payloads : ∀ id,
    (e'.forest.node? id).map Node.unmarked = (e.forest.node? id).map Node.unmarked
  said : ∃ rs, e'.remarks.toList = e.remarks.toList ++ rs ∧ ∀ r ∈ rs, e.forest.Sites r

namespace Spares

variable {e e' e'' : Emitter}

/-- All is spared where the forest stays and nothing is said. -/
lemma of_forest (hforest : e'.forest = e.forest) (hremarks : e'.remarks = e.remarks) :
    Spares e e' where
  links := by rw [hforest]
  locations := by rw [hforest]
  body := by rw [hforest]
  size := by rw [hforest]
  payloads := fun _ => by rw [hforest]
  said := ⟨[], by rw [hremarks, List.append_nil], by simp⟩

lemma refl (e : Emitter) : Spares e e := of_forest rfl rfl

/-- What can be placed later can be placed before: the locations are the same. -/
lemma sites (h : Spares e e') {r : Remark} (hr : e'.forest.Sites r) : e.forest.Sites r := by
  intro j hj
  refine hr j fun id => ?_
  rw [Forest.location, h.locations]
  exact hj id

/-- What two emissions spare one after the other, they spare together. -/
lemma trans (h : Spares e e') (h' : Spares e' e'') : Spares e e'' where
  links := h'.links.trans h.links
  locations := h'.locations.trans h.locations
  body := h'.body.trans h.body
  size := h'.size.trans h.size
  payloads := fun id => (h'.payloads id).trans (h.payloads id)
  said := by
    obtain ⟨rs, hrs, hsites⟩ := h.said
    obtain ⟨rs', hrs', hsites'⟩ := h'.said
    refine ⟨rs ++ rs', by rw [hrs', hrs, List.append_assoc], ?_⟩
    exact List.forall_mem_append.mpr ⟨hsites, fun r hr => h.sites (hsites' r hr)⟩

lemma isSome_node? (h : Spares e e') (id : NodeId) :
    (e'.forest.node? id).isSome = (e.forest.node? id).isSome := by
  rw [← Option.isSome_map (f := Node.unmarked), h.payloads, Option.isSome_map]

end Spares

/-- All nodes that a visit looks at are live. -/
structure Ready (f : Forest) (phase : Phase) (id : NodeId) : Prop where
  self : (f.node? id).isSome = true
  parent : ∀ above, f.parent id = some above → (f.node? above).isSome = true
  following : ∀ sibling ∈ f.following id, (f.node? sibling).isSome = true
  children : phase = .entering → ∀ child ∈ f.children id, (f.node? child).isSome = true

/-- A node that is ready to be visited stays so. -/
lemma Spares.ready {e e' : Emitter} {phase : Phase} {id : NodeId} (h : Spares e e')
    (hr : Ready e.forest phase id) : Ready e'.forest phase id where
  self := by rw [h.isSome_node?]; exact hr.self
  parent := fun above hab => by
    rw [h.isSome_node?]
    exact hr.parent above (by rwa [Forest.parent, linksOf_eq h.links] at hab)
  following := fun sibling hs => by
    rw [h.isSome_node?]
    refine hr.following sibling ?_
    rwa [Forest.following, Forest.chain_congr h.links, Forest.nextSibling, linksOf_eq h.links] at hs
  children := fun hphase child hc => by
    rw [h.isSome_node?]
    refine hr.children hphase child ?_
    rwa [Forest.children, Forest.chain_congr h.links, Forest.firstChild, linksOf_eq h.links] at hc

namespace Emission

variable {α β : Type}

/-! ## Outcomes -/

/-- The emission ends as described, unless a writer stops it. -/
structure Passes (x : Emission α) (e : Emitter) (post : α → Emitter → Prop) : Prop where
  ends : ∀ a e', x e = .ok a e' → post a e'
  stops : ∀ fault e', x e = .error fault e' → fault.isWriting = true

/-- An emission that ends well passes if it ends as described. -/
lemma passes_of_ok {x : Emission α} {e e' : Emitter} {a : α} {post : α → Emitter → Prop}
    (h : x e = .ok a e') (hpost : post a e') : Passes x e post where
  ends := fun b e₁ hx => by
    cases h.symm.trans hx
    exact hpost
  stops := fun fault e₁ hx => by cases h.symm.trans hx

/-- An emission that a writer stops passes, whatever is described. -/
lemma passes_of_error {x : Emission α} {e e' : Emitter} {fault : Fault}
    {post : α → Emitter → Prop} (h : x e = .error fault e') (hfault : fault.isWriting = true) :
    Passes x e post where
  ends := fun b e₁ hx => by cases h.symm.trans hx
  stops := fun other e₁ hx => by
    cases h.symm.trans hx
    exact hfault

/-- What an emission passes depends on what it does to the emitter at hand only. -/
lemma Passes.congr {x y : Emission α} {e e' : Emitter} {post : α → Emitter → Prop}
    (h : Passes x e post) (heq : y e' = x e) : Passes y e' post where
  ends := fun a e₁ hy => h.ends a e₁ (heq.symm.trans hy)
  stops := fun fault e₁ hy => h.stops fault e₁ (heq.symm.trans hy)

/-- What is described may be weakened. -/
lemma Passes.mono {x : Emission α} {e : Emitter} {post post' : α → Emitter → Prop}
    (h : Passes x e post) (himp : ∀ a e', post a e' → post' a e') : Passes x e post' where
  ends := fun a e' hx => himp a e' (h.ends a e' hx)
  stops := h.stops

/-- One emission after another.  If a writer stops the first, the second is not run. -/
lemma Passes.bind {x : Emission α} {f : α → Emission β} {e : Emitter}
    {mid : α → Emitter → Prop} {post : β → Emitter → Prop} (h : Passes x e mid)
    (hf : ∀ a e', mid a e' → Passes (f a) e' post) : Passes (x >>= f) e post := by
  cases hx : x e with
  | ok a e' => exact (hf a e' (h.ends a e' hx)).congr (bind_of_ok hx)
  | error fault e' =>
      refine passes_of_error (?_ : (x >>= f) e = .error fault e') (h.stops fault e' hx)
      show EStateM.bind x f e = _
      rw [EStateM.bind, hx]

/-- Whether nothing stops the emission, and the emitter then passes a check. -/
def endsWith (x : Emission α) (e : Emitter) (check : Emitter → Bool) : Bool :=
  match x e with
  | .ok _ e' => check e'
  | .error _ _ => false

/-- Where nothing stops the emission, it does end as described. -/
lemma Passes.exists_ok {x : Emission α} {e : Emitter} {post : α → Emitter → Prop}
    (h : Passes x e post) {check : Emitter → Bool} (hends : endsWith x e check = true) :
    ∃ a e', x e = .ok a e' ∧ check e' = true ∧ post a e' := by
  rw [endsWith] at hends
  cases hx : x e with
  | ok a e' =>
      rw [hx] at hends
      exact ⟨a, e', rfl, hends, h.ends a e' hx⟩
  | error fault e' =>
      rw [hx] at hends
      cases hends

/-! ## Emissions that spare every forest -/

/-- The emission spares the forest, whatever it is like. -/
def Sparing (x : Emission α) : Prop := ∀ e, Passes x e fun _ e' => Spares e e'

lemma Sparing.bind {x : Emission α} {f : α → Emission β} (hx : Sparing x)
    (hf : ∀ a, Sparing (f a)) : Sparing (x >>= f) := fun e =>
  (hx e).bind fun a e' h => (hf a e').mono fun _ _ h' => h.trans h'

lemma sparing_pure (a : α) : Sparing (pure a : Emission α) := fun e =>
  passes_of_ok rfl (Spares.refl e)

lemma sparing_get : Sparing (get : Emission Emitter) := fun e => passes_of_ok rfl (Spares.refl e)

/-- A change of the emitter that leaves the forest and the remarks alone. -/
lemma sparing_modify {g : Emitter → Emitter} (hforest : ∀ e, (g e).forest = e.forest)
    (hremarks : ∀ e, (g e).remarks = e.remarks) : Sparing (modify g : Emission Unit) :=
  fun e => passes_of_ok rfl (Spares.of_forest (hforest e) (hremarks e))

lemma sparing_modifyScope (g : Scope → Scope) : Sparing (modifyScope g) :=
  sparing_modify (fun _ => rfl) fun _ => rfl

/-- What is said about places that the forest knows. -/
lemma spares_say {e : Emitter} {rs : List Remark} (h : ∀ r ∈ rs, e.forest.Sites r) :
    Spares e (e.say rs) :=
  { Spares.refl e with
    said := ⟨rs, Emitter.toList_remarks_say e rs, h⟩ }

lemma sites_log (f : Forest) (entry : Log.Entry) : f.Sites (.log entry) := fun _ _ => trivial

lemma sparing_log (level : Log.Level) (part : Log.Part) (message : String) :
    Sparing (log level part message) := fun e =>
  passes_of_ok (log_eq level part message e) (spares_say (by simp [sites_log]))

/-- A warning points to the location of a node, which the forest knows. -/
lemma sparing_warn (id : NodeId) (message : String) : Sparing (warn id message) := fun e => by
  refine passes_of_ok (warn_eq id message e) (spares_say ?_)
  refine List.forall_mem_cons.mpr ⟨sites_log _ _, List.forall_mem_singleton.mpr ?_⟩
  exact fun j hj => hj id

/-- What is written is no matter of the forest, and a writer fails only with faults of its own. -/
lemma sparing_write (op : Operation) : Sparing (write op) := fun e => by
  cases hw : e.writer.apply op with
  | ok w => exact passes_of_ok (write_of_ok hw) (Spares.of_forest rfl rfl)
  | error fault =>
      have herror : write op e = .error fault e := by
        rw [write, get_bind, hw]
        rfl
      exact passes_of_error herror (Writer.isWriting_of_apply hw)

/-- The same for several operations, the first that fails being the last. -/
lemma sparing_writeAll (ops : List Operation) : Sparing (writeAll ops) := by
  induction ops with
  | nil => exact sparing_pure ()
  | cons op ops ih => exact (sparing_write op).bind fun _ => ih

lemma sparing_writeValue (value : Value) : Sparing (writeValue value) := sparing_writeAll _

lemma sparing_writeProperty (key : String) (value : Value) : Sparing (writeProperty key value) :=
  (sparing_write _).bind fun _ => sparing_writeValue value

/-- A step that is made only under a condition. -/
lemma Sparing.ite {c : Prop} [Decidable c] {x y : Emission α} (hx : Sparing x) (hy : Sparing y) :
    Sparing (if c then x else y) := by
  split
  · exact hx
  · exact hy

/-- A batch is opened in the scope.  It may be warned of, at the node. -/
lemma sparing_openBatch (id : NodeId) (batch : Batch) : Sparing (openBatch id batch) := by
  refine sparing_get.bind fun e => Sparing.ite (sparing_pure ()) ?_
  refine (sparing_modifyScope _).bind fun _ => ?_
  have hopen := (sparing_modifyScope fun s => { s with isOpen := s.isOpen.set batch true }).bind
    fun _ => (sparing_write (.startProperty batch.key)).bind fun _ =>
      sparing_write (if batch = .always then .startArray true else .startObject)
  exact Sparing.ite ((sparing_warn id _).bind fun _ => hopen) hopen

lemma sparing_closeBatch (batch : Batch) : Sparing (closeBatch batch) :=
  sparing_get.bind fun _ => Sparing.ite
    ((sparing_modifyScope _).bind fun _ => sparing_write _) (sparing_pure ())

/-- Values that cannot be written are warned of, each at its own node. -/
lemma sparing_valuesOf (origin : α → NodeId) (value : α → Except String Value) (as : List α) :
    Sparing (valuesOf origin value as) := by
  induction as with
  | nil => exact sparing_pure []
  | cons a as ih =>
      rw [valuesOf]
      split
      · exact ih.bind fun _ => sparing_pure _
      · exact (sparing_warn _ _).bind fun _ => ih

/-! ## Entering -/

lemma sparing_enterImport (id : NodeId) (path : String) : Sparing (enterImport id path) :=
  sparing_get.bind fun _ => Sparing.ite (sparing_warn _ _) (sparing_writeAll _)

/-- Entering a machine concerns the writer and the scopes only. -/
lemma sparing_enterMachine (id : NodeId) (m : Machine) : Sparing (enterMachine id m) := by
  have hmodify : Sparing (modify fun e : Emitter =>
      { e with enclosing := e.scope :: e.enclosing, scope := {} } : Emission Unit) :=
    sparing_modify (fun _ => rfl) fun _ => rfl
  rw [enterMachine]
  cases m.initial with
  | none =>
      refine sparing_get.bind fun e => Sparing.ite ?_ ?_
      · exact (sparing_closeBatch _).bind fun _ => (sparing_closeBatch _).bind fun _ =>
          (sparing_closeBatch _).bind fun _ => hmodify
      · exact (sparing_writeAll _).bind fun _ => hmodify
  | some initial =>
      have hscope : Sparing (writeProperty "initial" (.string initial) >>= fun _ =>
          modify fun e => { e with enclosing := e.scope :: e.enclosing, scope := {} }) :=
        (sparing_writeProperty _ _).bind fun _ => hmodify
      refine sparing_get.bind fun e => Sparing.ite ?_ ?_
      · exact (sparing_closeBatch _).bind fun _ => (sparing_closeBatch _).bind fun _ =>
          (sparing_closeBatch _).bind fun _ => hscope
      · exact (sparing_writeAll _).bind fun _ => hscope

/-- A machine that is marked is still the same machine. -/
lemma spares_mark {e : Emitter} {id : NodeId} {m : Machine}
    (hm : e.forest.node? id = some (.machine m)) :
    Spares e { e with forest := e.forest.setNode id (.machine { m with hasStates := true }) } where
  links := Forest.links_setNode _ _ _
  locations := Forest.locations_setNode _ _ _
  body := by show (e.forest.setNode id _).body = _; rw [Forest.setNode, hm]
  size := by
    show (e.forest.setNode id _).nodes.size = _
    rw [Forest.setNode, hm]
    exact Array.size_setIfInBounds
  payloads := fun other => by
    show ((e.forest.setNode id _).node? other).map _ = _
    rw [Forest.node?_setNode hm]
    by_cases heq : other = id
    · rw [if_pos heq, heq, hm]
      rfl
    · rw [if_neg heq]
  said := ⟨[], (List.append_nil _).symm, by simp⟩

/-- **Opening the states of a machine only marks the machine.** -/
lemma sparing_openStates (machine : Option NodeId) : Sparing (openStates machine) := by
  cases machine with
  | none => exact sparing_pure false
  | some id =>
      intro e
      refine Passes.congr ?_ (get_bind _ e)
      cases hm : e.forest.machine? id with
      | none => exact sparing_pure false e
      | some m =>
          have hnode : e.forest.node? id = some (.machine m) := by
            rw [Forest.machine?] at hm
            split at hm
            · next heq => cases hm; exact heq
            · cases hm
          dsimp only
          by_cases hopen : m.hasStates = true
          · rw [if_pos hopen]
            exact sparing_pure false e
          · rw [if_neg hopen]
            exact passes_of_ok rfl (spares_mark hnode)

/-- Entering a state may mark the machine above it, and nothing else. -/
lemma sparing_enterState (id : NodeId) (s : State) : Sparing (enterState id s) := by
  have hstate : Sparing (do
      modifyScope fun scope => { scope with written := {} }
      write (.startProperty s.name)
      write .startObject
      if s.isFinal then
        writeProperty "type" (.string "final") : Emission Unit) :=
    (sparing_modifyScope _).bind fun _ => (sparing_write _).bind fun _ =>
      (sparing_write _).bind fun _ => Sparing.ite (sparing_writeProperty _ _) (sparing_pure ())
  refine sparing_get.bind fun e => ?_
  have hopen : Sparing (do
      if ← openStates (e.forest.parent id) then
        write (.startProperty "states")
        write .startObject
      modifyScope fun scope => { scope with written := {} }
      write (.startProperty s.name)
      write .startObject
      if s.isFinal then
        writeProperty "type" (.string "final") : Emission Unit) :=
    (sparing_openStates _).bind fun _ => Sparing.ite
      ((sparing_write _).bind fun _ => (sparing_write _).bind fun _ => hstate) hstate
  exact Sparing.ite ((sparing_warn id _).bind fun _ => hopen) hopen

lemma sparing_writeTransition (id : NodeId) (t : Transition) : Sparing (writeTransition id t) :=
  (sparing_valuesOf _ _ _).bind fun _ => (sparing_valuesOf _ _ _).bind fun _ =>
    sparing_writeValue _

/-- The first part of a transition in a batch is the key of its trigger or, in a list, an element.
-/
lemma sparing_startInBatch (id : NodeId) (trigger : Trigger) :
    Sparing (startInBatch id trigger) := by
  refine (sparing_openBatch _ _).bind fun _ => ?_
  cases trigger <;> exact sparing_write _

/-- Entering a transition writes it, or warns of one that an invocation has no use for. -/
lemma sparing_enterTransition (id : NodeId) (t : Transition) : Sparing (enterTransition id t) := by
  refine sparing_get.bind fun e => ?_
  split
  · split
    · exact (sparing_write _).bind fun _ => sparing_writeTransition id t
    · exact sparing_warn _ _
  · exact (sparing_startInBatch id _).bind fun _ => sparing_writeTransition id t

lemma sparing_enterInvoke (service : String) : Sparing (enterInvoke service) :=
  (sparing_write _).bind fun _ => (sparing_write _).bind fun _ => sparing_writeProperty _ _

lemma sparing_enterBinding (id : NodeId) (b : Binding) : Sparing (enterBinding id b) :=
  (sparing_log _ _ _).bind fun _ => sparing_modify (fun _ => rfl) fun _ => rfl

/-! ## Leaving -/

lemma sparing_writeOptions (bound : Bindings) : Sparing (writeOptions bound) :=
  Sparing.ite ((sparing_valuesOf _ _ _).bind fun _ => (sparing_valuesOf _ _ _).bind fun _ =>
    (sparing_write _).bind fun _ => sparing_writeValue _) (sparing_pure ())

/-- Leaving a machine returns to the scope around it.  One that is not nested writes its options. -/
lemma sparing_leaveMachine (id : NodeId) (m : Machine) : Sparing (leaveMachine id m) := by
  have hscope : Sparing (modify fun e : Emitter =>
      { e with scope := e.enclosing.headD {}, enclosing := e.enclosing.tail } : Emission Unit) :=
    sparing_modify (fun _ => rfl) fun _ => rfl
  have hdrain : Sparing (modifyGet fun e : Emitter =>
      (e.bindings.drain.1, { e with bindings := e.bindings.drain.2 }) : Emission Bindings) :=
    fun e => passes_of_ok rfl (Spares.of_forest rfl rfl)
  refine hscope.bind fun _ => sparing_get.bind fun e => Sparing.ite ?_ (sparing_pure ())
  refine (sparing_write _).bind fun _ => hdrain.bind fun bound => ?_
  exact (sparing_writeOptions bound).bind fun _ => (sparing_writeAll _).bind fun _ =>
    sparing_log _ _ _

/-- Looking for a state among live nodes comes to an end. -/
lemma hasState_of_live {f : Forest} {ids : List NodeId}
    (h : ∀ id ∈ ids, (f.node? id).isSome = true) : ∃ found, hasState f ids = .ok found := by
  induction ids with
  | nil => exact ⟨false, rfl⟩
  | cons id ids ih =>
      obtain ⟨hid, hids⟩ := List.forall_mem_cons.mp h
      obtain ⟨n, hn⟩ := Option.isSome_iff_exists.mp hid
      rw [hasState, Forest.node_of_node? hn]
      by_cases hs : n.isState = true
      · exact ⟨true, if_pos hs⟩
      · obtain ⟨found, hfound⟩ := ih hids
        exact ⟨found, (if_neg hs).trans hfound⟩

/-- Looking for a node that writes something among live nodes comes to an end. -/
lemma firstWriting_of_live {f : Forest} {ids : List NodeId}
    (h : ∀ id ∈ ids, (f.node? id).isSome = true) : ∃ found, firstWriting f ids = .ok found := by
  induction ids with
  | nil => exact ⟨none, rfl⟩
  | cons id ids ih =>
      obtain ⟨hid, hids⟩ := List.forall_mem_cons.mp h
      obtain ⟨n, hn⟩ := Option.isSome_iff_exists.mp hid
      rw [firstWriting, Forest.node_of_node? hn]
      cases n with
      | binding b => exact ih hids
      | _ => exact ⟨_, rfl⟩

lemma sparing_expect_ok (a : α) : Sparing (expect (.ok a)) := sparing_pure a

/-- Leaving a state looks for a further state among the siblings that follow, which must be live. -/
lemma passes_leaveState {id : NodeId} {e : Emitter} (h : Ready e.forest .leaving id) :
    Passes (leaveState id) e fun _ e' => Spares e e' := by
  refine (sparing_write .endObject e).bind fun _ e₁ h₁ => ?_
  obtain ⟨found, hfound⟩ := hasState_of_live (h₁.ready h).following
  have hrest : Sparing (do
      let moreStates ← expect (.ok found)
      if ((e₁.forest.parent id).bind e₁.forest.machine?).any Machine.hasStates && !moreStates then
        write .endObject : Emission Unit) :=
    (sparing_expect_ok found).bind fun _ => Sparing.ite (sparing_write _) (sparing_pure ())
  refine Passes.congr ?_ (get_bind _ e₁)
  rw [hfound]
  exact (hrest e₁).mono fun _ _ h₂ => h₁.trans h₂

/-- Leaving a transition looks for the next sibling that writes something, among live ones. -/
lemma passes_leaveTransition {id : NodeId} {e : Emitter} (t : Transition)
    (h : Ready e.forest .leaving id) :
    Passes (leaveTransition id t) e fun _ e' => Spares e e' := by
  obtain ⟨found, hfound⟩ := firstWriting_of_live h.following
  refine Passes.congr ?_ (get_bind _ e)
  have hrest : Sparing (do
      let next ← expect (.ok found)
      if !next.any (isInBatch (Batch.ofTrigger t.trigger)) then
        closeBatch (Batch.ofTrigger t.trigger) : Emission Unit) :=
    (sparing_expect_ok found).bind fun _ =>
      Sparing.ite (sparing_closeBatch _) (sparing_pure ())
  rw [hfound]
  exact Sparing.ite hrest (sparing_pure ()) e

/-! ## Visits -/

/-- The payload of a live node is found. -/
lemma passes_node {id : NodeId} {e : Emitter} (h : (e.forest.node? id).isSome = true) :
    Passes (node id) e fun _ e' => Spares e e' := by
  obtain ⟨n, hn⟩ := Option.isSome_iff_exists.mp h
  exact passes_of_ok (node_of_some hn) (Spares.refl e)

/-- Entering a node that is ready, of whatever kind. -/
lemma passes_enter {id : NodeId} {e : Emitter} (h : Ready e.forest .entering id) :
    Passes (enter id) e fun _ e' => Spares e e' := by
  refine (sparing_log _ _ _ e).bind fun _ e₁ h₁ => ?_
  refine (passes_node (h₁.ready h).self).bind fun n e₂ h₂ => ?_
  refine Passes.mono ?_ fun _ _ h₃ => (h₁.trans h₂).trans h₃
  cases n with
  | importModule path => exact sparing_enterImport id path e₂
  | machine m => exact sparing_enterMachine id m e₂
  | state s => exact sparing_enterState id s e₂
  | transition t => exact sparing_enterTransition id t e₂
  | invoke service => exact sparing_enterInvoke service e₂
  | binding b => exact sparing_enterBinding id b e₂
  | specifier imported renamed => exact sparing_pure () e₂

/-- Leaving a node that is ready, of whatever kind. -/
lemma passes_leave {id : NodeId} {e : Emitter} (h : Ready e.forest .leaving id) :
    Passes (leave id) e fun _ e' => Spares e e' := by
  refine (sparing_log _ _ _ e).bind fun _ e₁ h₁ => ?_
  refine (passes_node (h₁.ready h).self).bind fun n e₂ h₂ => ?_
  have hready := (h₁.trans h₂).ready h
  refine Passes.mono ?_ fun _ _ h₃ => (h₁.trans h₂).trans h₃
  cases n with
  | machine m => exact sparing_leaveMachine id m e₂
  | state s => exact passes_leaveState hready
  | transition t => exact passes_leaveTransition t hready
  | invoke service => exact sparing_write _ e₂
  | _ => exact sparing_pure () e₂

/-! ## Steps -/

/-- **A step that enters a node** goes on to its first child or, if it has none, leaves it. -/
lemma passes_step_entering {id : NodeId} {e : Emitter} (h : Ready e.forest .entering id) :
    Passes (step .entering id) e fun place e' => Spares e e' ∧
      place = some (match e.forest.firstChild id with
        | some child => (.entering, child)
        | none => (.leaving, id)) := by
  refine (passes_enter h).bind fun _ e₁ h₁ => ?_
  have hchild : e₁.forest.firstChild id = e.forest.firstChild id := by
    rw [Forest.firstChild, linksOf_eq h₁.links, Forest.firstChild]
  refine Passes.congr ?_ (get_bind _ e₁)
  rw [hchild]
  cases e.forest.firstChild id <;> exact passes_of_ok rfl ⟨h₁, rfl⟩

/-- **A step that leaves a node** destroys it and goes on to its next sibling or, if it has none, to
the node above. -/
lemma passes_step_leaving {id : NodeId} {e : Emitter} (h : Ready e.forest .leaving id) :
    Passes (step .leaving id) e fun place e' =>
      (∃ mid g, Spares e mid ∧ mid.forest.destroy id = .ok g ∧ e' = { mid with forest := g }) ∧
      place = match e.forest.nextSibling id with
        | some next => some (.entering, next)
        | none => (e.forest.parent id).map fun above => (.leaving, above) := by
  refine (passes_leave h).bind fun _ e₁ h₁ => ?_
  obtain ⟨n, hn⟩ := Option.isSome_iff_exists.mp (h₁.ready h).self
  obtain ⟨g, hg, -⟩ := Forest.destroy_of_live hn
  have hdestroy : destroy id e₁ = .ok () { e₁ with forest := g } := by
    rw [destroy, get_bind, hg]
    rfl
  have hlinks := linksOf_eq h₁.links id
  refine Passes.congr ?_ ((get_bind _ e₁).trans (bind_of_ok hdestroy))
  rw [hlinks, Forest.nextSibling, Forest.parent]
  cases (e.forest.linksOf id).next <;> exact passes_of_ok rfl ⟨⟨e₁, g, h₁, hg, rfl⟩, rfl⟩

end Emission

end Output

end Statechart
