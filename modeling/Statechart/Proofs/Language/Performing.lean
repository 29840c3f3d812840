import Statechart.Proofs.Language.Acts

/-!
# Charts are put together by acts

Each function that puts a chart together is specified once: it carries out the acts of its
declaration, up to the first rejection, and nothing else.  All that is known about the charts that
are read follows from their acts.

* `Performs` — from a chart of so many nodes, a step carries out the given acts.
* The specifications follow the functions: `performs_addBinding`, `performs_addTransition`,
  `performs_addState` and so on.

**`performs_addItems`** — a chart is put together by its acts.
**`read_of_acts`** — what becomes of a text that follows the grammar.
**`saidIn_assembled`**, **`locatedBy_assembled`** — what is said about it, and where its nodes are.
-/

namespace Statechart.Language

/-! ## Steps carry out their acts -/

namespace Assembling

section performs

variable {α β : Type} {file : Nat} {n m : NodeId} {acts acts' : List Act}
variable {x : Assembling α} {k : α → Assembling β} {r : α} {s : β}

/-- From a chart of `n` nodes, the step carries out the given acts and returns `r`. -/
def Performs (file : Nat) (n : NodeId) (acts : List Act) (x : Assembling α) (r : α) : Prop :=
  ∀ a : Assembly, a.forest.nodes.size = n → x a = enact file acts r a

lemma performs_pure (r : α) : Performs file n [] (pure r) r := fun _ _ => rfl

lemma performs_throw (e : Rejection) (r : α) : Performs file n [.reject e] (throw e) r :=
  fun _ _ => (enact_reject e r).symm

/-- A step that is a single act. -/
lemma performs_act {act : Act} (hact : act.rejection? = none)
    (h : ∀ a : Assembly, a.forest.nodes.size = n → x a = .ok r (act.apply file a)) :
    Performs file n [act] x r := by
  intro a ha
  rw [enact_cons hact, h a ha]
  rfl

lemma Performs.congr {r' : α} (hx : Performs file n acts x r) (hr : r = r') :
    Performs file n acts x r' := hr ▸ hx

/-- One step after another.  The second one begins with the nodes that the first has added. -/
lemma Performs.bind (hx : Performs file n acts x r) (hm : m = n + (placed acts).length)
    (hk : Performs file m acts' (k r) s) : Performs file n (acts ++ acts') (x >>= k) s := by
  intro a ha
  have hleft : (x >>= k) a = EStateM.bind x k a := rfl
  have hright : (enact file acts r >>= fun _ => enact file acts' s) a =
    EStateM.bind (enact file acts r) (fun _ => enact file acts' s) a := rfl
  rw [enact_append r s, hleft, hright, EStateM.bind, EStateM.bind, hx a ha]
  cases hrejections : rejections acts with
  | nil =>
      have hsize : (carry file acts a).forest.nodes.size = m := by rw [size_carry, ha, hm]
      simp only [enact, hrejections, accepted_eq_self hrejections]
      exact hk _ hsize
  | cons e es => simp only [enact, hrejections]; rfl

/-- A step that adds no node, and then another. -/
lemma Performs.before (hx : Performs file n acts x r) (hplaced : placed acts = [])
    (hk : Performs file n acts' (k r) s) : Performs file n (acts ++ acts') (x >>= k) s :=
  hx.bind (by rw [hplaced]; rfl) hk

/-- A step, and then a result. -/
lemma Performs.next (hx : Performs file n acts x r) (hk : k r = pure s) :
    Performs file n acts (x >>= k) s := by
  have hboth := hx.bind rfl (hk ▸ performs_pure s)
  rwa [List.append_nil] at hboth

/-- A node is added, and not linked in yet. -/
lemma performs_addNode (payload : Node) (span : Span) :
    Performs file n [.node none payload span] (addNode file payload span) n := by
  refine performs_act rfl fun a ha => ?_
  subst ha
  rfl

/-- A node is added and linked in, and the rest of the block is told its number. -/
lemma Performs.attach {k : NodeId → Assembling α} (parent : Option NodeId) (payload : Node)
    (span : Span) (hk : Performs file (n + 1) acts (k n) r) :
    Performs file n (.node parent payload span :: acts) (do
      let id ← addNode file payload span
      append parent id
      k id) r := by
  intro a ha
  have hsize := (Act.node parent payload span).size_apply file a
  subst ha
  exact (hk _ hsize).trans (enact_cons rfl r).symm

/-- A node is added and hung below its parent, and its number is the next one. -/
lemma performs_node (parent : Option NodeId) (payload : Node) (span : Span) :
    Performs file n [.node parent payload span] (do
      let id ← addNode file payload span
      append parent id
      return id) n :=
  (performs_pure n).attach parent payload span

/-! ### Declarations without nesting -/

/-- The rest of a block after a step that accepts. -/
lemma bind_of_ok {a b : Assembly} (h : x a = .ok r b) : (x >>= k) a = k r b := by
  show EStateM.bind x k a = k r b
  rw [EStateM.bind, h]

lemma toArray_concat (rs : Array Remark) (r : Remark) : (rs.toList ++ [r]).toArray = rs.push r :=
  Array.ext' (by simp)

lemma log_eq (message : String) (a : Assembly) :
    log .debug message a = .ok () (a.tell (a.account.log message)) := by
  rw [Assembly.tell, Account.log, Assembly.account, toArray_concat]
  rfl

/-- A warning is logged first. -/
lemma warn_eq (span : Span) (message : String) (a : Assembly) :
    warn file span message a = .ok () (a.tell (a.account.warn file span message)) := by
  rw [warn, bind_of_ok (log_eq message a), Account.warn, Assembly.tell, Assembly.tell,
    ← List.push_toArray]
  rfl

/-- A name is noted, and it is known whether it is new. -/
lemma bindName_eq (kind : BindingKind) (name : String) (a : Assembly) :
    bindName kind name a = .ok (decide (name ∈ a.account.names kind))
      (a.tell (a.account.bind kind name)) := by
  cases kind <;> rfl

lemma performs_log (message : String) : Performs file n [.log message] (log .debug message) () :=
  performs_act rfl fun a _ => log_eq message a

lemma performs_bindingExpr (value : BindingValue) :
    Performs file n value.acts (bindingExpr value) value.expr := by
  cases value with
  | assign d => exact performs_act rfl fun a _ => rfl
  | named use => exact performs_pure _

/-- Bindings do their acts. -/
lemma performs_addBinding (parent : Option NodeId) (d : BindingDecl) :
    Performs file n (d.acts parent) (addBinding file parent d) n := by
  have hplaced : placed d.value.acts = [] := by cases d.value <;> rfl
  refine (performs_bindingExpr d.value).before hplaced fun a ha => ?_
  rw [bind_of_ok (bindName_eq d.kind d.name a), enact_cons rfl, Act.apply, Account.binding]
  by_cases hbound : d.name ∈ a.account.names d.kind
  · rw [if_pos hbound, if_pos (decide_eq_true hbound), bind_of_ok (warn_eq _ _ _)]
    exact performs_node parent (.binding d.binding) d.span _ ha
  · rw [if_neg hbound, if_neg (by simpa using hbound)]
    exact performs_node parent (.binding d.binding) d.span _ ha

/-- The specifiers of an import are added in order, below the import. -/
lemma performs_addSpecifiers (parent : NodeId) (specifiers : List (Located String)) :
    ∀ n : NodeId, Performs file n
      (specifiers.map fun s => .node (some parent) (.specifier s.value none) s.span)
      (addSpecifiers file parent specifiers) () := by
  induction specifiers with
  | nil => exact fun n => performs_pure _
  | cons s rest ih =>
      intro n
      exact (ih (n + 1)).attach (some parent) (.specifier s.value none) s.span

lemma performs_addImport (d : ImportDecl) : Performs file n (d.acts n) (addImport file d) n :=
  (performs_addNode (.importModule d.path) d.span).bind rfl
    ((performs_addSpecifiers n d.specifiers _).next rfl)

/-- A delay that is too long is rejected. -/
lemma performs_triggerOf (d : TransitionDecl) :
    Performs file n (d.offences.map .reject) (triggerOf d.trigger) d.trigger.trigger := by
  rw [TransitionDecl.offences]
  cases d.trigger with
  | immediate => exact performs_pure _
  | event name => exact performs_pure _
  | delay duration =>
      rw [triggerOf, duration.milliseconds?_eq]
      dsimp only
      by_cases hlt : duration.length < Duration.limit
      · rw [if_pos hlt, if_pos hlt]
        exact performs_pure _
      · rw [if_neg hlt, if_neg hlt]
        exact performs_throw _ _

/-- The guards and the actions of a transition are taken in order, and its updates are noted. -/
lemma performs_takeSteps (steps : List StepDecl) : ∀ t : Transition,
    Performs file n (steps.flatMap StepDecl.acts) (takeSteps t steps)
      { t with
        guards := t.guards ++ steps.filterMap StepDecl.guard?
        actions := t.actions ++ steps.filterMap StepDecl.action? } := by
  induction steps with
  | nil =>
      intro t
      rw [List.filterMap_nil, List.filterMap_nil, List.append_nil, List.append_nil]
      exact performs_pure t
  | cons step rest ih =>
      intro t
      rcases step with (name | name) | (name | name) | d
      · refine (ih (t.addGuard (.inline (.guard name)))).congr ?_
        simp [Transition.addGuard, List.filterMap_cons, StepDecl.guard?, StepDecl.action?]
      · refine (ih (t.addGuard (.named name))).congr ?_
        simp [Transition.addGuard, List.filterMap_cons, StepDecl.guard?, StepDecl.action?]
      · refine (ih (t.addAction (.inline (.action name)))).congr ?_
        simp [Transition.addAction, List.filterMap_cons, StepDecl.guard?, StepDecl.action?]
      · refine (ih (t.addAction (.named name))).congr ?_
        simp [Transition.addAction, List.filterMap_cons, StepDecl.guard?, StepDecl.action?]
      · have hupdate : Performs file n [.update] (assignment d) d.update :=
          performs_act rfl fun a _ => rfl
        refine (hupdate.before rfl
          (k := fun value => takeSteps (t.addAction (.inline (.assign value))) rest) (ih _)).congr ?_
        simp [Transition.addAction, List.filterMap_cons, StepDecl.guard?, StepDecl.action?]

/-- Transitions do their acts.  A delay that is too long is rejected before the node is added. -/
lemma performs_addTransition (parent : NodeId) (d : TransitionDecl) :
    Performs file n (d.acts parent) (addTransition file parent d) () := by
  have hnode : Performs file n [.node (some parent) (.transition d.transition) d.span] (do
      let id ← addNode file (.transition d.transition) d.span
      append (some parent) id) () := performs_act rfl fun a _ => rfl
  exact (performs_triggerOf d).before (outline_rejects d.offences).places
    ((performs_takeSteps d.steps _).before (outline_updates d.steps).places hnode)

lemma performs_addTransitions (parent : NodeId) (ds : List TransitionDecl) : ∀ n : NodeId,
    Performs file n (ds.flatMap (TransitionDecl.acts parent)) (addTransitions file parent ds) () := by
  induction ds with
  | nil => exact fun n => performs_pure _
  | cons d rest ih => exact fun n => (performs_addTransition parent d).bind rfl (ih _)

lemma performs_addInvoke (parent : NodeId) (d : InvokeDecl) :
    Performs file n (d.acts parent n) (addInvoke file parent d) () :=
  (performs_addTransitions n d.transitions (n + 1)).attach (some parent) (.invoke d.service) d.span

/-! ### States and machines -/

lemma get_bind {α : Type} (f : Assembly → Assembling α) (a : Assembly) :
    (get >>= f) a = f a a := rfl

/-- The machine is looked up when its turn comes. -/
lemma performs_markInitial (machine : NodeId) {head : StateHead} (hinitial : head.isInitial = true) :
    Performs file n [.mark machine head] (markInitial file machine head) () := by
  refine performs_act rfl fun a _ => ?_
  rw [markInitial, get_bind, Act.apply]
  cases a.forest.machine? machine with
  | none => rfl
  | some m =>
      dsimp only
      cases m.initial with
      | none => rfl
      | some first =>
          dsimp only
          rw [warn_eq, Account.head, if_pos hinitial]
          rfl

/-- The head of a state does its acts.  A name that is taken is rejected before the state is marked
or added. -/
lemma performs_addStateNode (machine : NodeId) (names : List String) (head : StateHead)
    (span : Span) : Performs file n (head.acts machine names span)
      (addStateNode file machine names head span) n := by
  have hnode := @performs_node file n (some machine) (.state head.state) span
  rw [addStateNode, StateHead.acts, StateHead.offences]
  by_cases hname : head.name ∈ names
  · rw [if_pos hname, if_pos (List.contains_iff_mem.mpr hname)]
    exact fun a _ => (enact_reject _ _).symm
  · rw [if_neg hname, if_neg (mt List.contains_iff_mem.mp hname)]
    by_cases hinitial : Modifier.initial ∈ head.modifiers
    · have hmark : head.isInitial = true := decide_eq_true hinitial
      rw [hmark, if_pos rfl]
      simp only [hinitial, if_true]
      exact (performs_markInitial machine hmark).before rfl hnode
    · have hmark : head.isInitial = false := decide_eq_false hinitial
      rw [hmark, if_neg Bool.false_ne_true]
      simp only [hinitial, if_false]
      exact hnode

/-- The machine for inner states is added unless there is one. -/
lemma performs_nestedMachine (parent : NodeId) (nested : Option NodeId) (span : Span) :
    Performs file n (gatheringActs parent span nested) (nestedMachine file parent nested span)
      (nested.getD n) := by
  cases nested with
  | some machine => exact performs_pure machine
  | none => exact performs_node (some parent) (.machine {}) span

mutual

/-- A state is added by its acts. -/
lemma performs_addState (file : Nat) : ∀ (d : StateDecl) (machine : NodeId) (names : List String)
    (n : NodeId), Performs file n (d.acts machine names n) (addState file machine names d) ()
  | .mk head body span, machine, names, n => by
      rw [StateDecl.acts, addState]
      refine (performs_addStateNode machine names head span).bind ?_
        (performs_addClauses file body n none [] (n + 1))
      rw [(head.outline machine names span).places]
      rfl

/-- So is what stands in it, one clause after the other. -/
lemma performs_addClauses (file : Nat) : ∀ (body : List Clause) (parent : NodeId)
    (nested : Option NodeId) (names : List String) (n : NodeId),
    Performs file n (clauseActs parent nested names n body)
      (addClauses file parent nested names body) ()
  | [], parent, nested, names, n => by
      rw [clauseActs, addClauses]
      exact performs_pure _
  | .binding d :: rest, parent, nested, names, n => by
      rw [clauseActs, addClauses]
      refine (performs_addBinding (some parent) d).bind ?_
        (performs_addClauses file rest parent nested names (n + 1))
      rw [(d.outline (some parent)).places]
      rfl
  | .invoke d :: rest, parent, nested, names, n => by
      rw [clauseActs, addClauses]
      refine (performs_addInvoke parent d).bind ?_
        (performs_addClauses file rest parent nested names (n + d.places.length))
      rw [(d.outline parent n).places]
  | .transition d :: rest, parent, nested, names, n => by
      rw [clauseActs, addClauses]
      refine (performs_addTransition parent d).bind ?_
        (performs_addClauses file rest parent nested names (n + 1))
      rw [(d.outline parent).places]
      rfl
  | .state d :: rest, parent, nested, names, n => by
      have hgathering : n + (gatheringActs parent d.span nested).length =
          n + (placed (gatheringActs parent d.span nested)).length := by
        cases nested <;> rfl
      rw [clauseActs, addClauses]
      refine (performs_nestedMachine parent nested d.span).bind hgathering
        ((performs_addState file d (nested.getD n) names _).bind ?_
          (performs_addClauses file rest parent (some (nested.getD n)) (d.head.name :: names) _))
      rw [(d.outline (nested.getD n) names _).places]

end

/-- The clauses of a machine, by induction on them: each adds to the names and the nodes. -/
lemma performs_addMachineClauses (machine : NodeId) (body : List MachineClause) :
    ∀ (names : List String) (n : NodeId), Performs file n (machineActs machine names n body)
      (addMachineClauses file machine names body) () := by
  induction body with
  | nil => exact fun _ _ => performs_pure _
  | cons c rest ih =>
      intro names n
      cases c with
      | binding d =>
          refine (performs_addBinding (some machine) d).bind ?_ (ih names (n + 1))
          rw [(d.outline (some machine)).places]
          rfl
      | state d =>
          refine (performs_addState file d machine names n).bind ?_ (ih (d.head.name :: names) _)
          rw [(d.outline machine names n).places]

lemma performs_addMachine (d : MachineDecl) : Performs file n (d.acts n) (addMachine file d) n :=
  (performs_log _).before rfl ((performs_addNode (.machine { name := d.name }) d.span).bind rfl
    ((performs_addMachineClauses n d.body [] (n + 1)).next rfl))

/-! ### Charts -/

/-- A declaration does its acts and becomes a root. -/
lemma performs_addItem (item : Item) (n : NodeId) :
    Performs file n (item.acts n) (addItem file item) () := by
  have hroot : ∀ m : Nat, Performs file m [.root n]
      (modify fun a => { a with forest := a.forest.pushRoot n }) () :=
    fun m => performs_act rfl fun a _ => rfl
  cases item with
  | importDecl d => exact (performs_addImport d).bind rfl (hroot _)
  | binding d => exact (performs_addBinding none d).bind rfl (hroot _)
  | machine d => exact (performs_addMachine d).bind rfl (hroot _)

/-- **A chart is put together by its acts.** -/
lemma performs_addItems (file : Nat) (items : List Item) : ∀ n : NodeId,
    Performs file n (itemActs n items) (addItems file items) () := by
  induction items with
  | nil => exact fun _ => performs_pure _
  | cons item rest ih =>
      intro n
      refine (performs_addItem item n).bind ?_ (ih _)
      rw [(item.outline n).places]

end performs

end Assembling

/-! ## Texts -/

/-- The chart after the acts of some declarations, up to their first offence. -/
def assembled (file : Nat) (items : List Item) : Assembly :=
  carry file (accepted (itemActs 0 items)) {}

/-- **What becomes of a chart** that follows the grammar: it is rejected for its first offence, or
it is the program that its acts have put together. -/
lemma read_of_acts {text : String} {items : List Item} (h : parse text = .ok items) (file : Nat) :
    read file text = ((items.flatMap Item.offences).head?.elim
      (.ok ⟨(assembled file items).forest, (assembled file items).usesAssign⟩) .error,
      (assembled file items).remarks.toList) := by
  have hrun := Assembling.performs_addItems file items 0 {} rfl
  rw [enact, (outline_itemActs items 0).offences] at hrun
  unfold read
  rw [h]
  dsimp only
  rw [hrun]
  cases (items.flatMap Item.offences).head? <;> rfl

/-- What is said about a chart is said about its spans. -/
lemma saidIn_assembled {file : Nat} {items : List Item} {r : Remark}
    (h : r ∈ (assembled file items).remarks) :
    SaidIn file (items.flatMap Item.spans) r := by
  rcases mem_carry h with h | h
  · exact absurd h (by simp)
  · have hsub : (accepted (itemActs 0 items)).flatMap Act.spans ⊆
        (itemActs 0 items).flatMap Act.spans := by
      intro span hspan
      obtain ⟨act, hact, hspan⟩ := List.mem_flatMap.mp hspan
      exact List.mem_flatMap.mpr ⟨act, (List.takeWhile_sublist _).subset hact, hspan⟩
    exact h.mono (List.Subset.trans hsub (outline_itemActs items 0).spans)

/-- The nodes of a chart without offences are at its places. -/
lemma locatedBy_assembled (file : Nat) {items : List Item}
    (h : items.flatMap Item.offences = []) :
    (assembled file items).LocatedBy file (items.flatMap Item.places) := by
  have hstart : ({} : Assembly).LocatedBy file [] := by
    refine ⟨rfl, fun id => ?_⟩
    simp [Forest.location, SideTable.get, show (default : Option Location) = none from rfl]
  rw [assembled, accepted_eq_self ((outline_itemActs items 0).offences.trans h),
    ← (outline_itemActs items 0).places]
  exact locatedBy_carry hstart

end Statechart.Language
