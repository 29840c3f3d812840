import Statechart.Proofs.Language.Performing

/-!
# Declarations become the trees they stand for

The acts of a declaration make the forest grow by its trees, and they leave its account.  This
follows from what each act does, by recursion on the declarations.

* `Built` — the forest grew by the given trees, updates of the context were seen or not, and the
  given account is left.
* The recursion follows the declarations: `AddsState` for a state, `AddsBody` and `AddsLater` for
  what stands in it, before and after its first inner state.
* **`built_items`** — a chart whose acts are carried out has grown by its trees.

**`read_eq_ok`**, **`read_of_parse`** — a chart is read exactly if it is valid, and then the program
represents its trees.
**`read_remarks`** — what is said about a chart that is read is the account of it.
**`location_of_read`** — the location of every node of a chart that is read.
-/

namespace Statechart.Language

open Statechart.Forest Statechart.Tree

namespace Assembling

/-! ## Growth -/

/-- The forest grew by the given trees, the flag was set if there is an update in them, and the
given account is left. -/
structure Built (a a' : Assembly) (touched : List NodeId) (updates : Bool)
    (added : List (Option NodeId × Tree)) (acc : Account) : Prop where
  grows : a.forest.Grows a'.forest touched added
  flag : a'.usesAssign = (a.usesAssign || updates)
  told : a'.account = acc

section built

variable {a b c : Assembly} {touched : List NodeId} {updates updates' : Bool}
variable {added added' : List (Option NodeId × Tree)} {acc acc' : Account}

lemma Built.refl (hs : a.forest.Sound) (touched : List NodeId) :
    Built a a touched false [] a.account :=
  ⟨.refl hs touched, by simp, rfl⟩

/-- Building further: later trees hang below nodes that were there at the beginning. -/
lemma Built.trans (h₁ : Built a b touched updates added acc)
    (h₂ : Built b c touched updates' added' acc') (hold : ∀ x ∈ added', a.forest.Has x.1)
    (ht : ∀ id ∈ touched, id < a.forest.nodes.size) :
    Built a c touched (updates || updates') (added ++ added') acc' where
  grows := h₁.grows.trans h₂.grows hold ht
  flag := by rw [h₂.flag, h₁.flag, Bool.or_assoc]
  told := h₂.told

lemma Built.mono (h : Built a b [] updates added acc) (touched : List NodeId) :
    Built a b touched updates added acc :=
  ⟨h.grows.mono (List.nil_subset _), h.flag, h.told⟩

/-- The payload of a leaf that was just added. -/
lemma Built.node?_leaf {p : Option NodeId} {n : NodeId} {payload : Node}
    (h : Built a b touched updates [(p, .leaf n payload)] acc) :
    b.forest.node? n = some payload :=
  (holdsAll_cons.mp h.grows.holds).1.1

/-- The number of nodes after one more tree. -/
lemma Built.size_eq {parent : Option NodeId} {t : Tree}
    (h : Built a b touched updates [(parent, t)] acc) :
    b.forest.nodes.size = a.forest.nodes.size + t.size := by
  rw [h.grows.size, List.map_singleton, length_ids_singleton]

/-- Trees below a node that was just added there. -/
lemma Built.nest {p : Option NodeId} {n : NodeId} {payload₀ payload : Node} {ts : List Tree}
    (hn : n = a.forest.nodes.size) (h₁ : Built a b touched updates [(p, .leaf n payload₀)] acc)
    (h₂ : Built b c (n :: touched) updates' (ts.map (some n, ·)) acc')
    (hnode : c.forest.node? n = some payload) :
    Built a c touched (updates || updates') [(p, .node n payload ts)] acc' := by
  have hgrows := h₁.grows.nest hn h₂.grows hnode
  have hall : (ts.map fun t => (some n, t)).filter (·.1 = some n) = ts.map (some n, ·) :=
    List.filter_eq_self.mpr (by simp)
  have hnone : (ts.map fun t => (some n, t)).filter (¬ ·.1 = some n) = [] :=
    List.filter_eq_nil_iff.mpr (by simp)
  rw [hall, hnone, List.map_map] at hgrows
  exact ⟨by simpa [Function.comp_def] using hgrows, by rw [h₂.flag, h₁.flag, Bool.or_assoc], h₂.told⟩

end built

/-! ## Rows -/

variable (file : Nat) {a : Assembly}

/-- **A row of declarations.**  If each declaration adds its tree at the end of one row, then the
declarations of a list add their trees, numbered on, at the end of that row. -/
lemma built_row {α : Type} (run : NodeId → List α → List Act) (step : NodeId → α → List Act)
    (tree : NodeId → α → Tree) (updates : α → Bool) (tell : Account → α → Account)
    (parent : Option NodeId) (hnil : ∀ n, run n [] = [])
    (hcons : ∀ n x xs, run n (x :: xs) = step n x ++ run (n + (tree n x).size) xs)
    (hstep : ∀ x a, a.forest.Sound → a.forest.Has parent →
      Built a (carry file (step a.forest.nodes.size x) a) [] (updates x)
        [(parent, tree a.forest.nodes.size x)] (tell a.account x)) :
    ∀ (xs : List α) (a : Assembly), a.forest.Sound → a.forest.Has parent →
      Built a (carry file (run a.forest.nodes.size xs) a) [] (xs.any updates)
        ((numbered tree a.forest.nodes.size xs).map (parent, ·)) (xs.foldl tell a.account)
  | [], a, hs, _ => by
      rw [hnil]
      exact .refl hs []
  | x :: xs, a, hs, hp => by
      have hb := hstep x a hs hp
      have hsize := hb.size_eq
      have hp' : (carry file (step a.forest.nodes.size x) a).forest.Has parent := fun id hid =>
        Nat.lt_of_lt_of_le (hp id hid) hb.grows.size_le
      have hc := built_row run step tree updates tell parent hnil hcons hstep xs _ hb.grows.sound hp'
      have hold : ∀ y ∈ (numbered tree (a.forest.nodes.size + (tree a.forest.nodes.size x).size)
          xs).map fun t => (parent, t), a.forest.Has y.1 := by
        intro y hy
        obtain ⟨t, -, rfl⟩ := List.mem_map.mp hy
        exact hp
      rw [hsize, hb.told] at hc
      rw [hcons, carry_append]
      exact hb.trans hc hold (by simp)

/-! ## Declarations without nesting -/

/-- A node that is added below a node that is there. -/
lemma built_node (hs : a.forest.Sound) {p : NodeId} (hp : p < a.forest.nodes.size) (n : Node)
    (span : Span) (touched : List NodeId) :
    Built a ((Act.node (some p) n span).apply file a) touched false
      [(some p, .leaf a.forest.nodes.size n)] a.account :=
  ⟨grows_attach hs hp touched, by simp [Act.apply], rfl⟩

/-- A binding below a node that is there. -/
lemma built_binding {p : NodeId} (d : BindingDecl) (hs : a.forest.Sound)
    (hp : p < a.forest.nodes.size) :
    Built a (carry file (d.acts (some p)) a) [] d.value.updates
      [(some p, .leaf a.forest.nodes.size (.binding d.binding))] (a.account.binding file d) := by
  have hgrows := @grows_attach _ (.binding d.binding) ⟨d.span, file⟩ hs _ hp []
  rw [BindingDecl.acts]
  cases d.value with
  | assign assign => exact ⟨hgrows, by simp [BindingValue.updates]; rfl, a.account_tell _⟩
  | named use => exact ⟨hgrows, by simp [BindingValue.updates]; rfl, a.account_tell _⟩

/-- Specifiers become leaves below their import. -/
lemma built_specifiers {p : NodeId} (specifiers : List (Located String)) (hs : a.forest.Sound)
    (hp : p < a.forest.nodes.size) :
    Built a (carry file (specifiers.map fun s => .node (some p) (.specifier s.value none) s.span) a)
      [] false ((numbered (fun n s => leaf n (.specifier s.value none))
        a.forest.nodes.size specifiers).map (some p, ·)) a.account := by
  have hrow := built_row file
    (fun _ specifiers => specifiers.map fun s => .node (some p) (.specifier s.value none) s.span)
    (fun _ (s : Located String) => [.node (some p) (.specifier s.value none) s.span])
    (fun n s => leaf n (.specifier s.value none)) (fun _ => false) (fun acc _ => acc) (some p)
    (fun _ => rfl) (fun _ _ _ => rfl) (fun s b hb hhas => built_node file hb (hhas p rfl) _ _ [])
    specifiers a hs (by rintro id ⟨⟩; exact hp)
  have hquiet : (specifiers.any fun _ => false) = false := List.any_eq_false.mpr (by simp)
  rwa [hquiet, List.foldl_fixed] at hrow

/-- Rejections change nothing. -/
lemma carry_rejects (es : List Rejection) : carry file (es.map .reject) a = a := by
  induction es with
  | nil => rfl
  | cons e es ih => exact ih

/-- The steps of a transition set the flag if there is an update among them. -/
lemma carry_steps (steps : List StepDecl) : ∀ a : Assembly,
    carry file (steps.flatMap StepDecl.acts) a =
      { a with usesAssign := a.usesAssign || steps.any StepDecl.updates } := by
  induction steps with
  | nil => intro a; simp
  | cons step rest ih =>
      intro a
      rw [List.flatMap_cons, carry_append, ih]
      cases step <;> simp [StepDecl.acts, StepDecl.updates, Act.apply]

/-- A transition becomes a leaf. -/
lemma built_transition {p : NodeId} (d : TransitionDecl) (hs : a.forest.Sound)
    (hp : p < a.forest.nodes.size) :
    Built a (carry file (d.acts p) a) [] d.updates
      [(some p, .leaf a.forest.nodes.size (.transition d.transition))] a.account := by
  rw [TransitionDecl.acts, carry_append, carry_rejects, carry_append, carry_steps]
  exact ⟨grows_attach hs hp [], rfl, rfl⟩

/-- Transitions become leaves, in order. -/
lemma built_transitions {p : NodeId} (ds : List TransitionDecl) (hs : a.forest.Sound)
    (hp : p < a.forest.nodes.size) :
    Built a (carry file (ds.flatMap (TransitionDecl.acts p)) a) [] (ds.any TransitionDecl.updates)
      ((numbered (fun n t => leaf n (.transition t.transition)) a.forest.nodes.size ds).map
        (some p, ·)) a.account := by
  have hrow := built_row file (fun _ ds => ds.flatMap (TransitionDecl.acts p))
    (fun _ d => d.acts p) (fun n t => leaf n (.transition t.transition)) TransitionDecl.updates
    (fun acc _ => acc) (some p) (fun _ => rfl) (fun _ _ _ => rfl)
    (fun d b hb hhas => built_transition file d hb (hhas p rfl)) ds a hs (by rintro id ⟨⟩; exact hp)
  rwa [List.foldl_fixed] at hrow

/-- An invocation becomes a node with its transitions below it. -/
lemma built_invoke {p : NodeId} (d : InvokeDecl) (hs : a.forest.Sound)
    (hp : p < a.forest.nodes.size) :
    Built a (carry file (d.acts p a.forest.nodes.size) a) []
      (d.transitions.any TransitionDecl.updates) [(some p, d.tree a.forest.nodes.size)]
      a.account := by
  have hnode := built_node file hs hp (.invoke d.service) d.span []
  have hsize := hnode.size_eq
  rw [size_leaf] at hsize
  have hlt : a.forest.nodes.size <
      ((Act.node (some p) (.invoke d.service) d.span).apply file a).forest.nodes.size := by
    rw [hsize]
    exact Nat.lt_succ_self _
  have hrow := built_transitions file d.transitions hnode.grows.sound hlt
  have hpayload := (hrow.grows.payload _ hlt (by simp)).trans hnode.node?_leaf
  rw [hsize] at hrow
  exact hnode.nest rfl (hrow.mono _) hpayload

/-! ## States -/

/-- A live node has a number below the number of nodes. -/
lemma lt_size_of_node? {f : Forest} {id : NodeId} {n : Node} (h : f.node? id = some n) :
    id < f.nodes.size := by
  by_contra hlt
  rw [node?, Array.getElem?_eq_none (Nat.not_lt.mp hlt)] at h
  cases h

section state

variable {machine : NodeId} {m : Machine}

/-- A machine that has an initial state keeps it, and another one gets the given one. -/
lemma built_mark (head : StateHead) (hs : a.forest.Sound)
    (hm : a.forest.node? machine = some (.machine m)) :
    Built a ((Act.mark machine head).apply file a) [machine] false []
        (a.account.head file m.initial head) ∧
      ((Act.mark machine head).apply file a).forest.node? machine =
        some (.machine (withInitial m (some head.name))) := by
  have hmachine : a.forest.machine? machine = some m := by rw [machine?, hm]
  rw [Act.apply, hmachine]
  dsimp only
  cases hinitial : m.initial with
  | some first =>
      have hkept : withInitial m (some head.name) = m := by
        obtain ⟨name, initial, hasStates⟩ := m
        cases hinitial
        rfl
      rw [hkept]
      exact ⟨⟨.refl hs _, (Bool.or_false _).symm, a.account_tell _⟩, hm⟩
  | none =>
      have hset : withInitial m (some head.name) = { m with initial := some head.name } := by
        rw [withInitial, hinitial]
        rfl
      refine ⟨⟨grows_setNode hs hm, (Bool.or_false _).symm, a.account_tell _⟩, ?_⟩
      rw [hset]
      exact (node?_setNode hm _ machine).trans (if_pos rfl)

/-- The node of a state is added to its machine, which may get its initial state before. -/
lemma built_head (names : List String) (head : StateHead) (span : Span) (hs : a.forest.Sound)
    (hm : a.forest.node? machine = some (.machine m)) :
    Built a (carry file (head.acts machine names span) a) [machine] false
        [(some machine, .leaf a.forest.nodes.size (.state head.state))]
        (a.account.head file m.initial head) ∧
      (carry file (head.acts machine names span) a).forest.node? machine =
        some (.machine (withInitial m (firstInitial [head]))) := by
  have hlt := lt_size_of_node? hm
  rw [StateHead.acts, carry_append, carry_rejects, carry_append]
  cases hinitial : head.isInitial with
  | false =>
      have hsame : a.account.head file m.initial head = a.account := by
        cases m.initial <;> simp [Account.head, hinitial]
      have hfirst : firstInitial [head] = none := by simp [firstInitial, hinitial]
      have hnode := built_node file hs hlt (.state head.state) span [machine]
      rw [hsame, hfirst, withInitial_none]
      exact ⟨hnode, ((built_node file hs hlt (.state head.state) span []).grows.payload machine hlt
        (by simp)).trans hm⟩
  | true =>
      have hfirst : firstInitial [head] = some head.name := by simp [firstInitial, hinitial]
      obtain ⟨hb, hm'⟩ := built_mark file head hs hm
      have hlt' := lt_size_of_node? hm'
      have hsize : ((Act.mark machine head).apply file a).forest.nodes.size =
          a.forest.nodes.size := (Act.mark machine head).size_apply file a
      have hnode := built_node file hb.grows.sound hlt' (.state head.state) span []
      have hall := hb.trans (hnode.mono [machine]) (by simp [Has, hlt]) (by simp [hlt])
      rw [hsize, hb.told] at hall
      rw [hfirst]
      exact ⟨hall, (hnode.grows.payload machine hlt' (by simp)).trans hm'⟩

/-- The acts of a clause that is not a state. -/
def Clause.acts (parent n : NodeId) : Clause → List Act
  | .binding d => d.acts (some parent)
  | .invoke d => d.acts parent n
  | .transition d => d.acts parent
  | .state _ => []

/-- A clause that is no state does its own acts, and the others go on behind it. -/
lemma clauseActs_cons {c : Clause} (hc : c.state? = none) (p n : NodeId) (nested : Option NodeId)
    (names : List String) (rest : List Clause) :
    clauseActs p nested names n (c :: rest) =
      Clause.acts p n c ++ clauseActs p nested names (n + (c.tree n).size) rest := by
  rw [c.length_places]
  cases c with
  | state d => cases hc
  | _ => rw [clauseActs, Clause.places]; rfl

/-- A clause that is not a state is added below the state that it stands in. -/
lemma built_clause {c : Clause} (hc : c.state? = none) {p : NodeId} (hs : a.forest.Sound)
    (hp : p < a.forest.nodes.size) :
    Built a (carry file (Clause.acts p a.forest.nodes.size c) a) [] c.updates
      [(some p, c.tree a.forest.nodes.size)] (a.account.clause file c) := by
  cases c with
  | binding d => rw [Clause.updates, Clause.tree]; exact built_binding file d hs hp
  | invoke d => rw [Clause.updates, Clause.tree]; exact built_invoke file d hs hp
  | transition d => rw [Clause.updates, Clause.tree]; exact built_transition file d hs hp
  | state d => cases hc

/-- Where the tree of a clause goes once there is a machine for the inner states. -/
def place (machine p : NodeId) (t : Tree) : Option NodeId × Tree :=
  (if t.isState then some machine else some p, t)

/-- Inner states hang below the machine that gathers them. -/
lemma place_state (machine p n : NodeId) (d : StateDecl) :
    place machine p (d.tree n) = (some machine, d.tree n) := by
  have hstate : (d.tree n).isState = true := by
    have htree := (Clause.state d).isState_tree n
    rwa [Clause.tree] at htree
  rw [place, if_pos hstate]

/-- Both the machine and the state that it hangs below are there. -/
lemma has_place {f : Forest} {machine p : NodeId} (hm : machine < f.nodes.size)
    (hp : p < f.nodes.size) (ts : List Tree) : ∀ x ∈ ts.map (place machine p), f.Has x.1 := by
  intro x hx id hid
  obtain ⟨t, -, rfl⟩ := List.mem_map.mp hx
  rw [place] at hid
  split at hid
  · obtain rfl := Option.some.inj hid; exact hm
  · obtain rfl := Option.some.inj hid; exact hp

/-- What is below the machine for the inner states, and what is beside it. -/
lemma filter_place {machine p : NodeId} (hne : p ≠ machine) (ts : List Tree) :
    ((ts.map (place machine p)).filter (·.1 = some machine)).map Prod.snd = ts.filter isState ∧
      (ts.map (place machine p)).filter (¬ ·.1 = some machine) =
        (ts.filter (!isState ·)).map (some p, ·) := by
  induction ts with
  | nil => exact ⟨rfl, rfl⟩
  | cons t ts ih =>
      cases ht : t.isState with
      | true => simpa [place, ht] using ih
      | false => simpa [place, ht, hne] using ih

/-! ### One constructor at a time -/

variable {file}

/-- What is to be shown about a state. -/
def AddsState (file : Nat) (d : StateDecl) : Prop :=
  ∀ (names : List String) {a : Assembly} {machine : NodeId} {m : Machine}, a.forest.Sound →
    a.forest.node? machine = some (.machine m) →
    Built a (carry file (d.acts machine names a.forest.nodes.size) a) [machine] d.updates
        [(some machine, d.tree a.forest.nodes.size)] (a.account.state file m.initial d) ∧
      (carry file (d.acts machine names a.forest.nodes.size) a).forest.node? machine =
        some (.machine (withInitial m (firstInitial [d.head])))

/-- What is to be shown about clauses as long as there is no machine for the inner states. -/
def AddsBody (file : Nat) (body : List Clause) : Prop :=
  ∀ {a : Assembly} {p : NodeId}, a.forest.Sound → p < a.forest.nodes.size →
    Built a (carry file (clauseActs p none [] a.forest.nodes.size body) a) [] (anyUpdates body)
      ((clauseTrees a.forest.nodes.size body).map (some p, ·)) (a.account.clauses file none body)

/-- What is to be shown about clauses once there is a machine for the inner states. -/
def AddsLater (file : Nat) (body : List Clause) : Prop :=
  ∀ (names : List String) {a : Assembly} {p machine : NodeId} {m : Machine}, a.forest.Sound →
    p < a.forest.nodes.size → a.forest.node? machine = some (.machine m) →
    Built a (carry file (clauseActs p (some machine) names a.forest.nodes.size body) a) [machine]
        (anyUpdates body) ((rowTrees a.forest.nodes.size body).map (place machine p))
        (a.account.clauses file m.initial body) ∧
      (carry file (clauseActs p (some machine) names a.forest.nodes.size body) a).forest.node?
        machine = some (.machine (withInitial m (firstInitial (innerHeads body))))

/-- The node of a state is added, and then all that is nested in it, below that node. -/
lemma AddsState.mk {body : List Clause} (ih : AddsBody file body) (head : StateHead)
    (span : Span) : AddsState file (.mk head body span) := by
  intro names a machine m hs hm
  obtain ⟨hb, hm'⟩ := built_head file names head span hs hm
  have hsize := hb.size_eq
  rw [size_leaf] at hsize
  have hlt : a.forest.nodes.size <
      (carry file (head.acts machine names span) a).forest.nodes.size := by
    rw [hsize]
    exact Nat.lt_succ_self _
  have hc := ih hb.grows.sound hlt
  have hnode := (hc.grows.payload _ hlt (by simp)).trans hb.node?_leaf
  have hmachine := (hc.grows.payload machine (lt_size_of_node? hm') (by simp)).trans hm'
  rw [hsize, hb.told] at hc
  rw [hsize] at hnode hmachine
  have hnest := hb.nest rfl (hc.mono [a.forest.nodes.size, machine]) hnode
  rw [StateDecl.acts, carry_append, StateDecl.updates, StateDecl.tree, Account.state]
  exact ⟨hnest, hmachine⟩

lemma AddsBody.nil : AddsBody file [] := by
  intro a p hs hp
  rw [clauseActs, clauseTrees, anyUpdates, Account.clauses]
  exact .refl hs []

/-- As long as there is no inner state, trees are added one after the other. -/
lemma AddsBody.cons {c : Clause} {rest : List Clause} (hc : c.state? = none)
    (ih : AddsBody file rest) : AddsBody file (c :: rest) := by
  intro a p hs hp
  have hb := built_clause file hc hs hp
  have hd := ih hb.grows.sound (Nat.lt_of_lt_of_le hp hb.grows.size_le)
  rw [hb.size_eq, hb.told] at hd
  rw [clauseActs_cons hc, carry_append, clauseTrees_cons _ hc, anyUpdates, List.map_cons,
    Account.clauses_cons hc]
  exact hb.trans hd (by simp [Has, hp]) (by simp)

lemma AddsLater.nil : AddsLater file [] := by
  intro names a p machine m hs hp hm
  have hnone : firstInitial (innerHeads []) = none := rfl
  rw [clauseActs, rowTrees, anyUpdates, hnone, withInitial_none, Account.clauses]
  exact ⟨.refl hs _, hm⟩

/-- A clause that is no state goes below the state that it stands in, beside the machine. -/
lemma AddsLater.cons {c : Clause} {rest : List Clause} (hc : c.state? = none)
    (ih : AddsLater file rest) : AddsLater file (c :: rest) := by
  intro names a p machine m hs hp hm
  have hlt := lt_size_of_node? hm
  have hplace : place machine p (c.tree a.forest.nodes.size) =
      (some p, c.tree a.forest.nodes.size) := by
    simp [place, c.isState_tree, hc]
  have hb := built_clause file hc hs hp
  obtain ⟨hd, hm'⟩ := ih names hb.grows.sound (Nat.lt_of_lt_of_le hp hb.grows.size_le)
    ((hb.grows.payload machine hlt (by simp)).trans hm)
  rw [hb.size_eq, hb.told] at hd
  rw [hb.size_eq] at hm'
  rw [clauseActs_cons hc, carry_append, rowTrees, anyUpdates, List.map_cons, hplace,
    innerHeads_cons_of_none hc, Account.clauses_cons hc]
  exact ⟨(hb.mono [machine]).trans hd (has_place hlt hp _) (by simpa using hlt), hm'⟩

/-- A further inner state goes below the machine that is there. -/
lemma AddsLater.state {d : StateDecl} {rest : List Clause} (hd : AddsState file d)
    (ih : AddsLater file rest) : AddsLater file (.state d :: rest) := by
  intro names a p machine m hs hp hm
  have hlt := lt_size_of_node? hm
  obtain ⟨hb, hm'⟩ := hd names hs hm
  obtain ⟨he, hm''⟩ := ih (d.head.name :: names) hb.grows.sound
    (Nat.lt_of_lt_of_le hp hb.grows.size_le) hm'
  have hacts : clauseActs p (some machine) names a.forest.nodes.size (.state d :: rest) =
      d.acts machine names a.forest.nodes.size ++ clauseActs p (some machine)
        (d.head.name :: names) (a.forest.nodes.size + (d.tree a.forest.nodes.size).size) rest := by
    rw [clauseActs, d.length_places]
    rfl
  rw [hb.size_eq, hb.told] at he
  rw [hb.size_eq] at hm''
  rw [hacts, carry_append, rowTrees, anyUpdates, List.map_cons, Clause.tree, place_state,
    Clause.updates, innerHeads_cons_state, firstInitial_cons, ← withInitial_withInitial,
    Account.clauses]
  exact ⟨hb.trans he (has_place hlt hp _) (by simpa using hlt), hm''⟩

/-- With the first inner state, a machine is added.  All that follows goes below it or beside it. -/
lemma AddsBody.state {d : StateDecl} {rest : List Clause} (hd : AddsState file d)
    (ih : AddsLater file rest) : AddsBody file (.state d :: rest) := by
  intro a p hs hp
  have hnode := built_node file hs hp (.machine {}) d.span []
  have hsize := hnode.size_eq
  rw [size_leaf] at hsize
  -- from here on it is as if there had been a machine all along
  obtain ⟨hlater, hm⟩ := AddsLater.state hd ih [] hnode.grows.sound
    (Nat.lt_of_lt_of_le hp hnode.grows.size_le) hnode.node?_leaf
  have hacts : clauseActs p none [] a.forest.nodes.size (.state d :: rest) =
      .node (some p) (.machine {}) d.span ::
        clauseActs p (some a.forest.nodes.size) [] (a.forest.nodes.size + 1) (.state d :: rest) := by
    rw [clauseActs, clauseActs]
    rfl
  rw [hsize] at hlater hm
  have hgrows := hnode.grows.nest rfl hlater.grows hm
  obtain ⟨hbelow, hbeside⟩ := filter_place (Nat.ne_of_lt hp)
    (rowTrees (a.forest.nodes.size + 1) (.state d :: rest))
  rw [hbelow, hbeside] at hgrows
  rw [hacts, carry_cons, clauseTrees_gathered _ rfl]
  exact ⟨hgrows, hlater.flag, hlater.told⟩

mutual

/-- A state is added. -/
lemma addsState (file : Nat) : ∀ d : StateDecl, AddsState file d
  | .mk head body span => AddsState.mk (addsBody file body) head span

/-- The clauses of a state, by recursion on them. -/
lemma addsBody (file : Nat) : ∀ body : List Clause, AddsBody file body
  | [] => AddsBody.nil
  | .binding _ :: rest => AddsBody.cons rfl (addsBody file rest)
  | .invoke _ :: rest => AddsBody.cons rfl (addsBody file rest)
  | .transition _ :: rest => AddsBody.cons rfl (addsBody file rest)
  | .state d :: rest => AddsBody.state (addsState file d) (addsLater file rest)

/-- The same behind the first inner state. -/
lemma addsLater (file : Nat) : ∀ body : List Clause, AddsLater file body
  | [] => AddsLater.nil
  | .binding _ :: rest => AddsLater.cons rfl (addsLater file rest)
  | .invoke _ :: rest => AddsLater.cons rfl (addsLater file rest)
  | .transition _ :: rest => AddsLater.cons rfl (addsLater file rest)
  | .state d :: rest => AddsLater.state (addsState file d) (addsLater file rest)

end

/-! ## Machines and the top level -/

variable (file)

/-- The states and bindings of a machine are added below it, and it gets its initial state. -/
lemma built_machineClauses (body : List MachineClause) : ∀ (names : List String) {a : Assembly}
    {machine : NodeId} {m : Machine}, a.forest.Sound →
    a.forest.node? machine = some (.machine m) →
    Built a (carry file (machineActs machine names a.forest.nodes.size body) a) [machine]
        (body.any MachineClause.updates)
        ((numbered MachineClause.tree a.forest.nodes.size body).map (some machine, ·))
        (a.account.machineClauses file m.initial body) ∧
      (carry file (machineActs machine names a.forest.nodes.size body) a).forest.node? machine =
        some (.machine (withInitial m (firstInitial (stateHeads body)))) := by
  induction body with
  | nil =>
      intro names a machine m hs hm
      have hnone : firstInitial (stateHeads []) = none := rfl
      rw [hnone, withInitial_none]
      exact ⟨.refl hs _, hm⟩
  | cons c rest ih =>
      intro names a machine m hs hm
      have hlt := lt_size_of_node? hm
      cases c with
      | binding d =>
          have hb := built_binding file d hs hlt
          obtain ⟨hc, hm'⟩ := ih names hb.grows.sound
            ((hb.grows.payload machine hlt (by simp)).trans hm)
          rw [hb.size_eq, hb.told] at hc
          rw [hb.size_eq] at hm'
          rw [machineActs, carry_append]
          exact ⟨(hb.mono [machine]).trans hc (by simp [Has, hlt]) (by simp [hlt]), hm'⟩
      | state d =>
          have hheads : stateHeads (.state d :: rest) = d.head :: stateHeads rest := rfl
          obtain ⟨hb, hm'⟩ := addsState file d names hs hm
          obtain ⟨hc, hm''⟩ := ih (d.head.name :: names) hb.grows.sound hm'
          rw [hb.size_eq, hb.told] at hc
          rw [hb.size_eq] at hm''
          rw [machineActs, ← d.length_places a.forest.nodes.size, carry_append, hheads,
            firstInitial_cons, ← withInitial_withInitial]
          exact ⟨hb.trans hc (by simp [Has, hlt]) (by simp [hlt]), hm''⟩

end state

/-- What was built below a loose node is a tree that can be linked in at the top level. -/
lemma built_root {b c : Assembly} {n payload : Node} {location : Location}
    {early updates : Bool} {acc : Account} (ts : List Tree) (hs : a.forest.Sound)
    (hb : b.forest = a.forest.withLoose n location)
    (hflag : b.usesAssign = (a.usesAssign || early))
    (hc : Built b c [a.forest.nodes.size] updates (ts.map (some a.forest.nodes.size, ·)) acc)
    (hnode : c.forest.node? a.forest.nodes.size = some payload) :
    Built a ((Act.root a.forest.nodes.size).apply file c) [] (early || updates)
      [(none, .node a.forest.nodes.size payload ts)] acc := by
  have hgrows := grows_root hs (hb ▸ hc.grows) (by simp) hnode
  have hmap : (ts.map fun t => (some a.forest.nodes.size, t)).map Prod.snd = ts := by
    rw [List.map_map]
    exact List.map_id _
  rw [hmap] at hgrows
  exact ⟨hgrows, hc.flag.trans (by rw [hflag, Bool.or_assoc]), hc.told⟩

/-- **A declaration becomes its tree**, which is the last one at the top level. -/
lemma built_item (item : Item) (hs : a.forest.Sound) :
    Built a (carry file (item.acts a.forest.nodes.size) a) [] item.updates
      [(none, item.tree a.forest.nodes.size)] (a.account.item file item) := by
  cases item with
  | importDecl d =>
      let b := (Act.node none (.importModule d.path) d.span).apply file a
      have hsize : b.forest.nodes.size = a.forest.nodes.size + 1 := size_withLoose
      have hlt : a.forest.nodes.size < b.forest.nodes.size := by
        rw [hsize]
        exact Nat.lt_succ_self _
      have hrow := built_specifiers file (a := b) d.specifiers hs.withLoose.sound hlt
      have hpayload := (hrow.grows.payload _ hlt (by simp)).trans
        ((node?_withLoose _).trans (if_pos rfl))
      rw [hsize] at hrow
      rw [Item.acts, carry_append]
      exact built_root file (b := b) _ hs rfl (Bool.or_false _).symm (hrow.mono _) hpayload
  | binding d =>
      let b := carry file (d.acts none) a
      have hforest : b.forest = a.forest.withLoose (.binding d.binding) ⟨d.span, file⟩ := by
        cases hvalue : d.value <;> simp only [b, BindingDecl.acts, hvalue] <;> rfl
      have hflag : b.usesAssign = (a.usesAssign || d.value.updates) := by
        cases hvalue : d.value <;>
          simp [b, BindingDecl.acts, hvalue, BindingValue.acts, BindingValue.updates, Act.apply,
            Assembly.tell]
      have htold : b.account = a.account.binding file d := by
        cases hvalue : d.value <;> simp only [b, BindingDecl.acts, hvalue] <;>
          exact a.account_tell _
      have hpayload : b.forest.node? a.forest.nodes.size = some (.binding d.binding) := by
        rw [hforest]
        exact (node?_withLoose _).trans (if_pos rfl)
      have hroot := built_root file [] hs hforest hflag
        (.refl (hforest ▸ hs.withLoose.sound) _) hpayload
      rw [htold, Bool.or_false] at hroot
      rw [Item.acts, carry_append]
      exact hroot
  | machine d =>
      let b := carry file [.log ("parsing machine " ++ d.name.getD "(default)"),
        .node none (.machine { name := d.name }) d.span] a
      have hsize : b.forest.nodes.size = a.forest.nodes.size + 1 := size_withLoose
      have hm : b.forest.node? a.forest.nodes.size = some (.machine { name := d.name }) :=
        (node?_withLoose _).trans (if_pos rfl)
      have htold : b.account = a.account.log ("parsing machine " ++ d.name.getD "(default)") :=
        a.account_tell _
      obtain ⟨hbody, hpayload⟩ :=
        built_machineClauses file (a := b) d.body [] hs.withLoose.sound hm
      rw [hsize, htold] at hbody
      rw [hsize] at hpayload
      rw [Item.acts, carry_append]
      exact built_root file (b := b) _ hs rfl (Bool.or_false _).symm hbody hpayload

/-- **A chart whose acts are carried out** has grown by its trees, and left its account. -/
lemma built_items (items : List Item) :
    Built {} (carry file (itemActs 0 items) {}) [] (items.any Item.updates)
      ((itemTrees items).map (none, ·)) (Account.items file items {}) := by
  have haccount : ∀ (items : List Item) (acc : Account),
      items.foldl (fun acc item => acc.item file item) acc = acc.items file items := by
    intro items
    induction items with
    | nil => exact fun _ => rfl
    | cons item rest ih => exact fun _ => ih _
  have hrow := built_row file itemActs Item.acts Item.tree Item.updates
    (fun acc item => acc.item file item) none (fun _ => rfl)
    (fun n item rest => by rw [itemActs, item.length_places])
    (fun item a hs _ => built_item file item hs) items {} Rows.empty.sound nofun
  rw [haccount] at hrow
  exact hrow

end Assembling

/-! ## Charts -/

/-- A chart without offences is put together by all its acts. -/
lemma built_assembled (file : Nat) {items : List Item} (h : items.flatMap Item.offences = []) :
    Assembling.Built {} (assembled file items) [] (items.any Item.updates)
      ((itemTrees items).map (none, ·)) (Account.items file items {}) := by
  have hall : assembled file items = carry file (itemActs 0 items) {} := by
    rw [assembled, accepted_eq_self ((outline_itemActs items 0).offences.trans h)]
  rw [hall]
  exact Assembling.built_items file items

/-- What has grown by the trees of a chart represents them. -/
lemma represents_of_built {a : Assembly} {items : List Item} {updates : Bool} {acc : Account}
    (h : Assembling.Built {} a [] updates ((itemTrees items).map (none, ·)) acc) :
    a.forest.Represents (itemTrees items) ∧
      a.forest.nodes.size = (ids (itemTrees items)).length := by
  have htrees : ((itemTrees items).map fun t => ((none : Option NodeId), t)).map Prod.snd =
      itemTrees items := by
    rw [List.map_map]
    exact List.map_id _
  have hall : ((itemTrees items).map fun t => ((none : Option NodeId), t)).filter (·.1 = none) =
      (itemTrees items).map (none, ·) := List.filter_eq_self.mpr (by simp)
  have hroots : a.forest.rowOf none = (itemTrees items).map Tree.id := by
    have hnone : ({} : Assembly).forest.rowOf none = [] := rfl
    refine (h.grows.row none nofun).trans ?_
    rw [hnone, List.nil_append]
    exact (congrArg _ hall).trans (by rw [List.map_map]; rfl)
  have hnumbered : NumberedFrom 0 (itemTrees items) := htrees ▸ h.grows.numbered
  have hholds : a.forest.HoldsAll (itemTrees items) := htrees ▸ h.grows.holds
  refine ⟨represents_of_holdsAll h.grows.sound hroots hholds hnumbered.nodup, ?_⟩
  rw [h.grows.size, htrees]
  exact Nat.zero_add _

/-- **A chart has no offence exactly if it is valid.** -/
lemma offences_eq_nil {items : List Item} :
    items.flatMap Item.offences = [] ↔ items.all Item.valid = true := by
  simp only [List.flatMap_eq_nil_iff, Item.offences_eq_nil, List.all_eq_true]

/-- A chart that is read has no offence, and was put together by its acts. -/
lemma assembled_of_read {file : Nat} {text : String} {program : Program} {items : List Item}
    (h : (read file text).1 = .ok program) (hparse : parse text = .ok items) :
    items.flatMap Item.offences = [] ∧
      program = ⟨(assembled file items).forest, (assembled file items).usesAssign⟩ := by
  rw [read_of_acts hparse] at h
  cases hoffences : items.flatMap Item.offences with
  | nil => rw [hoffences] at h; exact ⟨rfl, (Except.ok.inj h).symm⟩
  | cons e es => rw [hoffences] at h; cases h

/-- **A text is read** exactly if it can be parsed and the chart is valid; the program then is the
trees of the chart. -/
theorem read_eq_ok {file : Nat} {text : String} {program : Program} {remarks : List Remark}
    (h : read file text = (.ok program, remarks)) : ∃ items, parse text = .ok items ∧
      items.all Item.valid = true ∧ program.forest.Represents (itemTrees items) ∧
      program.forest.nodes.size = (ids (itemTrees items)).length ∧
      program.usesAssign = items.any Item.updates := by
  cases hparse : parse text with
  | error attempts =>
      unfold read at h
      rw [hparse] at h
      cases h
  | ok items =>
      obtain ⟨hoffences, rfl⟩ := assembled_of_read (congrArg Prod.fst h) hparse
      have hbuilt := built_assembled file hoffences
      obtain ⟨hrepresents, hsize⟩ := represents_of_built hbuilt
      exact ⟨items, rfl, offences_eq_nil.mp hoffences, hrepresents, hsize,
        hbuilt.flag.trans (Bool.false_or _)⟩

/-- A chart that can be parsed is read if it is valid. -/
theorem read_of_parse {text : String} {items : List Item} (h : parse text = .ok items)
    (hvalid : items.all Item.valid = true) (file : Nat) :
    ∃ program remarks, read file text = (.ok program, remarks) := by
  rw [read_of_acts h, offences_eq_nil.mpr hvalid]
  exact ⟨_, _, rfl⟩

/-- **What is said about a chart that is read** is the account of its declarations. -/
theorem read_remarks {file : Nat} {text : String} {program : Program} {remarks : List Remark}
    {items : List Item} (h : read file text = (.ok program, remarks))
    (hparse : parse text = .ok items) : remarks = (Account.items file items {}).remarks := by
  obtain ⟨hoffences, -⟩ := assembled_of_read (congrArg Prod.fst h) hparse
  have hsaid := congrArg Prod.snd h
  rw [read_of_acts hparse] at hsaid
  rw [← (built_assembled file hoffences).told]
  exact hsaid.symm

/-- **The location of every node** of a chart that was read. -/
lemma location_of_read {file : Nat} {text : String} {program : Program} {items : List Item}
    (hread : (read file text).1 = .ok program) (hparse : parse text = .ok items) :
    program.forest.nodes.size = (items.flatMap Item.places).length ∧
      ∀ id, program.forest.location id =
        ((items.flatMap Item.places)[id]?).map (⟨·, file⟩) := by
  obtain ⟨hoffences, rfl⟩ := assembled_of_read hread hparse
  have hlocated := locatedBy_assembled file hoffences
  exact ⟨hlocated.size, hlocated.location⟩

end Statechart.Language
