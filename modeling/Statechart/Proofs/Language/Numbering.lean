import Statechart.Language.Declaration
import Statechart.Language.Rejection
import Statechart.Proofs.Chart.Growing

/-!
# The trees of declarations

What a chart that was written stands for, by recursion on its declarations: payloads, trees, and
the numbers of their nodes.  Nothing here adds or links anything.

* `BindingDecl.binding`, `TransitionDecl.transition` — the payloads that take some work.
* `numbered` — trees for a list, one after the other, each numbered on from the one before.
* `clauseTrees` — what hangs below a state.  Its inner states hang below one machine, which
  stands at the place of the first of them and is numbered just before it.
* `itemTrees` — the trees of a whole chart; they have the shape that the walk relies upon
  (`allShaped_itemTrees`).
* `Item.valid` — no two states of one machine have the same name, and every delay is below the
  limit.
* `Item.offences` — what a declaration is rejected for, in the order of the text.  What is valid has
  none (`Item.offences_eq_nil`).
* `Item.updates` — whether the context is updated anywhere.
-/

namespace Statechart

namespace Language

open Statechart.Tree

/-! ## Payloads -/

/-- The update that an assignment stands for. -/
def AssignDecl.update (d : AssignDecl) : Assignment := ⟨d.key, d.value.map Named.name⟩

/-- The expression that a binding gives a name to. -/
def BindingValue.expr : BindingValue → Expr
  | assign d => .assign d.update
  | named use => .identifier use.name

/-- The binding that is declared. -/
def BindingDecl.binding (d : BindingDecl) : Binding := ⟨d.kind, d.name, d.value.expr⟩

namespace Duration

/-- The number that a row of decimal digits stands for, however large it is. -/
def value (digits : List Char) : Nat :=
  digits.foldl (fun n c => 10 * n + (c.toNat - '0'.toNat)) 0

/-- A duration in milliseconds, however long it is. -/
def length (d : Duration) : Nat := value d.digits * d.unit.elim 1 TimeUnit.scale

/-- More digits do not make a number smaller. -/
lemma le_foldl (digits : List Char) (n : Nat) :
    n ≤ digits.foldl (fun n c => 10 * n + (c.toNat - '0'.toNat)) n := by
  induction digits generalizing n with
  | nil => exact Nat.le_refl n
  | cons c cs ih =>
      have hrest := ih (10 * n + (c.toNat - '0'.toNat))
      rw [List.foldl_cons]
      omega

/-- A number that is too large is so with one more digit, too. -/
lemma takeDigit_eq (n : Nat) (c : Char) :
    takeDigit n c = bounded (10 * n + (c.toNat - '0'.toNat)) := by
  unfold takeDigit bounded
  by_cases hn : 10 * n < limit
  · rw [if_pos hn]
    rfl
  · rw [if_neg hn, if_neg (by omega)]
    rfl

/-- A number that is given up when it gets too large is given up exactly if it is too large in the
end. -/
lemma number?_eq (digits : List Char) : number? digits = bounded (value digits) := by
  have hfold : ∀ n, bounded n = some n → digits.foldlM takeDigit n =
      bounded (digits.foldl (fun n c => 10 * n + (c.toNat - '0'.toNat)) n) := by
    induction digits with
    | nil => exact fun n hn => hn.symm
    | cons c cs ih =>
        intro n _
        have hle := le_foldl cs (10 * n + (c.toNat - '0'.toNat))
        rw [List.foldlM_cons, List.foldl_cons, takeDigit_eq]
        by_cases hlt : 10 * n + (c.toNat - '0'.toNat) < limit
        · have hnext : bounded (10 * n + (c.toNat - '0'.toNat)) =
              some (10 * n + (c.toNat - '0'.toNat)) := if_pos hlt
          rw [hnext]
          exact ih _ hnext
        · have hnext : bounded (10 * n + (c.toNat - '0'.toNat)) = none := if_neg hlt
          rw [hnext, bounded, if_neg (by omega)]
          rfl
  exact hfold 0 rfl

/-- **There is one threshold**: a number that is too large is also too large in its unit. -/
lemma milliseconds?_eq (d : Duration) :
    d.milliseconds? = if d.length < limit then some d.length else none := by
  have hscale : 1 ≤ d.unit.elim 1 TimeUnit.scale := by
    rcases d.unit with _ | _ | _ <;> decide
  have hle : value d.digits ≤ d.length := Nat.le_mul_of_pos_right _ hscale
  rw [milliseconds?, number?_eq, bounded]
  by_cases hvalue : value d.digits < limit
  · rw [if_pos hvalue]
    rfl
  · rw [if_neg hvalue, if_neg (by omega)]
    rfl

end Duration

/-- The trigger that stands in front of the first arrow. -/
def TriggerDecl.trigger : TriggerDecl → Trigger
  | immediate => .immediate
  | delay duration => .delay duration.length
  | event name => .event name

/-- The guard of a step, if it is one.  A symbol stands for itself. -/
def StepDecl.guard? : StepDecl → Option Reference
  | guard (.symbol name) => some (.inline (.guard name))
  | guard (.plain name) => some (.named name)
  | _ => none

/-- The action of a step, if it is one. -/
def StepDecl.action? : StepDecl → Option Reference
  | action (.symbol name) => some (.inline (.action name))
  | action (.plain name) => some (.named name)
  | assign d => some (.inline (.assign d.update))
  | guard _ => none

/-- The transition that is declared. -/
def TransitionDecl.transition (d : TransitionDecl) : Transition where
  trigger := d.trigger.trigger
  target := d.target
  guards := d.steps.filterMap StepDecl.guard?
  actions := d.steps.filterMap StepDecl.action?

/-- Whether a state is marked as the initial one. -/
def StateHead.isInitial (h : StateHead) : Bool := Modifier.initial ∈ h.modifiers

/-- The state that is declared. -/
def StateHead.state (h : StateHead) : State := ⟨h.name, Modifier.final ∈ h.modifiers⟩

/-- The name of the first state that is marked as the initial one. -/
def firstInitial (heads : List StateHead) : Option String :=
  (heads.find? StateHead.isInitial).map StateHead.name

/-- A machine that gets an initial state unless it has one. -/
def withInitial (m : Machine) (name : Option String) : Machine :=
  { m with initial := m.initial.or name }

lemma withInitial_none (m : Machine) : withInitial m none = m := by
  simp [withInitial]

lemma withInitial_withInitial (m : Machine) (name name' : Option String) :
    withInitial (withInitial m name) name' = withInitial m (name.or name') := by
  simp [withInitial, Option.or_assoc]

lemma firstInitial_cons (h : StateHead) (hs : List StateHead) :
    firstInitial (h :: hs) = (firstInitial [h]).or (firstInitial hs) := by
  cases hh : h.isInitial <;> simp [firstInitial, hh]

/-- The state of a clause, if it is one. -/
def Clause.state? : Clause → Option StateDecl
  | state d => some d
  | _ => none

/-- The state of a clause, if it is one. -/
def MachineClause.state? : MachineClause → Option StateDecl
  | state d => some d
  | _ => none

/-- The heads of the inner states of a state. -/
def innerHeads (body : List Clause) : List StateHead := (body.filterMap Clause.state?).map (·.head)

lemma innerHeads_cons_of_none {c : Clause} (hc : c.state? = none) (rest : List Clause) :
    innerHeads (c :: rest) = innerHeads rest := by
  simp [innerHeads, hc]

lemma innerHeads_cons_state (d : StateDecl) (rest : List Clause) :
    innerHeads (.state d :: rest) = d.head :: innerHeads rest := by
  simp [innerHeads, Clause.state?]

/-- The heads of the states of a machine. -/
def stateHeads (body : List MachineClause) : List StateHead :=
  (body.filterMap MachineClause.state?).map (·.head)

/-! ## Trees -/

/-- Trees for a list, each numbered on from the one before. -/
def numbered {α : Type} (tree : NodeId → α → Tree) (n : NodeId) : List α → List Tree
  | [] => []
  | a :: as => tree n a :: numbered tree (n + (tree n a).size) as

/-- The tree of an import: a leaf for each specifier. -/
def ImportDecl.tree (n : NodeId) (d : ImportDecl) : Tree :=
  .node n (.importModule d.path)
    (numbered (fun n s => leaf n (.specifier s.value none)) (n + 1) d.specifiers)

/-- The tree of an invocation: a leaf for each transition. -/
def InvokeDecl.tree (n : NodeId) (d : InvokeDecl) : Tree :=
  .node n (.invoke d.service)
    (numbered (fun n t => leaf n (.transition t.transition)) (n + 1) d.transitions)

mutual

/-- The tree of a state. -/
def StateDecl.tree (n : NodeId) : StateDecl → Tree
  | .mk head body _ => .node n (.state head.state) (clauseTrees (n + 1) body)

/-- The tree of a clause by itself. -/
def Clause.tree (n : NodeId) : Clause → Tree
  | .binding d => leaf n (.binding d.binding)
  | .invoke d => d.tree n
  | .transition d => leaf n (.transition d.transition)
  | .state d => d.tree n

/-- What hangs below a state.  From its first inner state on, the inner states hang below a
machine, and the other clauses follow it. -/
def clauseTrees (n : NodeId) : List Clause → List Tree
  | [] => []
  | c :: rest =>
    if c.state?.isSome then
      let t := c.tree (n + 1)
      let ts := t :: rowTrees (n + 1 + t.size) rest
      .node n (.machine { initial := firstInitial (innerHeads (c :: rest)) })
        (ts.filter isState) :: ts.filter (!isState ·)
    else
      c.tree n :: clauseTrees (n + (c.tree n).size) rest

/-- The trees of clauses in the order in which they are written. -/
def rowTrees (n : NodeId) : List Clause → List Tree
  | [] => []
  | c :: rest => c.tree n :: rowTrees (n + (c.tree n).size) rest

end

/-- From the first inner state on. -/
lemma clauseTrees_state (n : NodeId) (d : StateDecl) (rest : List Clause) :
    clauseTrees n (.state d :: rest) =
      let ts := d.tree (n + 1) :: rowTrees (n + 1 + (d.tree (n + 1)).size) rest
      .node n (.machine { initial := firstInitial (innerHeads (.state d :: rest)) })
        (ts.filter isState) :: ts.filter (!isState ·) := by
  have hstate : (Clause.state d).state?.isSome = true := rfl
  simp only [clauseTrees, hstate, if_true, Clause.tree]

/-- From the first inner state on, the inner states are gathered. -/
lemma clauseTrees_gathered (n : NodeId) {c : Clause} (hc : c.state?.isSome = true)
    (rest : List Clause) : clauseTrees n (c :: rest) =
      .node n (.machine { initial := firstInitial (innerHeads (c :: rest)) })
        ((rowTrees (n + 1) (c :: rest)).filter isState) ::
      (rowTrees (n + 1) (c :: rest)).filter (!isState ·) := by
  rw [clauseTrees, rowTrees, hc]
  exact if_pos rfl

/-- In front of the first inner state. -/
lemma clauseTrees_cons (n : NodeId) {c : Clause} (hc : c.state? = none) (rest : List Clause) :
    clauseTrees n (c :: rest) = c.tree n :: clauseTrees (n + (c.tree n).size) rest := by
  simp [clauseTrees, hc]

/-- The tree of a clause of a machine. -/
def MachineClause.tree (n : NodeId) : MachineClause → Tree
  | .binding d => leaf n (.binding d.binding)
  | .state d => d.tree n

/-- The tree of a machine. -/
def MachineDecl.tree (n : NodeId) (d : MachineDecl) : Tree :=
  .node n (.machine { name := d.name, initial := firstInitial (stateHeads d.body) })
    (numbered MachineClause.tree (n + 1) d.body)

/-- The tree of a declaration of the top level. -/
def Item.tree (n : NodeId) : Item → Tree
  | .importDecl d => d.tree n
  | .binding d => leaf n (.binding d.binding)
  | .machine d => d.tree n

/-- The trees of a chart. -/
def itemTrees (items : List Item) : List Tree := numbered Item.tree 0 items

/-! ## Shape -/

/-- A row of trees has the shape of a chart if each tree has. -/
lemma allShaped_numbered {α : Type} (tree : NodeId → α → Tree) (parent : Option Kind)
    (h : ∀ n a, (tree n a).shaped parent = true) (as : List α) (n : NodeId) :
    allShaped parent (numbered tree n as) = true := by
  induction as generalizing n with
  | nil => simp [numbered]
  | cons a as ih => rw [numbered, allShaped, h, ih, Bool.and_self]

/-- A leaf has the right shape wherever its kind may stand. -/
lemma shaped_leaf {parent : Option Kind} {n : NodeId} {payload : Node}
    (hold : mayHold parent payload.kind = true) (hopen : isUnopened payload = true) :
    (leaf n payload).shaped parent = true := by
  simp [leaf, shaped, hold, hopen]

lemma Clause.isState_tree (c : Clause) (n : NodeId) : (c.tree n).isState = c.state?.isSome := by
  cases c with
  | state d => cases d; simp only [Clause.tree, StateDecl.tree]; rfl
  | _ => simp only [Clause.tree]; rfl

mutual

/-- The tree of a state has the shape that is asked for below a machine. -/
lemma StateDecl.shaped_tree : ∀ (d : StateDecl) (n : NodeId),
    (d.tree n).shaped (some .machine) = true
  | .mk head body _, n => by
      have ih := allShaped_clauseTrees body (n + 1)
      rw [StateDecl.tree, shaped]
      simpa [mayHold, isUnopened, Node.kind] using ih

/-- The tree of a clause has the shape that is asked for where it is to hang. -/
lemma Clause.shaped_tree : ∀ (c : Clause) (n : NodeId),
    (c.tree n).shaped (some (if c.state?.isSome then .machine else .state)) = true
  | .binding d, n => by rw [Clause.tree]; exact shaped_leaf rfl rfl
  | .transition d, n => by rw [Clause.tree]; exact shaped_leaf rfl rfl
  | .invoke d, n => by
      have hrow := allShaped_numbered
        (fun n (t : TransitionDecl) => leaf n (.transition t.transition)) (some .invoke)
        (fun _ _ => shaped_leaf rfl rfl) d.transitions (n + 1)
      rw [Clause.tree, InvokeDecl.tree, shaped, Bool.and_eq_true]
      exact ⟨rfl, hrow⟩
  | .state d, n => by rw [Clause.tree]; exact d.shaped_tree n

/-- What hangs below a state has the shape that is asked for there. -/
lemma allShaped_clauseTrees : ∀ (body : List Clause) (n : NodeId),
    allShaped (some .state) (clauseTrees n body) = true
  | [], n => by rw [clauseTrees, allShaped_nil]
  | c :: rest, n => by
      rw [clauseTrees]
      by_cases hc : c.state?.isSome = true
      · have ht := c.shaped_tree (n + 1)
        have hs : (c.tree (n + 1)).isState = true := by rw [c.isState_tree, hc]
        obtain ⟨hinner, hother⟩ := allShaped_rowTrees rest (n + 1 + (c.tree (n + 1)).size)
        rw [if_pos hc] at ht ⊢
        simp only [List.filter_cons, hs, if_true, Bool.not_true, Bool.false_eq_true, if_false]
        rw [allShaped, shaped, allShaped, hother]
        simp only [Node.kind, ht, hinner]
        rfl
      · have ht := c.shaped_tree n
        rw [if_neg hc] at ht ⊢
        rw [allShaped, ht, allShaped_clauseTrees rest]
        rfl

/-- In a plain row, the states fit below a machine and all others below a state. -/
lemma allShaped_rowTrees : ∀ (body : List Clause) (n : NodeId),
    allShaped (some .machine) ((rowTrees n body).filter isState) = true ∧
      allShaped (some .state) ((rowTrees n body).filter (!isState ·)) = true
  | [], n => by rw [rowTrees]; exact ⟨allShaped_nil _, allShaped_nil _⟩
  | c :: rest, n => by
      obtain ⟨hinner, hother⟩ := allShaped_rowTrees rest (n + (c.tree n).size)
      have ht := c.shaped_tree n
      rw [rowTrees, List.filter_cons, List.filter_cons, c.isState_tree]
      cases hc : c.state?.isSome with
      | true =>
          rw [hc, if_pos rfl] at ht
          simp only [if_true, Bool.not_true, Bool.false_eq_true, if_false]
          exact ⟨by rw [allShaped, ht, hinner]; rfl, hother⟩
      | false =>
          rw [hc, if_neg Bool.false_ne_true] at ht
          simp only [if_true, Bool.not_false, Bool.false_eq_true, if_false]
          exact ⟨hinner, by rw [allShaped, ht, hother]; rfl⟩

end

/-- **The trees of a chart have the shape that the walk relies upon.** -/
lemma allShaped_itemTrees (items : List Item) : allShaped none (itemTrees items) = true := by
  refine allShaped_numbered _ _ (fun n item => ?_) items 0
  cases item with
  | importDecl d =>
      have hrow := allShaped_numbered
        (fun n (s : Located String) => leaf n (.specifier s.value none)) (some .importModule)
        (fun _ _ => shaped_leaf rfl rfl) d.specifiers (n + 1)
      rw [Item.tree, ImportDecl.tree, shaped, Bool.and_eq_true]
      exact ⟨rfl, hrow⟩
  | binding d => exact shaped_leaf rfl rfl
  | machine d =>
      have hrow : allShaped (some .machine) (numbered MachineClause.tree (n + 1) d.body) = true := by
        refine allShaped_numbered _ _ (fun n c => ?_) d.body (n + 1)
        cases c with
        | binding b => exact shaped_leaf rfl rfl
        | state s => exact s.shaped_tree n
      rw [Item.tree, MachineDecl.tree, shaped, Bool.and_eq_true]
      exact ⟨rfl, hrow⟩

/-! ## Validity -/

/-- Whether a delay is below the limit. -/
def TransitionDecl.valid (d : TransitionDecl) : Bool :=
  match d.trigger with
  | .delay duration => duration.length < Duration.limit
  | _ => true

/-- No two of some states have the same name. -/
def distinct (heads : List StateHead) : Bool := (heads.map StateHead.name).Nodup

mutual

/-- Whether a state is accepted: its inner states have different names, and all that is nested in
it is accepted. -/
def StateDecl.valid : StateDecl → Bool
  | .mk _ body _ => distinct (innerHeads body) && allValid body

/-- Whether a clause is accepted. -/
def Clause.valid : Clause → Bool
  | .binding _ => true
  | .invoke d => d.transitions.all TransitionDecl.valid
  | .transition d => d.valid
  | .state d => d.valid

/-- Whether all clauses are accepted. -/
def allValid : List Clause → Bool
  | [] => true
  | c :: rest => c.valid && allValid rest

end

/-- Whether a clause of a machine is accepted. -/
def MachineClause.valid : MachineClause → Bool
  | .binding _ => true
  | .state d => d.valid

/-- Whether a declaration of the top level is accepted. -/
def Item.valid : Item → Bool
  | .importDecl _ => true
  | .binding _ => true
  | .machine d => distinct (stateHeads d.body) && d.body.all MachineClause.valid

/-- The states have different names, and none of the given ones. -/
def distinctFrom (names : List String) : List StateHead → Bool
  | [] => true
  | h :: hs => decide (h.name ∉ names) && distinctFrom (h.name :: names) hs

/-- To compare each name with all before it is to look for a repetition. -/
lemma distinctFrom_eq (heads : List StateHead) : ∀ names : List String,
    distinctFrom names heads = decide ((heads.map StateHead.name).Nodup ∧
      ∀ head ∈ heads, head.name ∉ names) := by
  induction heads with
  | nil => intro names; simp [distinctFrom]
  | cons h hs ih =>
      intro names
      rw [distinctFrom, ih, ← Bool.decide_and, decide_eq_decide]
      simp only [List.map_cons, List.nodup_cons, List.mem_map, List.mem_cons, not_or, not_exists,
        not_and, forall_eq_or_imp]
      constructor
      · rintro ⟨hname, hnodup, hrest⟩
        exact ⟨⟨fun x hx heq => (hrest x hx).1 heq, hnodup⟩, hname, fun x hx => (hrest x hx).2⟩
      · rintro ⟨⟨hne, hnodup⟩, hname, hrest⟩
        exact ⟨hname, hnodup, fun x hx => ⟨fun heq => hne x hx heq, hrest x hx⟩⟩

lemma distinctFrom_nil (heads : List StateHead) : distinctFrom [] heads = distinct heads := by
  rw [distinctFrom_eq]
  simp [distinct]

/-! ## Offences in the order of the text -/

/-- The offence of a state among states of the given names. -/
def StateHead.offences (names : List String) (h : StateHead) : List Rejection :=
  if names.contains h.name then [.duplicateState h.name h.span] else []

/-- The offence of a transition. -/
def TransitionDecl.offences (d : TransitionDecl) : List Rejection :=
  match d.trigger with
  | .delay duration =>
    if duration.length < Duration.limit then [] else [.delayTooLong duration.text duration.span]
  | _ => []

mutual

/-- The offences of a state among states of the given names. -/
def StateDecl.offences (names : List String) : StateDecl → List Rejection
  | .mk head body _ => head.offences names ++ bodyOffences [] body

/-- The offences of a body, after inner states of the given names. -/
def bodyOffences (names : List String) : List Clause → List Rejection
  | [] => []
  | .binding _ :: rest => bodyOffences names rest
  | .invoke d :: rest => d.transitions.flatMap TransitionDecl.offences ++ bodyOffences names rest
  | .transition d :: rest => d.offences ++ bodyOffences names rest
  | .state d :: rest => d.offences names ++ bodyOffences (d.head.name :: names) rest

end

/-- The offences of the body of a machine, after states of the given names. -/
def machineOffences (names : List String) : List MachineClause → List Rejection
  | [] => []
  | .binding _ :: rest => machineOffences names rest
  | .state d :: rest => d.offences names ++ machineOffences (d.head.name :: names) rest

/-- The offences of a declaration of the top level. -/
def Item.offences : Item → List Rejection
  | .machine d => machineOffences [] d.body
  | _ => []

/-! ### No offence in what is valid -/

lemma StateHead.offences_eq_nil {names : List String} {h : StateHead} :
    h.offences names = [] ↔ h.name ∉ names := by
  rw [StateHead.offences]
  by_cases hname : h.name ∈ names <;> simp [hname]

/-- A transition has no offence exactly if it is valid. -/
lemma TransitionDecl.offences_eq_nil {d : TransitionDecl} : d.offences = [] ↔ d.valid = true := by
  rw [TransitionDecl.offences, TransitionDecl.valid]
  cases d.trigger with
  | delay duration => by_cases hlt : duration.length < Duration.limit <;> simp [hlt]
  | immediate => simp
  | event name => simp

/-- A clause that is no state has the offences of its transitions, and those of the rest follow. -/
lemma flatMap_offences_eq_nil {ds : List TransitionDecl} :
    ds.flatMap TransitionDecl.offences = [] ↔ ds.all TransitionDecl.valid = true := by
  simp only [List.flatMap_eq_nil_iff, TransitionDecl.offences_eq_nil, List.all_eq_true]

mutual

/-- A state has no offence exactly if its name is new and it is valid. -/
lemma StateDecl.offences_eq_nil : ∀ (d : StateDecl) (names : List String),
    d.offences names = [] ↔ d.head.name ∉ names ∧ d.valid = true
  | .mk head body span, names => by
      rw [StateDecl.offences, List.append_eq_nil_iff, StateHead.offences_eq_nil,
        bodyOffences_eq_nil body [], StateDecl.valid, ← distinctFrom_nil, Bool.and_eq_true]
      rfl

/-- A body has no offence exactly if its inner states have new names and its clauses are valid. -/
lemma bodyOffences_eq_nil : ∀ (body : List Clause) (names : List String),
    bodyOffences names body = [] ↔
      distinctFrom names (innerHeads body) = true ∧ allValid body = true
  | [], names => by
      rw [bodyOffences, allValid]
      exact iff_of_true rfl ⟨rfl, rfl⟩
  | .binding d :: rest, names => by
      rw [bodyOffences, bodyOffences_eq_nil rest names, innerHeads_cons_of_none rfl, allValid,
        Clause.valid, Bool.true_and]
  | .invoke d :: rest, names => by
      rw [bodyOffences, List.append_eq_nil_iff, flatMap_offences_eq_nil,
        bodyOffences_eq_nil rest names, innerHeads_cons_of_none rfl, allValid, Clause.valid,
        Bool.and_eq_true, and_left_comm]
  | .transition d :: rest, names => by
      rw [bodyOffences, List.append_eq_nil_iff, TransitionDecl.offences_eq_nil,
        bodyOffences_eq_nil rest names, innerHeads_cons_of_none rfl, allValid, Clause.valid,
        Bool.and_eq_true, and_left_comm]
  | .state d :: rest, names => by
      rw [bodyOffences, List.append_eq_nil_iff, d.offences_eq_nil, bodyOffences_eq_nil rest,
        innerHeads_cons_state, distinctFrom, allValid, Clause.valid, Bool.and_eq_true,
        Bool.and_eq_true, decide_eq_true_eq, and_and_and_comm]

end

/-- The body of a machine has no offence exactly if its states have new names and are valid. -/
lemma machineOffences_eq_nil (body : List MachineClause) : ∀ names : List String,
    machineOffences names body = [] ↔
      distinctFrom names (stateHeads body) = true ∧ body.all MachineClause.valid = true := by
  induction body with
  | nil => exact fun names => iff_of_true rfl ⟨rfl, rfl⟩
  | cons c rest ih =>
      intro names
      cases c with
      | binding d => exact ih names
      | state d =>
          have hheads : stateHeads (.state d :: rest) = d.head :: stateHeads rest := rfl
          rw [machineOffences, List.append_eq_nil_iff, d.offences_eq_nil, ih, hheads, distinctFrom,
            List.all_cons, MachineClause.valid, Bool.and_eq_true, Bool.and_eq_true,
            decide_eq_true_eq, and_and_and_comm]

/-- **A declaration has no offence exactly if it is valid.** -/
lemma Item.offences_eq_nil {item : Item} : item.offences = [] ↔ item.valid = true := by
  cases item with
  | machine d =>
      rw [Item.offences, machineOffences_eq_nil, distinctFrom_nil, Item.valid, Bool.and_eq_true]
  | importDecl d => exact iff_of_true rfl rfl
  | binding d => exact iff_of_true rfl rfl

/-! ## Updates -/

/-- Whether a value is an update. -/
def BindingValue.updates : BindingValue → Bool
  | assign _ => true
  | named _ => false

/-- Whether a step is an update. -/
def StepDecl.updates : StepDecl → Bool
  | assign _ => true
  | _ => false

/-- Whether a transition has an update. -/
def TransitionDecl.updates (d : TransitionDecl) : Bool := d.steps.any StepDecl.updates

mutual

/-- Whether there is an update anywhere in a state. -/
def StateDecl.updates : StateDecl → Bool
  | .mk _ body _ => anyUpdates body

/-- Whether there is an update anywhere in a clause. -/
def Clause.updates : Clause → Bool
  | .binding d => d.value.updates
  | .invoke d => d.transitions.any TransitionDecl.updates
  | .transition d => d.updates
  | .state d => d.updates

/-- Whether there is an update anywhere in some clauses. -/
def anyUpdates : List Clause → Bool
  | [] => false
  | c :: rest => c.updates || anyUpdates rest

end

/-- Whether there is an update anywhere in a clause of a machine. -/
def MachineClause.updates : MachineClause → Bool
  | .binding d => d.value.updates
  | .state d => d.updates

/-- Whether there is an update anywhere in a declaration of the top level. -/
def Item.updates : Item → Bool
  | .importDecl _ => false
  | .binding d => d.value.updates
  | .machine d => d.body.any MachineClause.updates

end Language

end Statechart
