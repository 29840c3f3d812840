import Statechart.Proofs.Language.Assembly
import Statechart.Proofs.Output.Hoisting

/-!
# From the text of a chart to the options of its machines

Cut the declarations of a chart after each machine.  The bindings of each part, at any depth, are
what its machine takes; those of the last part are taken by none.

* `pieces` — the bindings of each part.
* `StateDecl.written` — the bindings of a state in the order in which they stand in the text.
* `StateDecl.gathered` — the order in which they are met.  The inner states of a state hang below
  one machine at the place of the first of them, so a binding that stands between two inner states
  is met after all of them.
* `Hoists` — all that is said about a chart whose bindings are met in a given order.

**`read_hoists`** — charts that are read hoist their bindings in the gathered order, and
**`not_hoists_written`** — not always in the written one.
-/

namespace Statechart.Language

open Output Statechart.Tree

/-! ## Orders -/

/-- The binding of a clause, if it is one. -/
def Clause.binding? : Clause → Option Binding
  | binding d => some d.binding
  | _ => none

/-- The bindings that stand directly between the braces of a state. -/
def ownBindings (body : List Clause) : List Binding := body.filterMap Clause.binding?

mutual

/-- The bindings of a state in the order in which they are written. -/
def StateDecl.written : StateDecl → List Binding
  | .mk _ body _ => writtenIn body

/-- The bindings of some clauses in the order in which they are written. -/
def writtenIn : List Clause → List Binding
  | [] => []
  | .binding d :: rest => d.binding :: writtenIn rest
  | .invoke _ :: rest => writtenIn rest
  | .transition _ :: rest => writtenIn rest
  | .state d :: rest => d.written ++ writtenIn rest

end

mutual

/-- The bindings of a state, where those of all inner states come together at the place of the
first inner state. -/
def StateDecl.gathered : StateDecl → List Binding
  | .mk _ body _ =>
    ownBindings (body.takeWhile (·.state?.isNone)) ++ innerBindings body ++
      ownBindings (body.dropWhile (·.state?.isNone))

/-- The bindings of the inner states. -/
def innerBindings : List Clause → List Binding
  | [] => []
  | .binding _ :: rest => innerBindings rest
  | .invoke _ :: rest => innerBindings rest
  | .transition _ :: rest => innerBindings rest
  | .state d :: rest => d.gathered ++ innerBindings rest

end

/-- The bindings of a clause of a machine, where those of states come in the given order. -/
def MachineClause.bindings (order : StateDecl → List Binding) : MachineClause → List Binding
  | .binding d => [d.binding]
  | .state d => order d

/-- The bindings of a declaration of the top level. -/
def Item.bindings (order : StateDecl → List Binding) : Item → List Binding
  | .importDecl _ => []
  | .binding d => [d.binding]
  | .machine d => d.body.flatMap (MachineClause.bindings order)

/-- Whether a declaration is a machine. -/
def Item.isMachine : Item → Bool
  | .machine _ => true
  | _ => false

/-- Cut a list after each element with the given property.  The last part is what follows the last
of them. -/
def cutAfter {α : Type} (p : α → Bool) : List α → List (List α)
  | [] => [[]]
  | a :: as => if p a then [a] :: cutAfter p as else (cutAfter p as).modifyHead (a :: ·)

/-- The bindings of the parts of a chart, which is cut after each machine. -/
def pieces (order : StateDecl → List Binding) (items : List Item) : List (List Binding) :=
  (cutAfter Item.isMachine items).map fun part => part.flatMap (Item.bindings order)

/-! ## The trees have the gathered order -/

lemma contents_node (n : NodeId) (payload : Node) (children : List Tree)
    (h : bindingOf (n, payload) = none) :
    contents [.node n payload children] = contents children := by
  rw [contents, bindingsIn_singleton, id_node, payload_node, h]
  rfl

lemma contents_binding (n : NodeId) (b : Binding) : contents [leaf n (.binding b)] = [b] := by
  rw [contents, leaf, bindingsIn_singleton]
  simp [bindingOf, bindingsIn]

/-- The bindings of a row that is numbered on. -/
lemma contents_numbered {α : Type} (tree : NodeId → α → Tree) (bindings : α → List Binding)
    (h : ∀ n a, contents [tree n a] = bindings a) (as : List α) (n : NodeId) :
    contents (numbered tree n as) = as.flatMap bindings := by
  induction as generalizing n with
  | nil => simp [numbered]
  | cons a as ih => rw [numbered, contents_cons, h, ih, List.flatMap_cons]

/-- The bindings of a clause that is not a state. -/
lemma contents_clause {c : Clause} (hc : c.state? = none) (n : NodeId) :
    contents [c.tree n] = c.binding?.toList := by
  cases c with
  | binding d => rw [Clause.tree, contents_binding]; rfl
  | transition d => rw [Clause.tree, leaf, contents_node _ _ _ rfl, contents_nil]; rfl
  | invoke d =>
      have hleaf := contents_numbered
        (fun n (t : TransitionDecl) => leaf n (.transition t.transition)) (fun _ => [])
        (fun n t => by rw [leaf, contents_node _ _ _ rfl, contents_nil]) d.transitions (n + 1)
      rw [Clause.tree, InvokeDecl.tree, contents_node _ _ _ rfl, hleaf]
      simp [Clause.binding?]
  | state d => cases hc

lemma innerBindings_cons {c : Clause} (hc : c.state? = none) (rest : List Clause) :
    innerBindings (c :: rest) = innerBindings rest := by
  cases c with
  | state d => cases hc
  | _ => rw [innerBindings]

lemma ownBindings_cons (c : Clause) (rest : List Clause) :
    ownBindings (c :: rest) = c.binding?.toList ++ ownBindings rest := by
  rw [ownBindings, List.filterMap_cons]
  cases c.binding? <;> rfl

/-- In front of the first inner state, the clauses of a body come one after the other. -/
lemma contents_clauseTrees_cons {c : Clause} {rest : List Clause} (hc : c.state? = none) (n : NodeId)
    (ih : contents (clauseTrees (n + (c.tree n).size) rest) =
      ownBindings (rest.takeWhile (·.state?.isNone)) ++ innerBindings rest ++
        ownBindings (rest.dropWhile (·.state?.isNone))) :
    contents (clauseTrees n (c :: rest)) =
      ownBindings ((c :: rest).takeWhile (·.state?.isNone)) ++ innerBindings (c :: rest) ++
        ownBindings ((c :: rest).dropWhile (·.state?.isNone)) := by
  have hnone : c.state?.isNone = true := by rw [hc]; rfl
  rw [clauseTrees_cons n hc, contents_cons, contents_clause hc, ih, innerBindings_cons hc]
  simp only [List.takeWhile_cons, List.dropWhile_cons, hnone, if_true, ownBindings_cons,
    List.append_assoc]

/-- A clause that is not a state stands beside the inner states. -/
lemma contents_rowTrees_cons {c : Clause} {rest : List Clause} (hc : c.state? = none) (n : NodeId)
    (ih : contents ((rowTrees (n + (c.tree n).size) rest).filter isState) = innerBindings rest ∧
      contents ((rowTrees (n + (c.tree n).size) rest).filter (!isState ·)) = ownBindings rest) :
    contents ((rowTrees n (c :: rest)).filter isState) = innerBindings (c :: rest) ∧
      contents ((rowTrees n (c :: rest)).filter (!isState ·)) = ownBindings (c :: rest) := by
  have hstate : (c.tree n).isState = false := by rw [c.isState_tree, hc]; rfl
  rw [rowTrees, innerBindings_cons hc, ownBindings_cons, List.filter_cons, List.filter_cons, hstate]
  refine ⟨ih.1, ?_⟩
  rw [Bool.not_false, if_pos rfl, contents_cons, contents_clause hc, ih.2]

mutual

/-- **The bindings of a state are met in the gathered order.** -/
lemma contents_state : ∀ (d : StateDecl) (n : NodeId), contents [d.tree n] = d.gathered
  | .mk head body _, n => by
      rw [StateDecl.tree, contents_node _ _ _ rfl, contents_clauseTrees body, StateDecl.gathered]

/-- Below a state, the bindings in front of the first inner state are met first, then all inside of
inner states, and then the others. -/
lemma contents_clauseTrees : ∀ (body : List Clause) (n : NodeId), contents (clauseTrees n body) =
    ownBindings (body.takeWhile (·.state?.isNone)) ++ innerBindings body ++
      ownBindings (body.dropWhile (·.state?.isNone))
  | [], n => by rw [clauseTrees, contents_nil, innerBindings]; rfl
  | .binding _ :: rest, n => contents_clauseTrees_cons rfl n (contents_clauseTrees rest _)
  | .invoke _ :: rest, n => contents_clauseTrees_cons rfl n (contents_clauseTrees rest _)
  | .transition _ :: rest, n => contents_clauseTrees_cons rfl n (contents_clauseTrees rest _)
  | .state d :: rest, n => by
      obtain ⟨hinner, hown⟩ := contents_rowTrees rest (n + 1 + (d.tree (n + 1)).size)
      have hstate : (d.tree (n + 1)).isState = true := by
        have htree := (Clause.state d).isState_tree (n + 1)
        rwa [Clause.tree] at htree
      have hsome : (Clause.state d).state?.isNone = false := rfl
      rw [clauseTrees_state, innerBindings]
      simp only [List.takeWhile_cons, List.dropWhile_cons, hsome, List.filter_cons, hstate, if_true,
        Bool.not_true, Bool.false_eq_true, if_false, ownBindings_cons]
      rw [contents_cons, contents_node _ _ _ rfl, contents_cons, contents_state d, hinner, hown]
      rfl

/-- The states of a row hold the bindings of inner states, and its other trees are those outside of
them. -/
lemma contents_rowTrees : ∀ (body : List Clause) (n : NodeId),
    contents ((rowTrees n body).filter isState) = innerBindings body ∧
      contents ((rowTrees n body).filter (!isState ·)) = ownBindings body
  | [], n => by rw [rowTrees, innerBindings]; exact ⟨contents_nil, contents_nil⟩
  | .binding _ :: rest, n => contents_rowTrees_cons rfl n (contents_rowTrees rest _)
  | .invoke _ :: rest, n => contents_rowTrees_cons rfl n (contents_rowTrees rest _)
  | .transition _ :: rest, n => contents_rowTrees_cons rfl n (contents_rowTrees rest _)
  | .state d :: rest, n => by
      obtain ⟨hinner, hown⟩ := contents_rowTrees rest (n + (d.tree n).size)
      have hstate : (d.tree n).isState = true := by
        have htree := (Clause.state d).isState_tree n
        rwa [Clause.tree] at htree
      rw [rowTrees, Clause.tree, innerBindings, ownBindings_cons]
      simp only [List.filter_cons, hstate, if_true, Bool.not_true, Bool.false_eq_true, if_false]
      exact ⟨by rw [contents_cons, contents_state d, hinner], hown⟩

end

/-- The bindings of a declaration are met in the gathered order. -/
lemma contents_item (item : Item) (n : NodeId) :
    contents [item.tree n] = item.bindings StateDecl.gathered := by
  cases item with
  | importDecl d =>
      have hleaf := contents_numbered
        (fun n (s : Located String) => leaf n (.specifier s.value none)) (fun _ => [])
        (fun n s => by rw [leaf, contents_node _ _ _ rfl, contents_nil]) d.specifiers (n + 1)
      rw [Item.tree, ImportDecl.tree, contents_node _ _ _ rfl, hleaf]
      simp [Item.bindings]
  | binding d => exact contents_binding n d.binding
  | machine d =>
      have hbody := contents_numbered MachineClause.tree
        (MachineClause.bindings StateDecl.gathered) (fun n c => by
          cases c with
          | binding b => exact contents_binding n b.binding
          | state s => exact contents_state s n) d.body (n + 1)
      rw [Item.tree, MachineDecl.tree, contents_node _ _ _ rfl, hbody]
      rfl

lemma Item.isMachine_tree (item : Item) (n : NodeId) :
    (item.tree n).payload.isMachine = item.isMachine := by
  cases item <;> rfl

/-- A cut has at least one part. -/
lemma cutAfter_ne_nil {α : Type} (p : α → Bool) (as : List α) : cutAfter p as ≠ [] := by
  induction as with
  | nil => exact List.cons_ne_nil _ _
  | cons a as ih =>
      rw [cutAfter]
      split
      · exact List.cons_ne_nil _ _
      · simpa using ih

lemma pieces_ne_nil (order : StateDecl → List Binding) (items : List Item) :
    pieces order items ≠ [] := by
  simpa [pieces] using cutAfter_ne_nil Item.isMachine items

/-- The first part of a chart, and the rest. -/
lemma pieces_cons (order : StateDecl → List Binding) (item : Item) (items : List Item) :
    pieces order (item :: items) =
      if item.isMachine then item.bindings order :: pieces order items
      else (pieces order items).modifyHead (item.bindings order ++ ·) := by
  rw [pieces, cutAfter]
  split
  · simp [pieces]
  · rw [pieces]
    cases cutAfter Item.isMachine items <;> simp

/-- **The pieces of the trees are those of the declarations**, in the gathered order. -/
lemma piecesFrom_numbered (items : List Item) : ∀ (n : NodeId) (waiting : List Binding),
    piecesFrom waiting (numbered Item.tree n items) =
      (pieces StateDecl.gathered items).modifyHead (waiting ++ ·) := by
  induction items with
  | nil => intro n waiting; simp [numbered, piecesFrom, pieces, cutAfter]
  | cons item items ih =>
      intro n waiting
      rw [numbered, piecesFrom, item.isMachine_tree, contents_item, ih, ih, pieces_cons]
      have hhead := pieces_ne_nil StateDecl.gathered items
      cases hp : pieces StateDecl.gathered items with
      | nil => exact absurd hp hhead
      | cons first rest => cases item.isMachine <;> simp

lemma piecesFrom_itemTrees (items : List Item) :
    piecesFrom [] (itemTrees items) = pieces StateDecl.gathered items := by
  rw [itemTrees, piecesFrom_numbered]
  cases pieces StateDecl.gathered items <;> rfl

/-! ## No binding is lost or repeated -/

lemma ownBindings_append (as bs : List Clause) :
    ownBindings (as ++ bs) = ownBindings as ++ ownBindings bs := List.filterMap_append

mutual

/-- The gathered order is another order of the written bindings. -/
lemma gathered_perm : ∀ d : StateDecl, d.gathered.Perm d.written
  | .mk head body span => by
      have hbody : ownBindings (body.takeWhile (·.state?.isNone)) ++
          ownBindings (body.dropWhile (·.state?.isNone)) = ownBindings body := by
        rw [← ownBindings_append, List.takeWhile_append_dropWhile]
      rw [StateDecl.gathered, StateDecl.written]
      refine .trans ?_ (inner_own_perm body)
      rw [← hbody, ← List.append_assoc]
      exact List.perm_append_comm.append_right _

/-- The bindings inside and outside of inner states are together all that were written. -/
lemma inner_own_perm : ∀ body : List Clause,
    (innerBindings body ++ ownBindings body).Perm (writtenIn body)
  | [] => by rw [innerBindings, writtenIn]; exact .refl _
  | .binding d :: rest => by
      rw [innerBindings, writtenIn, ownBindings_cons]
      exact List.perm_middle.trans ((inner_own_perm rest).cons _)
  | .invoke _ :: rest => by
      rw [innerBindings, writtenIn, ownBindings_cons]
      exact inner_own_perm rest
  | .transition _ :: rest => by
      rw [innerBindings, writtenIn, ownBindings_cons]
      exact inner_own_perm rest
  | .state d :: rest => by
      rw [innerBindings, writtenIn, ownBindings_cons, List.append_assoc]
      exact (gathered_perm d).append (inner_own_perm rest)

end

/-- A declaration has the same bindings in both orders. -/
lemma bindings_perm (item : Item) :
    (item.bindings StateDecl.gathered).Perm (item.bindings StateDecl.written) := by
  cases item with
  | importDecl d => exact .refl _
  | binding d => exact .refl _
  | machine d =>
      refine List.Perm.flatMap_left _ fun c _ => ?_
      cases c with
      | binding b => exact .refl _
      | state s => exact gathered_perm s

/-- Each piece has the same bindings in both orders. -/
lemma pieces_perm (items : List Item) :
    List.Forall₂ List.Perm (pieces StateDecl.gathered items) (pieces StateDecl.written items) := by
  rw [pieces, pieces, List.forall₂_map_left_iff, List.forall₂_map_right_iff]
  exact List.forall₂_same.mpr fun part _ => List.Perm.flatMap_left _ fun item _ => bindings_perm item

/-- Cutting a list loses nothing. -/
lemma flatten_cutAfter {α : Type} (p : α → Bool) (as : List α) :
    (cutAfter p as).flatten = as := by
  induction as with
  | nil => rfl
  | cons a as ih =>
      rw [cutAfter]
      split
      · rw [List.flatten_cons, ih, List.singleton_append]
      · cases hcut : cutAfter p as with
        | nil => exact absurd hcut (cutAfter_ne_nil p as)
        | cons part parts =>
            rw [hcut] at ih
            rw [List.modifyHead_cons, List.flatten_cons, List.cons_append, ← List.flatten_cons, ih]

/-- The pieces of a chart together are all its bindings. -/
lemma flatten_pieces (order : StateDecl → List Binding) (items : List Item) :
    (pieces order items).flatten = items.flatMap (Item.bindings order) := by
  nth_rewrite 2 [← flatten_cutAfter Item.isMachine items]
  rw [pieces, List.flatMap_def, List.map_flatten, List.flatten_flatten, List.map_map]
  rfl

/-- They are the written bindings, in another order. -/
lemma flatten_pieces_perm (items : List Item) : (pieces StateDecl.gathered items).flatten.Perm
    (items.flatMap (Item.bindings StateDecl.written)) := by
  rw [flatten_pieces]
  exact List.Perm.flatMap_left _ fun item _ => bindings_perm item

/-! ## Charts that are read -/

/-- The machines of the top level. -/
def topMachines (f : Forest) : List NodeId := f.roots.filter fun id => (f.machine? id).isSome

/-- What it means that the bindings of a chart are hoisted in an order. -/
structure Hoists (order : StateDecl → List Binding) (items : List Item) (p : Program)
    (library : Library) : Prop where
  /-- There is a piece for each top-level machine, and one more. -/
  count : (pieces order items).length = (topMachines p.forest).length + 1
  /-- The walk comes to the exit of each top-level machine, where exactly its piece waits, and is
  taken.  The exit of any other machine takes nothing. -/
  exits : ∃ start, Emission.writeAll (headerOperations p library) { forest := p.forest } =
      .ok () start ∧
    (∀ (k : Nat) (id : NodeId), (topMachines p.forest)[k]? = some id → ∃ piece steps e place e',
      (pieces order items)[k]? = some piece ∧
      Emission.stepsFrom steps (p.forest.body.map fun id => (.entering, id)) start =
        .ok (some (.leaving, id)) e ∧
      Collects e.bindings piece ∧
      Emission.step .leaving id e = .ok place e' ∧ e'.bindings = {}) ∧
    ∀ (steps : Nat) (id : NodeId) (e : Emitter),
      Emission.stepsFrom steps (p.forest.body.map fun id => (.entering, id)) start =
        .ok (some (.leaving, id)) e →
      (p.forest.machine? id).isSome = true → p.forest.parent id ≠ none →
      ∃ place e', Emission.step .leaving id e = .ok place e' ∧ e'.bindings = e.bindings
  /-- Each top-level machine is written with the options of its piece. -/
  text : (Output.generate p library).1 =
    .ok ((if items.isEmpty then "" else headerText p.usesAssign library) ++
      textWith ((pieces order items).map optionsText) (itemTrees items))
  /-- The last piece is reported. -/
  report : (Output.generate p library).2.filter Remark.isGeneral =
    unusedWarning ((pieces order items).getLast (pieces_ne_nil order items))

/-- An element that is found by its position among those with a property. -/
lemma exists_split {α : Type} {q : α → Bool} {a : α} : ∀ {as : List α} {k : Nat},
    (as.filter q)[k]? = some a →
    ∃ before after, as = before ++ a :: after ∧ q a = true ∧ before.countP q = k
  | [], k, h => by simp at h
  | b :: as, k, h => by
      by_cases hb : q b = true
      · rw [List.filter_cons_of_pos hb] at h
        cases k with
        | zero =>
            obtain rfl := Option.some.inj h
            exact ⟨[], as, rfl, hb, rfl⟩
        | succ k =>
            obtain ⟨before, after, rfl, ha, hk⟩ := exists_split (List.getElem?_cons_succ ▸ h)
            exact ⟨b :: before, after, rfl, ha, by rw [List.countP_cons_of_pos hb, hk]⟩
      · rw [List.filter_cons_of_neg hb] at h
        obtain ⟨before, after, rfl, ha, hk⟩ := exists_split h
        exact ⟨b :: before, after, rfl, ha, by rw [List.countP_cons_of_neg hb, hk]⟩

/-- The top-level machines are the trees of the top level that stand for one. -/
lemma topMachines_eq {f : Forest} {roots : List Tree} (rep : f.Represents roots) :
    topMachines f = (roots.filter (·.payload.isMachine)).map Tree.id := by
  have hroots : f.roots = roots.map Tree.id := by
    rw [Forest.roots, rep.body]
    exact Forest.chain_first rep.linked (rep.distinct.sublist (map_id_sublist roots))
  rw [topMachines, hroots, List.filter_map]
  refine congrArg _ (List.filter_congr fun t ht => ?_)
  rw [Function.comp_apply, Forest.machine?, rep.live _ (mem_allEntries ht)]
  cases t.payload <;> rfl

/-- There is a piece for each machine, and one more. -/
lemma length_piecesFrom (ts : List Tree) : ∀ waiting : List Binding,
    (piecesFrom waiting ts).length = (ts.filter (·.payload.isMachine)).length + 1 := by
  induction ts with
  | nil => intro waiting; rfl
  | cons t ts ih =>
      intro waiting
      rw [piecesFrom, List.filter_cons]
      split
      · rw [List.length_cons, ih, List.length_cons]
      · exact ih _

/-- The module of a chart, with the pieces in the gathered order. -/
lemma generate_text {p : Program} {items : List Item} (rep : p.forest.Represents (itemTrees items))
    (library : Library) : (Output.generate p library).1 =
      .ok ((if items.isEmpty then "" else headerText p.usesAssign library) ++
        textWith ((pieces StateDecl.gathered items).map optionsText) (itemTrees items)) := by
  have shape := allShaped_itemTrees items
  have hempty : (itemTrees items).isEmpty = items.isEmpty := by cases items <;> rfl
  rw [generate_eq rep shape library, moduleText, rootsText_eq_textWith shape collects_nil,
    piecesFrom_itemTrees, hempty]

/-- **Bindings are hoisted in the gathered order**, in every chart that is read: none is lost,
repeated or taken by another machine. -/
theorem read_hoists {file : Nat} {text : String} {program : Program} {remarks : List Remark}
    (h : read file text = (.ok program, remarks)) (library : Library) : ∃ items,
      parse text = .ok items ∧ Hoists StateDecl.gathered items program library ∧
      List.Forall₂ List.Perm (pieces StateDecl.gathered items) (pieces StateDecl.written items) := by
  obtain ⟨items, hparse, -, rep, -, -⟩ := read_eq_ok h
  have shape := allShaped_itemTrees items
  have hpieces := piecesFrom_itemTrees items
  refine ⟨items, hparse, ⟨?_, ?_, generate_text rep library, ?_⟩, pieces_perm items⟩
  · rw [topMachines_eq rep, List.length_map, ← hpieces, length_piecesFrom]
  · have hheader := applyAll_header rep library
    generalize (if (itemTrees items).isEmpty then "" else headerText program.usesAssign library) =
      header at hheader
    have tr := tracks_start rep (w := ({} : Script.Writer).put header) rfl
    refine ⟨_, Emission.writeAll_of_ok hheader, fun k id hk => ?_, fun steps id e hrun _ hparent => ?_⟩
    · rw [topMachines_eq rep, List.getElem?_map] at hk
      obtain ⟨t, hfound, rfl⟩ := Option.map_eq_some_iff.mp hk
      obtain ⟨before, after, hroots, ht, rfl⟩ := exists_split hfound
      rw [place_start rep, ← hpieces]
      exact exit_topLevel rep shape tr hroots ht
    · rw [place_start rep] at hrun
      exact exit_nested rep shape tr hrun hparent
  · rw [generate_eq rep shape library, filter_isGeneral]
    simp only [hpieces]

/-! ### Examples -/

/-- Two machines, with bindings before, inside, between and after them. -/
def twoMachines : String :=
  "guard f=x machine a\x7bstate s\x7baction g=assign(k)\x7d guard h=y\x7d " ++
    "action i=z machine\x7b\x7d guard j=x"

lemma twoMachines_pieces : (match parse twoMachines with
    | .ok items => items.all Item.valid &&
      (pieces StateDecl.gathered items).map (·.map Binding.name) = [["f", "g", "h"], ["i"], ["j"]]
    | .error _ => false) = true := by
  decide +kernel

/-- In the example, each machine takes what was bound since the one before it, and what is bound
behind the last is left. -/
theorem twoMachines_hoists : ∃ program remarks items,
    read 0 twoMachines = (.ok program, remarks) ∧ parse twoMachines = .ok items ∧
      Hoists StateDecl.gathered items program .package ∧
      (pieces StateDecl.gathered items).map (·.map Binding.name) =
        [["f", "g", "h"], ["i"], ["j"]] := by
  have hpieces := twoMachines_pieces
  generalize hparse : parse twoMachines = outcome at hpieces
  cases outcome with
  | error attempts => cases hpieces
  | ok items =>
      simp only [Bool.and_eq_true, decide_eq_true_eq] at hpieces
      obtain ⟨program, remarks, hread⟩ := read_of_parse hparse hpieces.1 0
      obtain ⟨items', hparse', hhoists, -⟩ := read_hoists hread .package
      obtain rfl : items' = items := Except.ok.inj (hparse'.symm.trans hparse)
      exact ⟨program, remarks, items', hread, rfl, hhoists, hpieces.2⟩

/-- A binding between two inner states. -/
def betweenStates : String :=
  "machine m\x7bstate a\x7bstate b\x7bguard g1=x\x7dguard g2=y state c\x7bguard g3=z\x7d\x7d\x7d"

/-- In the second example, the two orders lead to different texts. -/
lemma betweenStates_texts : (match parse betweenStates with
    | .ok items => items.all Item.valid &&
      textWith ((pieces StateDecl.gathered items).map optionsText) (itemTrees items) !=
        textWith ((pieces StateDecl.written items).map optionsText) (itemTrees items)
    | .error _ => false) = true := by
  decide +kernel

/-- **Bindings are not always hoisted in the written order.** -/
theorem not_hoists_written : ∃ program remarks items,
    read 0 betweenStates = (.ok program, remarks) ∧ parse betweenStates = .ok items ∧
      ¬ Hoists StateDecl.written items program .package := by
  have htexts := betweenStates_texts
  generalize hparse : parse betweenStates = outcome at htexts
  cases outcome with
  | error attempts => cases htexts
  | ok items =>
      simp only [Bool.and_eq_true, bne_iff_ne] at htexts
      obtain ⟨program, remarks, hread⟩ := read_of_parse hparse htexts.1 0
      obtain ⟨items', hparse', -, rep, -, -⟩ := read_eq_ok hread
      obtain rfl : items' = items := Except.ok.inj (hparse'.symm.trans hparse)
      refine ⟨program, remarks, items', hread, rfl, fun hwritten => htexts.2 ?_⟩
      have htext := (generate_text rep .package).symm.trans hwritten.text
      exact (String.append_right_inj _).mp (Except.ok.inj htext)

end Statechart.Language
