import Statechart.Proofs.Chart.Tree

/-!
# Forests that grow

Putting a chart together never changes what is there: it adds trees at the ends of rows.

* `Tree.NumberedFrom` — the nodes of some trees have the numbers from a given one on.
* `Forest.Grows` — from one forest to another, trees were added, each below a node that was there
  or at the top level, and numbered on from the nodes that were there.
* **Steps** — a leaf that is appended (`grows_attach`), what grows below a node that was just
  added (`Grows.nest`), and a tree that is linked in when it is complete (`grows_root`).
* `Grows.trans` — growing further.
-/

namespace Statechart

namespace Tree

/-- The number of nodes of a tree. -/
def size (t : Tree) : Nat := (allEntries t.children).length + 1

/-- A tree of one node. -/
def leaf (id : NodeId) (payload : Node) : Tree := node id payload []

@[simp] lemma size_leaf (id : NodeId) (n : Node) : (leaf id n).size = 1 := by
  simp [leaf, size]

/-- The numbers of all nodes of some trees. -/
def ids (ts : List Tree) : List NodeId := (allEntries ts).map Prod.fst

@[simp] lemma ids_nil : ids [] = [] := by simp [ids]

@[simp] lemma ids_cons (t : Tree) (ts : List Tree) :
    ids (t :: ts) = t.id :: ids t.children ++ ids ts := by
  simp [ids]

lemma ids_append (ts us : List Tree) : ids (ts ++ us) = ids ts ++ ids us := by
  induction ts with
  | nil => simp
  | cons t ts ih => simp [ih]

/-- The numbers do not depend on the order of the trees, but for their own order. -/
lemma ids_perm {ts us : List Tree} (h : ts.Perm us) : (ids ts).Perm (ids us) := by
  induction h with
  | nil => exact .refl _
  | cons t _ ih => rw [ids_cons, ids_cons]; exact ih.append_left _
  | swap t u ts =>
      rw [ids_cons, ids_cons, ids_cons, ids_cons, ← List.append_assoc, ← List.append_assoc]
      exact List.perm_append_comm.append_right _
  | trans _ _ ih₁ ih₂ => exact ih₁.trans ih₂

/-- The nodes of some trees are numbered from `n` on, in any order. -/
def NumberedFrom (n : NodeId) (ts : List Tree) : Prop :=
  (ids ts).Perm (List.range' n (ids ts).length)

lemma length_ids_singleton (t : Tree) : (ids [t]).length = t.size := by
  simp [size, ids]

/-- What is numbered from `n` on has no number twice. -/
lemma NumberedFrom.nodup {n : NodeId} {ts : List Tree} (h : NumberedFrom n ts) : (ids ts).Nodup :=
  h.nodup_iff.mpr List.nodup_range'

/-- What is numbered from `n` on has the numbers from `n` on, one for each node. -/
lemma NumberedFrom.mem_iff {n : NodeId} {ts : List Tree} (h : NumberedFrom n ts) {id : NodeId} :
    id ∈ ids ts ↔ n ≤ id ∧ id < n + (ids ts).length := by
  rw [List.Perm.mem_iff h, List.mem_range'_1]

lemma numberedFrom_nil (n : NodeId) : NumberedFrom n [] := by
  simp [NumberedFrom]

/-- The order of the trees does not matter. -/
lemma NumberedFrom.perm {n : NodeId} {ts us : List Tree} (h : NumberedFrom n ts)
    (hp : ts.Perm us) : NumberedFrom n us := by
  have hids := ids_perm hp
  rw [NumberedFrom, ← hids.length_eq]
  exact hids.symm.trans h

/-- Trees that are numbered on from others. -/
lemma NumberedFrom.append {n : NodeId} {ts us : List Tree} (ht : NumberedFrom n ts)
    (hu : NumberedFrom (n + (ids ts).length) us) : NumberedFrom n (ts ++ us) := by
  rw [NumberedFrom, ids_append, List.length_append, ← List.range'_append_1]
  exact List.Perm.append ht hu

/-- A node that is numbered just before what hangs below it and beside it. -/
lemma NumberedFrom.node {n : NodeId} (payload : Node) {ts us : List Tree}
    (h : NumberedFrom (n + 1) (ts ++ us)) : NumberedFrom n (.node n payload ts :: us) := by
  have hids : ids (.node n payload ts :: us) = n :: ids (ts ++ us) := by
    rw [ids_append]; simp
  rw [NumberedFrom, hids, List.length_cons, List.range'_succ]
  exact List.Perm.cons n h

lemma numberedFrom_leaf (n : NodeId) (payload : Node) : NumberedFrom n [leaf n payload] :=
  .node payload (numberedFrom_nil _)

end Tree

namespace Forest

/-- The rows that a forest has already: the top level, and what is below its nodes. -/
def Has (f : Forest) (parent : Option NodeId) : Prop := ∀ id ∈ parent, id < f.nodes.size

/-- Trees were added to a forest, each at the end of the row of its parent.  Among the nodes that
were there, only those that were touched may have another payload. -/
structure Grows (f g : Forest) (touched : List NodeId) (added : List (Option NodeId × Tree)) :
    Prop where
  sound : g.Sound
  parents : ∀ x ∈ added, f.Has x.1
  size : g.nodes.size = f.nodes.size + (Tree.ids (added.map Prod.snd)).length
  numbered : Tree.NumberedFrom f.nodes.size (added.map Prod.snd)
  row : ∀ parent, f.Has parent →
    g.rowOf parent = f.rowOf parent ++ (added.filter (·.1 = parent)).map (·.2.id)
  stay : ∀ id < f.nodes.size, ∀ parent, id ∈ g.rowOf parent → id ∈ f.rowOf parent
  payload : ∀ id < f.nodes.size, id ∉ touched → g.node? id = f.node? id
  holds : g.HoldsAll (added.map Prod.snd)

/-- Trees are held by a forest if each of them is. -/
lemma holdsAll_iff {f : Forest} {ts : List Tree} : f.HoldsAll ts ↔ ∀ t ∈ ts, f.Holds t := by
  induction ts with
  | nil => simp
  | cons t ts ih => rw [HoldsAll, ih, List.forall_mem_cons]

namespace Grows

variable {f g h : Forest} {touched : List NodeId} {added added' : List (Option NodeId × Tree)}

/-- A forest to which nothing is added. -/
lemma refl (hr : f.Sound) (touched : List NodeId) : Grows f f touched [] where
  sound := hr
  parents _ hx := nomatch hx
  size := by simp
  numbered := Tree.numberedFrom_nil _
  row _ _ := by simp
  stay _ _ _ hid := hid
  payload _ _ _ := rfl
  holds := holdsAll_nil

lemma size_le (hg : Grows f g touched added) : f.nodes.size ≤ g.nodes.size := by
  rw [hg.size]; omega

/-- Nothing is lost by counting more nodes as touched. -/
lemma mono (hg : Grows f g touched added) {touched' : List NodeId}
    (hsub : touched ⊆ touched') : Grows f g touched' added :=
  { hg with payload := fun id hlt hid => hg.payload id hlt fun hmem => hid (hsub hmem) }

/-- **Growing further** keeps what was added before: new trees hang below nodes that were there
at the beginning. -/
lemma trans (h₁ : Grows f g touched added) (h₂ : Grows g h touched added')
    (hold : ∀ x ∈ added', f.Has x.1) (ht : ∀ id ∈ touched, id < f.nodes.size) :
    Grows f h touched (added ++ added') := by
  have hle := h₁.size_le
  constructor
  case sound => exact h₂.sound
  case parents =>
    intro x hx
    rcases List.mem_append.mp hx with hx | hx
    · exact h₁.parents x hx
    · exact hold x hx
  case size => rw [h₂.size, h₁.size, List.map_append, Tree.ids_append, List.length_append]; omega
  case numbered =>
    have h₂num := h₂.numbered
    rw [h₁.size] at h₂num
    rw [List.map_append]
    exact h₁.numbered.append h₂num
  case row =>
    intro parent hp
    have hp' : g.Has parent := fun id hid => Nat.lt_of_lt_of_le (hp id hid) hle
    rw [h₂.row parent hp', h₁.row parent hp, List.filter_append, List.map_append,
      List.append_assoc]
  case stay =>
    intro id hlt parent hid
    exact h₁.stay id hlt parent (h₂.stay id (Nat.lt_of_lt_of_le hlt hle) parent hid)
  case payload =>
    intro id hlt hid
    rw [h₂.payload id (Nat.lt_of_lt_of_le hlt hle) hid, h₁.payload id hlt hid]
  case holds =>
    rw [List.map_append, holdsAll_append]
    refine ⟨h₁.holds.congr fun entry hentry => ?_, h₂.holds⟩
    -- the nodes that were added first are beyond those that the later trees hang below
    have hid : entry.1 ∈ Tree.ids (added.map Prod.snd) := List.mem_map_of_mem hentry
    obtain ⟨hlow, hhigh⟩ := h₁.numbered.mem_iff.mp hid
    rw [← h₁.size] at hhigh
    refine ⟨h₂.payload _ hhigh fun hmem => Nat.not_lt.mpr hlow (ht _ hmem), ?_⟩
    have hnone : added'.filter (·.1 = some entry.1) = [] := by
      rw [List.filter_eq_nil_iff]
      intro x hx heq
      exact Nat.not_lt.mpr hlow (hold x hx _ (of_decide_eq_true heq))
    rw [h₂.row _ (by rintro id ⟨⟩; exact hhigh), hnone, List.map_nil, List.append_nil]

/-- The trees that were added, with those below one of the new nodes taken out. -/
lemma perm_below (added : List (Option NodeId × Tree)) (parent : Option NodeId) :
    (added.map Prod.snd).Perm ((added.filter (·.1 = parent)).map Prod.snd ++
      (added.filter (¬ ·.1 = parent)).map Prod.snd) := by
  rw [← List.map_append]
  refine (List.Perm.map _ ?_).symm
  simpa using List.filter_append_perm (fun x : Option NodeId × Tree => decide (x.1 = parent)) added

/-- **What grows below a node that was just added** becomes part of its tree. -/
lemma nest {p : Option NodeId} {n : NodeId} {payload₀ payload : Node} (hn : n = f.nodes.size)
    (h₁ : Grows f g touched [(p, .leaf n payload₀)])
    (h₂ : Grows g h (n :: touched) added') (hnode : h.node? n = some payload) :
    Grows f h touched
      ((p, .node n payload ((added'.filter (·.1 = some n)).map Prod.snd)) ::
        added'.filter (¬ ·.1 = some n)) := by
  have hsize : g.nodes.size = f.nodes.size + 1 := by
    rw [h₁.size]; simp [Tree.leaf]
  have hperm := perm_below added' (some n)
  constructor
  case sound => exact h₂.sound
  case parents =>
    intro x hx
    rcases List.mem_cons.mp hx with rfl | hx
    · exact h₁.parents (p, .leaf n payload₀) (List.mem_singleton_self _)
    · obtain ⟨hx, hne⟩ := List.mem_filter.mp hx
      intro id hid
      have hlt := h₂.parents x hx id hid
      have hother : id ≠ f.nodes.size := by
        rintro rfl
        exact of_decide_eq_true hne (hn ▸ hid)
      rw [hsize] at hlt
      exact Nat.lt_of_le_of_ne (Nat.le_of_lt_succ hlt) hother
  case size =>
    have hlength := (Tree.ids_perm hperm).length_eq
    rw [Tree.ids_append, List.length_append] at hlength
    rw [h₂.size, hsize, hlength]
    simp only [List.map_cons, Tree.ids_cons, Tree.id_node, Tree.children_node,
      List.length_append, List.length_cons]
    omega
  case numbered =>
    have h₂num := h₂.numbered
    rw [hsize] at h₂num
    rw [← hn] at h₂num ⊢
    exact Tree.NumberedFrom.node payload (h₂num.perm hperm)
  case row =>
    intro parent hp
    have hp' : g.Has parent := fun id hid => Nat.lt_of_lt_of_le (hp id hid) (by omega)
    have hne : parent ≠ some n := by
      rintro rfl
      exact absurd (hp n rfl) (Nat.not_lt.mpr (Nat.le_of_eq hn.symm))
    have hfilter : (added'.filter (¬ ·.1 = some n)).filter (·.1 = parent) =
        added'.filter (·.1 = parent) := by
      rw [List.filter_filter]
      refine List.filter_congr fun x _ => ?_
      by_cases hx : x.1 = parent
      · simp [hx, hne]
      · simp [hx]
    rw [h₂.row parent hp', h₁.row parent hp, List.append_assoc, List.filter_cons,
      List.filter_cons, hfilter]
    by_cases hpp : p = parent <;> simp [hpp, Tree.leaf]
  case stay =>
    intro id hlt parent hid
    exact h₁.stay id hlt parent (h₂.stay id (by omega) parent hid)
  case payload =>
    intro id hlt hid
    have hother : id ≠ n := by rw [hn]; exact Nat.ne_of_lt hlt
    rw [h₂.payload id (by omega) (List.not_mem_cons_of_ne_of_not_mem hother hid),
      h₁.payload id hlt hid]
  case holds =>
    have hleaf := (holdsAll_cons.mp h₁.holds).1.2.1
    have hrow : h.rowOf (some n) = ((added'.filter (·.1 = some n)).map Prod.snd).map Tree.id := by
      have hhas : g.Has (some n) := by
        rintro id ⟨⟩
        rw [hsize, hn]
        exact Nat.lt_succ_self _
      rw [h₂.row _ hhas, show g.rowOf (some n) = [] from hleaf, List.nil_append,
        List.map_map]
      rfl
    rw [List.map_cons, holdsAll_cons]
    have hall := holdsAll_iff.mp h₂.holds
    refine ⟨⟨hnode, hrow, holdsAll_iff.mpr fun t ht => ?_⟩, holdsAll_iff.mpr fun t ht => ?_⟩
    · exact hall t (hperm.mem_iff.mpr (List.mem_append_left _ ht))
    · exact hall t (hperm.mem_iff.mpr (List.mem_append_right _ ht))

end Grows

/-! ## Single nodes -/

/-- A forest with one more node, which is not linked in. -/
def withLoose (f : Forest) (n : Node) (location : Location) : Forest :=
  (f.add n).1.setLocation f.nodes.size location

/-- A forest with one more node at the end of the row below `p`. -/
def attach (f : Forest) (p : NodeId) (n : Node) (location : Location) : Forest :=
  (f.withLoose n location).appendTo p f.nodes.size

/-- The other forest has as many nodes, and they have the same locations. -/
def LocatedAs (f g : Forest) : Prop :=
  g.locations = f.locations ∧ g.nodes.size = f.nodes.size

section located

variable (f : Forest)

/-- Hanging a node below a parent moves no location. -/
lemma locatedAs_append (parent : Option NodeId) (child : NodeId) :
    f.LocatedAs (f.append parent child) := by
  cases parent with
  | none => exact ⟨rfl, rfl⟩
  | some parent =>
      show f.LocatedAs (f.appendTo parent child)
      rw [appendTo]
      cases (f.setParent child (some parent)).firstChild parent <;> exact ⟨rfl, rfl⟩

lemma locatedAs_pushRoot (id : NodeId) : f.LocatedAs (f.pushRoot id) := by
  rw [pushRoot]
  cases f.body <;> exact ⟨rfl, rfl⟩

lemma locatedAs_setNode (id : NodeId) (node : Node) : f.LocatedAs (f.setNode id node) := by
  rw [setNode]
  split
  · exact ⟨rfl, rfl⟩
  · exact ⟨rfl, Array.size_setIfInBounds⟩

end located

section single

variable {f g : Forest} {n : Node} {location : Location}

lemma size_withLoose : (f.withLoose n location).nodes.size = f.nodes.size + 1 := Array.size_push _

/-- The new node has its payload, and all others keep theirs. -/
lemma node?_withLoose (id : NodeId) :
    (f.withLoose n location).node? id = if id = f.nodes.size then some n else f.node? id := by
  show ((f.nodes.push (some n))[id]?).join = _
  rw [Array.getElem?_push]
  split
  · rfl
  · rfl

lemma Sound.withLoose (hr : f.Sound) : (f.withLoose n location).Rows f.rowOf :=
  (hr.add n).congr rfl rfl rfl

/-- **A leaf is appended.** -/
lemma grows_attach (hr : f.Sound) {p : NodeId} (hp : p < f.nodes.size)
    (touched : List NodeId) :
    Grows f (f.attach p n location) touched [(some p, .leaf f.nodes.size n)] := by
  have hsize : (f.withLoose n location).nodes.size = f.nodes.size + 1 := size_withLoose
  have hnodes : (f.attach p n location).nodes = (f.withLoose n location).nodes :=
    Rows.nodes_appendTo _ _ _
  have hnode : ∀ id, (f.attach p n location).node? id = (f.withLoose n location).node? id :=
    fun id => by rw [node?, node?, hnodes]
  have hloose : ∀ other, f.nodes.size ∉ f.rowOf other := fun other hmem =>
    Nat.lt_irrefl _ (hr.bound other _ hmem)
  have hadded : (f.withLoose n location).Rows f.rowOf := hr.withLoose
  have hsound := hadded.appendTo (p := p) (c := f.nodes.size) (by rw [hsize]; exact Nat.lt_succ_of_lt hp)
    (by rw [hsize]; exact Nat.lt_succ_self _) hloose
  have hrows : (f.attach p n location).rowOf = _ := hsound.eq_rowOf
  constructor
  case sound => exact hsound.sound
  case parents =>
    intro x hx id hid
    obtain rfl := List.mem_singleton.mp hx
    obtain rfl := Option.some.inj hid
    exact hp
  case size => rw [hnodes, hsize]; simp [Tree.leaf]
  case numbered => exact Tree.numberedFrom_leaf _ _
  case row =>
    intro parent _
    rw [hrows, Chains.update_apply]
    by_cases hparent : some p = parent <;> simp [hparent, Tree.leaf]
  case stay =>
    intro id hlt parent hid
    rw [hrows] at hid
    exact (Chains.mem_update.mp hid).resolve_right fun heq => Nat.ne_of_lt hlt heq.2
  case payload =>
    intro id hlt _
    rw [hnode, node?_withLoose, if_neg (Nat.ne_of_lt hlt)]
  case holds =>
    have hne : some p ≠ some f.nodes.size := fun heq => Nat.ne_of_lt hp (Option.some.inj heq)
    refine holdsAll_cons.mpr ⟨⟨?_, ?_, holdsAll_nil⟩, holdsAll_nil⟩
    · show (f.attach p n location).node? f.nodes.size = some n
      rw [hnode, node?_withLoose, if_pos rfl]
    · show (f.attach p n location).rowOf (some f.nodes.size) = []
      rw [hrows, Chains.update_apply, if_neg hne, List.append_nil, hr.fresh _ (Nat.le_refl _)]

/-- **A tree is linked in at the top level** when it is complete. -/
lemma grows_root (hr : f.Sound) {payload : Node} {added : List (Option NodeId × Tree)}
    (hg : Grows (f.withLoose n location) g [f.nodes.size] added)
    (hbelow : ∀ x ∈ added, x.1 = some f.nodes.size)
    (hnode : g.node? f.nodes.size = some payload) :
    Grows f (g.pushRoot f.nodes.size) []
      [(none, .node f.nodes.size payload (added.map Prod.snd))] := by
  have hsize : (f.withLoose n location).nodes.size = f.nodes.size + 1 := size_withLoose
  have hrows : (f.withLoose n location).rowOf = f.rowOf := hr.withLoose.eq_rowOf
  have hlt : f.nodes.size < g.nodes.size := by have := hg.size_le; omega
  have hloose : ∀ other, f.nodes.size ∉ g.rowOf other := fun other hmem =>
    Nat.lt_irrefl _ (hr.bound other _ (hrows ▸ hg.stay _ (by omega) other hmem))
  have hnodes : (g.pushRoot f.nodes.size).nodes = g.nodes := by
    rw [pushRoot]; split <;> rfl
  have hpayload : ∀ id, (g.pushRoot f.nodes.size).node? id = g.node? id :=
    fun id => by rw [node?, node?, hnodes]
  have hsound := Rows.pushRoot hg.sound hlt hloose
  have hrows' : (g.pushRoot f.nodes.size).rowOf = _ := hsound.eq_rowOf
  constructor
  case sound => exact hsound.sound
  case parents =>
    intro x hx id hid
    obtain rfl := List.mem_singleton.mp hx
    cases hid
  case size =>
    rw [hnodes, hg.size, hsize]
    simp
    omega
  case numbered =>
    have hnum := hg.numbered
    rw [hsize, ← List.append_nil (added.map Prod.snd)] at hnum
    exact Tree.NumberedFrom.node payload hnum
  case row =>
    intro parent hhas
    have hhas' : (f.withLoose n location).Has parent := fun id hid => by
      rw [hsize]; exact Nat.lt_succ_of_lt (hhas id hid)
    have hnone : added.filter (·.1 = parent) = [] := by
      rw [List.filter_eq_nil_iff]
      intro x hx heq
      rw [hbelow x hx] at heq
      exact Nat.lt_irrefl _ (hhas _ (of_decide_eq_true heq).symm)
    rw [hrows', Chains.update_apply, hg.row parent hhas', hnone, List.map_nil, List.append_nil,
      hrows]
    by_cases hparent : none = parent <;> simp [hparent]
  case stay =>
    intro id hid parent hmem
    rw [hrows'] at hmem
    rw [← hrows]
    refine hg.stay id (by omega) parent ?_
    exact (Chains.mem_update.mp hmem).resolve_right fun heq => Nat.ne_of_lt hid heq.2
  case payload =>
    intro id hid _
    rw [hpayload, hg.payload id (by omega) (by simpa using Nat.ne_of_lt hid), node?_withLoose,
      if_neg (Nat.ne_of_lt hid)]
  case holds =>
    have hold : ∀ parent : NodeId,
        (g.pushRoot f.nodes.size).rowOf (some parent) = g.rowOf (some parent) := fun parent => by
      rw [hrows', Function.update_of_ne (Option.some_ne_none parent)]
    have hhas : (f.withLoose n location).Has (some f.nodes.size) := by
      rintro id ⟨⟩
      rw [hsize]
      exact Nat.lt_succ_self _
    have hall : added.filter (·.1 = some f.nodes.size) = added :=
      List.filter_eq_self.mpr fun x hx => decide_eq_true (hbelow x hx)
    refine holdsAll_cons.mpr ⟨⟨?_, ?_, ?_⟩, holdsAll_nil⟩
    · exact (hpayload _).trans hnode
    · show (g.pushRoot f.nodes.size).rowOf (some f.nodes.size) =
        (added.map Prod.snd).map Tree.id
      rw [hold, hg.row _ hhas, hall, hrows, hr.fresh _ (Nat.le_refl _), List.nil_append,
        List.map_map]
      rfl
    · exact hg.holds.congr fun entry _ => ⟨hpayload _, hold _⟩

/-- A new payload of a live node touches that node. -/
lemma grows_setNode (hr : f.Sound) {id : NodeId} {old : Node} (hold : f.node? id = some old) :
    Grows f (f.setNode id n) [id] [] := by
  have hsize : (f.setNode id n).nodes.size = f.nodes.size := by
    rw [setNode, hold]
    exact Array.size_setIfInBounds
  have hbody : (f.setNode id n).body = f.body := by rw [setNode, hold]
  have hrows : (f.setNode id n).Rows f.rowOf := hr.congr (links_setNode f id n) hbody hsize
  refine ⟨hrows.sound, by simp, by simp [hsize], Tree.numberedFrom_nil _, ?_, ?_, ?_, holdsAll_nil⟩
  · intro parent _
    rw [hrows.eq_rowOf]
    simp
  · intro _ _ parent hid
    rwa [hrows.eq_rowOf] at hid
  · intro other _ hother
    rw [node?_setNode hold, if_neg (by simpa using hother)]

end single

end Forest

end Statechart
