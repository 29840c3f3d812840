import Statechart.Output.Walk
import Statechart.Proofs.Chart.Tree

/-!
# Positions of the walk

The walk keeps a single node number and a phase, and finds its way by links.  A `Position` says
the same in terms of trees: the nodes that were entered and not left, each with the trees beside
it, and the row of trees that the walk is in.

* `Position.place` — the node number and the phase at a position.
* `Position.next` — where one step leads.  It looks at trees only.
* `Position.In` — the position is one of the given row of trees.
* `Position.live` — the nodes that are not destroyed, with their payloads.  A machine that was
  entered is marked once one of its states was.

All facts about links, shape and distinctness are read off the row of trees the position is in.
-/

namespace Statechart.Output

/-- A node that was entered and not left, with the trees before and after it in its row. -/
structure Level where
  before : List Tree
  tree : Tree
  after : List Tree

namespace Level

/-- The trees of the row up to the node and with it. -/
def entered (l : Level) : List Tree := l.before ++ [l.tree]

/-- The trees of the row from the node on. -/
def ahead (l : Level) : List Tree := l.tree :: l.after

end Level

/-- A position of the walk.  The innermost node of the path comes first. -/
structure Position where
  path : List Level
  /-- The trees of the current row that the walk is done with. -/
  entered : List Tree
  /-- The trees of the current row that the walk has not come to. -/
  ahead : List Tree

/-- The number of the node that a row hangs below. -/
def parentId (path : List Level) : Option NodeId := path.head?.map fun l => l.tree.id

/-- The payload of the node that a row hangs below. -/
def parentPayload (path : List Level) : Option Node := path.head?.map fun l => l.tree.payload

@[simp] lemma parentId_nil : parentId [] = none := rfl
@[simp] lemma parentId_cons (l : Level) (path : List Level) :
    parentId (l :: path) = some l.tree.id := rfl
@[simp] lemma parentPayload_nil : parentPayload [] = none := rfl
@[simp] lemma parentPayload_cons (l : Level) (path : List Level) :
    parentPayload (l :: path) = some l.tree.payload := rfl

namespace Position

/-- The position in front of a row of top-level trees. -/
def start (roots : List Tree) : Position := ⟨[], [], roots⟩

/-- The node and the phase that the walk is at, unless it is done. -/
def place : Position → Option (Phase × NodeId)
  | ⟨_, _, t :: _⟩ => some (.entering, t.id)
  | ⟨l :: _, _, []⟩ => some (.leaving, l.tree.id)
  | ⟨[], _, []⟩ => none

/-- The position after one step. -/
def next : Position → Position
  | ⟨path, entered, t :: rest⟩ => ⟨⟨entered, t, rest⟩ :: path, [], t.children⟩
  | ⟨l :: path, _, []⟩ => ⟨path, l.entered, l.after⟩
  | ⟨[], entered, []⟩ => ⟨[], entered, []⟩

/-- The row of a path belongs to the given trees. -/
def RowIn (roots : List Tree) : List Level → List Tree → Prop
  | [], row => row = roots
  | l :: path, row => row = l.tree.children ∧ RowIn roots path (l.before ++ l.tree :: l.after)

/-- The position is one in the given trees. -/
def In (roots : List Tree) (pos : Position) : Prop :=
  RowIn roots pos.path (pos.entered ++ pos.ahead)

lemma in_start (roots : List Tree) : (start roots).In roots := rfl

/-- **A step stays within the trees.** -/
lemma In.next {roots : List Tree} {pos : Position} (h : pos.In roots) : pos.next.In roots := by
  obtain ⟨path, entered, ahead⟩ := pos
  cases ahead with
  | cons t rest => exact ⟨rfl, h⟩
  | nil =>
      cases path with
      | nil => exact h
      | cons l path =>
          have hrow : l.entered ++ l.after = l.before ++ l.tree :: l.after := by
            simp [Level.entered]
          show RowIn roots path (l.entered ++ l.after)
          rw [hrow]
          exact h.2

/-- The position after a number of steps. -/
def forward : Nat → Position → Position
  | 0, pos => pos
  | steps + 1, pos => forward steps pos.next

lemma In.forward {roots : List Tree} : ∀ (steps : Nat) {pos : Position}, pos.In roots →
    (pos.forward steps).In roots
  | 0, _, h => h
  | steps + 1, _, h => In.forward steps h.next

/-! ## Links -/

/-- The second half of a linked row is linked. -/
lemma linksAll_right {f : Forest} {parent : Option NodeId} : ∀ {ts us : List Tree},
    f.LinksAll parent (ts ++ us) → f.LinksAll parent us
  | [], _, h => h
  | _ :: _, _, h => linksAll_right (Forest.linksAll_cons.mp h).2.2

/-- Every row that a position can be in is linked below its parent. -/
lemma linksAll_row {f : Forest} {roots : List Tree} (h : f.LinksAll none roots) :
    ∀ {path : List Level} {row : List Tree}, RowIn roots path row →
      f.LinksAll (parentId path) row
  | [], row, hr => by rw [show row = roots from hr]; exact h
  | l :: path, row, hr => by
      rw [hr.1]
      exact (Forest.linksAll_cons.mp (linksAll_right (linksAll_row h hr.2))).2.1

/-- The links of a node that was entered and not left. -/
lemma linksOf_level {f : Forest} {roots : List Tree} (h : f.LinksAll none roots) {l : Level}
    {path : List Level} {row : List Tree} (hr : RowIn roots (l :: path) row) :
    f.linksOf l.tree.id = ⟨parentId path, Tree.first l.tree.children, Tree.first l.after⟩ :=
  (Forest.linksAll_cons.mp (linksAll_right (linksAll_row h hr.2))).1

/-! ## Shape -/

/-- Every row that a position can be in has the shape that its parent asks for. -/
lemma allShaped_row {roots : List Tree} (h : Tree.allShaped none roots = true) :
    ∀ {path : List Level} {row : List Tree}, RowIn roots path row →
      Tree.allShaped ((parentPayload path).map Node.kind) row = true
  | [], row, hr => by rw [show row = roots from hr]; exact h
  | l :: path, row, hr => by
      rw [hr.1]
      have hrow := (Tree.allShaped_append.mp (allShaped_row h hr.2)).2
      exact (Tree.allShaped_cons.mp hrow).2.2.1

/-! ## Live nodes -/

/-- The payload of an entered node: a machine is marked once one of its states was entered. -/
def marked (entered : List Tree) : Node → Node
  | .machine m => .machine { m with hasStates := m.hasStates || entered.any Tree.isState }
  | n => n

@[simp] lemma marked_nil (n : Node) : marked [] n = n := by
  cases n <;> simp [marked]

@[simp] lemma kind_marked (entered : List Tree) (n : Node) :
    (marked entered n).kind = n.kind := by
  cases n <;> rfl

/-- The live nodes outside of the current row: those of the path and those that come after. -/
def liveAbove : List Level → List Tree → List (NodeId × Node)
  | [], _ => []
  | l :: path, entered =>
    (l.tree.id, marked entered l.tree.payload) ::
      (Tree.allEntries l.after ++ liveAbove path l.entered)

/-- The nodes that are live at a position, with their payloads. -/
def live (pos : Position) : List (NodeId × Node) :=
  Tree.allEntries pos.ahead ++ liveAbove pos.path pos.entered

lemma allEntries_append (ts us : List Tree) :
    Tree.allEntries (ts ++ us) = Tree.allEntries ts ++ Tree.allEntries us := by
  induction ts with
  | nil => simp
  | cons t ts ih => simp [ih]

/-- No node occurs twice in a row and outside of it. -/
lemma nodup_row {roots : List Tree} (h : ((Tree.allEntries roots).map Prod.fst).Nodup) :
    ∀ {path : List Level} {row : List Tree} (entered : List Tree), RowIn roots path row →
      ((Tree.allEntries row ++ liveAbove path entered).map Prod.fst).Nodup
  | [], row, _, hr => by
      rw [show row = roots from hr]
      simpa [liveAbove] using h
  | l :: path, row, entered, hr => by
      have ih := nodup_row h l.entered hr.2
      rw [hr.1]
      have hsub : ((Tree.allEntries (l.tree :: l.after) ++ liveAbove path l.entered).map
          Prod.fst).Nodup := by
        refine ih.sublist (List.Sublist.map _ (List.Sublist.append_right ?_ _))
        rw [allEntries_append]
        exact List.sublist_append_right _ _
      -- the node itself moves behind what hangs below it
      refine List.Perm.nodup ?_ hsub
      simp only [Tree.allEntries_cons, liveAbove, List.map_append, List.map_cons, List.cons_append,
        List.append_assoc]
      exact List.perm_middle.symm

/-- **The live nodes of a position are distinct.** -/
lemma nodup_live {roots : List Tree} (h : ((Tree.allEntries roots).map Prod.fst).Nodup)
    {pos : Position} (hin : pos.In roots) : (pos.live.map Prod.fst).Nodup := by
  refine (nodup_row h pos.entered hin).sublist (List.Sublist.map _ ?_)
  rw [allEntries_append, List.append_assoc]
  exact List.sublist_append_right _ _

end Position

end Statechart.Output
