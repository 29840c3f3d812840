import Statechart.Source.Span
import Statechart.Chart.SideTable
import Statechart.Fault

/-!
# The forest of a chart

The nodes of a chart are numbered in order of addition and linked from parent to first child
and from sibling to next sibling.  The links and the source locations live in side tables of
their own: they can be read and written for numbers that were never added, and they survive
`destroy`, which drops the payload of a node and nothing else.

* `Links` — the parent, the first child and the next sibling of a node.
* `Forest` — payloads, links, locations and the first top-level node.
* `Forest.append`, `Forest.after`, `Forest.pushRoot` — the three ways to link a node in.
* `Forest.node` — the live payload of a node, or the fault that there is none.

Sibling chains are followed link by link.  A chain without repetition visits every stored entry
at most once and may end in one number beyond them, so the number of stored entries plus one is
a bound for its length (`Forest.chain`).
-/

namespace Statechart

/-- The three links of a node. -/
structure Links where
  parent : Option NodeId := none
  child : Option NodeId := none
  next : Option NodeId := none
deriving DecidableEq, Inhabited

/-- Numbered nodes, linked into trees. -/
structure Forest where
  /-- The payloads; `none` marks a destroyed node. -/
  nodes : Array (Option Node) := #[]
  links : SideTable Links := {}
  locations : SideTable (Option Location) := {}
  /-- The first top-level node. -/
  body : Option NodeId := none
deriving DecidableEq

namespace Forest

/-! ## Links -/

/-- The links of a node. -/
def linksOf (f : Forest) (id : NodeId) : Links := f.links.get id

/-- The node above. -/
def parent (f : Forest) (id : NodeId) : Option NodeId := (f.linksOf id).parent

/-- The first node below. -/
def firstChild (f : Forest) (id : NodeId) : Option NodeId := (f.linksOf id).child

/-- The next node beside. -/
def nextSibling (f : Forest) (id : NodeId) : Option NodeId := (f.linksOf id).next

/-- Replace the links of a node. -/
def setLinks (f : Forest) (id : NodeId) (links : Links) : Forest :=
  { f with links := f.links.set id links }

/-- **A change of links is seen at its own node and nowhere else.** -/
theorem linksOf_setLinks (f : Forest) (id other : NodeId) (links : Links) :
    (f.setLinks id links).linksOf other = if other = id then links else f.linksOf other :=
  SideTable.get_set f.links id other links

/-- Set the parent of a node, and keep its other links. -/
def setParent (f : Forest) (id : NodeId) (parent : Option NodeId) : Forest :=
  f.setLinks id { f.linksOf id with parent := parent }

/-- Set the first child of a node, and keep its other links. -/
def setChild (f : Forest) (id : NodeId) (child : Option NodeId) : Forest :=
  f.setLinks id { f.linksOf id with child := child }

/-- Set the next sibling of a node, and keep its other links. -/
def setNext (f : Forest) (id : NodeId) (next : Option NodeId) : Forest :=
  f.setLinks id { f.linksOf id with next := next }

/-- At most `bound` nodes along the links to the next sibling, from the given one on. -/
def chainWithin (f : Forest) : Nat → Option NodeId → List NodeId
  | 0, _ => []
  | _, none => []
  | bound + 1, some id => id :: f.chainWithin bound (f.nextSibling id)

/-- The chain of siblings from the given node on. -/
def chain (f : Forest) (start : Option NodeId) : List NodeId :=
  f.chainWithin (f.links.size + 1) start

/-- The children of a node, in order. -/
def children (f : Forest) (id : NodeId) : List NodeId := f.chain (f.firstChild id)

/-- The siblings after a node, in order. -/
def following (f : Forest) (id : NodeId) : List NodeId := f.chain (f.nextSibling id)

/-- The top-level nodes, in order. -/
def roots (f : Forest) : List NodeId := f.chain f.body

/-! ## Growing -/

/-- Add a node that is not linked to any other yet. -/
def add (f : Forest) (node : Node) : Forest × NodeId :=
  ({ f with nodes := f.nodes.push (some node) }, f.nodes.size)

/-- The last node of the chain that starts at `sibling`. -/
def lastFrom (f : Forest) (sibling : NodeId) : NodeId :=
  (f.chain (some sibling)).getLastD sibling

/-- Link `id` in after the last node of the chain that starts at `sibling`.  Its parent becomes
the parent of `sibling`. -/
def after (f : Forest) (sibling id : NodeId) : Forest :=
  let f := f.setNext (f.lastFrom sibling) (some id)
  f.setParent id (f.parent sibling)

/-- Link `child` in as the last child of `parent`. -/
def appendTo (f : Forest) (parent child : NodeId) : Forest :=
  let f := f.setParent child (some parent)
  match f.firstChild parent with
  | none => f.setChild parent (some child)
  | some first => f.after first child

/-- Link `child` in below `parent`.  Nothing happens without a parent. -/
def append (f : Forest) (parent : Option NodeId) (child : NodeId) : Forest :=
  match parent with
  | none => f
  | some parent => f.appendTo parent child

/-- Link a node in as the last top-level node. -/
def pushRoot (f : Forest) (id : NodeId) : Forest :=
  match f.body with
  | none => { f with body := some id }
  | some first => f.after first id

/-! ## Payloads -/

/-- The payload of a node, if the node was added and is not destroyed. -/
def node? (f : Forest) (id : NodeId) : Option Node := (f.nodes[id]?).join

/-- The payload of a node that is relied upon to have one. -/
def node (f : Forest) (id : NodeId) : Except Fault Node :=
  match f.nodes[id]? with
  | none => .error (.noSuchNode f.nodes.size id)
  | some none => .error (.destroyed id)
  | some (some node) => .ok node

/-- Replace the payload of a live node.  Nothing happens to any other. -/
def setNode (f : Forest) (id : NodeId) (node : Node) : Forest :=
  match f.node? id with
  | none => f
  | some _ => { f with nodes := f.nodes.setIfInBounds id (some node) }

/-- The machine with the given number, if that node is a live one. -/
def machine? (f : Forest) (id : NodeId) : Option Machine :=
  match f.node? id with
  | some (.machine machine) => some machine
  | _ => none

/-- The transition with the given number, if that node is a live one. -/
def transition? (f : Forest) (id : NodeId) : Option Transition :=
  match f.node? id with
  | some (.transition transition) => some transition
  | _ => none

/-- The live node above the given one. -/
def parentNode? (f : Forest) (id : NodeId) : Option Node := (f.parent id).bind f.node?

/-- Whether the node is a machine below a state, which describes the children of that state. -/
def isNestedMachine (f : Forest) (id : NodeId) : Bool :=
  (f.node? id).any Node.isMachine && (f.parentNode? id).any Node.isState

/-- Drop the payload of a node.  Its links and its location stay. -/
def destroy (f : Forest) (id : NodeId) : Except Fault Forest :=
  match f.nodes[id]? with
  | none => .error (.noSuchNode f.nodes.size id)
  | some none => .error (.destroyedTwice id)
  | some (some _) => .ok { f with nodes := f.nodes.setIfInBounds id none }

/-- The number of nodes that are not destroyed. -/
def liveNodes (f : Forest) : Nat := f.nodes.toList.countP Option.isSome

/-! ## Locations -/

/-- Where a node was read from, if that is known. -/
def location (f : Forest) (id : NodeId) : Option Location := f.locations.get id

/-- Record where a node was read from. -/
def setLocation (f : Forest) (id : NodeId) (location : Location) : Forest :=
  { f with locations := f.locations.set id (some location) }

end Forest

/-- A chart that was read: its forest, and whether anything in it updates the context. -/
structure Program where
  forest : Forest := {}
  usesAssign : Bool := false
deriving DecidableEq

end Statechart
