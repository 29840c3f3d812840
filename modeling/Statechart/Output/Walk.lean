import Statechart.Output.Visit

/-!
# The walk over a forest

The walk enters a node, goes through all that is below it, and leaves it.  Behind itself it
destroys every node that it has left.  It knows nothing but the links: from a node that it
leaves it goes to the next sibling, or else up to the parent, and it ends where there is
neither.

* `Phase`, `step` — one step of the walk.
* `walk` — all steps.
* `generate` — the module for a program, or the fault that ended its emission, with the remarks
  made on the way.

**Why the walk ends.**  Each time it leaves a node a live node is destroyed, and between two
such times it only descends.  A descent without repetition visits every stored link once, so
`walkBound` steps are enough for every forest that is not circular.
-/

namespace Statechart.Output

open Script

/-- Where the walk is with a node. -/
inductive Phase where
  | entering
  | leaving
deriving DecidableEq

namespace Emission

/-- Destroy a node that the walk has left. -/
def destroy (id : NodeId) : Emission Unit := do
  let e ← get
  let forest ← expect (e.forest.destroy id)
  set { e with forest := forest }

/-- One step of the walk, and where it goes from there. -/
def step : Phase → NodeId → Emission (Option (Phase × NodeId))
  | .entering, id => do
    enter id
    match (← get).forest.firstChild id with
    | some child => return some (.entering, child)
    | none => return some (.leaving, id)
  | .leaving, id => do
    leave id
    let links := (← get).forest.linksOf id
    destroy id
    match links.next with
    | some next => return some (.entering, next)
    | none => return links.parent.map fun parent => (.leaving, parent)

/-- At most `bound` steps of the walk. -/
def walkWithin : Nat → Option (Phase × NodeId) → Emission Unit
  | _, none => return
  | 0, some _ => return
  | bound + 1, some (phase, id) => do
    let place ← step phase id
    walkWithin bound place

/-- More steps than a walk over the forest takes. -/
def walkBound (f : Forest) : Nat := (f.nodes.size + 1) * (f.links.size + 2)

/-- The walk over the whole forest. -/
def walk : Emission Unit := do
  let f := (← get).forest
  walkWithin (walkBound f) (f.body.map fun id => (.entering, id))

/-- Report the bindings that no machine has taken. -/
def reportUnused : Emission Unit := do
  let bindings := (← get).bindings
  if !bindings.isEmpty then
    let message := "bindings declared outside of any machine are ignored: " ++
      String.intercalate ", " bindings.names
    log .debug .emission message
    remark (.general .warning message)
    modify fun e => { e with bindings := {} }

/-- Note in the log if containers are left open. -/
def noteOpenFrames : Emission Unit := do
  let frames := (← get).writer.openFrames
  if frames != 0 then
    log .warn .emission (toString frames ++ " containers left open")

end Emission

/-- Where a module takes its machines from. -/
inductive Library where
  /-- The package of that name. -/
  | package
  /-- The build that is served on the web. -/
  | remote
deriving DecidableEq

namespace Library

/-- The text that imports name the library by. -/
def specifier : Library → String
  | package => "xstate"
  | remote => "https://cdn.skypack.dev/xstate"

end Library

/-- The first line of a module, which an empty chart does not have. -/
def headerOperations (p : Program) (library : Library) : List Operation :=
  if p.forest.body.isSome then
    [.raw ("import \x7b Machine" ++ (if p.usesAssign then ", assign" else "") ++ " \x7d from "),
      .string library.specifier, .raw ";\n"]
  else []

/-- The whole emission. -/
def emission (p : Program) (library : Library) : Emission String := do
  Emission.writeAll (headerOperations p library)
  Emission.walk
  Emission.reportUnused
  Emission.noteOpenFrames
  return (← get).writer.text

/-- The module for a program, and the remarks made on the way. -/
def generate (p : Program) (library : Library) : Except Fault String × List Remark :=
  match emission p library { forest := p.forest } with
  | .ok text e => (.ok text, e.remarks.toList)
  | .error fault e => (.error fault, e.remarks.toList)

end Statechart.Output
