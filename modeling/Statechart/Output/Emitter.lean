import Statechart.Chart.Forest
import Statechart.Output.Bindings
import Statechart.Output.Scope
import Statechart.Report.Remark
import Statechart.Script.Value

/-!
# Emission

A module is emitted in one walk over the forest.  The walk changes an `Emitter`: the forest,
which loses the nodes that are done with, the text that is written, the bindings that wait for
the end of their machine, the batches that are open, and the remarks made so far.  An emission
that ends in a fault keeps all of these as they were at the fault.
-/

namespace Statechart.Output

open Script

/-- A module that is being emitted. -/
structure Emitter where
  forest : Forest := {}
  writer : Writer := {}
  bindings : Bindings := {}
  /-- The batches of the current machine. -/
  scope : Scope := {}
  /-- The scopes of the machines around it, the innermost first. -/
  enclosing : List Scope := []
  remarks : Array Remark := #[]

/-- Steps of an emission. -/
abbrev Emission := EStateM Fault Emitter

namespace Emission

/-- Make a remark. -/
def remark (r : Remark) : Emission Unit :=
  modify fun e => { e with remarks := e.remarks.push r }

/-- Write an entry into the log. -/
def log (level : Log.Level) (part : Log.Part) (message : String) : Emission Unit :=
  remark (.log ⟨level, part, message⟩)

/-- Warn about a node, and log the warning. -/
def warn (id : NodeId) (message : String) : Emission Unit := do
  log .debug .emission message
  let e ← get
  remark (.node id (e.forest.location id) .warning message)

/-- Carry out what may fail for want of a node or a container. -/
def expect {α : Type} : Except Fault α → Emission α
  | .ok a => return a
  | .error fault => throw fault

/-- Tell the writer one thing. -/
def write (op : Operation) : Emission Unit := do
  let e ← get
  let writer ← expect (e.writer.apply op)
  set { e with writer := writer }

/-- Tell the writer several things in order. -/
def writeAll : List Operation → Emission Unit
  | [] => return
  | op :: ops => do
    write op
    writeAll ops

/-- Write a value. -/
def writeValue (value : Value) : Emission Unit := writeAll value.operations

/-- Write a property of the innermost object. -/
def writeProperty (key : String) (value : Value) : Emission Unit := do
  write (.startProperty key)
  writeValue value

/-- The payload of a node that is relied upon to have one. -/
def node (id : NodeId) : Emission Node := do
  expect ((← get).forest.node id)

/-- Change the scope of the current machine. -/
def modifyScope (f : Scope → Scope) : Emission Unit :=
  modify fun e => { e with scope := f e.scope }

/-- Open the container of a batch, unless it is open.  A state that has written the batch before
repeats its key, and in the module the later key hides the earlier one; `id` is the transition
that this is said about. -/
def openBatch (id : NodeId) (batch : Batch) : Emission Unit := do
  let scope := (← get).scope
  if scope.isOpen.get batch then
    return
  modifyScope fun s => { s with written := s.written.set batch true }
  if scope.written.get batch then
    warn id
      ("`" ++ batch.key ++ "` is written twice for this state, the earlier `" ++ batch.key ++
        "` transitions are shadowed")
  modifyScope fun s => { s with isOpen := s.isOpen.set batch true }
  write (.startProperty batch.key)
  write (if batch = .always then .startArray true else .startObject)

/-- Close the container of a batch, if it is open. -/
def closeBatch (batch : Batch) : Emission Unit := do
  if (← get).scope.isOpen.get batch then
    modifyScope fun s => { s with isOpen := s.isOpen.set batch false }
    write (if batch = .always then .endArray else .endObject)

/-- The values of those things that have one, in order, and a warning about `origin` for each
that has none. -/
def valuesOf {α : Type} (origin : α → NodeId) (value : α → Except String Value) :
    List α → Emission (List (α × Value))
  | [] => return []
  | a :: rest =>
    match value a with
    | .ok v => do
      let values ← valuesOf origin value rest
      return (a, v) :: values
    | .error message => do
      warn (origin a) message
      valuesOf origin value rest

end Emission

end Statechart.Output
