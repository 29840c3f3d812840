import Statechart.Chart.Expression

/-!
# Batches of transitions

Transitions that stand side by side in a state share a container: events an object under `on`,
immediate transitions an array under `always`, and delayed ones an object under `delay`.  Such a
container is a *batch*.

* `Batch` — the three containers.
* `BatchFlags` — one truth value for each of them.
* `Scope` — which batches are open in the current machine, and which the current state has
  written already.
-/

namespace Statechart

/-- The container that a run of sibling transitions shares. -/
inductive Batch where
  | on
  | always
  | delay
deriving DecidableEq

namespace Batch

/-- The batch that a trigger belongs to. -/
def ofTrigger : Trigger → Batch
  | .event _ => on
  | .immediate => always
  | .delay _ => delay

/-- The key under which the batch is written. -/
def key : Batch → String
  | on => "on"
  | always => "always"
  | delay => "delay"

end Batch

/-- A truth value for each batch. -/
structure BatchFlags where
  on : Bool := false
  always : Bool := false
  delay : Bool := false
deriving DecidableEq

namespace BatchFlags

/-- The value for a batch. -/
def get (f : BatchFlags) : Batch → Bool
  | .on => f.on
  | .always => f.always
  | .delay => f.delay

/-- Change the value for a batch. -/
def set (f : BatchFlags) (batch : Batch) (value : Bool) : BatchFlags :=
  match batch with
  | .on => { f with on := value }
  | .always => { f with always := value }
  | .delay => { f with delay := value }

/-- **A change is seen at its own batch and nowhere else.** -/
theorem get_set (f : BatchFlags) (a b : Batch) (value : Bool) :
    (f.set a value).get b = if b = a then value else f.get b := by
  cases a <;> cases b <;> rfl

end BatchFlags

/-- What is known about the batches of a machine while its states are written. -/
structure Scope where
  /-- The batches that are open. -/
  isOpen : BatchFlags := {}
  /-- The batches that the current state has written, open or not. -/
  written : BatchFlags := {}
deriving DecidableEq

end Statechart
