import Statechart.Proofs.Script.Layout

/-!
# Open containers

Whether an operation fits depends on the kinds of the open containers only, not on what has been
put into them.  So the containers after a row of operations, and whether all of the row fits, can
be computed without a writer.

* `Container`, `Writer.containers` — the kinds of the open containers, the innermost first.
* `fit`, `fitAll` — the containers after an operation, and after a row of them.
* **`fitAll_containers`** — a writer carries out a row of operations exactly if the row fits.
-/

namespace Statechart.Script

/-- The kind of an open container. -/
inductive Container where
  | object
  | array (multiline : Bool)
deriving DecidableEq

/-- The kind of a frame. -/
def Frame.container : Frame → Container
  | .object _ => .object
  | .array _ multiline => .array multiline

/-- The kinds of the open containers, the innermost first. -/
def Writer.containers (w : Writer) : List Container := w.frames.map Frame.container

/-- The containers after an operation, if the operation fits the innermost one. -/
def fit (cs : List Container) : Operation → Option (List Container)
  | .startObject => some (.object :: cs)
  | .startArray multiline => some (.array multiline :: cs)
  | .endObject =>
    match cs with
    | .object :: outer => some outer
    | _ => none
  | .startProperty _ =>
    match cs with
    | .object :: _ => some cs
    | _ => none
  | .startElement =>
    match cs with
    | .array _ :: _ => some cs
    | _ => none
  | .endArray =>
    match cs with
    | .array _ :: outer => some outer
    | _ => none
  | .startCall _ => some cs
  | .endCall => some cs
  | .raw _ => some cs
  | .string _ => some cs
  | .indent => some cs

/-- The containers after a row of operations, if each of them fits. -/
def fitAll (cs : List Container) : List Operation → Option (List Container)
  | [] => some cs
  | op :: ops => (fit cs op).bind fun cs => fitAll cs ops

@[simp] lemma fitAll_nil (cs : List Container) : fitAll cs [] = some cs := rfl

@[simp] lemma fitAll_cons (cs : List Container) (op : Operation) (ops : List Operation) :
    fitAll cs (op :: ops) = (fit cs op).bind fun cs => fitAll cs ops := rfl

/-- Two rows of operations, the second with the containers that the first leaves. -/
@[simp] lemma fitAll_append (cs : List Container) (as bs : List Operation) :
    fitAll cs (as ++ bs) = (fitAll cs as).bind fun cs => fitAll cs bs := by
  induction as generalizing cs with
  | nil => rfl
  | cons a as ih =>
      rw [List.cons_append, fitAll_cons, fitAll_cons]
      cases fit cs a with
      | none => rfl
      | some cs' => exact ih cs'

/-- A writer carries out an operation exactly if it fits. -/
lemma fit_containers (w : Writer) (op : Operation) :
    fit w.containers op = (w.apply op).toOption.map Writer.containers := by
  rcases hw : w.frames with _ | ⟨frame, outer⟩
  · cases op <;>
      simp [fit, Writer.containers, Writer.apply, hw, Writer.startObject, Writer.endObject,
        Writer.startProperty, Writer.startArray, Writer.startElement, Writer.endArray,
        Except.toOption, Frame.container]
  · cases frame with
    | object fresh =>
        cases op <;>
          simp [fit, Writer.containers, Writer.apply, hw, Writer.startObject, Writer.endObject,
            Writer.startProperty, Writer.startArray, Writer.startElement, Writer.endArray,
            Except.toOption, Frame.container, Writer.putLine]
    | array fresh multiline =>
        cases op <;> cases multiline <;> cases fresh <;>
          simp [fit, Writer.containers, Writer.apply, hw, Writer.startObject, Writer.endObject,
            Writer.startProperty, Writer.startArray, Writer.startElement, Writer.endArray,
            Except.toOption, Frame.container, Writer.putLine]

/-- **A writer carries out a row of operations exactly if the row fits.** -/
lemma fitAll_containers (w : Writer) (ops : List Operation) :
    fitAll w.containers ops = (w.applyAll ops).toOption.map Writer.containers := by
  induction ops generalizing w with
  | nil => rfl
  | cons op ops ih =>
      rw [fitAll_cons, fit_containers, Writer.applyAll]
      cases w.apply op with
      | error fault => rfl
      | ok w' => exact ih w'

/-- A row that fits is carried out. -/
lemma applyAll_of_fitAll {w : Writer} {ops : List Operation} {cs : List Container}
    (h : fitAll w.containers ops = some cs) :
    ∃ w', w.applyAll ops = .ok w' ∧ w'.containers = cs := by
  rw [fitAll_containers] at h
  cases hw : w.applyAll ops with
  | error fault => simp [hw, Except.toOption] at h
  | ok w' => exact ⟨w', rfl, by simpa [hw, Except.toOption] using h⟩

/-- The containers after a row that is carried out. -/
lemma containers_of_applyAll {w w' : Writer} {ops : List Operation} {cs : List Container}
    (h : fitAll w.containers ops = some cs) (hw : w.applyAll ops = .ok w') :
    w'.containers = cs := by
  rw [fitAll_containers, hw] at h
  exact Option.some.inj h

/-! ## Values -/

/-- Any containers are those of some writer. -/
lemma exists_containers (cs : List Container) : ∃ w : Writer, w.containers = cs := by
  refine ⟨{ frames := cs.map fun
    | .object => .object false
    | .array multiline => .array false multiline }, ?_⟩
  rw [Writer.containers, List.map_map]
  refine (List.map_congr_left fun c _ => ?_).trans (List.map_id cs)
  cases c <;> rfl

/-- A value fits anywhere and closes all that it opens. -/
@[simp] lemma fitAll_operations (cs : List Container) (v : Value) :
    fitAll cs v.operations = some cs := by
  obtain ⟨w, rfl⟩ := exists_containers cs
  rw [fitAll_containers, Writer.applyAll_operations]
  rfl

/-- Properties fit into an object and leave it open. -/
@[simp] lemma fitAll_propertyOperations (cs : List Container) (ps : List (String × Value)) :
    fitAll (.object :: cs) (Value.propertyOperations ps) = some (.object :: cs) := by
  induction ps with
  | nil => rw [Value.propertyOperations]; rfl
  | cons p ps ih => rw [Value.propertyOperations]; simp [fit, ih]

end Statechart.Script
