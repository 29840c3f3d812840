import Statechart.Proofs.Script.Container

/-!
# Brackets and the stack of a writer

A writer keeps the depth of indentation and the open containers apart from each other, and takes
levels off the depth with a subtraction that stops at zero.  Any row of operations is allowed, not
only the rows that values are written with.  This module says what the two fields are after any row
that is carried out, in terms of the row alone.

* `Balanced` — a row in which every opener is followed by its own closer.
* `Reaches` — an operation of some kind comes at the level of the row's beginning.  `Closed` and
  `Entered` say so of a container's own closer, and of the start of a property or an element.
* `Unclosed` — the containers that a row leaves open, one for every opener without its closer.
* `Step` — what one operation does to the depth and the open containers.
* **`frames_of_applyAll`** — the frames after a row are those that the row leaves unclosed.
* **`applyAll_nesting`** — depth, frames and closing brackets of every row from the beginning.

The matching of brackets is unique (`Balanced.eq_of_append`).  That is why a row can be taken
apart at its first opener: the opener is either closed later on, or it stays open for good.
-/

namespace Statechart.Script

/-! ## Matching brackets -/

/-- Whether what stands inside the container is one level deeper. -/
def Container.indents : Container → Bool
  | .object => true
  | .array multiline => multiline

/-- The bracket that closes the container. -/
def Container.bracket : Container → String
  | .object => "\x7d"
  | .array _ => "]"

/-- The container that the operation opens. -/
def Operation.opens : Operation → Option Container
  | .startObject => some .object
  | .startArray multiline => some (.array multiline)
  | _ => none

/-- Whether the operation closes containers of the given kind. -/
def Operation.closes : Operation → Container → Bool
  | .endObject, .object => true
  | .endArray, .array _ => true
  | _, _ => false

/-- Whether the operation closes a container. -/
def Operation.isCloser : Operation → Bool
  | .endObject => true
  | .endArray => true
  | _ => false

/-- Whether the operation starts a property or an element. -/
def Operation.isEntry : Operation → Bool
  | .startProperty _ => true
  | .startElement => true
  | _ => false

lemma Operation.isCloser_of_closes {op : Operation} {c : Container} (h : op.closes c = true) :
    op.isCloser = true := by
  cases op <;> cases c <;> simp_all [closes, isCloser]

lemma Operation.isCloser_of_opens {op : Operation} {c : Container} (h : op.opens = some c) :
    op.isCloser = false := by
  cases op <;> simp_all [opens, isCloser]

lemma Operation.isEntry_of_opens {op : Operation} {c : Container} (h : op.opens = some c) :
    op.isEntry = false := by
  cases op <;> simp_all [opens, isEntry]

lemma Operation.isEntry_of_isCloser {op : Operation} (h : op.isCloser = true) :
    op.isEntry = false := by
  cases op <;> simp_all [isEntry, isCloser]

lemma Operation.opens_of_isCloser {op : Operation} (h : op.isCloser = true) :
    op.opens = none := by
  cases op <;> simp_all [opens, isCloser]

/-- Every opener is followed by its own closer, and every closer is that of an opener. -/
inductive Balanced : List Operation → Prop
  | nil : Balanced []
  | plain {op : Operation} {ops : List Operation} : op.opens = none → op.isCloser = false →
      Balanced ops → Balanced (op :: ops)
  | group {opener closer : Operation} {c : Container} {inner rest : List Operation} :
      opener.opens = some c → closer.closes c = true → Balanced inner → Balanced rest →
      Balanced (opener :: (inner ++ closer :: rest))

/-- A balanced row that begins with an opener goes on to its closer. -/
lemma Balanced.of_opener {opener : Operation} {c : Container} {ops : List Operation}
    (hc : opener.opens = some c) (h : Balanced (opener :: ops)) :
    ∃ inner closer rest, ops = inner ++ closer :: rest ∧ closer.closes c = true ∧
      Balanced inner ∧ Balanced rest := by
  cases h with
  | plain hopens => simp [hc] at hopens
  | group hopens hcloser hinner hrest =>
      obtain rfl := Option.some.inj (hc.symm.trans hopens)
      exact ⟨_, _, _, rfl, hcloser, hinner, hrest⟩

/-- A balanced row that begins with neither an opener nor a closer. -/
lemma Balanced.of_plain {op : Operation} {ops : List Operation} (hop : op.opens = none)
    (h : Balanced (op :: ops)) : Balanced ops := by
  cases h with
  | plain _ _ hops => exact hops
  | group hopens => simp [hop] at hopens

/-- No balanced row begins with a closer. -/
lemma Balanced.not_isCloser {op : Operation} {ops : List Operation} (h : Balanced (op :: ops)) :
    op.isCloser = false := by
  cases h with
  | plain _ hcloser => exact hcloser
  | group hopens => exact Operation.isCloser_of_opens hopens

/-- **The matching of brackets is unique**: a balanced row in front of a closer ends nowhere else. -/
lemma Balanced.eq_of_append {as bs as' bs' : List Operation} {x y : Operation}
    (ha : Balanced as) (hb : Balanced bs) (hx : x.isCloser = true) (hy : y.isCloser = true)
    (h : as ++ x :: as' = bs ++ y :: bs') : as = bs ∧ x = y ∧ as' = bs' := by
  induction ha generalizing bs as' bs' x y with
  | nil =>
      cases bs with
      | nil => simpa using h
      | cons b bs =>
          obtain ⟨rfl, -⟩ := List.cons.inj h
          simp [hb.not_isCloser] at hx
  | @plain op as hop hcloser _ ih =>
      cases bs with
      | nil =>
          obtain ⟨rfl, -⟩ := List.cons.inj h
          simp [hcloser] at hy
      | cons b bs =>
          obtain ⟨rfl, h'⟩ := List.cons.inj h
          obtain ⟨rfl, rfl, rfl⟩ := ih (hb.of_plain hop) hx hy h'
          exact ⟨rfl, rfl, rfl⟩
  | @group opener closer c inner rest hc hcloser _ _ ihinner ihrest =>
      cases bs with
      | nil =>
          obtain ⟨rfl, -⟩ := List.cons.inj h
          simp [Operation.isCloser_of_opens hc] at hy
      | cons b bs =>
          rw [List.cons_append, List.cons_append] at h
          obtain ⟨rfl, h'⟩ := List.cons.inj h
          obtain ⟨inner', closer', rest', rfl, hcloser', hinner', hrest'⟩ := hb.of_opener hc
          rw [List.append_assoc, List.append_assoc, List.cons_append, List.cons_append] at h'
          obtain ⟨rfl, rfl, h''⟩ := ihinner hinner' (Operation.isCloser_of_closes hcloser)
            (Operation.isCloser_of_closes hcloser') h'
          obtain ⟨rfl, rfl, rfl⟩ := ihrest hrest' hx hy h''
          exact ⟨rfl, rfl, rfl⟩

/-- An operation that satisfies `P` comes at the level at which the row begins: all that is opened
in front of it is closed in front of it. -/
def Reaches (P : Operation → Bool) (ops : List Operation) : Prop :=
  ∃ level op rest, ops = level ++ op :: rest ∧ Balanced level ∧ P op = true

/-- The operations close a container of the given kind that was opened right in front of them. -/
def Closed (c : Container) (ops : List Operation) : Prop := Reaches (·.closes c) ops

/-- The operations start a property of an object, or an element of an array, that was opened right
in front of them. -/
def Entered (ops : List Operation) : Prop := Reaches Operation.isEntry ops

section Reaches

variable {P : Operation → Bool}

@[simp] lemma not_reaches_nil : ¬ Reaches P [] := by
  rintro ⟨level, op, rest, h, -⟩
  simp at h

lemma reaches_of_head {op : Operation} (h : P op = true) (ops : List Operation) :
    Reaches P (op :: ops) := ⟨[], op, ops, rfl, .nil, h⟩

/-- What is reached is not the first operation, if that is of another kind. -/
lemma Reaches.of_cons {op : Operation} {ops : List Operation} (hP : P op = false)
    (h : Reaches P (op :: ops)) :
    ∃ level x rest, ops = level ++ x :: rest ∧ Balanced (op :: level) ∧ P x = true := by
  obtain ⟨level, x, rest, hops, hlevel, hx⟩ := h
  cases level with
  | nil =>
      obtain ⟨rfl, -⟩ := List.cons.inj hops
      simp [hP] at hx
  | cons y level =>
      obtain ⟨rfl, rfl⟩ := List.cons.inj hops
      exact ⟨level, x, rest, rfl, hlevel, hx⟩

/-- An operation that is neither a bracket nor of the kind may stand in front. -/
lemma reaches_cons_plain {op : Operation} {ops : List Operation} (hop : op.opens = none)
    (hcloser : op.isCloser = false) (hP : P op = false) :
    Reaches P (op :: ops) ↔ Reaches P ops := by
  constructor
  · intro h
    obtain ⟨level, x, rest, rfl, hlevel, hx⟩ := h.of_cons hP
    exact ⟨level, x, rest, rfl, hlevel.of_plain hop, hx⟩
  · rintro ⟨level, x, rest, rfl, hlevel, hx⟩
    exact ⟨op :: level, x, rest, rfl, .plain hop hcloser hlevel, hx⟩

/-- A container that is opened and closed again can be passed over. -/
lemma reaches_group {opener closer : Operation} {c : Container} {inner rest : List Operation}
    (hc : opener.opens = some c) (hcloser : closer.closes c = true) (hinner : Balanced inner)
    (hP : P opener = false) :
    Reaches P (opener :: (inner ++ closer :: rest)) ↔ Reaches P rest := by
  constructor
  · intro h
    obtain ⟨level, x, tail, hops, hlevel, hx⟩ := h.of_cons hP
    obtain ⟨inner', closer', rest', rfl, hcloser', hinner', hrest'⟩ := hlevel.of_opener hc
    rw [List.append_assoc, List.cons_append] at hops
    obtain ⟨-, -, rfl⟩ := hinner.eq_of_append hinner' (Operation.isCloser_of_closes hcloser)
      (Operation.isCloser_of_closes hcloser') hops
    exact ⟨rest', x, tail, rfl, hrest', hx⟩
  · rintro ⟨level, x, tail, rfl, hlevel, hx⟩
    exact ⟨opener :: (inner ++ closer :: level), x, tail, by simp,
      .group hc hcloser hinner hlevel, hx⟩

/-- Behind an opener that is never closed nothing is at the level in front of it. -/
lemma not_reaches_opener {opener : Operation} {c : Container} {ops : List Operation}
    (hc : opener.opens = some c) (hopen : ¬ Closed c ops) (hP : P opener = false) :
    ¬ Reaches P (opener :: ops) := by
  intro h
  obtain ⟨level, x, tail, rfl, hlevel, -⟩ := h.of_cons hP
  obtain ⟨inner, closer, rest, rfl, hcloser, hinner, -⟩ := hlevel.of_opener hc
  exact hopen ⟨inner, closer, rest ++ x :: tail, by simp, hinner, hcloser⟩

end Reaches

/-! ## Steps -/

/-- Whether nothing has been put into the container yet. -/
def Frame.fresh : Frame → Bool
  | .object fresh => fresh
  | .array fresh _ => fresh

/-- The frame with something in it. -/
def Frame.enter : Frame → Frame
  | .object _ => .object false
  | .array _ multiline => .array false multiline

@[simp] lemma Frame.container_enter (f : Frame) : f.enter.container = f.container := by
  cases f <;> rfl

@[simp] lemma Frame.fresh_enter (f : Frame) : f.enter.fresh = false := by
  cases f <;> rfl

/-- Whether the closing bracket of the frame stands on a line of its own. -/
def Frame.ownLine : Frame → Bool
  | .object _ => true
  | .array fresh multiline => multiline && !fresh

/-- What closing the frame writes, if the depth is the given one afterwards. -/
def Frame.closing (depth : Nat) (f : Frame) : String :=
  (if f.ownLine then "\n" ++ indentation depth else "") ++ f.container.bracket

/-- What an operation does to the depth and the open containers: it opens one, closes the innermost
one, puts something into it, or leaves them alone. -/
inductive Step : Operation → Writer → Writer → Prop
  | opened {op : Operation} {w w' : Writer} {f : Frame} : op.opens = some f.container →
      f.fresh = true → w'.frames = f :: w.frames →
      w'.depth = w.depth + f.container.indents.toNat → Step op w w'
  | closed {op : Operation} {w w' : Writer} {f : Frame} : op.closes f.container = true →
      w.frames = f :: w'.frames → w'.depth = w.depth - f.container.indents.toNat →
      w'.text = w.text ++ f.closing w'.depth → Step op w w'
  | entered {op : Operation} {w w' : Writer} {f : Frame} {outer : List Frame} :
      op.isEntry = true → w.frames = f :: outer → w'.frames = f.enter :: outer →
      w'.depth = w.depth → Step op w w'
  | kept {op : Operation} {w w' : Writer} : op.opens = none → op.isCloser = false →
      op.isEntry = false → w'.frames = w.frames → w'.depth = w.depth → Step op w w'

namespace Writer

/-- The end of an object closes it. -/
lemma step_endObject {w w' : Writer} (h : w.endObject = .ok w') : Step .endObject w w' := by
  rw [endObject] at h
  split at h
  · rename_i fresh outer hframes
    obtain rfl := Except.ok.inj h
    exact .closed (f := .object fresh) rfl hframes rfl
      (by simp [putLine, Frame.closing, Frame.ownLine, Container.bracket, Frame.container,
        String.append_assoc])
  · simp at h

/-- A property enters the object that it belongs to. -/
lemma step_startProperty {w w' : Writer} {key : String} (h : w.startProperty key = .ok w') :
    Step (.startProperty key) w w' := by
  rw [startProperty] at h
  split at h
  · rename_i fresh outer hframes
    obtain rfl := Except.ok.inj h
    exact .entered rfl hframes rfl rfl
  · simp at h

/-- An element enters the array that it belongs to. -/
lemma step_startElement {w w' : Writer} (h : w.startElement = .ok w') :
    Step .startElement w w' := by
  rw [startElement] at h
  split at h
  · rename_i fresh multiline outer hframes
    refine .entered rfl hframes ?_ ?_ <;> cases multiline <;>
      (obtain rfl := Except.ok.inj h; rfl)
  · simp at h

/-- The end of an array closes it. -/
lemma step_endArray {w w' : Writer} (h : w.endArray = .ok w') : Step .endArray w w' := by
  rw [endArray] at h
  split at h
  · rename_i fresh multiline outer hframes
    refine .closed (f := .array fresh multiline) rfl (hframes.trans ?_) ?_ ?_ <;>
      cases multiline <;> cases fresh <;>
      (obtain rfl := Except.ok.inj h
       simp [putLine, Frame.closing, Frame.ownLine, Container.bracket, Frame.container,
         Container.indents, String.append_assoc])
  · simp at h

/-- Every operation that is carried out is one of the four kinds of steps. -/
lemma step_of_apply {w w' : Writer} {op : Operation} (h : w.apply op = .ok w') :
    Step op w w' := by
  cases op with
  | startObject =>
      obtain rfl := Except.ok.inj h
      exact .opened (f := .object true) rfl rfl rfl rfl
  | startArray multiline =>
      obtain rfl := Except.ok.inj h
      exact .opened (f := .array true multiline) rfl rfl rfl (by cases multiline <;> rfl)
  | endObject => exact step_endObject h
  | endArray => exact step_endArray h
  | startProperty key => exact step_startProperty h
  | startElement => exact step_startElement h
  | startCall callee => obtain rfl := Except.ok.inj h; exact .kept rfl rfl rfl rfl rfl
  | endCall => obtain rfl := Except.ok.inj h; exact .kept rfl rfl rfl rfl rfl
  | raw token => obtain rfl := Except.ok.inj h; exact .kept rfl rfl rfl rfl rfl
  | string text => obtain rfl := Except.ok.inj h; exact .kept rfl rfl rfl rfl rfl
  | indent => obtain rfl := Except.ok.inj h; exact .kept rfl rfl rfl rfl rfl

end Writer

namespace Step

variable {op : Operation} {w w' : Writer}

/-- An opener pushes a fresh frame of its kind. -/
lemma of_opens (h : Step op w w') {c : Container} (hc : op.opens = some c) :
    ∃ f, f.container = c ∧ f.fresh = true ∧ w'.frames = f :: w.frames := by
  cases h with
  | opened hopens hfresh hframes => exact ⟨_, Option.some.inj (hopens.symm.trans hc), hfresh, hframes⟩
  | closed hcloses =>
      simp [Operation.opens_of_isCloser (Operation.isCloser_of_closes hcloses)] at hc
  | entered hentry => simp [Operation.isEntry_of_opens hc] at hentry
  | kept hopens => simp [hopens] at hc

/-- A closer takes off a frame of its kind. -/
lemma of_isCloser (h : Step op w w') (hop : op.isCloser = true) :
    ∃ f, op.closes f.container = true ∧ w.frames = f :: w'.frames ∧
      w'.text = w.text ++ f.closing w'.depth := by
  cases h with
  | opened hopens => simp [Operation.isCloser_of_opens hopens] at hop
  | closed hcloses hframes _ htext => exact ⟨_, hcloses, hframes, htext⟩
  | entered hentry => simp [Operation.isEntry_of_isCloser hop] at hentry
  | kept _ hcloser => simp [hcloser] at hop

end Step

/-- The depth is the number of open containers that indent what stands inside them. -/
def Writer.Aligned (w : Writer) : Prop := w.depth = w.containers.countP Container.indents

/-- A step keeps depth and containers in line.  The subtraction takes off what was added for the
frame, so it does not stop short. -/
lemma Step.aligned {op : Operation} {w w' : Writer} (h : Step op w w') (hw : w.Aligned) :
    w'.Aligned := by
  unfold Writer.Aligned Writer.containers at *
  cases h with
  | @opened f _ _ hframes hdepth =>
      rw [hdepth, hframes, List.map_cons, List.countP_cons, hw]
      cases f.container.indents <;> rfl
  | @closed f _ hframes hdepth _ =>
      rw [hframes, List.map_cons, List.countP_cons] at hw
      rw [hdepth, hw]
      cases f.container.indents <;> rfl
  | entered _ hframes hframes' hdepth =>
      rw [hframes, List.map_cons] at hw
      rw [hdepth, hframes', List.map_cons, Frame.container_enter, hw]
  | kept _ _ _ hframes hdepth => rw [hdepth, hframes, hw]

/-- A row keeps depth and containers in line. -/
lemma aligned_of_applyAll {ops : List Operation} {w w' : Writer} (hw : w.Aligned)
    (h : w.applyAll ops = .ok w') : w'.Aligned := by
  induction ops generalizing w with
  | nil => obtain rfl := Except.ok.inj h; exact hw
  | cons op ops ih =>
      obtain ⟨u, hu, hrest⟩ := Writer.applyAll_cons_eq_ok.1 h
      exact ih ((Writer.step_of_apply hu).aligned hw) hrest

/-! ## Rows at one level -/

/-- The frames in front of a row and behind it, if it closes what it opens: only the innermost
frame differs, and it is fresh as long as nothing is put into it. -/
inductive Level (ops : List Operation) : List Frame → List Frame → Prop
  | bare : Level ops [] []
  | inside {f f' : Frame} {outer : List Frame} : f'.container = f.container →
      (f'.fresh = true ↔ f.fresh = true ∧ ¬ Entered ops) → Level ops (f :: outer) (f' :: outer)

namespace Level

variable {ops ops' : List Operation} {frames frames' : List Frame}

lemma refl (h : ¬ Entered ops) : ∀ frames : List Frame, Level ops frames frames
  | [] => .bare
  | _ :: _ => .inside rfl (by simp [h])

lemma congr (h : Entered ops ↔ Entered ops') (hl : Level ops frames frames') :
    Level ops' frames frames' := by
  cases hl with
  | bare => exact .bare
  | inside hc hf => exact .inside hc (by rw [hf, h])

/-- With an entry in front of the row, the innermost frame is not fresh behind it. -/
lemma cons_entry {op : Operation} {f : Frame} (hop : op.isEntry = true)
    (hl : Level ops (f.enter :: frames) frames') : Level (op :: ops) (f :: frames) frames' := by
  cases hl with
  | inside hc hf =>
      refine .inside (hc.trans f.container_enter) ?_
      have hentered : Entered (op :: ops) := reaches_of_head hop ops
      simpa [hentered] using hf

end Level

/-- An operation that neither opens nor closes anything, in front of a row. -/
lemma Step.level_cons {op : Operation} {ops : List Operation} {w w' : Writer} {frames : List Frame}
    (h : Step op w w') (hop : op.opens = none) (hcloser : op.isCloser = false)
    (hl : Level ops w'.frames frames) : Level (op :: ops) w.frames frames := by
  cases h with
  | opened hopens => simp [hop] at hopens
  | closed hcloses => simp [Operation.isCloser_of_closes hcloses] at hcloser
  | entered hentry hframes hframes' _ =>
      rw [hframes]
      exact .cons_entry hentry (hframes' ▸ hl)
  | kept _ _ hentry hframes _ =>
      exact .congr (reaches_cons_plain hop hcloser hentry).symm (hframes ▸ hl)

/-- A container that is opened and closed again, with a row inside that leaves the frames outside
alone: the frames behind the closer are those in front of the opener. -/
lemma frames_of_group {opener closer : Operation} {c : Container} {inner : List Operation}
    {w u v x : Writer} (hc : opener.opens = some c) (hcloser : closer.isCloser = true)
    (hu : w.apply opener = .ok u) (hinner : Level inner u.frames v.frames)
    (hx : v.apply closer = .ok x) :
    ∃ f, f.container = c ∧ (f.fresh = true ↔ ¬ Entered inner) ∧ closer.closes c = true ∧
      v.frames = f :: w.frames ∧ x.frames = w.frames ∧ x.text = v.text ++ f.closing x.depth := by
  obtain ⟨f, rfl, hfresh, hframes⟩ := (Writer.step_of_apply hu).of_opens hc
  obtain ⟨f', hcloses, hframes', htext⟩ := (Writer.step_of_apply hx).of_isCloser hcloser
  rw [hframes, hframes'] at hinner
  generalize hw : w.frames = outer at hinner
  generalize hx' : x.frames = outer' at hinner
  cases hinner with
  | inside hcontainer hf' =>
      refine ⟨f', hcontainer, by simpa [hfresh] using hf', hcontainer ▸ hcloses, ?_, rfl, htext⟩
      rw [hframes', hx']

/-- **A balanced row leaves all frames but the innermost one alone.** -/
lemma Balanced.level {ops : List Operation} (hops : Balanced ops) {w w' : Writer}
    (h : w.applyAll ops = .ok w') : Level ops w.frames w'.frames := by
  induction hops generalizing w w' with
  | nil =>
      obtain rfl := Except.ok.inj h
      exact Level.refl not_reaches_nil _
  | @plain op ops hop hcloser _ ih =>
      obtain ⟨u, hu, hrest⟩ := Writer.applyAll_cons_eq_ok.1 h
      exact (Writer.step_of_apply hu).level_cons hop hcloser (ih hrest)
  | @group opener closer c inner rest hc hcloser hinner _ ihinner ihrest =>
      obtain ⟨u, hu, hops⟩ := Writer.applyAll_cons_eq_ok.1 h
      obtain ⟨v, hv, hops⟩ := Writer.applyAll_append_eq_ok.1 hops
      obtain ⟨x, hx, hrest⟩ := Writer.applyAll_cons_eq_ok.1 hops
      obtain ⟨-, -, -, -, -, hframes, -⟩ := frames_of_group hc
        (Operation.isCloser_of_closes hcloser) hu (ihinner hv) hx
      exact .congr (reaches_group hc hcloser hinner (Operation.isEntry_of_opens hc)).symm
        (hframes ▸ ihrest hrest)

/-- A row that does not close the innermost frame closes no frame at all. -/
lemma not_reaches_isCloser {ops : List Operation} {w w' : Writer} (h : w.applyAll ops = .ok w')
    (hopen : ∀ f outer, w.frames = f :: outer → ¬ Closed f.container ops) :
    ¬ Reaches Operation.isCloser ops := by
  rintro ⟨level, closer, rest, rfl, hlevel, hcloser⟩
  obtain ⟨u, hu, hops⟩ := Writer.applyAll_append_eq_ok.1 h
  obtain ⟨v, hv, -⟩ := Writer.applyAll_cons_eq_ok.1 hops
  obtain ⟨f', hcloses, hframes', -⟩ := (Writer.step_of_apply hv).of_isCloser hcloser
  have hl := hlevel.level hu
  rw [hframes'] at hl
  generalize hframes : w.frames = frames at hl
  cases hl with
  | @inside f _ _ hc _ =>
      exact hopen f _ hframes ⟨level, closer, rest, rfl, hlevel, hc ▸ hcloses⟩

/-! ## Whole rows -/

/-- The row closes nothing but what it has opened itself. -/
inductive Contained : List Operation → Prop
  | nil : Contained []
  | plain {op : Operation} {ops : List Operation} : op.opens = none → op.isCloser = false →
      Contained ops → Contained (op :: ops)
  | group {opener closer : Operation} {c : Container} {inner rest : List Operation} :
      opener.opens = some c → closer.closes c = true → Balanced inner → Contained rest →
      Contained (opener :: (inner ++ closer :: rest))
  | opened {opener : Operation} {c : Container} {ops : List Operation} :
      opener.opens = some c → ¬ Closed c ops → Contained ops → Contained (opener :: ops)

/-- A row that is carried out and closes no frame of the writer closes only what it has opened. -/
lemma contained_of_applyAll {ops : List Operation} {w w' : Writer} (h : w.applyAll ops = .ok w')
    (hops : ¬ Reaches Operation.isCloser ops) : Contained ops := by
  -- the row behind a closed container is shorter, but not a part of the induction on lists
  induction hn : ops.length using Nat.strongRecOn generalizing ops w w' with
  | ind n ih =>
  subst hn
  cases ops with
  | nil => exact .nil
  | cons op ops =>
      obtain ⟨u, hu, hrest⟩ := Writer.applyAll_cons_eq_ok.1 h
      cases hc : op.opens with
      | none =>
          have hcloser : op.isCloser = false :=
            Bool.eq_false_iff.2 fun hop => hops (reaches_of_head hop ops)
          rw [reaches_cons_plain hc hcloser hcloser] at hops
          exact .plain hc hcloser (ih _ (by simp) hrest hops rfl)
      | some c =>
          have hcloser : op.isCloser = false := Operation.isCloser_of_opens hc
          obtain ⟨f, rfl, -, hframes⟩ := (Writer.step_of_apply hu).of_opens hc
          by_cases hclosed : Closed f.container ops
          · obtain ⟨inner, closer, rest, rfl, hinner, hcloses⟩ := hclosed
            obtain ⟨v, hv, hops'⟩ := Writer.applyAll_append_eq_ok.1 hrest
            obtain ⟨x, hx, hrest'⟩ := Writer.applyAll_cons_eq_ok.1 hops'
            rw [reaches_group hc hcloses hinner hcloser] at hops
            have hshorter : rest.length < (op :: (inner ++ closer :: rest)).length := by
              simp only [List.length_cons, List.length_append]
              omega
            exact .group hc hcloses hinner (ih _ hshorter hrest' hops rfl)
          · refine .opened hc hclosed (ih _ (by simp) hrest (not_reaches_isCloser hrest ?_) rfl)
            intro g outer hg
            rw [hframes] at hg
            obtain ⟨rfl, -⟩ := List.cons.inj hg
            exact hclosed

/-- The containers that a row leaves open, the outermost first: one for every opener that is not
closed behind it, fresh if nothing is put into the container behind it. -/
inductive Unclosed : List Operation → List Frame → Prop
  | nil : Unclosed [] []
  | other {op : Operation} {ops : List Operation} {frames : List Frame} : op.opens = none →
      Unclosed ops frames → Unclosed (op :: ops) frames
  | closed {op : Operation} {c : Container} {ops : List Operation} {frames : List Frame} :
      op.opens = some c → Closed c ops → Unclosed ops frames → Unclosed (op :: ops) frames
  | opened {op : Operation} {f : Frame} {ops : List Operation} {frames : List Frame} :
      op.opens = some f.container → ¬ Closed f.container ops →
      (f.fresh = true ↔ ¬ Entered ops) → Unclosed ops frames → Unclosed (op :: ops) (f :: frames)

/-- A balanced row in front leaves nothing open. -/
lemma Unclosed.balanced_append {level : List Operation} (hlevel : Balanced level) :
    ∀ {ops : List Operation} {frames : List Frame}, Unclosed ops frames →
      Unclosed (level ++ ops) frames := by
  induction hlevel with
  | nil => intro ops frames h; exact h
  | plain hop _ _ ih => intro ops frames h; exact .other hop (ih h)
  | @group opener closer c inner rest hc hcloser hinner _ ihinner ihrest =>
      intro ops frames h
      have hcloser' := Operation.opens_of_isCloser (Operation.isCloser_of_closes hcloser)
      have hrest := ihinner (.other hcloser' (ihrest h))
      rw [List.cons_append, List.append_assoc, List.cons_append]
      exact .closed hc ⟨inner, closer, rest ++ ops, rfl, hinner, hcloser⟩ hrest

/-- **The frames behind a row** are those that it leaves unclosed, on top of those in front of it. -/
lemma frames_of_applyAll {ops : List Operation} (hops : Contained ops) {w w' : Writer}
    (h : w.applyAll ops = .ok w') :
    ∃ frames inside, Unclosed ops frames ∧ Level ops w.frames inside ∧
      w'.frames = frames.reverse ++ inside := by
  induction hops generalizing w w' with
  | nil =>
      obtain rfl := Except.ok.inj h
      exact ⟨[], _, .nil, .refl not_reaches_nil _, rfl⟩
  | @plain op ops hop hcloser _ ih =>
      obtain ⟨u, hu, hrest⟩ := Writer.applyAll_cons_eq_ok.1 h
      obtain ⟨frames, inside, hframes, hinside, hw'⟩ := ih hrest
      exact ⟨frames, inside, .other hop hframes,
        (Writer.step_of_apply hu).level_cons hop hcloser hinside, hw'⟩
  | @group opener closer c inner rest hc hcloser hinner _ ih =>
      obtain ⟨u, hu, hops⟩ := Writer.applyAll_cons_eq_ok.1 h
      obtain ⟨v, hv, hops⟩ := Writer.applyAll_append_eq_ok.1 hops
      obtain ⟨x, hx, hrest⟩ := Writer.applyAll_cons_eq_ok.1 hops
      have hcloser' := Operation.isCloser_of_closes hcloser
      obtain ⟨-, -, -, -, -, hx', -⟩ := frames_of_group hc hcloser' hu (hinner.level hv) hx
      obtain ⟨frames, inside, hframes, hinside, hw'⟩ := ih hrest
      refine ⟨frames, inside, ?_, ?_, hw'⟩
      · exact .closed hc ⟨inner, closer, rest, rfl, hinner, hcloser⟩
          (.balanced_append hinner (.other (Operation.opens_of_isCloser hcloser') hframes))
      · exact .congr (reaches_group hc hcloser hinner (Operation.isEntry_of_opens hc)).symm
          (hx' ▸ hinside)
  | @opened opener c ops hc hopen _ ih =>
      obtain ⟨u, hu, hrest⟩ := Writer.applyAll_cons_eq_ok.1 h
      obtain ⟨f, rfl, hfresh, hu'⟩ := (Writer.step_of_apply hu).of_opens hc
      obtain ⟨frames, inside, hframes, hinside, hw'⟩ := ih hrest
      rw [hu'] at hinside
      cases hinside with
      | @inside _ f' _ hcontainer hf' =>
          rw [hfresh] at hf'
          refine ⟨f' :: frames, w.frames, .opened (by rw [hc, hcontainer]) (hcontainer ▸ hopen)
            (by simpa using hf') hframes, ?_, by simp [hw']⟩
          exact .refl (not_reaches_opener hc hopen (Operation.isEntry_of_opens hc)) _

/-- The last closer of a row closes the container of an opener in the row, with a balanced row
between the two. -/
lemma Contained.exists_opener {ops before : List Operation} {closer : Operation}
    (h : Contained ops) (hops : ops = before ++ [closer]) (hcloser : closer.isCloser = true) :
    ∃ outer opener c inner, before = outer ++ opener :: inner ∧ opener.opens = some c ∧
      Balanced inner := by
  induction h generalizing before with
  | nil => simp at hops
  | @plain op ops hop hop' _ ih =>
      cases before with
      | nil =>
          obtain ⟨rfl, -⟩ := List.cons.inj hops
          simp [hop'] at hcloser
      | cons b before =>
          obtain ⟨rfl, hrest⟩ := List.cons.inj hops
          obtain ⟨outer, opener, c, inner, rfl, hc, hinner⟩ := ih hrest
          exact ⟨op :: outer, opener, c, inner, rfl, hc, hinner⟩
  | @group opener closer' c inner rest hc _ hinner _ ih =>
      rcases List.eq_nil_or_concat rest with rfl | ⟨rest', last, rfl⟩
      · have hlast : (opener :: inner) ++ [closer'] = before ++ [closer] := by simpa using hops
        obtain ⟨rfl, -⟩ := List.append_inj' hlast rfl
        exact ⟨[], opener, c, inner, rfl, hc, hinner⟩
      · have hlast : (opener :: (inner ++ closer' :: rest')) ++ [last] = before ++ [closer] := by
          simpa using hops
        obtain ⟨rfl, hclosers⟩ := List.append_inj' hlast rfl
        have hrest : rest'.concat last = rest' ++ [closer] := by
          rw [List.concat_eq_append, hclosers]
        obtain ⟨outer, o, c', inner', rfl, hc', hinner'⟩ := ih hrest
        exact ⟨opener :: (inner ++ closer' :: outer), o, c', inner', by simp, hc', hinner'⟩
  | @opened opener c ops hc _ _ ih =>
      cases before with
      | nil =>
          obtain ⟨rfl, -⟩ := List.cons.inj hops
          simp [Operation.isCloser_of_opens hc] at hcloser
      | cons b before =>
          obtain ⟨rfl, hrest⟩ := List.cons.inj hops
          obtain ⟨outer, o, c', inner, rfl, hc', hinner⟩ := ih hrest
          exact ⟨opener :: outer, o, c', inner, rfl, hc', hinner⟩

/-- From the beginning, every row that is carried out closes only what it has opened. -/
lemma contained_of_start {ops : List Operation} {w : Writer}
    (h : ({} : Writer).applyAll ops = .ok w) : Contained ops := by
  refine contained_of_applyAll h (not_reaches_isCloser h ?_)
  intro f outer hframes
  simp at hframes

/-- Whether the closing bracket of a container stands on a line of its own, for a container of the
given kind and the row inside it. -/
def OwnLine (c : Container) (inner : List Operation) : Prop :=
  c = .object ∨ c = .array true ∧ Entered inner

/-- Whether a bracket has a line of its own can be told from what it encloses. -/
lemma Frame.ownLine_iff {f : Frame} {inner : List Operation}
    (h : f.fresh = true ↔ ¬ Entered inner) : f.ownLine = true ↔ OwnLine f.container inner := by
  cases f with
  | object fresh => simp [ownLine, OwnLine, container]
  | array fresh multiline =>
      have hfresh : fresh = false ↔ Entered inner := by
        rw [← Bool.not_eq_true, show fresh = Frame.fresh (.array fresh multiline) from rfl, h,
          Classical.not_not]
      simp [ownLine, OwnLine, container, hfresh]

/-- What one closer of a row does: it closes the container of an opener in front of it, goes back
to the depth in front of that opener, and, if its bracket stands on a line of its own, indents the
line to that depth. -/
structure Closing (before : List Operation) (closer : Operation) (outer : List Operation)
    (c : Container) (inner : List Operation) (u v x : Writer) : Prop where
  opened : ∃ opener, before = outer ++ opener :: inner ∧ opener.opens = some c
  balanced : Balanced inner
  closes : closer.closes c = true
  -- the writer in front of the opener, in front of the closer, and behind the closer
  start : ({} : Writer).applyAll outer = .ok u
  stop : ({} : Writer).applyAll before = .ok v
  last : v.apply closer = .ok x
  frames : x.frames = u.frames
  depth : x.depth = u.depth
  -- the subtraction has enough to take off
  level : v.depth = u.depth + c.indents.toNat
  ownLine : OwnLine c inner → x.text = v.text ++ ("\n" ++ indentation u.depth) ++ c.bracket
  sameLine : ¬ OwnLine c inner → x.text = v.text ++ c.bracket

/-- A closer that is carried out has its opener in the row in front of it. -/
lemma exists_closing {before : List Operation} {closer : Operation} {x : Writer}
    (h : ({} : Writer).applyAll (before ++ [closer]) = .ok x) (hcloser : closer.isCloser = true) :
    ∃ outer c inner u v, Closing before closer outer c inner u v x := by
  obtain ⟨outer, opener, c, inner, rfl, hc, hinner⟩ :=
    (contained_of_start h).exists_opener rfl hcloser
  obtain ⟨v, hv, hlast⟩ := Writer.applyAll_append_eq_ok.1 h
  obtain ⟨u, hu, hrest⟩ := Writer.applyAll_append_eq_ok.1 hv
  obtain ⟨u', hu', hinner'⟩ := Writer.applyAll_cons_eq_ok.1 hrest
  obtain ⟨x', hx, hnil⟩ := Writer.applyAll_cons_eq_ok.1 hlast
  obtain rfl := Except.ok.inj hnil
  obtain ⟨f, rfl, hfresh, hcloses, hframes, hframes', htext⟩ :=
    frames_of_group hc hcloser hu' (hinner.level hinner') hx
  -- the depths follow from the frames
  have haligned : ({} : Writer).Aligned := rfl
  have hu'' := aligned_of_applyAll haligned hu
  have hv'' := aligned_of_applyAll haligned hv
  have hx'' := aligned_of_applyAll haligned h
  unfold Writer.Aligned Writer.containers at hu'' hv'' hx''
  have hdepth : x'.depth = u.depth := by rw [hx'', hframes', ← hu'']
  rw [hdepth, Frame.closing] at htext
  refine ⟨outer, f.container, inner, u, v, ⟨opener, rfl, hc⟩, hinner, hcloses, hu, hv, hx,
    hframes', hdepth, ?_, fun hline => ?_, fun hline => ?_⟩
  · rw [hv'', hframes, List.map_cons, List.countP_cons, ← hu'']
    cases f.container.indents <;> rfl
  · rw [htext, if_pos ((Frame.ownLine_iff hfresh).2 hline), ← String.append_assoc]
  · rw [htext, if_neg (fun h => hline ((Frame.ownLine_iff hfresh).1 h)), String.empty_append]

/-- **Depth, frames and closing brackets of every row.**  From the beginning, and whatever the row:
the depth is the number of open containers that indent; the frames are those of the openers without
their own closer, each fresh if nothing has been put into it; and every closer goes back to the
depth and the frames in front of its own opener, and indents a line of its own to that depth. -/
theorem applyAll_nesting {ops : List Operation} {w : Writer}
    (h : ({} : Writer).applyAll ops = .ok w) :
    w.depth = w.containers.countP Container.indents ∧ Unclosed ops w.frames.reverse ∧
      ∀ before closer after, ops = before ++ closer :: after → closer.isCloser = true →
        ∃ outer c inner u v x, Closing before closer outer c inner u v x := by
  have haligned : ({} : Writer).Aligned := rfl
  refine ⟨aligned_of_applyAll haligned h, ?_, ?_⟩
  · obtain ⟨frames, inside, hframes, hinside, hw⟩ := frames_of_applyAll (contained_of_start h) h
    cases hinside with
    | bare => rwa [hw, List.append_nil, List.reverse_reverse]
  · rintro before closer after rfl hcloser
    rw [List.append_cons] at h
    obtain ⟨x, hx, -⟩ := Writer.applyAll_append_eq_ok.1 h
    obtain ⟨outer, c, inner, u, v, hclosing⟩ := exists_closing hx hcloser
    exact ⟨outer, c, inner, u, v, x, hclosing⟩

/-- A row with raw text and a call between the brackets, that leaves an object with a property and,
in it, an empty multi-line array open. -/
theorem applyAll_nesting_unfinished :
    let ops : List Operation := [.startCall "f", .startObject, .startProperty "a", .startArray true,
      .startElement, .startObject, .endObject, .raw "]", .endArray, .endCall, .startProperty "b",
      .startArray true]
    ∃ w, ({} : Writer).applyAll ops = .ok w ∧ w.depth = 2 ∧
      w.frames = [.array true true, .object false] ∧
      (w.depth = w.containers.countP Container.indents ∧ Unclosed ops w.frames.reverse ∧
        ∀ before closer after, ops = before ++ closer :: after → closer.isCloser = true →
          ∃ outer c inner u v x, Closing before closer outer c inner u v x) := by
  refine ⟨_, rfl, rfl, rfl, ?_⟩
  exact applyAll_nesting rfl

end Statechart.Script
