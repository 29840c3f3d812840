import Mathlib.Logic.Relation
import Statechart.Proofs.Chart.Chains

/-!
# Editing a forest

A node is added, destroyed, replaced or given a location, and it is linked in below a parent, at the
top level or behind a sibling.  Any number of such edits may follow each other in any order, as long
as a node that is linked in was not linked in before, and does not come to stand below itself.

* `Forest.Edit` — one edit, and `Edit.Fits` — when it may be made.
* `Forest.Run` — edits that were made one after another, starting from the empty forest.
* `Forest.attachments` — what edits link in, and where.  The log is kept without a look at the
  forest.
* `Forest.Arranged` — the forest is what the log says: its chains are the entries of the log in
  order, there is no other link, and no way down leads back.

**`run_arranged`** — this holds after every run, and what the next edit changes is the parent of the
node it links in, and one link to that node.
-/

namespace Statechart.Forest

/-! ## Edits -/

/-- One change of a forest. -/
inductive Edit where
  | add (node : Node)
  /-- Link a node in below a parent, if there is one. -/
  | append (parent : Option NodeId) (child : NodeId)
  | pushRoot (id : NodeId)
  /-- Link a node in at the end of the chain of a sibling. -/
  | after (sibling id : NodeId)
  | destroy (id : NodeId)
  | setNode (id : NodeId) (node : Node)
  | setLocation (id : NodeId) (location : Location)

/-- One node is directly below another. -/
def Under (f : Forest) (x p : NodeId) : Prop := f.parent x = some p

/-- Nothing leads to the node from above or from beside it, and it leads nowhere beside it. -/
structure Loose (f : Forest) (id : NodeId) : Prop where
  root : id ∉ f.roots
  parent : f.parent id = none
  next : f.nextSibling id = none

/-- The node is not the given parent, nor above it. -/
def NotAbove (f : Forest) (id : NodeId) (parent : Option NodeId) : Prop :=
  ∀ p ∈ parent, ¬ Relation.ReflTransGen f.Under p id

namespace Edit

/-- The forest after an edit.  Only a node that is there can be destroyed. -/
def apply (f : Forest) : Edit → Except Fault Forest
  | add node => .ok (f.add node).1
  | append parent child => .ok (f.append parent child)
  | pushRoot id => .ok (f.pushRoot id)
  | after sibling id => .ok (f.after sibling id)
  | destroy id => f.destroy id
  | setNode id node => .ok (f.setNode id node)
  | setLocation id location => .ok (f.setLocation id location)

/-- An edit may be made: a node that is linked in is loose, and neither the new parent nor above it.
A sibling is itself linked in. -/
def Fits (f : Forest) : Edit → Prop
  | append (some p) child => f.Loose child ∧ f.NotAbove child (some p)
  | pushRoot id => f.Loose id
  | after sibling id =>
    (sibling ∈ f.roots ∨ ∃ p, sibling ∈ f.children p) ∧ f.Loose id ∧
      f.NotAbove id (f.parent sibling)
  | _ => True

/-- The node that an edit links in, and its new parent, which for a sibling is the one that the log
has for it. -/
def attaches (log : List (NodeId × Option NodeId)) : Edit → Option (NodeId × Option NodeId)
  | append (some p) child => some (child, some p)
  | pushRoot id => some (id, none)
  | after sibling id => some (id, (log.lookup sibling).join)
  | _ => none

end Edit

/-- The nodes that edits link in, each with its parent, in order. -/
def attachments (edits : List Edit) : List (NodeId × Option NodeId) :=
  edits.foldl (fun log e => log ++ (e.attaches log).toList) []

/-- The nodes that a log has for a parent, in order. -/
def attachedTo (log : List (NodeId × Option NodeId)) (parent : Option NodeId) : List NodeId :=
  (log.filter (·.2 = parent)).map Prod.fst

/-- Edits that fit, from the empty forest to the given one. -/
inductive Run : List Edit → Forest → Prop where
  | start : Run [] {}
  | step {edits : List Edit} {e : Edit} {f g : Forest} :
      Run edits f → e.Fits f → e.apply f = .ok g → Run (edits ++ [e]) g

/-- **The forest is what the log says.** -/
structure Arranged (f : Forest) (log : List (NodeId × Option NodeId)) : Prop where
  roots : f.roots = attachedTo log none
  children : ∀ p, f.children p = attachedTo log (some p)
  parent : ∀ c p, f.parent c = some p ↔ c ∈ f.children p
  /-- What follows a node is the rest of its chain. -/
  following : ∀ chain before x rest, f.rowOf chain = before ++ x :: rest → f.following x = rest
  alone : ∀ x, (∀ chain, x ∉ f.rowOf chain) → f.following x = []
  /-- No node is twice in one chain, or in two. -/
  nodup : ∀ chain, (f.rowOf chain).Nodup
  once : ∀ x chain other, x ∈ f.rowOf chain → x ∈ f.rowOf other → chain = other
  /-- No node is below itself. -/
  acyclic : ∀ x, ¬ Relation.TransGen f.Under x x
  /-- The way along the siblings comes to an end, which is the last node that `after` looks for. -/
  ends : ∀ x, Relation.ReflTransGen (fun y z => f.nextSibling y = some z) x (f.lastFrom x) ∧
    f.nextSibling (f.lastFrom x) = none

/-! ## Following links -/

/-- Along a row, the links lead to its last node, and no further. -/
lemma RowLinked.reaches {f : Forest} {parent : Option NodeId} : ∀ {rest : List NodeId}
    {x last : NodeId}, f.RowLinked parent (x :: rest) → (x :: rest).getLast? = some last →
    Relation.ReflTransGen (fun y z => f.nextSibling y = some z) x last ∧ f.nextSibling last = none
  | [], x, last, h, hlast => by
      obtain rfl : x = last := by simpa using hlast
      exact ⟨.refl, h.2.1⟩
  | y :: rest, x, last, h, hlast => by
      rw [List.getLast?_cons_cons] at hlast
      obtain ⟨hpath, hend⟩ := h.2.2.reaches hlast
      exact ⟨hpath.head h.2.1, hend⟩

namespace Chains

variable {f g : Forest} {rows : Option NodeId → List NodeId} {c : NodeId} {target : Option NodeId}

/-- A node is directly below another if it is in the row of that one. -/
lemma under_iff (h : f.Chains rows) {p : NodeId} : f.Under c p ↔ c ∈ rows (some p) := by
  constructor
  · intro hc
    by_contra hp
    have hrow : ∃ other, c ∈ rows other := by
      by_contra hnone
      have hloose := (h.loose c fun other hmem => hnone ⟨other, hmem⟩).1
      exact nomatch hc.symm.trans hloose
    obtain ⟨other, hother⟩ := hrow
    have heq : some p = other := hc.symm.trans ((h.linked other).parent_eq c hother)
    exact hp (heq ▸ hother)
  · exact (h.linked (some p)).parent_eq c

/-- A loose node is in no row. -/
lemma not_mem_of_loose (h : f.Chains rows) (hc : f.Loose c) (other : Option NodeId) :
    c ∉ rows other := by
  intro hmem
  have hparent := ((h.linked other).parent_eq c hmem).symm.trans hc.parent
  subst hparent
  rw [← h.eq_rowOf] at hmem
  exact hc.root hmem

/-- Each node begins the rest of a row.  For a loose one this row has no other node. -/
lemma exists_rest (h : f.Chains rows) (x : NodeId) :
    ∃ parent rest, f.RowLinked parent (x :: rest) ∧ (x :: rest).Nodup := by
  by_cases hx : ∃ other, x ∈ rows other
  · obtain ⟨other, hother⟩ := hx
    obtain ⟨before, rest, hrow⟩ := List.append_of_mem hother
    exact ⟨other, rest, (hrow ▸ h.linked other).suffix, (hrow ▸ h.nodup other).of_append_right⟩
  · obtain ⟨-, hnext⟩ := h.loose x fun other hmem => hx ⟨other, hmem⟩
    exact ⟨f.parent x, [], ⟨rfl, hnext, trivial⟩, List.nodup_singleton x⟩

/-- What follows a node is the rest of its row. -/
lemma following_eq (h : f.Chains rows) {before rest : List NodeId} {x : NodeId}
    (hrow : rows target = before ++ x :: rest) : f.following x = rest := by
  have hl : f.RowLinked target (x :: rest) := (hrow ▸ h.linked target).suffix
  have hd : (x :: rest).Nodup := (hrow ▸ h.nodup target).of_append_right
  rw [following, hl.2.1, chain_head? hl.2.2 (List.nodup_cons.mp hd).2]

/-! ## Ways up -/

/-- Linking a loose node in opens no new way to that node. -/
lemma under_of_linkedIn {row : List NodeId} (hg : LinkedIn f g target row c) {x : NodeId}
    (hx : Relation.ReflTransGen g.Under x c) : Relation.ReflTransGen f.Under x c := by
  induction hx using Relation.ReflTransGen.head_induction_on with
  | refl => exact .refl
  | @head x y hstep _ ih =>
      rw [Under, hg.parent] at hstep
      by_cases hxc : x = c
      · exact hxc ▸ .refl
      · rw [if_neg hxc] at hstep
        exact ih.head hstep

/-- A way up is one from before, or it passes the node that was linked in. -/
lemma transGen_of_linkedIn {row : List NodeId} (hg : LinkedIn f g target row c) {x y : NodeId}
    (hxy : Relation.TransGen g.Under x y) : Relation.TransGen f.Under x y ∨
      Relation.ReflTransGen g.Under x c ∧ ∃ p ∈ target, Relation.ReflTransGen g.Under p y := by
  have hold : ∀ {y z}, y ≠ c → g.Under y z → f.Under y z := fun {y z} hne hstep => by
    rwa [Under, hg.parent, if_neg hne] at hstep
  have hnew : ∀ {z}, g.Under c z → z ∈ target := fun {z} hstep => by
    rwa [Under, hg.parent, if_pos rfl] at hstep
  induction hxy with
  | @single y hstep =>
      by_cases hxc : x = c
      · subst hxc
        exact .inr ⟨.refl, y, hnew hstep, .refl⟩
      · exact .inl (.single (hold hxc hstep))
  | @tail y z hxy hstep ih =>
      rcases ih with hpath | ⟨hup, p, hp, hpath⟩
      · by_cases hyc : y = c
        · subst hyc
          exact .inr ⟨hxy.to_reflTransGen, z, hnew hstep, .refl⟩
        · exact .inl (hpath.tail (hold hyc hstep))
      · exact .inr ⟨hup, p, hp, hpath.tail hstep⟩

/-- **No cycle is closed** by a node that is linked in below one that is not below it. -/
lemma acyclic_of_linkedIn {row : List NodeId} (hg : LinkedIn f g target row c)
    (hf : ∀ x, ¬ Relation.TransGen f.Under x x) (hc : f.NotAbove c target) (x : NodeId) :
    ¬ Relation.TransGen g.Under x x := by
  intro hxx
  rcases transGen_of_linkedIn hg hxx with hold | ⟨hup, p, hp, hpx⟩
  · exact hf x hold
  · -- the cycle leads from the new parent to the node that was linked in
    exact hc p hp (under_of_linkedIn hg (hpx.trans hup))

end Chains

/-! ## The log -/

lemma mem_attachedTo {log : List (NodeId × Option NodeId)} {parent : Option NodeId} {x : NodeId} :
    x ∈ attachedTo log parent ↔ (x, parent) ∈ log := by
  simp [attachedTo]

/-- One more entry makes one row longer. -/
lemma attachedTo_concat (log : List (NodeId × Option NodeId)) (c : NodeId)
    (parent : Option NodeId) : attachedTo (log ++ [(c, parent)]) =
      Function.update (attachedTo log) parent (attachedTo log parent ++ [c]) := by
  funext other
  by_cases ho : other = parent
  · subst ho
    simp [attachedTo]
  · rw [Function.update_of_ne ho]
    simp [attachedTo, Ne.symm ho]

lemma attachments_concat (edits : List Edit) (e : Edit) :
    attachments (edits ++ [e]) =
      attachments edits ++ (e.attaches (attachments edits)).toList := by
  rw [attachments, List.foldl_append]
  rfl

/-- A node that is in a row is in the row that the log has for it. -/
lemma mem_lookup {log : List (NodeId × Option NodeId)} {parent : Option NodeId} {x : NodeId}
    (h : x ∈ attachedTo log parent) : x ∈ attachedTo log (log.lookup x).join := by
  rw [mem_attachedTo] at h ⊢
  cases hlookup : log.lookup x with
  | none => exact absurd (List.lookup_eq_none_iff.mp hlookup _ h) (by simp)
  | some found =>
      obtain ⟨before, rest, hlog, -⟩ := List.lookup_eq_some_iff.mp hlookup
      rw [hlog]
      simp

/-! ## One edit -/

/-- **What an edit does to the links.**  Either it links a loose node in where the log will have it,
below a parent that is not below that node, or the links stay as they are. -/
lemma Edit.linkedIn {f g : Forest} {log : List (NodeId × Option NodeId)} {e : Edit}
    (h : f.Chains (attachedTo log)) (hfits : e.Fits f) (hg : e.apply f = .ok g) :
    (∀ c target, e.attaches log = some (c, target) → f.Loose c ∧ f.NotAbove c target ∧
      LinkedIn f g target (attachedTo log target) c) ∧
    (e.attaches log = none → g.links = f.links ∧ g.body = f.body) := by
  cases e with
  | append parent child =>
      cases parent with
      | none =>
          obtain rfl := Except.ok.inj hg
          exact ⟨fun _ _ hnone => (nomatch hnone), fun _ => ⟨rfl, rfl⟩⟩
      | some p =>
          obtain rfl := Except.ok.inj hg
          obtain ⟨hloose, habove⟩ := hfits
          refine ⟨fun c target hc => ?_, fun hnone => (nomatch hnone)⟩
          obtain ⟨rfl, rfl⟩ := Prod.mk.inj (Option.some.inj hc)
          exact ⟨hloose, habove, h.linkedIn_appendTo (h.not_mem_of_loose hloose)⟩
  | pushRoot id =>
      obtain rfl := Except.ok.inj hg
      refine ⟨fun c target hc => ?_, fun hnone => (nomatch hnone)⟩
      obtain ⟨rfl, rfl⟩ := Prod.mk.inj (Option.some.inj hc)
      exact ⟨hfits, fun _ hp => (nomatch hp), h.linkedIn_pushRoot (h.not_mem_of_loose hfits)⟩
  | after sibling id =>
      obtain rfl := Except.ok.inj hg
      obtain ⟨hsibling, hloose, habove⟩ := hfits
      refine ⟨fun c target hc => ?_, fun hnone => (nomatch hnone)⟩
      obtain ⟨rfl, rfl⟩ := Prod.mk.inj (Option.some.inj hc)
      -- the sibling is in a row, and the log finds that row
      have hrow : ∃ parent, sibling ∈ attachedTo log parent := by
        rw [← h.eq_rowOf]
        rcases hsibling with hroot | ⟨p, hp⟩
        · exact ⟨none, hroot⟩
        · exact ⟨some p, hp⟩
      obtain ⟨parent, hparent⟩ := hrow
      have hmem := mem_lookup hparent
      rw [(h.linked _).parent_eq sibling hmem] at habove
      exact ⟨hloose, habove, h.linkedIn_after hmem id⟩
  | destroy id =>
      refine ⟨fun _ _ hnone => (nomatch hnone), fun _ => ?_⟩
      rw [apply, Forest.destroy] at hg
      split at hg
      · cases hg
      · cases hg
      · obtain rfl := Except.ok.inj hg
        exact ⟨rfl, rfl⟩
  | setNode id node =>
      obtain rfl := Except.ok.inj hg
      refine ⟨fun _ _ hnone => (nomatch hnone), fun _ => ?_⟩
      rw [Forest.setNode]
      split <;> exact ⟨rfl, rfl⟩
  | add node =>
      obtain rfl := Except.ok.inj hg
      exact ⟨fun _ _ hnone => (nomatch hnone), fun _ => ⟨rfl, rfl⟩⟩
  | setLocation id location =>
      obtain rfl := Except.ok.inj hg
      exact ⟨fun _ _ hnone => (nomatch hnone), fun _ => ⟨rfl, rfl⟩⟩

/-- **What one edit preserves.**  The chains are those of the log, and there is no cycle. -/
lemma Edit.preserves {f g : Forest} {log : List (NodeId × Option NodeId)} {e : Edit}
    (h : f.Chains (attachedTo log) ∧ ∀ x, ¬ Relation.TransGen f.Under x x) (hfits : e.Fits f)
    (hg : e.apply f = .ok g) : g.Chains (attachedTo (log ++ (e.attaches log).toList)) ∧
      ∀ x, ¬ Relation.TransGen g.Under x x := by
  obtain ⟨hchains, hacyclic⟩ := h
  obtain ⟨hlinked, hkept⟩ := Edit.linkedIn hchains hfits hg
  cases he : e.attaches log with
  | none =>
      obtain ⟨hlinks, hbody⟩ := hkept he
      have hunder : g.Under = f.Under := by
        funext x p
        rw [Under, Under, Forest.parent, Forest.parent, linksOf, linksOf, hlinks]
      rw [Option.toList_none, List.append_nil, hunder]
      exact ⟨hchains.congr hlinks hbody, hacyclic⟩
  | some entry =>
      obtain ⟨c, target⟩ := entry
      obtain ⟨hloose, habove, hin⟩ := hlinked c target he
      rw [Option.toList_some, attachedTo_concat]
      exact ⟨hchains.concat (hchains.not_mem_of_loose hloose) hin,
        Chains.acyclic_of_linkedIn hin hacyclic habove⟩

/-! ## Runs -/

/-- What every run preserves. -/
lemma Run.chains {edits : List Edit} {f : Forest} (h : Run edits f) :
    f.Chains (attachedTo (attachments edits)) ∧ ∀ x, ¬ Relation.TransGen f.Under x x := by
  induction h with
  | start =>
      refine ⟨Chains.empty, fun x hx => ?_⟩
      obtain ⟨y, hstep, -⟩ := Relation.TransGen.head'_iff.mp hx
      exact nomatch hstep
  | step _ hfits hg ih =>
      rw [attachments_concat]
      exact Edit.preserves ih hfits hg

/-- After a run, a node with nothing below it is above no other. -/
lemma Run.notAbove {edits : List Edit} {f : Forest} (h : Run edits f) {c : NodeId}
    {target : Option NodeId} (hc : f.firstChild c = none) (ht : target ≠ some c) :
    f.NotAbove c target := by
  intro p hp hpc
  rcases hpc.cases_tail with rfl | ⟨y, -, hy⟩
  · exact ht hp
  · have hrow := h.chains.1.under_iff.mp hy
    rw [List.head?_eq_none_iff.mp ((h.chains.1.child c).symm.trans hc)] at hrow
    exact List.not_mem_nil hrow

/-- Chains without a cycle make an arranged forest. -/
lemma Arranged.of_chains {f : Forest} {log : List (NodeId × Option NodeId)}
    (h : f.Chains (attachedTo log)) (hacyclic : ∀ x, ¬ Relation.TransGen f.Under x x) :
    f.Arranged log := by
  have hrows := h.eq_rowOf
  have hchildren : ∀ p, f.children p = attachedTo log (some p) := fun p => congrFun hrows (some p)
  constructor
  case roots => exact congrFun hrows none
  case children => exact hchildren
  case parent => intro c p; rw [hchildren]; exact h.under_iff
  case following => intro chain before x rest hrow; exact h.following_eq (hrows ▸ hrow)
  case alone =>
    intro x hx
    rw [hrows] at hx
    rw [Forest.following, (h.loose x hx).2]
    rfl
  case nodup => rw [hrows]; exact h.nodup
  case once => rw [hrows]; intro x chain other; exact h.eq_of_mem
  case acyclic => exact hacyclic
  case ends =>
    intro x
    obtain ⟨parent, rest, hl, hd⟩ := h.exists_rest x
    exact hl.reaches (lastFrom_eq hl hd)

/-- **The links of a forest are what was linked in.**  After edits that fit, each chain holds the
nodes that were linked in there, in order, and there is no other link.  An edit that fits and links
a node in changes the parent of that node and one link, which leads to it; every other edit leaves
all links as they are. -/
theorem run_arranged {edits : List Edit} {f : Forest} (h : Run edits f) :
    f.Arranged (attachments edits) ∧
    ∀ (e : Edit) (g : Forest), e.Fits f → e.apply f = .ok g →
      (∀ c target, e.attaches (attachments edits) = some (c, target) →
        LinkedIn f g target (f.rowOf target) c) ∧
      (e.attaches (attachments edits) = none → g.links = f.links ∧ g.body = f.body) := by
  obtain ⟨hchains, hacyclic⟩ := h.chains
  refine ⟨.of_chains hchains hacyclic, fun e g hfits hg => ?_⟩
  obtain ⟨hlinked, hkept⟩ := Edit.linkedIn hchains hfits hg
  refine ⟨fun c target he => ?_, hkept⟩
  rw [hchains.eq_rowOf]
  exact (hlinked c target he).2.2

/-- A top-level node with two nodes below it and one below the first of them, which is linked in
after its parent and then destroyed. -/
def familyEdits : List Edit :=
  [.add (.machine {}), .add (.state ⟨"a", false⟩), .add (.state ⟨"b", true⟩), .add (.invoke "c"),
    .pushRoot 0, .append (some 0) 1, .append (some 1) 3, .after 1 2, .append none 3, .destroy 3]

/-- The edits of the example fit, and lead to these rows. -/
lemma run_familyEdits : ∃ f, Run familyEdits f ∧
    f.roots = [0] ∧ f.children 0 = [1, 2] ∧ f.children 1 = [3] := by
  have h₁ := Run.start.step (e := .add (.machine {})) trivial rfl
  have h₂ := h₁.step (e := .add (.state ⟨"a", false⟩)) trivial rfl
  have h₃ := h₂.step (e := .add (.state ⟨"b", true⟩)) trivial rfl
  have h₄ := h₃.step (e := .add (.invoke "c")) trivial rfl
  have h₅ := h₄.step (e := .pushRoot 0) ⟨by decide, rfl, rfl⟩ rfl
  have h₆ := h₅.step (e := .append (some 0) 1)
    ⟨⟨by decide, rfl, rfl⟩, h₅.notAbove rfl (by decide)⟩ rfl
  have h₇ := h₆.step (e := .append (some 1) 3)
    ⟨⟨by decide, rfl, rfl⟩, h₆.notAbove rfl (by decide)⟩ rfl
  have h₈ := h₇.step (e := .after 1 2)
    ⟨.inr ⟨0, by decide⟩, ⟨by decide, rfl, rfl⟩, h₇.notAbove rfl (by decide)⟩ rfl
  have h₉ := h₈.step (e := .append none 3) trivial rfl
  have h₁₀ := h₉.step (e := .destroy 3) trivial rfl
  exact ⟨_, h₁₀, by decide, by decide, by decide⟩

/-- What these edits link in is what is found below the two nodes. -/
theorem run_arranged_family : ∃ f, Run familyEdits f ∧ f.children 0 = [1, 2] ∧
    f.children 1 = [3] ∧ f.Arranged (attachments familyEdits) := by
  obtain ⟨f, hrun, -, hchildren, hbelow⟩ := run_familyEdits
  exact ⟨f, hrun, hchildren, hbelow, (run_arranged hrun).1⟩

end Statechart.Forest
