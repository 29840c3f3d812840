import Statechart.Proofs.Language.Assembly

/-!
# The number of a file

The number of the file that a chart is read from goes into its locations and nowhere else.  A chart
that is read under two numbers gives the same program with the same remarks, or is rejected for the
same reason with the same remarks, up to the numbers in the locations.  And all locations are spans
of declarations.

* `Assembly.refile` — the chart so far with the locations moved to another file.
* `Act.refile_apply` — an act does the same in every file.

**`read_refile`**, **`read_marked`** — what is read under two numbers, and where it is located.
-/

namespace Statechart

/-! ## Locations in another file -/

/-- The same span of another file. -/
def Location.refile (n : Nat) (l : Location) : Location := { l with file := n }

/-- The same remark about another file. -/
def Remark.refile (n : Nat) : Remark → Remark
  | log entry => .log entry
  | span location severity message => .span (location.refile n) severity message
  | node id location severity message =>
    .node id (location.map (Location.refile n)) severity message
  | general severity message => .general severity message

/-- The same forest with locations in another file. -/
def Forest.refile (n : Nat) (f : Forest) : Forest :=
  { f with locations := ⟨f.locations.entries.map (Option.map (Location.refile n))⟩ }

/-- The same program with locations in another file. -/
def Program.refile (n : Nat) (p : Program) : Program := { p with forest := p.forest.refile n }

@[simp] lemma Remark.topic?_refile (n : Nat) (r : Remark) : (r.refile n).topic? = r.topic? := by
  cases r <;> rfl

@[simp] lemma Remark.severity?_refile (n : Nat) (r : Remark) :
    (r.refile n).severity? = r.severity? := by
  cases r <;> rfl

namespace Forest

variable (n : Nat) (f : Forest)

/-- A node has its old location, in the other file. -/
lemma location_refile (id : NodeId) :
    (f.refile n).location id = (f.location id).map (Location.refile n) := by
  rw [location, location, SideTable.get, SideTable.get, Array.getD_eq_getD_getElem?,
    Array.getD_eq_getD_getElem?]
  show ((f.locations.entries.map _)[id]?).getD none = _
  rw [Array.getElem?_map]
  cases f.locations.entries[id]? <;> rfl

/-- A location may be moved before or after it is given. -/
lemma setLocation_refile (id : NodeId) (l : Location) :
    (f.refile n).setLocation id (l.refile n) = (f.setLocation id l).refile n := by
  show ({ f with locations := SideTable.set _ _ _ } : Forest) = { f with locations := _ }
  congr 1
  show SideTable.set ⟨f.locations.entries.map _⟩ id _ = _
  rw [SideTable.set, setLocation, SideTable.set, Array.size_map]
  split
  · show SideTable.mk _ = SideTable.mk _
    rw [Array.map_setIfInBounds]
    rfl
  · show SideTable.mk _ = SideTable.mk _
    rw [Array.map_push, Array.map_append, Array.map_replicate]
    rfl

/-- Linking a node in behind a sibling has no part in locations. -/
lemma after_refile (sibling id : NodeId) :
    (f.refile n).after sibling id = (f.after sibling id).refile n := by
  have hlast : (f.refile n).lastFrom sibling = f.lastFrom sibling := by
    rw [lastFrom, lastFrom, chain_congr (show (f.refile n).links = f.links from rfl)]
  rw [after, after, hlast]
  rfl

/-- Nor has hanging it below a parent. -/
lemma append_refile (parent : Option NodeId) (child : NodeId) :
    (f.refile n).append parent child = (f.append parent child).refile n := by
  cases parent with
  | none => rfl
  | some parent =>
      show (f.refile n).appendTo parent child = (f.appendTo parent child).refile n
      have hfirst : ((f.refile n).setParent child (some parent)).firstChild parent =
          (f.setParent child (some parent)).firstChild parent := rfl
      rw [appendTo, appendTo, hfirst]
      cases (f.setParent child (some parent)).firstChild parent with
      | none => rfl
      | some first => exact (f.setParent child (some parent)).after_refile n first child

/-- Nor has adding it at the top level. -/
lemma pushRoot_refile (id : NodeId) : (f.refile n).pushRoot id = (f.pushRoot id).refile n := by
  have hbody : (f.refile n).body = f.body := rfl
  rw [pushRoot, pushRoot, hbody]
  cases f.body with
  | none => rfl
  | some first => exact f.after_refile n first id

lemma setNode_refile (id : NodeId) (node : Node) :
    (f.refile n).setNode id node = (f.setNode id node).refile n := by
  have hnode : (f.refile n).node? id = f.node? id := rfl
  rw [setNode, setNode, hnode]
  cases f.node? id <;> rfl

end Forest

namespace Language

/-- The chart so far with locations in another file. -/
def Assembly.refile (n : Nat) (a : Assembly) : Assembly :=
  { a with forest := a.forest.refile n, remarks := a.remarks.map (Remark.refile n) }

/-- The same account of another file. -/
def Account.refile (n : Nat) (acc : Account) : Account :=
  { acc with remarks := acc.remarks.map (Remark.refile n) }

/-! ## Acts for another file -/

section refile

variable (m n : Nat)

lemma Assembly.account_refile (a : Assembly) : (a.refile n).account = a.account.refile n := by
  simp [account, refile, Account.refile]

lemma Assembly.refile_tell (a : Assembly) (acc : Account) :
    (a.tell acc).refile n = (a.refile n).tell (acc.refile n) := by
  simp [tell, refile, Account.refile]

namespace Account

lemma refile_log (acc : Account) (message : String) :
    (acc.log message).refile n = (acc.refile n).log message := by
  simp [log, refile, Remark.refile]

lemma refile_warn (acc : Account) (span : Span) (message : String) :
    (acc.warn m span message).refile n = (acc.refile n).warn n span message := by
  simp [warn, log, refile, Remark.refile, Location.refile]

lemma refile_bind (acc : Account) (kind : BindingKind) (name : String) :
    (acc.bind kind name).refile n = (acc.refile n).bind kind name := by
  cases kind <;> rfl

/-- Whether a name is new does not depend on the file. -/
lemma refile_binding (acc : Account) (d : BindingDecl) :
    (acc.binding m d).refile n = (acc.refile n).binding n d := by
  have hnames : (acc.refile n).names d.kind = acc.names d.kind := by cases d.kind <;> rfl
  rw [binding, binding, hnames]
  split
  · rw [refile_warn, refile_bind]
  · exact refile_bind n acc d.kind d.name

/-- The head of a state is told of in the same way in every file. -/
lemma refile_head (acc : Account) (initial : Option String) (h : StateHead) :
    (acc.head m initial h).refile n = (acc.refile n).head n initial h := by
  cases initial with
  | none => rfl
  | some first =>
      rw [head, head]
      split
      · exact refile_warn m n acc h.span _
      · rfl

end Account

/-- **An act does the same in every file.** -/
lemma Act.refile_apply (act : Act) (a : Assembly) :
    (act.apply m a).refile n = act.apply n (a.refile n) := by
  cases act with
  | log message =>
      rw [apply, apply, Assembly.refile_tell, Account.refile_log, ← Assembly.account_refile]
  | update => rfl
  | bind d =>
      rw [apply, apply, Assembly.refile_tell, Account.refile_binding m n, ← Assembly.account_refile]
  | mark machine head =>
      -- the machine that is looked up is the same in both files
      have hmachine : (a.refile n).forest.machine? machine = a.forest.machine? machine := rfl
      rw [apply, apply, hmachine]
      cases a.forest.machine? machine with
      | none => rfl
      | some payload =>
          have htold := Assembly.refile_tell n a (a.account.head m payload.initial head)
          rw [Account.refile_head m n, ← Assembly.account_refile] at htold
          dsimp only
          rw [← htold]
          show Assembly.mk _ _ _ _ _ = Assembly.mk _ _ _ _ _
          congr 1
          split
          · rfl
          · exact (a.forest.setNode_refile n machine _).symm
  | node parent payload span =>
      have hset := (a.forest.add payload).1.setLocation_refile n a.forest.nodes.size ⟨span, m⟩
      have happend := (a.forest.withLoose payload ⟨span, m⟩).append_refile n parent
        a.forest.nodes.size
      show Assembly.mk _ _ _ _ _ = Assembly.mk _ _ _ _ _
      congr 1
      exact happend.symm.trans (congrArg (Forest.append · parent a.forest.nodes.size) hset.symm)
  | root id =>
      show Assembly.mk _ _ _ _ _ = Assembly.mk _ _ _ _ _
      congr 1
      exact (a.forest.pushRoot_refile n id).symm
  | reject e => rfl

lemma refile_carry (acts : List Act) : ∀ a : Assembly,
    (carry m acts a).refile n = carry n acts (a.refile n) := by
  induction acts with
  | nil => exact fun a => rfl
  | cons act acts ih => intro a; rw [carry_cons, carry_cons, ih, act.refile_apply]

end refile

/-! ## Charts -/

/-- **What is read under another file number** differs in the locations only. -/
theorem read_refile (m n : Nat) (text : String) :
    read n text = ((read m text).1.map (Program.refile n), (read m text).2.map (Remark.refile n)) := by
  cases hparse : parse text with
  | error attempts =>
      unfold read
      rw [hparse]
      rfl
  | ok items =>
      have hstart : ({} : Assembly).refile n = {} := by simp [Assembly.refile, Forest.refile]
      have hmoved : assembled n items = (assembled m items).refile n := by
        rw [assembled, assembled, refile_carry, hstart]
      rw [read_of_acts hparse, read_of_acts hparse, hmoved]
      cases (items.flatMap Item.offences).head? with
      | none => simp [Assembly.refile, Except.map, Program.refile]
      | some e => simp [Assembly.refile, Except.map]

/-- The location is in file `m`, and its span has the property `P`. -/
def LiesIn (m : Nat) (P : Span → Prop) (l : Location) : Prop := l.file = m ∧ P l.span

/-- **What is read lies in the text**: the nodes of the program, each of which is located, the
remarks, none of which is about a node, and the place of a rejection. -/
theorem read_marked (m : Nat) (text : String) :
    (∀ r ∈ (read m text).2, r.topic? = none ∧
      ∀ l ∈ r.location, LiesIn m (Span.Within text.toList) l) ∧
    (∀ program, (read m text).1 = .ok program →
      (∀ id, ∀ l ∈ program.forest.location id,
        LiesIn m (Span.Within text.toList) l) ∧
      ∀ id < program.forest.nodes.size, (program.forest.location id).isSome = true) ∧
    ∀ rejection, (read m text).1 = .error rejection →
      rejection.span.Within text.toList := by
  cases hparse : parse text with
  | error attempts =>
      have hoffset := offset_of_parse hparse
      unfold read
      rw [hparse]
      refine ⟨by simp, by simp, fun rejection h => ?_⟩
      cases h
      exact ⟨Nat.le_refl _, hoffset, hoffset⟩
  | ok items =>
      have hwithin : ∀ span ∈ items.flatMap Item.spans, span.Within text.toList := by
        intro span hspan
        obtain ⟨item, hitem, hspan⟩ := List.mem_flatMap.mp hspan
        exact within_of_parse hparse item hitem span hspan
      have houtline := outline_itemActs items 0
      refine ⟨fun r hr => ?_, fun program h => ⟨fun id l hl => ?_, fun id hid => ?_⟩,
        fun rejection h => ?_⟩
      · rw [read_of_acts hparse] at hr
        have hsaid := saidIn_assembled (Array.mem_toList_iff.mp hr)
        exact ⟨hsaid.topic, fun l hl =>
          ⟨(hsaid.located l hl).1, hwithin _ (hsaid.located l hl).2⟩⟩
      · rw [(location_of_read h hparse).2 id] at hl
        obtain ⟨span, hspan, rfl⟩ := Option.map_eq_some_iff.mp hl
        exact ⟨rfl, hwithin _ (houtline.places_subset (List.mem_of_getElem? hspan))⟩
      · obtain ⟨hsize, hlocation⟩ := location_of_read h hparse
        rw [hlocation, List.getElem?_eq_getElem (hsize ▸ hid)]
        rfl
      · rw [read_of_acts hparse] at h
        cases hoffences : items.flatMap Item.offences with
        | nil => rw [hoffences] at h; cases h
        | cons e es =>
            rw [hoffences] at h
            obtain rfl := Except.error.inj h
            refine hwithin _ (houtline.offences_subset ?_)
            rw [hoffences]
            exact List.mem_cons_self

end Language

end Statechart
