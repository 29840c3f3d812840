import Statechart.Proofs.Language.Freshness
import Statechart.Proofs.Language.Printing
import Statechart.Proofs.Language.Recognition
import Statechart.Proofs.Transcript

/-!
# Reading what was printed

Each transition and each binding of a chart has a line that stands for it.  Put into a chart of its
own, the line is read as the node that it stands for.

* `Forest.Line` — a forest that is a line of nodes, each of which is the only one below the last.
* `ReadsAs` — reading a text gives such a line, with no error and no warning.

**`parse_printed`** — the lines of all transitions and bindings of all charts that are read.
-/

namespace Statechart

namespace Forest

/-- The given nodes are a single one, below which there is a single one, and so on; they hold the
given payloads. -/
def Line (f : Forest) : List NodeId → List Node → Prop
  | ids, [] => ids = []
  | ids, payload :: rest =>
    ∃ id, ids = [id] ∧ f.node? id = some payload ∧ f.Line (f.children id) rest

end Forest

/-- Reading the text gives a line of nodes.  No error is counted, and no warning. -/
def ReadsAs (text : String) (nodes : List Node) : Prop :=
  ∀ (name : String) (j : Journal), ∃ program j', parse ⟨name, text⟩ j = .ok (.ok program) j' ∧
    j'.errors = j.errors ∧ j'.warnings = j.warnings ∧
    program.forest.Line program.forest.roots nodes

/-! ## Lines -/

namespace Tree

/-- The trees of a line, numbered downwards. -/
def line (n : NodeId) : List Node → List Tree
  | [] => []
  | payload :: rest => [.node n payload (line (n + 1) rest)]

lemma nodup_map_id_line (n : NodeId) (nodes : List Node) : ((line n nodes).map id).Nodup := by
  cases nodes with
  | nil => exact List.nodup_nil
  | cons payload rest => exact List.nodup_singleton n

end Tree

namespace Forest

open Statechart.Tree

variable {f : Forest}

/-- Trees of which each is the only one below the last are a line of nodes. -/
lemma line_of_linksAll : ∀ {nodes : List Node} {n : NodeId} {parent : Option NodeId},
    f.LinksAll parent (Tree.line n nodes) →
    (∀ entry ∈ allEntries (Tree.line n nodes), f.node? entry.1 = some entry.2) →
    f.Line ((Tree.line n nodes).map Tree.id) nodes
  | [], n, parent, _, _ => rfl
  | payload :: rest, n, parent, hlinks, hlive => by
      rw [Tree.line, linksAll_cons] at hlinks
      rw [Tree.line, allEntries_cons, List.cons_append, List.forall_mem_cons,
        List.forall_mem_append] at hlive
      obtain ⟨hnode, hbelow, -⟩ := hlive
      have hchildren : f.children n = (Tree.line (n + 1) rest).map Tree.id := by
        have hfirst : f.firstChild n = Tree.first (Tree.line (n + 1) rest) :=
          congrArg Links.child hlinks.1
        rw [children, hfirst]
        exact chain_first hlinks.2.1 (nodup_map_id_line _ _)
      refine ⟨n, rfl, hnode, ?_⟩
      rw [hchildren]
      exact line_of_linksAll hlinks.2.1 hbelow

/-- A forest that represents a line is one. -/
lemma Represents.line {nodes : List Node} (h : f.Represents (Tree.line 0 nodes)) :
    f.Line f.roots nodes := by
  have hroots : f.roots = (Tree.line 0 nodes).map Tree.id := by
    rw [roots, h.body]
    exact chain_first h.linked (nodup_map_id_line _ _)
  rw [hroots]
  exact line_of_linksAll h.linked h.live

/-- If a forest has no more nodes than the trees that it represents, each of its nodes is in one of
them. -/
lemma Represents.mem_payloads {roots : List Tree} (h : f.Represents roots)
    (hsize : f.nodes.size = (ids roots).length) {id : NodeId} {node : Node}
    (hnode : f.node? id = some node) : node ∈ payloads roots := by
  have hperm : (ids roots).Perm (List.range f.nodes.size) := by
    refine (List.subperm_of_subset h.distinct h.subset_range).perm_of_length_le ?_
    rw [List.length_range, hsize]
    exact Nat.le_refl _
  have hid : id ∈ ids roots :=
    hperm.mem_iff.mpr (List.mem_range.mpr (Language.Assembling.lt_size_of_node? hnode))
  obtain ⟨entry, hentry, rfl⟩ := List.mem_map.mp hid
  have hlive := h.live entry hentry
  rw [hnode] at hlive
  exact List.mem_map.mpr ⟨entry, hentry, (Option.some.inj hlive).symm⟩

end Forest

namespace Language

/-! ## Where nodes come from -/

/-- A transition of a chart is that of a declaration. -/
lemma transition_of_mem_payloads {text : String} {items : List Item}
    (hparse : parse text = .ok items) (hvalid : items.all Item.valid = true) {t : Transition}
    (h : .transition t ∈ Tree.payloads (itemTrees items)) :
    ∃ d : TransitionDecl, Legible d.tokens ∧ d.valid = true ∧ d.transition = t := by
  rcases mem_itemPayloads (mem_itemPayloads_of_payloads h rfl) with
    ⟨d, -, hnode⟩ | ⟨d, -, hnode⟩ | ⟨m, d, -, -, hnode⟩ | ⟨m, d, -, -, hnode⟩ |
      ⟨body, c, hbody, hc, hnode⟩
  · simp [Item.payloads] at hnode
  · cases hnode
  · cases hnode
  · cases hnode
  · obtain ⟨d, hd, rfl⟩ := Clause.transition_mem hnode
    have hmem : d ∈ transitionsOf body := List.mem_flatMap.mpr ⟨c, hc, hd⟩
    exact ⟨d, legible_transition (legible_stateBody hparse hbody c hc) hd,
      valid_of_mem_transitionsOf (hbody.valid hvalid) hmem, rfl⟩

/-- A binding of a chart is that of a declaration. -/
lemma binding_of_mem_payloads {text : String} {items : List Item} (hparse : parse text = .ok items)
    {b : Binding} (h : .binding b ∈ Tree.payloads (itemTrees items)) :
    ∃ d : BindingDecl, Legible d.tokens ∧ d.binding = b := by
  rcases mem_itemPayloads (mem_itemPayloads_of_payloads h rfl) with
    ⟨d, -, hnode⟩ | ⟨d, hd, hnode⟩ | ⟨m, d, hm, hd, hnode⟩ | ⟨m, d, -, -, hnode⟩ |
      ⟨body, c, hbody, hc, hnode⟩
  · simp [Item.payloads] at hnode
  · exact ⟨d, legible_binding hparse hd, (Node.binding.inj hnode).symm⟩
  · exact ⟨d, (legible_machine hparse hm).2 _ hd, (Node.binding.inj hnode).symm⟩
  · cases hnode
  · have hlegible := legible_stateBody hparse hbody c hc
    cases c with
    | binding d =>
        rw [Clause.tokens] at hlegible
        exact ⟨d, hlegible, (Node.binding.inj (List.mem_singleton.mp hnode)).symm⟩
    | invoke d => simp [Clause.nodes] at hnode
    | transition d => cases List.mem_singleton.mp hnode
    | state d => cases List.mem_singleton.mp hnode

/-! ## Charts with one machine -/

/-- A machine without a name, with the given clauses. -/
def bareMachine (body : List MachineClause) : List Item := [.machine ⟨none, body, .point 0⟩]

/-- A state with one clause. -/
def bareState (c : Clause) : MachineClause := .state (.mk ⟨[], "s", .point 0⟩ [c] (.point 0))

/-- The text of a machine, from what is spelled between its braces. -/
lemma renders_bareMachine (body : List MachineClause) {s : List Char}
    (h : SpellsOut (body.flatMap MachineClause.tokens ++ [sign "\x7d"]) s) :
    Renders (bareMachine body) ("machine \x7b".toList ++ s) := by
  obtain ⟨last, hs⟩ := h.word (w := "\x7b") (by decide) (Token.fixed "machine").text.getLast?
  have hfirst : Gap.Allows none (Token.fixed "machine").text.head? [] .free :=
    ⟨.nil, fun _ hboth => absurd hboth.1 (by decide)⟩
  have hproper : (Token.fixed "machine").Proper := by show "machine" ∈ Token.fixedTexts; decide
  have hspelling := Spelling.cons hproper hfirst hs
  have htokens : Row Item.Tokens (bareMachine body)
      ((MachineDecl.tokens ⟨none, body, .point 0⟩) ++ []) := .cons rfl .nil
  refine ⟨_, last, [], htokens, ?_, .trivia .nil⟩
  simpa [MachineDecl.tokens, headTokens, braced, Token.text, sign] using hspelling

/-- Between the braces of a state. -/
lemma spells_bareState {c : Clause} {ts : List Lexeme} {s : List Char}
    (h : SpellsOut (c.tokens ++ sign "\x7d" :: ts) s) :
    SpellsOut ((bareState c).tokens ++ ts) (" state s \x7b".toList ++ s) := by
  have hname : (Token.name "s").Proper := by show isIdentifier ['s'] = true; decide
  have hall := ((h.word (w := "\x7b") (by decide)).spaced .head hname).word (w := "state")
    (by decide)
  simpa [bareState, MachineClause.tokens, StateDecl.tokens, StateHead.tokens, bodyTokens,
    headTokens, braced, Token.text, sign] using hall

/-! ### What is said about them -/

/-- The declarations that were found differ from a machine in spans only. -/
lemma eq_machine_of_bare {found : List Item} {body : List MachineClause}
    (h : found.map Item.bare = (bareMachine body).map Item.bare) :
    ∃ body' span, found = [.machine ⟨none, body', span⟩] ∧
      body'.map MachineClause.bare = body.map MachineClause.bare := by
  obtain ⟨item, rfl, hitem⟩ := List.map_eq_singleton_iff.mp h
  cases item with
  | importDecl d => cases hitem
  | binding d => cases hitem
  | machine d =>
      obtain ⟨hname, hbody, -⟩ := MachineDecl.mk.inj (Item.machine.inj hitem)
      obtain ⟨name, body', span⟩ := d
      obtain rfl : name = none := hname
      exact ⟨body', span, rfl, hbody⟩

/-- A clause that makes no remark: a binding, or a state with a transition and nothing else. -/
inductive Silent : MachineClause → Prop
  | binding (d : BindingDecl) : Silent (.binding d)
  | transition (head : StateHead) (d : TransitionDecl) (span : Span) :
      Silent (.state (.mk head [.transition d] span))

/-- Spans have no part in this. -/
lemma Silent.of_bare {c c' : MachineClause} (hc : Silent c) (h : c'.bare = c.bare) : Silent c' := by
  cases hc with
  | binding d =>
      cases c' with
      | binding d' => exact .binding d'
      | state d' => cases h
  | transition head d span =>
      cases c' with
      | binding d' => cases h
      | state d' =>
          obtain ⟨head', body', span'⟩ := d'
          have hstate := MachineClause.state.inj h
          rw [StateDecl.bare, StateDecl.bare, bareBody_eq, bareBody_eq] at hstate
          obtain ⟨-, hbody, -⟩ := StateDecl.mk.inj hstate
          obtain ⟨clause, rfl, hclause⟩ := List.map_eq_singleton_iff.mp hbody
          rw [Clause.bare] at hclause
          cases clause with
          | transition d' => exact .transition head' d' span'
          | _ => rw [Clause.bare] at hclause; cases hclause

/-- Of a machine with one such clause there is only an entry for the log. -/
lemma isLog_of_silent {c : MachineClause} (hc : Silent c) (file : Nat) (span : Span) :
    ∀ r ∈ (Account.items file [.machine ⟨none, [c], span⟩] {}).remarks, r.isLog = true := by
  cases hc with
  | binding d =>
      have hnew : d.name ∉ (({} : Account).log "parsing machine (default)").names d.kind := by
        cases d.kind <;> simp [Account.log, Account.names]
      have hremarks : (Account.items file [.machine ⟨none, [.binding d], span⟩] {}).remarks =
          (({} : Account).log "parsing machine (default)").remarks := by
        show (Account.binding (({} : Account).log "parsing machine (default)") file d).remarks = _
        rw [Account.binding, if_neg hnew, Account.remarks_bind]
      rw [hremarks]
      simp [Account.log, Remark.isLog]
  | transition head d span' =>
      have hremarks : (Account.items file
          [.machine ⟨none, [.state (.mk head [.transition d] span')], span⟩] {}).remarks =
          (({} : Account).log "parsing machine (default)").remarks := by
        simp only [Account.items, Account.item, Account.machineClauses, Account.state,
          Account.clauses, Account.head]
        rfl
      rw [hremarks]
      simp [Account.log, Remark.isLog]

/-- **A machine with one silent clause is read**, whatever the journal. -/
lemma readsAs_of_renders {text : String} {c : MachineClause} {nodes : List Node}
    (hrenders : Renders (bareMachine [c]) text.toList) (hsilent : Silent c)
    (hvalid : (bareMachine [c]).all Item.valid = true)
    (htrees : itemTrees (bareMachine [c]) = Tree.line 0 nodes) : ReadsAs text nodes := by
  intro name j
  obtain ⟨found, hparse, hbare⟩ := parse_of_renders hrenders
  obtain ⟨body, span, rfl, hbody⟩ := eq_machine_of_bare hbare
  obtain ⟨c', rfl, hc'⟩ := List.map_eq_singleton_iff.mp hbody
  obtain ⟨program, remarks, hread⟩ := read_of_parse hparse
    ((valid_eq_of_bare hbare).trans hvalid) j.files.size
  have hlogs : ∀ r ∈ readingRemarks ⟨name, text⟩ j.files.size, r.isLog = true := by
    unfold readingRemarks
    rw [hread]
    refine List.forall_mem_append.mpr ⟨?_, List.forall_mem_singleton.mpr rfl⟩
    rw [read_remarks hread hparse]
    exact isLog_of_silent (hsilent.of_bare hc') _ _
  obtain ⟨j', hnotes, herrors, hwarnings⟩ :=
    Reporting.noteAll_of_isLog hlogs (j.addFile ⟨name, text⟩).1
  have hresult : readingResult ⟨name, text⟩ j.files.size = .ok program :=
    readingResult_eq_ok.mpr (by rw [hread])
  obtain ⟨items, hitems, -, hrep, -, -⟩ := read_eq_ok hread
  obtain rfl := Except.ok.inj (hparse.symm.trans hitems)
  rw [itemTrees_eq_of_bare hbare, htrees] at hrep
  refine ⟨program, j', ?_, herrors, hwarnings, hrep.line⟩
  rw [← hresult]
  exact parse_of_noteAll hnotes

/-- A machine with a state that has one transition. -/
lemma readsAs_transition {d : TransitionDecl} (hlegible : Legible d.tokens)
    (hvalid : d.valid = true) :
    ReadsAs ("machine \x7b state s \x7b " ++ (Node.transition d.transition).text ++ " \x7d \x7d")
      [.machine {}, .state ⟨"s", false⟩, .transition d.transition] := by
  have hbraces := (spellsOut_nil.word (w := "\x7d") (by decide)).word (w := "\x7d") (by decide)
  have hline := TransitionDecl.spells hlegible hbraces
  rw [← Clause.tokens] at hline
  have hrenders := renders_bareMachine [bareState (.transition d.tidy)]
    (by simpa using spells_bareState hline)
  refine readsAs_of_renders (c := bareState (.transition d.tidy)) ?_ (.transition _ _ _) ?_ ?_
  · simpa [Node.text, String.toList_append] using hrenders
  · have hstate :
        StateDecl.valid (.mk ⟨[], "s", .point 0⟩ [.transition d.tidy] (.point 0)) = true := by
      rw [StateDecl.valid, allValid, Clause.valid, allValid, d.valid_tidy, hvalid]
      rfl
    show (distinct [⟨[], "s", .point 0⟩] && (StateDecl.valid _ && true) && true) = true
    rw [hstate]
    rfl
  · rw [← d.transition_tidy]
    rfl

/-- A machine with one binding. -/
lemma readsAs_binding {d : BindingDecl} (hlegible : Legible d.tokens) :
    ReadsAs ("machine \x7b " ++ (Node.binding d.binding).text ++ " \x7d")
      [.machine {}, .binding d.binding] := by
  have hline := BindingDecl.spells hlegible (spellsOut_nil.word (w := "\x7d") (by decide))
  have hrenders := renders_bareMachine [.binding d.tidy]
    (by simpa [MachineClause.tokens] using hline)
  refine readsAs_of_renders (c := .binding d.tidy) ?_ (.binding _) rfl ?_
  · simpa [String.toList_append] using hrenders
  · rw [← d.binding_tidy]
    rfl

end Language

open Statechart.Language

/-- **Reading undoes printing.**  Take any transition or any binding of a chart that was read.  Its
line, in a machine and for a transition in a state of it, is read without an error and without a
warning, and that node is all that there is below the machine or the state. -/
theorem parse_printed {source : SourceFile} {program : Program} {j j' : Journal}
    (h : parse source j = .ok (.ok program) j') :
    (∀ id t, program.forest.node? id = some (.transition t) →
      ReadsAs ("machine \x7b state s \x7b " ++ (Node.transition t).text ++ " \x7d \x7d")
        [.machine {}, .state ⟨"s", false⟩, .transition t]) ∧
    (∀ id b, program.forest.node? id = some (.binding b) →
      ReadsAs ("machine \x7b " ++ (Node.binding b).text ++ " \x7d") [.machine {}, .binding b]) := by
  obtain ⟨remarks, -, hread, -⟩ := parse_eq_ok h
  obtain ⟨items, hitems, hvalid, hrep, hsize, -⟩ := read_eq_ok hread
  constructor
  · intro id t hnode
    obtain ⟨d, hlegible, hd, rfl⟩ := transition_of_mem_payloads hitems hvalid
      (hrep.mem_payloads hsize hnode)
    exact readsAs_transition hlegible hd
  · intro id b hnode
    obtain ⟨d, hlegible, rfl⟩ := binding_of_mem_payloads hitems (hrep.mem_payloads hsize hnode)
    exact readsAs_binding hlegible

/-- A chart with a delay in seconds, a guard behind an action, and names with colons. -/
def printedChart : String :=
  "machine\x7bstate a\x7bdelay(2s)=>action(:x)=>guard(g)=>assign(k,:v)=>a guard g=:h\x7d\x7d"

/-- The transition of that chart. -/
def printedTransition : Transition where
  trigger := .delay 2000
  target := "a"
  guards := [.named "g"]
  actions := [.inline (.action "x"), .inline (.assign ⟨"k", some "v"⟩)]

/-- The two nodes of the example that have a text. -/
lemma printedChart_nodes : (match parse ⟨"m.lucy", printedChart⟩ {} with
    | .ok (.ok program) _ =>
      decide (program.forest.node? 2 = some (.transition printedTransition)) &&
        decide (program.forest.node? 3 = some (.binding ⟨.guard, "g", .identifier "h"⟩))
    | _ => false) = true := by
  decide +kernel

/-- Its two lines are written in another way than the chart, and are read as the same nodes. -/
theorem parse_printedChart : ∃ program j, parse ⟨"m.lucy", printedChart⟩ {} = .ok (.ok program) j ∧
    ReadsAs ("machine \x7b state s \x7b " ++
      "delay(2000ms) => guard(g) => action(:x) => assign(k, v) => a" ++ " \x7d \x7d")
      [.machine {}, .state ⟨"s", false⟩, .transition printedTransition] ∧
    ReadsAs ("machine \x7b " ++ "guard g = h" ++ " \x7d")
      [.machine {}, .binding ⟨.guard, "g", .identifier "h"⟩] := by
  have hnodes := printedChart_nodes
  generalize hparse : parse ⟨"m.lucy", printedChart⟩ {} = outcome at hnodes
  rcases outcome with ⟨error | program, j⟩ | ⟨fault, j⟩
  · cases hnodes
  · rw [Bool.and_eq_true, decide_eq_true_eq, decide_eq_true_eq] at hnodes
    obtain ⟨htransitions, hbindings⟩ := parse_printed hparse
    have hlines : (Node.transition printedTransition).text =
          "delay(2000ms) => guard(g) => action(:x) => assign(k, v) => a" ∧
        (Node.binding ⟨.guard, "g", .identifier "h"⟩).text = "guard g = h" := by
      decide +kernel
    have htransition := htransitions 2 _ hnodes.1
    have hbinding := hbindings 3 _ hnodes.2
    rw [hlines.1] at htransition
    rw [hlines.2] at hbinding
    exact ⟨program, j, rfl, htransition, hbinding⟩
  · cases hnodes

end Statechart
