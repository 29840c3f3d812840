import Mathlib.Data.Nat.Digits.Defs
import Statechart.Proofs.Language.Addresses
import Statechart.Proofs.Rejecting
import Statechart.Proofs.Rereading

/-!
# Delays are exact

A delay is a row of decimal digits and a unit.  It stands for a number of milliseconds, which is
checked against the limit while the digits are taken in and again when the unit is applied.  All
this amounts to one threshold: below it the number is exact in the node and in the module, and a
delay that is not below it is a reason to reject the chart.

* `Duration.denotes` — the number of milliseconds that a delay stands for.
* `Delayed` — a delayed transition as a node of the chart and as an entry of the module.

**`delays_exact`** — what becomes of every delay of every chart.
-/

namespace Statechart

open Statechart.Language Output Script

namespace Language.Duration

/-! ## Numbers -/

/-- The milliseconds that a duration stands for: its digits as a decimal number, in its unit. -/
def denotes (d : Duration) : Nat :=
  Nat.ofDigits 10 (d.digits.reverse.map fun c => c.toNat - '0'.toNat) *
    if d.unit = some .seconds then 1000 else 1

/-- The digits are taken in from the highest to the lowest. -/
lemma value_eq_ofDigits (digits : List Char) :
    value digits = Nat.ofDigits 10 (digits.reverse.map fun c => c.toNat - '0'.toNat) := by
  induction digits using List.reverseRecOn with
  | nil => rfl
  | append_singleton cs c ih =>
      rw [value, List.foldl_append, List.foldl_cons, List.foldl_nil, ← value, ih,
        List.reverse_append, List.reverse_singleton, List.singleton_append, List.map_cons,
        Nat.ofDigits_cons, Nat.add_comm]

lemma length_eq_denotes (d : Duration) : d.length = d.denotes := by
  rw [length, denotes, value_eq_ofDigits]
  rcases d.unit with _ | _ | _ <;> rfl

lemma limit_eq : limit = 2 ^ 64 := by decide

/-- The digits of a duration are digits, and there are some. -/
def Proper (d : Duration) : Prop := d.digits ≠ [] ∧ ∀ c ∈ d.digits, c.isDigit = true

lemma toList_text (d : Duration) :
    d.text.toList = d.digits ++ (d.unit.elim "" TimeUnit.text).toList := by
  rw [text, String.toList_append, String.toList_ofList]

lemma takeWhile_text {d : Duration} (h : d.Proper) :
    d.text.toList.takeWhile Char.isDigit = d.digits := by
  rw [toList_text, List.takeWhile_append_of_pos h.2]
  rcases d.unit with _ | _ | _ <;> simp [TimeUnit.text]

/-- Durations that are written alike are equally long. -/
lemma length_eq_of_text {d d' : Duration} (hd : d.Proper) (hd' : d'.Proper) (h : d.text = d'.text) :
    d.length = d'.length := by
  have hdigits : d.digits = d'.digits := by rw [← takeWhile_text hd, h, takeWhile_text hd']
  have hunits : (d.unit.elim "" TimeUnit.text).toList = (d'.unit.elim "" TimeUnit.text).toList := by
    have htext := congrArg String.toList h
    rw [toList_text, toList_text, hdigits] at htext
    exact List.append_cancel_left htext
  have hunit : d.unit = d'.unit := by
    revert hunits
    rcases d.unit with _ | _ | _ <;> rcases d'.unit with _ | _ | _ <;> decide
  rw [length, length, hdigits, hunit]

end Language.Duration

/-! ## Keys -/

namespace Script

/-- A digit stands for itself in a literal. -/
lemma escape_of_isDigit {c : Char} (h : c.isDigit = true) : escape c = [c] := by
  have hall : ∀ n < 58, 48 ≤ n → escape (Char.ofNat n) = [Char.ofNat n] := by decide
  simp only [Char.isDigit, Bool.and_eq_true, decide_eq_true_eq] at h
  have hc := hall c.toNat (Nat.lt_succ_of_le h.2) h.1
  rwa [Char.ofNat_toNat] at hc

/-- **A number is a key in quotes.** -/
lemma propertyKey_toString (n : Nat) : propertyKey (toString n) = "'" ++ toString n ++ "'" := by
  have hdigits : ∀ c ∈ (toString n).toList, c.isDigit = true := by
    intro c hc
    rw [show (toString n).toList = Nat.toDigits 10 n by simp] at hc
    exact Nat.isDigit_of_mem_toDigits (by decide) (by decide) hc
  have hname : isIdentifier (toString n).toList = false := by
    cases hs : (toString n).toList with
    | nil => rfl
    | cons c cs =>
        have hc := hdigits c (by rw [hs]; exact List.mem_cons_self)
        rw [isIdentifier, Bool.and_eq_false_iff]
        refine .inl (Bool.eq_false_iff.mpr fun hstart => ?_)
        rw [isDigit_of_isNameStart hstart] at hc
        cases hc
  have hquote : (toString n).toList.flatMap escape = (toString n).toList := by
    rw [List.flatMap_congr fun c hc => escape_of_isDigit (hdigits c hc), List.flatMap_singleton']
  rw [propertyKey, hname, if_neg (by simp), quote, hquote, String.ofList_toList]

/-- Different numbers have different keys. -/
lemma propertyKey_toString_inj {m n : Nat} :
    propertyKey (toString m) = propertyKey (toString n) ↔ m = n := by
  refine ⟨fun h => ?_, fun h => by rw [h]⟩
  rw [propertyKey_toString, propertyKey_toString] at h
  have hlists := congrArg String.toList h
  simp only [String.toList_append] at hlists
  exact Section.toString_injective
    (String.toList_injective (List.append_cancel_left (List.append_cancel_right hlists)))

end Script

/-! ## Offences -/

section offences

variable {text : String} {items : List Item} {body : List Clause} {t : TransitionDecl}
variable {duration : Duration}

/-- The delays of a chart that can be read have digits, and only these. -/
lemma proper_of_parse (hitems : Language.parse text = .ok items) (hbody : StateBody items body)
    (ht : t ∈ transitionsOf body) (hdelay : t.trigger = .delay duration) : duration.Proper := by
  obtain ⟨c, hc, htc⟩ := List.mem_flatMap.mp ht
  have hlegible := legible_transition (legible_stateBody hitems hbody c hc) htc
  refine hlegible (.free, .number duration.digits duration.unit) ?_
  simp [TransitionDecl.tokens, hdelay, TriggerDecl.tokens]

/-- **A delay is a reason to reject its chart** exactly if it is not below the limit. -/
lemma offends_iff_denotes (hitems : Language.parse text = .ok items) (hbody : StateBody items body)
    (ht : t ∈ transitionsOf body) (hdelay : t.trigger = .delay duration) :
    Offends items (.delayTooLong duration.text duration.span) ↔ 2 ^ 64 ≤ duration.denotes := by
  rw [← Duration.length_eq_denotes, ← Duration.limit_eq]
  constructor
  · rintro (⟨m, -, before, h, after, -, -, heq⟩ | ⟨body', hbody', hfaulty⟩)
    · cases heq
    · rcases hfaulty with ⟨before, h, after, -, -, heq⟩ | ⟨t', duration', ht', hdelay', hlimit, heq⟩
      · cases heq
      · obtain ⟨htext, -⟩ := Rejection.delayTooLong.inj heq
        rwa [Duration.length_eq_of_text (proper_of_parse hitems hbody ht hdelay)
          (proper_of_parse hitems hbody' ht' hdelay') htext]
  · intro hlimit
    exact .inr ⟨body, hbody, .inr ⟨t, duration, ht, hdelay, hlimit, rfl⟩⟩

end offences

/-! ## Nodes and entries -/

/-- A delayed transition of a state in a chart that was read and in its module.  It has a node below
that of the state, located where it is written.  In the configuration of its machine it is found in
an object for delays of its state, under the digits of its delay, which stand there in quotes. -/
structure Delayed (program : Program) (library : Library) (file : Nat) (m : MachineDecl)
    (names : List String) (d : StateDecl) (t : TransitionDecl) (milliseconds : Nat) : Prop where
  trigger : t.transition.trigger = .delay milliseconds
  node : ∃ id parent, program.forest.location id = some ⟨t.span, file⟩ ∧
    program.forest.node? id = some (.transition t.transition) ∧
    program.forest.parent id = some parent ∧
    program.forest.node? parent = some (.state d.head.state)
  entry : ∃ ss remarks config options depth,
    Output.generate program library = (.ok (statementsText ss), remarks) ∧
    .exportMachine m.name config options ∈ ss ∧
    config.Follows (statePath names ++ ["delay", toString milliseconds])
      (transitionOf t.transition) ∧
    Contains (statementsText ss) ("'" ++ toString milliseconds ++ "': " ++
      (transitionOf t.transition).layout depth)

/-- **A delay of a chart that was read is in its node and in its module.** -/
lemma delayed_of_read {file : Nat} {source : SourceFile} {program : Program} {items : List Item}
    {m : MachineDecl} {names : List String} {d : StateDecl} {t : TransitionDecl}
    {duration : Duration} (hresult : readingResult source file = .ok program)
    (hitems : Language.parse source.content = .ok items) (hd : Stands items m names d)
    (ht : .transition t ∈ d.body) (hdelay : t.trigger = .delay duration) (library : Library) :
    Delayed program library file m names d t duration.denotes := by
  obtain ⟨items', hitems', -, hrep, -, hgenerate⟩ := generate_of_readingResult hresult library
  obtain rfl : items = items' := Except.ok.inj (hitems.symm.trans hitems')
  obtain ⟨-, hlocation⟩ := location_of_read (readingResult_eq_ok.mp hresult) hitems
  obtain ⟨root, hroot, machine, k, hmachine, hname, hstate, hplaces, hfollows⟩ :=
    hd.address (agrees_self (items.flatMap Item.places))
  obtain ⟨n, hmem, hspan⟩ := mem_clauseTrees ht rfl (d.agrees_body hplaces)
  have hpayload : ((Clause.transition t).tree n).payload = .transition t.transition := by
    rw [Clause.tree]
    rfl
  have hid : ((Clause.transition t).tree n).id = n := by
    rw [Clause.tree]
    rfl
  have htrigger : t.transition.trigger = .delay duration.denotes := by
    rw [← duration.length_eq_denotes]
    exact congrArg TriggerDecl.trigger hdelay
  refine ⟨htrigger, ⟨n, (d.tree k).id, ?_, ?_, ?_, ?_⟩, ?_⟩
  · rw [Clause.places] at hspan
    have hplace : (items.flatMap Item.places)[n]? = some t.span := hspan.1
    rw [hlocation, hplace]
    rfl
  · have hin := Tree.mem_allWithin.mpr (.inr ⟨d.tree k, hstate, by rwa [d.children_tree]⟩)
    rw [← hid, hrep.node?_eq hin, hpayload]
  · rw [← hid]
    exact hrep.parent_child hstate (by rwa [d.children_tree])
  · rw [hrep.node?_eq hstate, d.payload_tree]
  · have hentry := hfollows.append (mem_delays hmem hpayload htrigger d.head.state)
    have hpath : statePath names ++ ["delay", toString duration.denotes] =
        (statePath names ++ ["delay"]) ++ [toString duration.denotes] := by simp
    obtain ⟨depth, hcontains⟩ := (hpath ▸ hentry).text 0
    obtain ⟨options, hstatement⟩ := mem_statements_machine hroot hmachine
      (items.any Item.updates) library
    have hall := (contains_configuration hstatement).trans hcontains
    rw [propertyKey_toString] at hall
    rw [hname] at hstatement
    rw [moduleText_eq_statementsText _ _ (allShaped_itemTrees items)] at hgenerate
    refine ⟨_, _, _, options, depth, hgenerate, hstatement, hentry, ?_⟩
    simpa [String.append_assoc] using hall

/-! ## Every delay can be written -/

/-- A chart with one delay. -/
def delayChart (digits : List Char) (unit : Option TimeUnit) : String :=
  "machine \x7b state s \x7b delay(" ++ String.ofList digits ++ unit.elim "" TimeUnit.text ++
    ") => s \x7d \x7d"

/-- The transition in the chart, apart from spans. -/
def bareDelay (digits : List Char) (unit : Option TimeUnit) : TransitionDecl :=
  ⟨.delay ⟨digits, unit, .point 0⟩, [], "s", .point 0⟩

/-- The chart with one delay is a rendering of its declarations, token by token. -/
lemma renders_delayChart {digits : List Char} (hne : digits ≠ [])
    (hdigits : ∀ c ∈ digits, c.isDigit = true) (unit : Option TimeUnit) :
    Renders (bareMachine [bareState (.transition (bareDelay digits unit))])
      (delayChart digits unit).toList := by
  have hbraces := (spellsOut_nil.word (w := "\x7d") (by decide)).word (w := "\x7d") (by decide)
  have hname : (Token.name "s").Proper := by show isIdentifier ['s'] = true; decide
  have hnumber : (Token.number digits unit).Proper := ⟨hne, hdigits⟩
  have harrow := (hbraces.spaced .free hname).word (w := "=>") (by decide)
  have hcall := (harrow.sign (w := ")") (by decide) (by decide)).call (w := "delay") (by decide)
    hnumber
  have htokens : (Clause.transition (bareDelay digits unit)).tokens =
      [sign "delay", sign "(", (.free, .number digits unit), sign ")", sign "=>", plainName "s"] := by
    rw [Clause.tokens]
    rfl
  have hstate := @spells_bareState (.transition (bareDelay digits unit)) [sign "\x7d"] _ (by
    rw [htokens]
    exact hcall)
  have htoken : (Token.number digits unit).text =
      digits ++ (unit.elim "" TimeUnit.text).toList := by
    cases unit <;> rfl
  have htext : (delayChart digits unit).toList = "machine \x7b".toList ++ (" state s \x7b".toList ++
      ' ' :: ("delay".toList ++ '(' :: ((Token.number digits unit).text ++ (")".toList ++
        " => s \x7d \x7d".toList)))) := by
    unfold delayChart
    generalize unit.elim "" TimeUnit.text = suffix at htoken ⊢
    simp [htoken]
  rw [htext]
  refine renders_bareMachine _ ?_
  rw [List.flatMap_singleton]
  exact hstate

/-- A clause that differs from a state with one transition in spans only. -/
lemma eq_bareState_of_bare {c : MachineClause} {d : TransitionDecl}
    (h : c.bare = (bareState (.transition d)).bare) :
    ∃ head t span, c = .state (.mk head [.transition t] span) ∧ head.name = "s" ∧
      t.bare = d.bare := by
  cases c with
  | binding b => cases h
  | state e =>
      obtain ⟨head, body, span⟩ := e
      have hstate := MachineClause.state.inj h
      rw [StateDecl.bare, StateDecl.bare, bareBody_eq, bareBody_eq] at hstate
      obtain ⟨hhead, hbody, -⟩ := StateDecl.mk.inj hstate
      obtain ⟨clause, rfl, hclause⟩ := List.map_eq_singleton_iff.mp hbody
      cases clause with
      | transition t =>
          rw [Clause.bare, Clause.bare] at hclause
          exact ⟨head, t, span, rfl, congrArg StateHead.name hhead, Clause.transition.inj hclause⟩
      | _ => rw [Clause.bare, Clause.bare] at hclause; cases hclause

/-- **Every row of digits can be written as a delay**, with every unit or with none. -/
lemma parse_delayChart {digits : List Char} (hne : digits ≠ [])
    (hdigits : ∀ c ∈ digits, c.isDigit = true) (unit : Option TimeUnit) :
    ∃ items m d t duration, Language.parse (delayChart digits unit) = .ok items ∧
      Stands items m ["s"] d ∧ .transition t ∈ d.body ∧ t.trigger = .delay duration ∧
      duration.digits = digits ∧ duration.unit = unit := by
  obtain ⟨found, hparse, hbare⟩ := parse_of_renders (renders_delayChart hne hdigits unit)
  obtain ⟨body, span, rfl, hbody⟩ := eq_machine_of_bare hbare
  obtain ⟨c, rfl, hc⟩ := List.map_eq_singleton_iff.mp hbody
  obtain ⟨head, t, span', rfl, hname, ht⟩ := eq_bareState_of_bare hc
  have htrigger : t.trigger.bare = .delay ⟨digits, unit, .point 0⟩ :=
    congrArg TransitionDecl.trigger ht
  cases hdelay : t.trigger with
  | delay duration =>
      rw [hdelay] at htrigger
      have hduration := TriggerDecl.delay.inj htrigger
      refine ⟨_, _, .mk head [.transition t] span', t, duration, hparse,
        ⟨List.mem_singleton_self _, _, List.mem_singleton_self _, ?_⟩, List.mem_singleton_self _,
        hdelay, congrArg Duration.digits hduration, congrArg Duration.unit hduration⟩
      rw [← hname]
      exact .self (.mk head [.transition t] span')
  | immediate => rw [hdelay] at htrigger; cases htrigger
  | event name => rw [hdelay] at htrigger; cases htrigger

/-! ## All delays -/

/-- **Delays are exact up to the limit and never wrap.**  Every row of digits can be written as a
delay, with every unit or with none.  Take any delayed transition of a state in a chart that follows
the grammar.  Its delay has digits, and it is a reason to reject the chart exactly if the
milliseconds that it denotes have more than 64 bits.  The chart is rejected exactly if there is such
a reason, and this delay is the one that is reported exactly if no other reason begins before it.  If
the chart is accepted, the transition waits for just these milliseconds, and it is found in an
object for delays under their decimal digits, in quotes.  Two delays have the same key exactly if
they denote the same. -/
theorem delays_exact (library : Library) :
    (∀ digits : List Char, digits ≠ [] → (∀ c ∈ digits, c.isDigit = true) → ∀ unit,
      ∃ items m d t duration, Language.parse (delayChart digits unit) = .ok items ∧
        Stands items m ["s"] d ∧ .transition t ∈ d.body ∧ t.trigger = .delay duration ∧
        duration.digits = digits ∧ duration.unit = unit) ∧
    (∀ source j result j₁ items m names d t duration,
      parse source j = .ok result j₁ → Language.parse source.content = .ok items →
      Stands items m names d → .transition t ∈ d.body → t.trigger = .delay duration →
      duration.Proper ∧
      (Offends items (.delayTooLong duration.text duration.span) ↔ 2 ^ 64 ≤ duration.denotes) ∧
      ((∃ e, result = .error e) ↔ ∃ r, Offends items r) ∧
      (∀ e, result = .error e → ∃ r, RejectedFor source j j₁ e r ∧ Offends items r ∧
        (r = .delayTooLong duration.text duration.span ↔ 2 ^ 64 ≤ duration.denotes ∧
          ∀ r', Offends items r' → duration.span.start ≤ r'.span.start)) ∧
      (∀ program, result = .ok program → duration.denotes < 2 ^ 64 ∧
        Delayed program library j.files.size m names d t duration.denotes)) ∧
    ∀ duration other : Duration,
      (propertyKey (toString duration.denotes) = propertyKey (toString other.denotes) ↔
        duration.denotes = other.denotes) := by
  refine ⟨fun digits hne hdigits unit => parse_delayChart hne hdigits unit, ?_,
    fun duration other => propertyKey_toString_inj⟩
  intro source j result j₁ items m names d t duration hparse hitems hd ht hdelay
  have hmem : t ∈ transitionsOf d.body :=
    List.mem_flatMap_of_mem ht (List.mem_singleton_self t)
  have hoffends := offends_iff_denotes hitems hd.stateBody hmem hdelay
  have herror := error_iff_offends hparse hitems
  refine ⟨proper_of_parse hitems hd.stateBody hmem hdelay, hoffends, herror, ?_, ?_⟩
  · rintro e rfl
    obtain ⟨r, hread, hrejected⟩ := rejectedFor_of_parse hparse
    obtain ⟨hr, hfirst⟩ := foremost_of_read hread hitems
    refine ⟨r, hrejected, hr, ?_, ?_⟩
    · rintro rfl
      refine ⟨hoffends.mp hr, fun r' hr' => ?_⟩
      rcases hfirst r' hr' with rfl | hlt
      · exact Nat.le_refl _
      · exact Nat.le_of_lt hlt
    · rintro ⟨hlimit, hbefore⟩
      rcases hfirst _ (hoffends.mpr hlimit) with heq | hlt
      · exact heq.symm
      · exact absurd (hbefore r hr) (Nat.not_le.mpr hlt)
  · rintro program rfl
    have hnone : ¬ ∃ r, Offends items r := fun h => by
      obtain ⟨e, he⟩ := herror.mpr h
      cases he
    refine ⟨Nat.not_le.mp fun hlimit => hnone ⟨_, hoffends.mpr hlimit⟩, ?_⟩
    exact delayed_of_read (heard_of_parse hparse).1.symm hitems hd ht hdelay library

lemma delayChart_padded : (match Language.parse (delayChart ['0', '0', '7'] (some .seconds)) with
    | .ok items => items.all Item.valid
    | .error _ => false) = true := by
  decide +kernel

/-- Zeros in front of a delay do not count. -/
theorem delays_padded : ∃ program j₁ m d t,
    parse ⟨"padded.chart", delayChart ['0', '0', '7'] (some .seconds)⟩ {} = .ok (.ok program) j₁ ∧
      Delayed program .package 0 m ["s"] d t 7000 := by
  obtain ⟨hwritten, hexact, -⟩ := delays_exact .package
  obtain ⟨items, m, d, t, duration, hitems, hd, ht, hdelay, hdigits, hunit⟩ :=
    hwritten ['0', '0', '7'] (by simp) (by simp) (some .seconds)
  have hdenotes : duration.denotes = 7000 := by
    rw [← duration.length_eq_denotes, Duration.length, hdigits, hunit]
    rfl
  have hvalid := delayChart_padded
  rw [hitems] at hvalid
  have hsize : byteLength (delayChart ['0', '0', '7'] (some .seconds)).toList + 1 <
      Report.offsetCount := by decide +kernel
  generalize delayChart ['0', '0', '7'] (some .seconds) = text at hitems hsize ⊢
  obtain ⟨program, j₁, -, hparse, -⟩ := compile_of_parse ⟨"padded.chart", text⟩ hitems hvalid hsize
    .package {}
  obtain ⟨-, -, -, -, haccepted⟩ := hexact ⟨"padded.chart", text⟩ {} (.ok program) j₁ items m ["s"] d
    t duration hparse hitems hd ht hdelay
  obtain ⟨-, hdelayed⟩ := haccepted program rfl
  rw [hdenotes] at hdelayed
  exact ⟨program, j₁, m, d, t, hparse, hdelayed⟩

end Statechart
