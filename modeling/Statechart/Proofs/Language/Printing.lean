import Statechart.Proofs.Language.Names
import Statechart.Proofs.Language.Spanless

/-!
# The texts of nodes

The line that stands for a transition or a binding is written in the notation of charts.  It is a
declaration, and a tidy one: a delay is given in milliseconds, the guards come before the actions,
and the names in updates and in bindings have no colon.

* `TransitionDecl.tidy`, `BindingDecl.tidy` — the tidy form of a declaration, which stands for the
  same node (`transition_tidy`, `binding_tidy`).
* `SpellsOut` — a text spells tokens to its end, whatever stands before it.

**`TransitionDecl.spells`**, **`BindingDecl.spells`** — the line of a node spells the tidy form of
the declaration that the node comes from.
-/

namespace Statechart.Language

/-! ## Tidy declarations -/

/-- The update with a value that has no colon. -/
def AssignDecl.tidy (d : AssignDecl) : AssignDecl :=
  ⟨d.key, d.value.map fun use => .plain use.name⟩

/-- The step with a tidy update, if it is one. -/
def StepDecl.tidy : StepDecl → StepDecl
  | assign d => assign d.tidy
  | step => step

/-- Whether the step is a guard. -/
def StepDecl.isGuard : StepDecl → Bool
  | guard _ => true
  | _ => false

/-- The guards among some steps, and then the others. -/
def guardsFirst (steps : List StepDecl) : List StepDecl :=
  steps.filter StepDecl.isGuard ++ steps.filter (!StepDecl.isGuard ·)

/-- The duration in milliseconds, with the unit behind it. -/
def Duration.tidy (d : Duration) : Duration :=
  { d with digits := (toString d.length).toList, unit := some .milliseconds }

/-- The trigger with a tidy duration, if it is a delay. -/
def TriggerDecl.tidy : TriggerDecl → TriggerDecl
  | delay d => delay d.tidy
  | trigger => trigger

/-- The transition as it is printed. -/
def TransitionDecl.tidy (d : TransitionDecl) : TransitionDecl :=
  { d with trigger := d.trigger.tidy, steps := (guardsFirst d.steps).map StepDecl.tidy }

/-- The value without a colon. -/
def BindingValue.tidy : BindingValue → BindingValue
  | assign d => assign d.tidy
  | named use => named (.plain use.name)

/-- The binding as it is printed. -/
def BindingDecl.tidy (d : BindingDecl) : BindingDecl := { d with value := d.value.tidy }

/-! ### Nothing else changes -/

lemma AssignDecl.update_tidy (d : AssignDecl) : d.tidy.update = d.update := by
  rcases d with ⟨key, _ | use⟩ <;> rfl

/-- The tidy form of a step stands for the same guard or action. -/
lemma StepDecl.references_tidy (step : StepDecl) :
    step.tidy.guard? = step.guard? ∧ step.tidy.action? = step.action? := by
  cases step with
  | guard use => exact ⟨rfl, rfl⟩
  | action use => exact ⟨rfl, rfl⟩
  | assign d =>
      refine ⟨rfl, ?_⟩
      show some (Reference.inline (.assign d.tidy.update)) = some (.inline (.assign d.update))
      rw [d.update_tidy]

/-- The guards of some steps are those of the guards among them, and likewise for actions. -/
lemma filterMap_guardsFirst (steps : List StepDecl) :
    (guardsFirst steps).filterMap StepDecl.guard? = steps.filterMap StepDecl.guard? ∧
      (guardsFirst steps).filterMap StepDecl.action? = steps.filterMap StepDecl.action? := by
  simp only [guardsFirst, List.filterMap_append, List.filterMap_filter]
  constructor
  · have hnone :
        steps.filterMap (fun step => if !step.isGuard then step.guard? else none) = [] := by
      refine List.filterMap_eq_nil_iff.mpr fun step _ => ?_
      cases step <;> rfl
    rw [hnone, List.append_nil]
    refine List.filterMap_congr fun step _ => ?_
    cases step <;> rfl
  · have hnone :
        steps.filterMap (fun step => if step.isGuard then step.action? else none) = [] := by
      refine List.filterMap_eq_nil_iff.mpr fun step _ => ?_
      cases step <;> rfl
    rw [hnone, List.nil_append]
    refine List.filterMap_congr fun step _ => ?_
    cases step <;> rfl

/-- The digits of a number stand for that number. -/
lemma Duration.value_toString (n : Nat) : Duration.value (toString n).toList = n := by
  have hdigits : (toString n).toList = Nat.toDigits 10 n := by simp
  rw [hdigits]
  exact Nat.ofDigitChars_toDigits (by decide) (by decide)

lemma Duration.length_tidy (d : Duration) : d.tidy.length = d.length := by
  show Duration.value (toString d.length).toList * 1 = d.length
  rw [Duration.value_toString, Nat.mul_one]

lemma TriggerDecl.trigger_tidy (t : TriggerDecl) : t.tidy.trigger = t.trigger := by
  cases t with
  | delay d => exact congrArg Trigger.delay d.length_tidy
  | immediate => rfl
  | event name => rfl

/-- **The tidy form stands for the same transition.** -/
lemma TransitionDecl.transition_tidy (d : TransitionDecl) : d.tidy.transition = d.transition := by
  obtain ⟨hguards, hactions⟩ := filterMap_guardsFirst d.steps
  have hguard : StepDecl.guard? ∘ StepDecl.tidy = StepDecl.guard? :=
    funext fun step => step.references_tidy.1
  have haction : StepDecl.action? ∘ StepDecl.tidy = StepDecl.action? :=
    funext fun step => step.references_tidy.2
  rw [TransitionDecl.transition, TransitionDecl.transition, TransitionDecl.tidy,
    List.filterMap_map, List.filterMap_map, hguard, haction, hguards, hactions,
    d.trigger.trigger_tidy]

lemma TransitionDecl.valid_tidy (d : TransitionDecl) : d.tidy.valid = d.valid := by
  obtain ⟨_ | duration | _, steps, target, span⟩ := d
  · rfl
  · exact congrArg (fun n => decide (n < Duration.limit)) duration.length_tidy
  · rfl

/-- **The tidy form stands for the same binding.** -/
lemma BindingDecl.binding_tidy (d : BindingDecl) : d.tidy.binding = d.binding := by
  have hvalue : d.value.tidy.expr = d.value.expr := by
    cases d.value with
    | assign a => exact congrArg Expr.assign a.update_tidy
    | named use => rfl
  rw [BindingDecl.binding, BindingDecl.binding, BindingDecl.tidy, hvalue]

/-! ## Texts that spell tokens -/

/-- The text spells the tokens to its end, whatever stands before it. -/
def SpellsOut (ts : List Lexeme) (s : List Char) : Prop :=
  ∀ before, ∃ last, Spelling before ts s last []

lemma spellsOut_nil : SpellsOut [] [] := fun before => ⟨before, .nil⟩

namespace SpellsOut

variable {ts : List Lexeme} {s : List Char}

/-- A token may have a blank in front of it wherever it stands. -/
lemma spaced (h : SpellsOut ts s) (gap : Gap) {t : Token} (ht : t.Proper) :
    SpellsOut ((gap, t) :: ts) (' ' :: (t.text ++ s)) := by
  intro before
  obtain ⟨last, hs⟩ := h t.text.getLast?
  have hallows : gap.Allows before t.text.head? [' '] := by
    cases gap with
    | free => exact ⟨.blank (by decide) .nil, by simp⟩
    | head => exact ⟨by simp, by simp [Parser.isBlank]⟩
  exact ⟨last, .cons ht hallows hs⟩

/-- A word or a sign with a blank in front of it. -/
lemma word (h : SpellsOut ts s) {w : String} (hw : w ∈ Token.fixedTexts) :
    SpellsOut (Language.sign w :: ts) (' ' :: (w.toList ++ s)) :=
  h.spaced .free hw

/-- A sign that is no part of a name needs no blank. -/
lemma sign (h : SpellsOut ts s) {w : String} (hw : w ∈ Token.fixedTexts)
    (hname : w.toList.head?.any isNameChar = false) :
    SpellsOut (Language.sign w :: ts) (w.toList ++ s) := by
  intro before
  obtain ⟨last, hs⟩ := h (Token.fixed w).text.getLast?
  have hapart : Apart before w.toList.head? := by
    rintro ⟨-, hafter⟩
    rw [hname] at hafter
    cases hafter
  exact ⟨last, .cons (g := []) hw ⟨.nil, fun _ => hapart⟩ hs⟩

/-- A word with a parenthesis, and the token behind it. -/
lemma call (h : SpellsOut ts s) {w : String} (hw : w ∈ Token.fixedTexts) {t : Token}
    (ht : t.Proper) : SpellsOut (Language.sign w :: Language.sign "(" :: (.free, t) :: ts)
      (' ' :: (w.toList ++ '(' :: (t.text ++ s))) := by
  have hparenthesis : SpellsOut (Language.sign "(" :: (.free, t) :: ts) ('(' :: (t.text ++ s)) := by
    intro before
    obtain ⟨last, hs⟩ := h t.text.getLast?
    have hinner : Spelling (some '(') ((.free, t) :: ts) (t.text ++ s) last [] :=
      .cons (g := []) ht ⟨.nil, fun _ hboth => absurd hboth.1 (by decide)⟩ hs
    have hopen : Apart before (Token.fixed "(").text.head? := fun hboth =>
      absurd hboth.2 (by decide)
    exact ⟨last, .cons (g := []) (by decide : "(" ∈ Token.fixedTexts) ⟨.nil, fun _ => hopen⟩ hinner⟩
  exact hparenthesis.word hw

end SpellsOut

/-! ## The lines of nodes -/

section lines

variable {ts : List Lexeme} {s : List Char}

/-- The name as it is written. -/
def Named.text : Named → String
  | symbol name => ":" ++ name
  | plain name => name

lemma Named.toList_text (use : Named) : use.lexeme.2.text = use.text.toList := by
  cases use with
  | symbol name => simp [Named.lexeme, Token.text, Named.text, String.toList_append]
  | plain name => rfl

lemma Named.lexeme_eq (use : Named) : use.lexeme = (.free, use.lexeme.2) := by
  cases use <;> rfl

/-- The step as it is printed. -/
def StepDecl.text : StepDecl → String
  | guard use => "guard(" ++ use.text ++ ")"
  | action use => "action(" ++ use.text ++ ")"
  | assign d => d.update.text

/-- The lines of the references of some steps are those of the steps. -/
lemma map_text_references (steps : List StepDecl) :
    (steps.filterMap StepDecl.guard?).map Reference.guardText ++
        (steps.filterMap StepDecl.action?).map Reference.actionText =
      (guardsFirst steps).map StepDecl.text := by
  have hguards : (steps.filterMap StepDecl.guard?).map Reference.guardText =
      (steps.filter StepDecl.isGuard).map StepDecl.text := by
    rw [List.map_filterMap, ← List.filterMap_eq_map, List.filterMap_filter]
    refine List.filterMap_congr fun step _ => ?_
    rcases step with (name | name) | (name | name) | d <;> rfl
  have hactions : (steps.filterMap StepDecl.action?).map Reference.actionText =
      (steps.filter (!StepDecl.isGuard ·)).map StepDecl.text := by
    rw [List.map_filterMap, ← List.filterMap_eq_map, List.filterMap_filter]
    refine List.filterMap_congr fun step _ => ?_
    rcases step with (name | name) | (name | name) | d <;> rfl
  rw [hguards, hactions, guardsFirst, List.map_append]

/-- The text of an update spells the tidy assignment. -/
lemma AssignDecl.spells {d : AssignDecl} (hd : Legible d.tokens) (h : SpellsOut ts s) :
    SpellsOut (d.tidy.tokens ++ ts) (' ' :: (d.update.text.toList ++ s)) := by
  have hkey : (Token.name d.key).Proper := hd (plainName d.key) (by simp [AssignDecl.tokens])
  have hclosed := h.sign (w := ")") (by decide) (by decide)
  rcases d with ⟨key, _ | use⟩
  · have hcall := hclosed.call (w := "assign") (by decide) hkey
    simpa [AssignDecl.tidy, AssignDecl.tokens, AssignDecl.update, Assignment.text, plainName,
      Token.text, String.toList_append] using hcall
  · have huse : (Token.name use.name).Proper := Named.identifier (hd use.lexeme (by
      simp [AssignDecl.tokens]))
    have hvalue := (hclosed.spaced .free huse).sign (w := ",") (by decide) (by decide)
    have hcall := hvalue.call (w := "assign") (by decide) hkey
    simpa [AssignDecl.tidy, AssignDecl.tokens, AssignDecl.update, Assignment.text, plainName,
      Named.lexeme, Token.text, String.toList_append] using hcall

/-- The text of a step spells the tidy step. -/
lemma StepDecl.spells {step : StepDecl} (hstep : Legible step.tokens) (h : SpellsOut ts s) :
    SpellsOut (step.tidy.tokens ++ ts) (' ' :: (step.text.toList ++ s)) := by
  have hclosed := h.sign (w := ")") (by decide) (by decide)
  cases step with
  | guard use =>
      have huse : use.lexeme.2.Proper := hstep use.lexeme (by simp [StepDecl.tokens])
      have hcall := hclosed.call (w := "guard") (by decide) huse
      rw [← use.lexeme_eq, use.toList_text] at hcall
      simpa [StepDecl.tidy, StepDecl.tokens, StepDecl.text, String.toList_append] using hcall
  | action use =>
      have huse : use.lexeme.2.Proper := hstep use.lexeme (by simp [StepDecl.tokens])
      have hcall := hclosed.call (w := "action") (by decide) huse
      rw [← use.lexeme_eq, use.toList_text] at hcall
      simpa [StepDecl.tidy, StepDecl.tokens, StepDecl.text, String.toList_append] using hcall
  | assign d => exact AssignDecl.spells hstep h

/-- The text of a trigger spells the tidy trigger. -/
lemma TriggerDecl.spells {t : TriggerDecl} (ht : Legible t.tokens) (h : SpellsOut ts s) :
    SpellsOut (t.tidy.tokens ++ ts) (' ' :: (t.trigger.text.toList ++ s)) := by
  cases t with
  | immediate => exact h.word (w := "@immediate") (by decide)
  | event name => exact h.spaced .free (ht (plainName name) (by simp [TriggerDecl.tokens]))
  | delay d =>
      have hdigits : (toString d.length).toList = Nat.toDigits 10 d.length := by simp
      have hnumber : (Token.number (toString d.length).toList (some .milliseconds)).Proper := by
        rw [hdigits]
        exact ⟨Nat.toDigits_ne_nil, fun c hc =>
          Nat.isDigit_of_mem_toDigits (by decide) (by decide) hc⟩
      have hclosed := h.sign (w := ")") (by decide) (by decide)
      have hcall := hclosed.call (w := "delay") (by decide) hnumber
      simpa [TriggerDecl.tidy, Duration.tidy, TriggerDecl.tokens, TriggerDecl.trigger,
        Trigger.text, delayText, Token.text, TimeUnit.text, String.toList_append] using hcall

/-- Steps with arrows behind them. -/
lemma spells_steps {steps : List StepDecl} (hsteps : ∀ step ∈ steps, Legible step.tokens)
    (h : SpellsOut ts s) :
    SpellsOut ((steps.map StepDecl.tidy).flatMap (fun step => step.tokens ++ [sign "=>"]) ++ ts)
      (steps.flatMap (fun step => ' ' :: (step.text.toList ++ " =>".toList)) ++ s) := by
  induction steps with
  | nil => exact h
  | cons step steps ih =>
      obtain ⟨hstep, hsteps⟩ := List.forall_mem_cons.mp hsteps
      have harrow := (ih hsteps).word (w := "=>") (by decide)
      have hall := StepDecl.spells hstep harrow
      simpa [sign, Token.text] using hall

/-- Texts with arrows between them are texts with arrows behind them, and a last one. -/
lemma toList_intercalate_arrows (texts : List String) (first last : String) :
    (String.intercalate " => " (first :: texts ++ [last])).toList =
      first.toList ++ (" =>".toList ++
        (texts.flatMap (fun text => ' ' :: (text.toList ++ " =>".toList)) ++
          ' ' :: last.toList)) := by
  rw [String.toList_intercalate]
  induction texts generalizing first with
  | nil => simp [List.intercalate_cons_cons]
  | cons text texts ih =>
      rw [List.cons_append, List.cons_append, List.map_cons, List.map_cons,
        List.intercalate_cons_cons, ← List.map_cons, ← List.cons_append, ih text]
      simp

/-- **The line of a transition** spells the tidy form of its declaration. -/
lemma TransitionDecl.spells {d : TransitionDecl} (hd : Legible d.tokens) (h : SpellsOut ts s) :
    SpellsOut (d.tidy.tokens ++ ts) (' ' :: (d.transition.text.toList ++ s)) := by
  obtain ⟨htrigger, hrest⟩ := legible_append.mp hd
  obtain ⟨hsteps, htarget⟩ := legible_append.mp (legible_cons.mp hrest).2
  have hstep : ∀ step ∈ guardsFirst d.steps, Legible step.tokens := by
    intro step hmem
    have hmem' : step ∈ d.steps := by
      rcases List.mem_append.mp hmem with hmem | hmem <;> exact List.mem_of_mem_filter hmem
    exact (legible_append.mp (legible_flatMap.mp hsteps step hmem')).1
  have htext : d.transition.text.toList = d.trigger.trigger.text.toList ++ (" =>".toList ++
      ((guardsFirst d.steps).flatMap (fun step => ' ' :: (step.text.toList ++ " =>".toList)) ++
        ' ' :: d.target.toList)) := by
    have hlines := map_text_references d.steps
    rw [Transition.text, TransitionDecl.transition, List.cons_append, hlines,
      toList_intercalate_arrows, List.flatMap_map]
  have hlast := h.spaced .free (htarget (plainName d.target) (by simp))
  have harrow := (spells_steps hstep hlast).word (w := "=>") (by decide)
  have hall := TriggerDecl.spells htrigger harrow
  rw [htext]
  simpa [TransitionDecl.tidy, TransitionDecl.tokens, sign, plainName, Token.text] using hall

/-- **The line of a binding** spells the tidy form of its declaration. -/
lemma BindingDecl.spells {d : BindingDecl} (hd : Legible d.tokens) (h : SpellsOut ts s) :
    SpellsOut (d.tidy.tokens ++ ts) (' ' :: ((Node.binding d.binding).text.toList ++ s)) := by
  obtain ⟨hhead, hrest⟩ := legible_append.mp hd
  have hvalue := (legible_cons.mp hrest).2
  have hword : (Token.fixed d.kind.word).Proper := hhead (.free, .fixed d.kind.word) (by
    simp [headTokens])
  have hname : (Token.name d.name).Proper := hhead (.head, .name d.name) (by simp [headTokens])
  have hspelled : SpellsOut (d.value.tidy.tokens ++ ts)
      (' ' :: (d.value.expr.text.toList ++ s)) := by
    cases hd : d.value with
    | assign a => rw [hd] at hvalue; exact AssignDecl.spells hvalue h
    | named use =>
        rw [hd] at hvalue
        exact h.spaced .free (t := .name use.name)
          (Named.identifier (hvalue _ (List.mem_singleton_self _)))
  have hsign := hspelled.word (w := "=") (by decide)
  have hall := (hsign.spaced .head hname).spaced .free hword
  simpa [BindingDecl.tidy, BindingDecl.tokens, BindingDecl.binding, headTokens, sign, Node.text,
    Token.text, String.toList_append] using hall

end lines

end Statechart.Language
