import Statechart.Proofs.Language.Acceptance
import Statechart.Proofs.Language.Assembly
import Statechart.Proofs.Language.Soundness

/-!
# The language of charts

The two directions together.  A text is read exactly if it is a rendering of a chart in which the
states of each machine have different names and every delay is below the limit, and **what is read
is the chart and nothing else**: its nodes, their payloads and their links are given by
`itemTrees`, in which blank text, comments and the choice of quotes have no part.
-/

namespace Statechart.Language

open Statechart.Tree

section bare

variable {items found : List Item}

lemma itemTrees_eq_of_bare (h : found.map Item.bare = items.map Item.bare) :
    itemTrees found = itemTrees items := by
  rw [← itemTrees_bare found, h, itemTrees_bare]

lemma valid_eq_of_bare (h : found.map Item.bare = items.map Item.bare) :
    found.all Item.valid = items.all Item.valid := by
  have hall := congrArg (List.all · Item.valid) h
  simp only [List.all_map] at hall
  rwa [show Item.valid ∘ Item.bare = Item.valid from funext Item.valid_bare] at hall

lemma updates_eq_of_bare (h : found.map Item.bare = items.map Item.bare) :
    found.any Item.updates = items.any Item.updates := by
  have hany := congrArg (List.any · Item.updates) h
  simp only [List.any_map] at hany
  rwa [show Item.updates ∘ Item.bare = Item.updates from funext Item.updates_bare] at hany

end bare

/-- **Exactly the renderings of valid charts are read**, and what is read depends on the chart
alone: not on the text, of which the second half speaks only to say what it renders. -/
theorem read_recognizes (file : Nat) (text : String) :
    ((∃ program remarks, read file text = (.ok program, remarks)) ↔
      ∃ items, Renders items text.toList ∧ items.all Item.valid = true) ∧
    ∀ items program remarks, Renders items text.toList →
      read file text = (.ok program, remarks) →
      program.forest.Represents (itemTrees items) ∧
      program.forest.nodes.size = (ids (itemTrees items)).length ∧
      program.usesAssign = items.any Item.updates := by
  refine ⟨⟨?_, ?_⟩, ?_⟩
  · rintro ⟨program, remarks, hread⟩
    obtain ⟨items, hparse, hvalid, -⟩ := read_eq_ok hread
    exact ⟨items, renders_of_parse hparse, hvalid⟩
  · rintro ⟨items, hrenders, hvalid⟩
    obtain ⟨found, hparse, hbare⟩ := parse_of_renders hrenders
    exact read_of_parse hparse ((valid_eq_of_bare hbare).trans hvalid) file
  · intro items program remarks hrenders hread
    obtain ⟨found, hparse, hbare⟩ := parse_of_renders hrenders
    obtain ⟨found', hparse', -, hrep, hsize, hupdates⟩ := read_eq_ok hread
    obtain rfl : found' = found := Except.ok.inj (hparse'.symm.trans hparse)
    rw [← itemTrees_eq_of_bare hbare, ← updates_eq_of_bare hbare]
    exact ⟨hrep, hsize, hupdates⟩

/-! ### An example -/

/-- A chart in which events, targets and states are called by words of the language, with comments
and without a blank that is not needed. -/
def borrowedWords : String :=
  "use'./m'machine//a\n\x7binitial state\tstate\x7bguard=>guard(guard)=>invoke delay=>assign " ++
    "initial=>state @immediate=>action//b\r\n\x7d\x7d//c"

lemma borrowedWords_valid : (match parse borrowedWords with
    | .ok items => items.all Item.valid && decide ((ids (itemTrees items)).length = 7)
    | .error _ => false) = true := by
  decide +kernel

/-- Words of the language may be used as names. -/
theorem read_borrowedWords : ∃ items program remarks, Renders items borrowedWords.toList ∧
    read 0 borrowedWords = (.ok program, remarks) ∧ program.forest.nodes.size = 7 := by
  have hvalid := borrowedWords_valid
  generalize hparse : parse borrowedWords = outcome at hvalid
  cases outcome with
  | error attempts => cases hvalid
  | ok items =>
      simp only [Bool.and_eq_true, decide_eq_true_eq] at hvalid
      have hrenders := renders_of_parse hparse
      obtain ⟨hiff, hchart⟩ := read_recognizes 0 borrowedWords
      obtain ⟨program, remarks, hread⟩ := hiff.mpr ⟨items, hrenders, hvalid.1⟩
      obtain ⟨-, hsize, -⟩ := hchart items program remarks hrenders hread
      exact ⟨items, program, remarks, hrenders, hread, hsize.trans hvalid.2⟩

end Statechart.Language
