import Mathlib.Data.List.SplitBy
import Statechart.Proofs.Output.Progress

/-!
# Runs of transitions

Below a state, transitions of one class that follow each other are written into one container.
Bindings are written elsewhere and do not count, but any other node between two transitions ends a
run.  When a row grows by a node, the runs change at the end only.

* `runStarts` — the first nodes of the runs in a row.
* `startsOf` — those of a class.

**`tail_startsOf_concat`** — a transition begins a run after the first of its class exactly if the
class is not open and had a transition before.
-/

namespace Statechart.Output

/-- The first nodes of the runs in a row. -/
def runStarts (row : List Tree) : List Tree :=
  ((row.filter (·.payload.kind ≠ .binding)).splitBy fun t u =>
    batchOf t.payload = batchOf u.payload).filterMap List.head?

/-- The transitions that begin a run of a class. -/
def startsOf (b : Batch) (row : List Tree) : List Tree :=
  (runStarts row).filter (batchOf ·.payload = some b)

/-! ## Lists that grow -/

/-- The last run of a list is made longer by an element that belongs to it. -/
lemma splitBy_concat {α : Type} {r : α → α → Bool} {l run : List α} {runs : List (List α)} {x a : α}
    (hruns : l.splitBy r = runs ++ [run]) (hx : l.getLast? = some x) (hxa : r x a = true) :
    (l ++ [a]).splitBy r = runs ++ [run ++ [a]] := by
  obtain ⟨hflat, hnil, hchain, hapart⟩ := List.splitBy_eq_iff.mp hruns
  have hrun : run ≠ [] := fun h => hnil (by simp [h])
  rw [List.isChain_append] at hapart
  refine List.splitBy_eq_iff.mpr ⟨by simp [hflat], ?_, ?_, ?_⟩
  · simp_all
  · intro m hm
    rcases List.mem_append.mp hm with hm | hm
    · exact hchain m (List.mem_append_left _ hm)
    · obtain rfl := List.mem_singleton.mp hm
      rw [List.isChain_append]
      refine ⟨hchain run (by simp), by simp, fun y hy z hz => ?_⟩
      rw [hflat, List.flatten_append, List.flatten_singleton,
        List.getLast?_append_of_ne_nil _ hrun] at hx
      simp_all
  · rw [List.isChain_append]
    refine ⟨hapart.1, by simp, fun y hy z hz => ?_⟩
    obtain ⟨hy', hrun', hyz⟩ := hapart.2.2 y hy run rfl
    obtain rfl := Option.some.inj hz
    refine ⟨hy', by simp, ?_⟩
    rwa [List.head_append_of_ne_nil hrun]

/-- The heads of the runs when a list grows at its end. -/
lemma filterMap_head?_splitBy_concat {α : Type} (r : α → α → Bool) (l : List α) (a : α) :
    ((l ++ [a]).splitBy r).filterMap List.head? =
      (l.splitBy r).filterMap List.head? ++ if l.getLast?.any (r · a) then [] else [a] := by
  by_cases hjoin : l.getLast?.any (r · a) = true
  · obtain ⟨x, hx, hxa⟩ := (Option.any_eq_true _ _).mp hjoin
    have hne : l.splitBy r ≠ [] := List.splitBy_ne_nil.mpr fun hl => by simp [hl] at hx
    obtain ⟨runs, run, hruns⟩ : ∃ runs run, l.splitBy r = runs ++ [run] :=
      ⟨_, _, (List.dropLast_append_getLast hne).symm⟩
    have hrun : run ≠ [] := List.ne_nil_of_mem_splitBy (r := r) (l := l) (by simp [hruns])
    have hhead : (run ++ [a]).head? = run.head? := by
      cases run with
      | nil => exact absurd rfl hrun
      | cons y ys => rfl
    rw [if_pos hjoin, List.append_nil, splitBy_concat hruns hx hxa, hruns, List.filterMap_append,
      List.filterMap_append, List.filterMap_cons, List.filterMap_cons, hhead]
  · have hapart : ∀ x ∈ l.getLast?, r x a = false := fun x hx => by
      rw [Option.mem_def.mp hx] at hjoin
      simpa using hjoin
    rw [List.splitBy_append_cons [] hapart, List.filterMap_append, if_neg hjoin]
    rfl

/-! ## Rows that grow -/

/-- The class of the last node that writes something, bindings aside. -/
lemma lastWriting_eq (row : List Tree) : Tree.lastWriting row =
    (row.filter (·.payload.kind ≠ .binding)).getLast?.map Tree.payload := by
  induction row using List.reverseRecOn with
  | nil => rfl
  | append_singleton row t ih =>
      rw [Tree.lastWriting_concat, List.filter_append]
      by_cases ht : t.payload.kind = .binding
      · rw [if_pos ht, List.filter_cons_of_neg (by simpa using ht), List.filter_nil,
          List.append_nil, ih]
      · rw [if_neg ht, List.filter_cons_of_pos (by simpa using ht), List.filter_nil,
          List.getLast?_concat]
        rfl

section starts

variable {row : List Tree} {t : Tree} {b : Batch}

lemma kind_ne_binding (ht : batchOf t.payload = some b) : t.payload.kind ≠ .binding := by
  intro hkind
  cases hp : t.payload <;> simp [hp, batchOf, Node.kind] at ht hkind

/-- Only a transition of a class begins a run of the class. -/
lemma startsOf_concat_other (ht : batchOf t.payload ≠ some b) :
    startsOf b (row ++ [t]) = startsOf b row := by
  rw [startsOf, startsOf, runStarts, runStarts, List.filter_append]
  by_cases hkind : t.payload.kind = .binding
  · rw [List.filter_cons_of_neg (by simpa using hkind), List.filter_nil, List.append_nil]
  · rw [List.filter_cons_of_pos (by simpa using hkind), List.filter_nil,
      filterMap_head?_splitBy_concat, List.filter_append]
    have hnone : ∀ c : Bool, List.filter (fun u : Tree => decide (batchOf u.payload = some b))
        (if c then [] else [t]) = [] := fun c => by cases c <;> simp [ht]
    rw [hnone, List.append_nil]

/-- A transition begins a run unless its class is open. -/
lemma startsOf_concat (ht : batchOf t.payload = some b) :
    startsOf b (row ++ [t]) =
      startsOf b row ++ if sharedBatch row [t] = none then [t] else [] := by
  have hkind := kind_ne_binding ht
  have hshared : (row.filter (·.payload.kind ≠ .binding)).getLast?.any
      (fun u => decide (batchOf u.payload = batchOf t.payload)) =
        decide (sharedBatch row [t] ≠ none) := by
    rw [sharedBatch, lastWriting_eq, Tree.firstWriting_cons, if_neg hkind, Option.bind_some, ht]
    cases (row.filter (·.payload.kind ≠ .binding)).getLast? with
    | none => rfl
    | some u =>
        rw [Option.map_some, Option.bind_some, Option.any_some]
        by_cases hu : batchOf u.payload = some b <;> simp [hu]
  rw [startsOf, startsOf, runStarts, runStarts, List.filter_append,
    List.filter_cons_of_pos (by simpa using hkind), List.filter_nil,
    filterMap_head?_splitBy_concat, hshared, List.filter_append]
  by_cases hnone : sharedBatch row [t] = none <;> simp [hnone, ht]

/-- A node of another class has no part in this class. -/
lemma get_batchesIn_concat (ht : batchOf t.payload ≠ some b) :
    (batchesIn (row ++ [t])).get b = (batchesIn row).get b := by
  cases htb : batchOf t.payload with
  | none => rw [batchesIn_concat_other row htb]
  | some c =>
      rw [batchesIn_concat_transition row htb]
      cases b <;> cases c <;> simp_all [BatchFlags.get, BatchFlags.set]

/-- A class begins a run exactly if there is a transition of it. -/
lemma startsOf_ne_nil : startsOf b row ≠ [] ↔ (batchesIn row).get b = true := by
  induction row using List.reverseRecOn with
  | nil => cases b <;> simp [startsOf, runStarts, batchesIn, BatchFlags.get]
  | append_singleton row t ih =>
      by_cases ht : batchOf t.payload = some b
      · have hset : (batchesIn (row ++ [t])).get b = true := by
          rw [batchesIn_concat_transition row ht]
          cases b <;> rfl
        refine iff_of_true ?_ hset
        rw [startsOf_concat ht]
        by_cases hnone : sharedBatch row [t] = none
        · simp [hnone]
        · -- the class is open, so it was begun before
          obtain ⟨c, hc⟩ := Option.ne_none_iff_exists'.mp hnone
          obtain rfl : b = c :=
            Option.some.inj (ht.symm.trans (eq_batchOf_of_sharedBatch (kind_ne_binding ht) hc))
          simp [hnone, ih.mpr (batchesIn_of_sharedBatch hc)]
      · rw [startsOf_concat_other ht, get_batchesIn_concat ht, ih]

/-- A transition repeats a class if it begins a run of it and there was one before. -/
lemma tail_startsOf_concat (ht : batchOf t.payload = some b) :
    (startsOf b (row ++ [t])).tail = (startsOf b row).tail ++
      if sharedBatch row [t] = none ∧ (batchesIn row).get b = true then [t] else [] := by
  rw [startsOf_concat ht]
  by_cases hstarts : startsOf b row = []
  · have hfresh : (batchesIn row).get b ≠ true := fun h => startsOf_ne_nil.mpr h hstarts
    have hnot : ¬(sharedBatch row [t] = none ∧ (batchesIn row).get b = true) := fun h =>
      hfresh h.2
    rw [hstarts, if_neg hnot]
    split <;> rfl
  · rw [List.tail_append_of_ne_nil hstarts]
    simp [startsOf_ne_nil.mp hstarts]

end starts

end Statechart.Output
