/-!
# Side tables

A table of entries by number that is never too short: every number can be read, and reads as
the default until it is written.  Writing makes the table long enough.

* `SideTable.get` and `SideTable.set`, with the one law that relates them: `get_set`.
* `SideTable.size` — one more than the largest number written so far.
-/

namespace Statechart

/-- Entries by number, with a default for every number that was not written. -/
structure SideTable (α : Type) where
  entries : Array α := #[]
deriving DecidableEq

namespace SideTable

variable {α : Type} [Inhabited α]

/-- How many entries are stored; those that follow have the default. -/
def size (t : SideTable α) : Nat := t.entries.size

/-- The entry with the given number. -/
def get (t : SideTable α) (i : Nat) : α := t.entries.getD i default

/-- Change the entry with the given number, and make the table long enough for it. -/
def set (t : SideTable α) (i : Nat) (a : α) : SideTable α :=
  if i < t.entries.size then ⟨t.entries.setIfInBounds i a⟩
  else ⟨(t.entries ++ Array.replicate (i - t.entries.size) default).push a⟩

/-- **A write is seen at its own number and nowhere else.** -/
theorem get_set (t : SideTable α) (i j : Nat) (a : α) :
    (t.set i a).get j = if j = i then a else t.get j := by
  unfold set get
  simp only [Array.getD_eq_getD_getElem?]
  split
  · rename_i h
    rw [Array.getElem?_setIfInBounds]
    by_cases hij : j = i
    · subst hij; simp [h]
    · simp [hij, Ne.symm hij]
  · rename_i h
    rw [Array.getElem?_push, Array.getElem?_append, Array.getElem?_replicate]
    simp only [Array.size_append, Array.size_replicate]
    have hi : t.entries.size + (i - t.entries.size) = i := by omega
    rw [hi]
    by_cases hij : j = i
    · simp [hij]
    · simp only [hij, if_false]
      by_cases hj : j < t.entries.size
      · simp [hj]
      · rw [Array.getElem?_eq_none (by omega : t.entries.size ≤ j)]
        simp only [hj, if_false]
        split <;> rfl

end SideTable

end Statechart
