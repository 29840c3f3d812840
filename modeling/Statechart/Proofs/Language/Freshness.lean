import Statechart.Proofs.Language.Account
import Statechart.Proofs.Language.Hoisting
import Statechart.Proofs.Report.Noting

/-!
# Names that are bound once

A name that is bound again is warned of.  So if nothing is warned of while a chart is read, all
names of a kind are different, in the chart and in each of its pieces.

* `Account.Continues` — an account goes on from another: the names of the bindings are added, and a
  name that is not new is not passed over in silence.

**`isMild_account`** — nothing worse than a warning is said about a chart.
**`nodup_written`**, **`nodup_pieces`** — names are bound once if nothing is warned of.
-/

namespace Statechart.Language

/-! ## Names and warnings -/

/-- An account goes on from another one, after the given bindings. -/
structure Account.Continues (acc acc' : Account) (bound : List Binding) : Prop where
  names : ∀ kind, acc'.names kind =
    ((bound.filter (·.kind = kind)).map Binding.name).reverse ++ acc.names kind
  /-- If only log entries were added, the names that were added are new. -/
  fresh : (∀ r ∈ acc'.remarks, r.isLog = true) → (∀ r ∈ acc.remarks, r.isLog = true) ∧
    ∀ kind, (acc.names kind).Nodup → (acc'.names kind).Nodup

namespace Account

variable {acc acc' acc'' : Account} {bound bound' : List Binding}

lemma Continues.refl (acc : Account) : Continues acc acc [] :=
  ⟨fun _ => rfl, fun h => ⟨h, fun _ hn => hn⟩⟩

/-- One part of a chart after another. -/
lemma Continues.trans (h₁ : Continues acc acc' bound) (h₂ : Continues acc' acc'' bound') :
    Continues acc acc'' (bound ++ bound') where
  names := fun kind => by
    rw [h₂.names, h₁.names, List.filter_append, List.map_append, List.reverse_append,
      List.append_assoc]
  fresh := fun h =>
    have hfresh := h₂.fresh h
    have hfresh' := h₁.fresh hfresh.1
    ⟨hfresh'.1, fun kind hn => hfresh.2 kind (hfresh'.2 kind hn)⟩

lemma continues_log (acc : Account) (message : String) : Continues acc (acc.log message) [] where
  names := fun kind => by cases kind <;> rfl
  fresh := fun h => by
    refine ⟨fun r hr => h r (List.mem_append_left _ hr), fun kind hn => ?_⟩
    cases kind <;> exact hn

/-- A warning is no log entry, so nothing is claimed of the names before it. -/
lemma continues_warn (hnames : ∀ kind, acc'.names kind =
      ((bound.filter (·.kind = kind)).map Binding.name).reverse ++ acc.names kind)
    (file : Nat) (span : Span) (message : String) :
    Continues acc (acc'.warn file span message) bound where
  names := fun kind => by
    rw [← hnames]
    cases kind <;> rfl
  fresh := fun h => by
    have hlog := h _ (List.mem_append_right _ (List.mem_singleton_self _))
    cases hlog

/-- A binding adds its name to those of its kind. -/
lemma names_bind (acc : Account) (d : BindingDecl) (kind : BindingKind) :
    (acc.bind d.kind d.name).names kind =
      (([d.binding].filter (·.kind = kind)).map Binding.name).reverse ++ acc.names kind := by
  have hkind : d.binding.kind = d.kind := rfl
  have hname : d.binding.name = d.name := rfl
  cases hd : d.kind <;> cases kind <;> simp [bind, names, hkind, hname, hd]

/-- A binding adds its name, and it is warned of if the name is not new. -/
lemma continues_binding (acc : Account) (file : Nat) (d : BindingDecl) :
    Continues acc (acc.binding file d) [d.binding] := by
  rw [binding]
  by_cases hbound : d.name ∈ acc.names d.kind
  · rw [if_pos hbound]
    exact continues_warn (names_bind acc d) _ _ _
  · rw [if_neg hbound]
    refine ⟨names_bind acc d, fun h => ⟨?_, fun kind hn => ?_⟩⟩
    · rwa [remarks_bind] at h
    · rw [names_bind]
      by_cases hkind : d.binding.kind = kind
      · subst hkind
        simpa using ⟨hbound, hn⟩
      · simpa [hkind] using hn

/-- The head of a state adds no name.  It may be warned of. -/
lemma continues_head (acc : Account) (file : Nat) (initial : Option String) (h : StateHead) :
    Continues acc (acc.head file initial h) [] := by
  cases initial with
  | none => exact .refl acc
  | some first =>
      rw [head]
      split
      · exact continues_warn (fun _ => rfl) _ _ _
      · exact .refl acc

mutual

lemma continues_state (file : Nat) : ∀ (d : StateDecl) (initial : Option String) (acc : Account),
    Continues acc (acc.state file initial d) d.written
  | .mk h body _, initial, acc => by
      rw [state, StateDecl.written]
      exact (continues_head acc file initial h).trans (continues_clauses file body none _)

/-- The clauses of a state, by recursion on them. -/
lemma continues_clauses (file : Nat) : ∀ (body : List Clause) (initial : Option String)
    (acc : Account), Continues acc (acc.clauses file initial body) (writtenIn body)
  | [], initial, acc => by rw [clauses, writtenIn]; exact .refl acc
  | .binding d :: rest, initial, acc => by
      rw [clauses, writtenIn]
      exact (continues_binding acc file d).trans (continues_clauses file rest initial _)
  | .invoke _ :: rest, initial, acc => by
      rw [clauses, writtenIn]
      exact continues_clauses file rest initial acc
  | .transition _ :: rest, initial, acc => by
      rw [clauses, writtenIn]
      exact continues_clauses file rest initial acc
  | .state d :: rest, initial, acc => by
      rw [clauses, writtenIn]
      exact (continues_state file d initial acc).trans (continues_clauses file rest _ _)

end

/-- The clauses of a machine, by induction on them. -/
lemma continues_machineClauses (file : Nat) (body : List MachineClause) :
    ∀ (initial : Option String) (acc : Account),
      Continues acc (acc.machineClauses file initial body)
        (body.flatMap (MachineClause.bindings StateDecl.written)) := by
  induction body with
  | nil => exact fun _ acc => .refl acc
  | cons c rest ih =>
      intro initial acc
      cases c with
      | binding d => exact (continues_binding acc file d).trans (ih _ _)
      | state d => exact (continues_state file d initial acc).trans (ih _ _)

/-- A declaration adds the names of its bindings. -/
lemma continues_item (file : Nat) (i : Item) (acc : Account) :
    Continues acc (acc.item file i) (i.bindings StateDecl.written) := by
  cases i with
  | importDecl d => exact .refl acc
  | binding d => exact continues_binding acc file d
  | machine d => exact (continues_log acc _).trans (continues_machineClauses file d.body none _)

/-- **The account of a chart** goes on from the one before it, after all its bindings. -/
lemma continues_items (file : Nat) (is : List Item) : ∀ acc : Account,
    Continues acc (acc.items file is) (is.flatMap (Item.bindings StateDecl.written)) := by
  induction is with
  | nil => exact fun acc => .refl acc
  | cons i rest ih => exact fun acc => (continues_item file i acc).trans (ih _)

end Account

/-- Nothing worse than a warning is said about a chart that is read. -/
lemma isMild_account (file : Nat) (items : List Item) :
    ∀ r ∈ (Account.items file items {}).remarks, r.isMild = true := by
  intro r hr
  rw [← (Assembling.built_items file items).told] at hr
  rcases mem_carry (Array.mem_toList_iff.mp hr) with hr | hr
  · exact absurd hr (by simp)
  · exact hr.mild

/-- **Names are bound once** in a chart of which nothing is warned. -/
lemma nodup_written {file : Nat} {items : List Item}
    (h : ∀ r ∈ (Account.items file items {}).remarks, r.isLog = true) (kind : BindingKind) :
    (((items.flatMap (Item.bindings StateDecl.written)).filter (·.kind = kind)).map
      Binding.name).Nodup := by
  have hcontinues := Account.continues_items file items {}
  have hnone : ({} : Account).names kind = [] := by cases kind <;> rfl
  have hnodup := (hcontinues.fresh h).2 kind (by rw [hnone]; exact List.nodup_nil)
  rw [hcontinues.names, hnone, List.append_nil] at hnodup
  exact List.nodup_reverse.mp hnodup

/-- So are those of each piece. -/
lemma nodup_pieces {file : Nat} {items : List Item}
    (h : ∀ r ∈ (Account.items file items {}).remarks, r.isLog = true) {piece : List Binding}
    (hpiece : piece ∈ pieces StateDecl.gathered items) (kind : BindingKind) :
    ((piece.filter (·.kind = kind)).map Binding.name).Nodup := by
  have hperm := ((flatten_pieces_perm items).filter (·.kind = kind)).map Binding.name
  refine (hperm.nodup_iff.mpr (nodup_written h kind)).sublist ?_
  exact ((List.sublist_flatten_of_mem hpiece).filter _).map _

end Statechart.Language
