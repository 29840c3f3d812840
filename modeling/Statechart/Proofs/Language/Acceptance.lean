import Statechart.Proofs.Language.Completeness

/-!
# Nested declarations and whole charts are accepted

The rules with rows in them: transitions, invocations, states, machines, imports, charts.

* `lone_of_trigger` — in front of an arrow no binding, invocation or state is seen, whatever the
  event is called.
* `readsLoosely_state` — states are read at every depth, since each level takes characters of its
  own and so the levels last.
* `readsLoosely_item` — declarations of the top level.
* `parse_of_renders` — whole charts.
-/

namespace Statechart.Language

open Statechart.Language.Parser Statechart.Language.Grammar

/-! ## Rows of one kind of declaration -/

section rows

variable {α β : Type} {T : α → List Lexeme → Prop} {tokens : α → List Lexeme} {e : α → β}
  {p : Parser α} {bound : Nat}

lemma ReadsLoosely.mono {bound' : Nat} (h : ReadsLoosely T e p bound) (hle : bound' ≤ bound) :
    ReadsLoosely T e p bound' :=
  fun _ _ _ _ _ hts hlen => h hts (Nat.le_trans hlen hle)

/-- Declarations with one spelling, which leave the trivia behind them alone. -/
lemma readsLoosely_of_reads (h : ∀ ⦃a s last r⦄, s.length ≤ bound → Begins (tokens a) s last r →
    Apart last r.head? → Calm r → Reads e p s (e a) r) :
    ReadsLoosely (fun a ts => ts = tokens a) e p bound := by
  rintro a ts s last r rfl hlen hbegins ha hc
  exact ⟨r, .inl rfl, h hlen hbegins ha hc⟩

end rows

section declarations

variable {s t r : List Char} {before last : Option Char} {ts : List Lexeme} {w : String}

/-! ## In front of signs -/

/-- In front of a sign stands no character of a class that has neither the sign nor trivia. -/
lemma any_head?_of_sign {isIn : Char → Bool} (h : Spelling before (sign w :: ts) s last r)
    (hw : w.toList.head?.any isIn = false)
    (hsolid : ∀ x, isIn x = true → isBlank x = false ∧ x ≠ '/') : s.head?.any isIn = false := by
  cases s with
  | nil => rfl
  | cons x s =>
      by_contra hx
      have hx : isIn x = true := by simpa using hx
      have hclear : clear (x :: s) = x :: s := Solid.clear_eq (by rintro y ⟨⟩; exact hsolid x hx)
      obtain ⟨t, us, u, ⟨⟩, hs, hproper, -⟩ := (h.begins ⟨_, _, rfl⟩).1
      rw [hclear] at hs
      have hhead := congrArg List.head? hs
      rw [List.head?_append_of_ne_nil _ (Token.solid hproper).2] at hhead
      rw [show w.toList.head? = some x from hhead.symm, Option.any_some, hx] at hw
      cases hw

/-- What begins with a sign begins with the first character of that sign. -/
lemma any_head?_of_begins {isIn : Char → Bool} (h : Begins (sign w :: ts) s last r)
    (hw : w.toList.head?.any isIn = false) : s.head?.any isIn = false := by
  obtain ⟨t, us, u, ⟨⟩, rfl, hproper, -⟩ := h
  rw [List.head?_append_of_ne_nil _ (Token.solid hproper).2]
  exact hw

/-- Where a sign stands, no name begins. -/
lemma lone_of_sign (h : Begins (sign w :: ts) s last r)
    (hw : w.toList.head?.any isNameChar = false) : Lone s := by
  have hhead := any_head?_of_begins h hw
  refine ⟨[], s, rfl, by simp, hhead, any_dropWhile_of_clear ?_⟩
  rw [h.clear_eq]
  exact any_head?_of_imp (fun _ => isNameChar_of_isNameStart) hhead

/-- A name in front of a sign is on its own. -/
lemma lone_of_word {n : List Char} (hn : ∀ x ∈ n, isNameChar x = true)
    (hlast : n.getLast?.any isNameChar = true) (h : Spelling n.getLast? (sign w :: ts) t last r)
    (hw : w.toList.head?.any isNameChar = false) : Lone (n ++ t) := by
  obtain ⟨hbegins, ha⟩ := h.begins ⟨_, _, rfl⟩
  refine ⟨n, t, rfl, hn, ha.after hlast, any_dropWhile_of_clear ?_⟩
  exact any_head?_of_imp (fun _ => isNameChar_of_isNameStart) (any_head?_of_begins hbegins hw)

/-! ## Transitions -/

/-- Steps begin with a word. -/
lemma opening_step (d : StepDecl) : Opening d.tokens := by
  cases d with
  | guard use => exact opening_sign (by decide) _
  | action use => exact opening_sign (by decide) _
  | assign d => exact opening_sign (by decide) _

/-- Triggers begin with a word or with the name of an event. -/
lemma opening_trigger (d : TriggerDecl) : Opening d.tokens := by
  cases d with
  | immediate => exact opening_sign (by decide) _
  | delay d => exact opening_sign (by decide) _
  | event n => exact opening_name n _

/-- A step is read up to the arrow behind it. -/
lemma readsLoosely_stepArrow (bound : Nat) :
    ReadsLoosely (fun (d : StepDecl) ts => ts = d.tokens ++ [sign "=>"]) id (do
      let step ← step
      skip
      literal "=>"
      return step) bound := by
  refine readsLoosely_of_reads fun d s last r _ h _ _ => ?_
  obtain ⟨mid, t, hstep, harrow⟩ := begins_append h (opening_step d).ne_nil
  exact (reads_step hstep).bind fun d' hd => reads_skip_last harrow (reads_pure hd r)

/-- Transitions are accepted.  The row of steps ends at the target, which is not a step. -/
lemma reads_transition {d : TransitionDecl} (h : Begins d.tokens s last r)
    (ha : Apart last r.head?) (hc : Calm r) :
    Reads TransitionDecl.bare transition s d.bare r := by
  obtain ⟨trigger, steps, name, span⟩ := d
  obtain ⟨mid, s₁, htrigger, harrow⟩ := begins_append h (opening_trigger trigger).ne_nil
  obtain ⟨-, ha₁, hc₁⟩ := harrow.follow (opening_sign (by decide) _)
  refine Reads.declare (e := fun x : TriggerDecl × List StepDecl × String => (x.1.bare, x.2))
    (b := (trigger.bare, steps, name)) ?_ ?_
  · refine (reads_trigger htrigger ha₁ hc₁).bind fun trigger' htrigger' => ?_
    refine reads_skip_word harrow fun s₂ hrest => reads_skip_bind ?_
    obtain ⟨mid', s₃, hsteps, htarget⟩ := spelling_append hrest
    obtain ⟨hname, ha₃, hc₃⟩ := htarget.follow (opening_name _ _)
    obtain ⟨v, hv, hreads⟩ := reads_row (readsLoosely_stepArrow _)
      (fun d ts hts => hts ▸ (opening_step d).append _) (row_iff.mpr rfl) hsteps ha₃ hc₃
      (rejects_step hname ha hc).bind (Nat.le_refl _)
    refine hreads.bind fun steps' hsteps' => reads_skip_bind ?_
    rw [List.map_id, List.map_id] at hsteps'
    rw [hv]
    have hread : Reads id target (clear s₃) name r :=
      (reads_plainName hname ha).rule.map fun _ hn => hn
    refine hread.map fun name' hname' => ?_
    rw [htrigger', hsteps', show name' = name from hname']
  · rintro ⟨⟨trigger', steps', name'⟩, span'⟩ hdecl
    simp only [Prod.mk.injEq] at hdecl
    obtain ⟨htrigger', rfl, rfl⟩ := hdecl
    exact reads_pure (by simp [TransitionDecl.bare, htrigger']) r

/-- Before the first arrow of a transition there is no head of another declaration. -/
lemma lone_of_trigger {d : TriggerDecl} (h : Begins (d.tokens ++ sign "=>" :: ts) s last r) :
    Lone s := by
  cases d with
  | immediate => exact lone_of_sign h (by decide)
  | delay d =>
      obtain ⟨t, us, u, ⟨⟩, rfl, -, hrest⟩ := h
      exact lone_of_word (List.all_eq_true.mp (by decide)) (by decide) hrest (by decide)
  | event n =>
      obtain ⟨t, us, u, ⟨⟩, rfl, hn, hrest⟩ := h
      exact lone_of_word (fun x hx => isNameChar_of_mem hn hx) (any_getLast? hn) hrest (by decide)

/-- A row of transitions stops in front of a brace. -/
lemma rejects_transition (h : Begins (sign "\x7d" :: ts) s last r) : Rejects transition s := by
  refine Rejects.bind (Rejects.rule (Rejects.bind ?_))
  refine Rejects.orElse_rejects ?_ (Rejects.orElse_rejects ?_ ?_)
  · exact Rejects.bind (Rejects.bind (Rejects.rule (rejects_other h (by decide)).bind))
  · exact Rejects.bind (Rejects.bind (Rejects.rule (rejects_other h (by decide)).bind))
  · have hname : s.head?.any isNameStart = false := any_head?_of_begins h (by decide)
    exact Rejects.bind (Rejects.bind (rejects_name hname).rule)

/-! ## Invocations -/

/-- The names behind the first one of a path are read up to where neither a name nor the path goes
on. -/
lemma readsAll_dotted {more : List (List Char)} (hmore : ∀ part ∈ more, isIdentifier part = true)
    (hname : r.head?.any isNameChar = false) (hdot : r.head?.any (· = '.') = false) :
    ReadsAll id (do
      literal "."
      let part ← name
      return "." ++ part) ((more.flatMap fun part => '.' :: part) ++ r)
      (more.map fun part => "." ++ String.ofList part) r := by
  induction more with
  | nil =>
      refine .stop (rejects_literal ?_).bind
      rintro ⟨u, rfl⟩
      cases hdot
  | cons part more ih =>
      have hpart : isIdentifier (String.ofList part).toList = true := by
        rw [String.toList_ofList]
        exact hmore part List.mem_cons_self
      have hend : ((more.flatMap fun part => '.' :: part) ++ r).head?.any isNameChar = false := by
        cases more with
        | nil => exact hname
        | cons part more => rfl
      have hread := reads_name hpart hend
      rw [String.toList_ofList] at hread
      rw [List.flatMap_cons, List.append_assoc]
      refine .more ((reads_literal "." _).bind fun _ _ => hread.map fun n hn => ?_) ?_
        (ih fun part hp => hmore part (List.mem_cons_of_mem _ hp))
      · rw [show n = _ from hn]
        rfl
      · simp only [List.length_append, List.length_cons]
        omega

/-- Behind its first name, a path has a dot in front of each. -/
lemma toList_join_dotted (more : List (List Char)) :
    (String.join (more.map fun part => "." ++ String.ofList part)).toList =
      more.flatMap fun part => '.' :: part := by
  induction more with
  | nil => rfl
  | cons part more ih =>
      rw [List.map_cons, String.join_cons, String.toList_append, ih, String.toList_append,
        String.toList_ofList, String.toList_ofList]
      rfl

/-- Paths are accepted if neither a name nor the path goes on behind them. -/
lemma reads_callRef {path : String} (h : Begins [(.free, .path path)] s last r)
    (hname : r.head?.any isNameChar = false) (hdot : r.head?.any (· = '.') = false) :
    Reads id callRef s path r := by
  obtain ⟨⟨first, more, hfirst, hmore, hpath⟩, rfl, -⟩ := begins_singleton.mp h
  have hfirst' : isIdentifier (String.ofList first).toList = true := by rwa [String.toList_ofList]
  have hend : ((more.flatMap fun part => '.' :: part) ++ r).head?.any isNameChar = false := by
    cases more with
    | nil => exact hname
    | cons part more => rfl
  have hread := reads_name hfirst' hend
  rw [String.toList_ofList] at hread
  rw [Token.text, hpath, List.append_assoc]
  refine Reads.declare (e := id) (b := path) ?_ fun _ hx => reads_pure hx r
  refine hread.bind fun n hn => (readsAll_dotted hmore hname hdot).many.map fun parts hparts => ?_
  rw [List.map_id] at hparts
  rw [show n = _ from hn, hparts]
  refine String.toList_injective ?_
  rw [id, String.toList_append, toList_join_dotted, String.toList_ofList, hpath]

/-- Invocations are accepted.  The row of transitions ends at the brace. -/
lemma reads_invoke {d : InvokeDecl} (h : Begins d.tokens s last r) :
    Reads InvokeDecl.bare invoke s d.bare r := by
  obtain ⟨service, transitions, span⟩ := d
  obtain ⟨mid, s₁, hhead, hblock⟩ := begins_append h (List.cons_ne_nil _ _)
  refine Reads.declare (e := fun x : String × List TransitionDecl =>
    (x.1, x.2.map TransitionDecl.bare)) (b := (service, transitions.map TransitionDecl.bare)) ?_ ?_
  · have hname : s₁.head?.any isNameChar = false := any_head?_of_sign hblock (by decide) fun x hx =>
      ⟨isBlank_of_isNameChar hx, ne_of_isNameChar hx (by decide)⟩
    have hdot : s₁.head?.any (· = '.') = false := any_head?_of_sign hblock (by decide) fun x hx => by
      rw [show x = '.' by simpa using hx]
      decide
    have hservice : Reads id invokeHead s service s₁ := by
      obtain ⟨-, g, u, rfl, hg, hpath⟩ := begins_headTokens.mp hhead
      refine Reads.declare (e := id) (b := service) ?_ fun _ hx => reads_pure hx s₁
      exact (reads_literal _ _).bind fun _ _ => (reads_gap hg hpath).bind fun _ _ =>
        reads_callRef hpath hname hdot
    refine hservice.bind fun service' hservice' => ?_
    refine reads_block (readsLoosely_of_reads fun d s last r _ h ha hc => reads_transition h ha hc)
      (fun d ts hts => hts ▸ (opening_trigger _).append _) (row_iff.mpr rfl) hblock
      (fun t ht => rejects_transition ht) fun body hbody => reads_pure ?_ r
    rw [hbody, show service' = service from hservice']
  · rintro ⟨⟨service', transitions'⟩, span'⟩ hdecl
    simp only [Prod.mk.injEq] at hdecl
    obtain ⟨rfl, htransitions⟩ := hdecl
    exact reads_pure (by simp [InvokeDecl.bare, htransitions]) r

/-! ## States -/

/-- The modifiers of a state are read up to the word behind them. -/
lemma readsAll_modifiers {n : String} : ∀ {modifiers : List Modifier} {s : List Char},
    Begins (headTokens (modifiers.map (fun m => .fixed m.word) ++ [.fixed "state", .name n])) s last r →
    ∃ t, Begins (headTokens [.fixed "state", .name n]) t last r ∧
      ReadsAll id (do
        let modifier ← stateModifier
        blanks
        return modifier) s modifiers t
  | [], s, h => by
      refine ⟨s, h, .stop (Rejects.bind (Rejects.bind (Rejects.rule ?_)))⟩
      have hword : Begins (sign "state" :: [(.head, .name n)]) s last r := h
      exact Rejects.orElse_rejects (rejects_other hword (by decide)).bind
        (rejects_other hword (by decide)).bind
  | m :: ms, s, h => by
      have hrest : ∃ x xs, ms.map (fun m => Token.fixed m.word) ++ [.fixed "state", .name n] =
          x :: xs := by
        cases ms <;> exact ⟨_, _, rfl⟩
      obtain ⟨x, xs, hxs⟩ := hrest
      rw [List.map_cons, List.cons_append, hxs] at h
      obtain ⟨-, g, u, rfl, hg, hu⟩ := begins_headTokens.mp h
      have hgap := reads_gap hg hu
      rw [← hxs] at hu
      obtain ⟨t, ht, hall⟩ := readsAll_modifiers hu
      have hword : Reads id stateModifier (m.word.toList ++ (g ++ u)) m (g ++ u) :=
        reads_choice Modifier.word (a := .initial) (b := .final) (by decide) m
          (by cases m <;> simp) _
      refine ⟨t, ht, .more (hword.bind fun m' hm => hgap.map fun _ _ => hm) ?_ hall⟩
      have hpos := List.length_pos_of_ne_nil hg.1
      rw [List.length_append, List.length_append]
      omega

/-- The heads of states are accepted. -/
lemma reads_stateHead {head : StateHead} (h : Begins head.tokens s last r)
    (ha : Apart last r.head?) : Reads StateHead.bare stateHead s head.bare r := by
  obtain ⟨modifiers, n, span⟩ := head
  obtain ⟨t, hname, hmodifiers⟩ := readsAll_modifiers h
  refine Reads.declare (e := id) (b := (modifiers, n)) ?_ fun x hx =>
    reads_pure (by rw [show x.value = _ from hx]; rfl) r
  refine hmodifiers.many.bind fun modifiers' hmodifiers' => ?_
  obtain ⟨-, g, u, rfl, hg, hname⟩ := begins_headTokens.mp hname
  refine (reads_literal _ _).bind fun _ _ => (reads_gap hg hname).bind fun _ _ => ?_
  refine (reads_ident hname ha).map fun n' hn => ?_
  rw [List.map_id] at hmodifiers'
  rw [hmodifiers', hn, id]

lemma opening_head (w : String) (hw : w.toList.head?.all (fun x => x ≠ '(' ∧ x ≠ '{') = true)
    (ts : List Token) : Opening (headTokens (.fixed w :: ts)) := opening_sign hw _

lemma opening_binding (d : BindingDecl) : Opening d.tokens := by
  refine (opening_head _ ?_ _).append _
  cases d.kind <;> decide

/-- The first word of a state. -/
lemma StateHead.exists_word (head : StateHead) :
    ∃ w us, head.tokens = sign w :: us ∧ (w = "initial" ∨ w = "final" ∨ w = "state") := by
  obtain ⟨_ | ⟨m, ms⟩, n, span⟩ := head
  · exact ⟨_, _, rfl, .inr (.inr rfl)⟩
  · cases m with
    | initial => exact ⟨_, _, rfl, .inl rfl⟩
    | final => exact ⟨_, _, rfl, .inr (.inl rfl)⟩

/-- The first word of a state is that of its head. -/
lemma StateDecl.exists_word (d : StateDecl) :
    ∃ w us, d.tokens = sign w :: us ∧ (w = "initial" ∨ w = "final" ∨ w = "state") := by
  obtain ⟨head, body, span⟩ := d
  obtain ⟨w, us, hus, hw⟩ := head.exists_word
  exact ⟨w, us ++ braced (bodyTokens body), by rw [StateDecl.tokens, hus]; rfl, hw⟩

/-- States begin with a word. -/
lemma opening_state (d : StateDecl) : Opening d.tokens := by
  obtain ⟨w, us, hus, hw⟩ := d.exists_word
  rw [hus]
  rcases hw with rfl | rfl | rfl <;> exact opening_sign (by decide) _

/-- No clause begins with a parenthesis or a brace. -/
lemma opening_clause (c : Clause) : Opening c.tokens := by
  cases c with
  | binding d => rw [Clause.tokens]; exact opening_binding d
  | invoke d => rw [Clause.tokens]; exact (opening_head _ (by decide) _).append _
  | state d => rw [Clause.tokens]; exact opening_state d
  | transition d => rw [Clause.tokens]; exact (opening_trigger _).append _

/-- Another word is not the first one of a binding. -/
lemma rejects_binding_of_word (h : Begins (sign w :: ts) s last r)
    (hguard : ¬"guard".toList <+: w.toList ∧ ¬w.toList <+: "guard".toList)
    (haction : ¬"action".toList <+: w.toList ∧ ¬w.toList <+: "action".toList) :
    Rejects binding s := by
  refine Rejects.bind (Rejects.rule (Rejects.bind (Rejects.rule (Rejects.bind (Rejects.bind
    (Rejects.rule (Rejects.orElse_rejects ?_ ?_)))))))
  · exact (rejects_other h hguard).bind
  · exact (rejects_other h haction).bind

lemma rejects_invoke_of_word (h : Begins (sign w :: ts) s last r)
    (hw : ¬"invoke".toList <+: w.toList ∧ ¬w.toList <+: "invoke".toList) : Rejects invoke s :=
  Rejects.bind (Rejects.rule (Rejects.bind (Rejects.bind (Rejects.rule (rejects_other h hw).bind))))

/-- Clauses are accepted if inner states are.  The kinds are tried in a fixed order, and those in
front of the right one reject the text. -/
lemma readsLoosely_clause {levels bound : Nat} (hnested : ReadsLoosely (fun d ts => ts = d.tokens)
    StateDecl.bare (state levels) bound) :
    ReadsLoosely (fun c ts => ts = c.tokens) Clause.bare (clause (state levels)) bound := by
  rintro c ts s last r rfl hlen h ha hc
  cases c with
  | binding d =>
      rw [Clause.tokens] at h
      refine ⟨r, .inl rfl, Reads.orElse ((reads_binding h ha hc).map fun d' hd => ?_)⟩
      rw [Clause.bare, Clause.bare, hd]
  | invoke d =>
      rw [Clause.tokens] at h
      have hbinding : Rejects binding s := rejects_binding_of_word h (by decide) (by decide)
      refine ⟨r, .inl rfl, hbinding.bind.orElse (Reads.orElse ((reads_invoke h).map fun d' hd => ?_))⟩
      rw [Clause.bare, Clause.bare, hd]
  | state d =>
      rw [Clause.tokens] at h
      obtain ⟨v, hv, hstate⟩ := hnested rfl hlen h ha hc
      obtain ⟨w, us, hus, hw⟩ := d.exists_word
      rw [hus] at h
      have hbinding : Rejects binding s := by
        rcases hw with rfl | rfl | rfl <;> exact rejects_binding_of_word h (by decide) (by decide)
      have hinvoke : Rejects invoke s := by
        rcases hw with rfl | rfl | rfl <;> exact rejects_invoke_of_word h (by decide)
      refine ⟨v, hv, hbinding.bind.orElse (hinvoke.bind.orElse (Reads.orElse (hstate.map
        fun d' hd => ?_)))⟩
      rw [Clause.bare, Clause.bare, hd]
  | transition d =>
      rw [Clause.tokens] at h
      have hlone : Lone s := lone_of_trigger h
      refine ⟨r, .inl rfl, (rejects_binding hlone).bind.orElse ((rejects_invoke hlone).bind.orElse
        ((rejects_state levels hlone).bind.orElse ((reads_transition h ha hc).map fun d' hd => ?_)))⟩
      rw [Clause.bare, Clause.bare, hd]

/-- A body stops in front of a brace. -/
lemma rejects_clause {levels : Nat} (h : Begins (sign "\x7d" :: ts) s last r) :
    Rejects (clause (state levels)) s := by
  have hlone : Lone s := lone_of_sign h (by decide)
  exact Rejects.orElse_rejects (rejects_binding hlone).bind (Rejects.orElse_rejects
    (rejects_invoke hlone).bind (Rejects.orElse_rejects (rejects_state levels hlone).bind
    (rejects_transition h).bind))

/-- **States are accepted at every depth**: one of at most `levels` characters is at most `levels`
levels deep. -/
lemma readsLoosely_state (levels : Nat) :
    ReadsLoosely (fun d ts => ts = d.tokens) StateDecl.bare (state (levels + 1)) levels := by
  induction levels with
  | zero =>
      rintro d ts s last r rfl hlen h - -
      have hlt := h.length_lt
      omega
  | succ levels ih =>
      rintro ⟨head, body, span⟩ ts s last r rfl hlen h - -
      rw [StateDecl.tokens] at h
      have hhead : head.tokens ≠ [] := by
        obtain ⟨w, us, hus, -⟩ := head.exists_word
        rw [hus]
        exact List.cons_ne_nil _ _
      obtain ⟨mid, s₁, hhead, hblock⟩ := begins_append h hhead
      have hlt := hhead.length_lt
      refine ⟨r, .inl rfl, ?_⟩
      refine Reads.declare (e := fun x : StateHead × List Clause => (x.1.bare, x.2.map Clause.bare))
        (b := (head.bare, body.map Clause.bare)) ?_ ?_
      · have hapart := (hblock.begins ⟨_, _, rfl⟩).2
        refine (reads_stateHead hhead hapart).bind fun head' hhead' => ?_
        refine reads_block (readsLoosely_clause (ih.mono (by omega)))
          (fun c ts hts => hts ▸ opening_clause c) (row_iff.mpr (bodyTokens_eq body)) hblock
          (fun t ht => rejects_clause ht) fun body' hbody' => reads_pure ?_ r
        rw [hhead', hbody']
      · rintro ⟨⟨head', body'⟩, span'⟩ hdecl
        simp only [Prod.mk.injEq] at hdecl
        obtain ⟨hhead', hbody'⟩ := hdecl
        refine reads_pure ?_ r
        rw [StateDecl.bare, StateDecl.bare, bareBody_eq, bareBody_eq, hhead', hbody']

/-! ## Machines -/

/-- The heads of machines are accepted.  The sign behind one is not taken for its name. -/
lemma reads_machineHead {name : Option String}
    (h : Begins (headTokens (.fixed "machine" :: name.toList.map .name)) s last r)
    (hrest : Spelling last (sign w :: ts) r before t) (hw : w.toList.head?.any isNameChar = false) :
    Reads id machineHead s name r := by
  have hapart := (hrest.begins ⟨_, _, rfl⟩).2
  refine Reads.declare (e := id) (b := name) ?_ fun _ hx => reads_pure hx r
  cases name with
  | none =>
      obtain ⟨-, rfl, rfl⟩ := begins_singleton.mp h
      have hend := hapart.after (by decide)
      refine (reads_literal _ r).bind fun _ _ => (reads_notBefore hend).bind fun _ _ => ?_
      -- behind blank characters comes the sign, and no name
      have hname : (r.dropWhile isBlank).head?.any isNameStart = false := any_dropWhile_of_clear
        (any_head?_of_imp (fun _ => isNameChar_of_isNameStart)
          (any_head?_of_begins (hrest.begins ⟨_, _, rfl⟩).1 hw))
      refine Rejects.optional ?_
      rcases rejects_or_reads_blanks r with hblanks | ⟨hblanks, -⟩
      · exact hblanks.bind
      · exact hblanks.bind_rejects fun _ _ => (rejects_name hname).rule.bind
  | some n =>
      obtain ⟨-, g, u, rfl, hg, hname⟩ := begins_headTokens.mp h
      have hgap : (g ++ u).head?.any isNameChar = false := by
        obtain ⟨x, g, rfl⟩ := List.exists_cons_of_ne_nil hg.1
        by_contra hx
        have hx : isNameChar x = true := by simpa using hx
        simpa [isBlank_of_isNameChar hx] using hg.2 x List.mem_cons_self
      refine (reads_literal _ _).bind fun _ _ => (reads_notBefore hgap).bind fun _ _ => ?_
      have hread : Reads id (do blanks; let name ← ident; return name.value) (g ++ u) n r :=
        (reads_gap hg hname).bind fun _ _ => (reads_ident hname hapart).map fun _ hn => hn
      have hsome := hread.optional
      rwa [Option.map_id_fun] at hsome

/-- What stands in a machine is accepted. -/
lemma readsLoosely_machineClause (levels : Nat) :
    ReadsLoosely (fun c ts => ts = c.tokens) MachineClause.bare (machineClause (levels + 1))
      levels := by
  rintro c ts s last r rfl hlen h ha hc
  cases c with
  | binding d =>
      refine ⟨r, .inl rfl, Reads.orElse ((reads_binding h ha hc).map fun d' hd => ?_)⟩
      exact congrArg MachineClause.binding hd
  | state d =>
      obtain ⟨v, hv, hstate⟩ := readsLoosely_state levels rfl hlen h ha hc
      obtain ⟨w, us, hus, hw⟩ := d.exists_word
      have hword : Begins (sign w :: us) s last r := hus ▸ h
      have hbinding : Rejects binding s := by
        rcases hw with rfl | rfl | rfl <;> exact rejects_binding_of_word hword (by decide) (by decide)
      exact ⟨v, hv, hbinding.bind.orElse (hstate.map fun _ hd => congrArg MachineClause.state hd)⟩

/-- Machines are accepted if the levels exceed the length of the text. -/
lemma reads_machine {levels : Nat} {d : MachineDecl} (hlen : s.length ≤ levels)
    (h : Begins d.tokens s last r) : Reads MachineDecl.bare (machine (levels + 1)) s d.bare r := by
  obtain ⟨name, body, span⟩ := d
  obtain ⟨mid, s₁, hhead, hblock⟩ := begins_append h (List.cons_ne_nil _ _)
  have hlt := hhead.length_lt
  refine Reads.declare (e := fun x : Option String × List MachineClause =>
    (x.1, x.2.map MachineClause.bare)) (b := (name, body.map MachineClause.bare)) ?_ ?_
  · refine (reads_machineHead hhead hblock (by decide)).bind fun name' hname' => ?_
    refine reads_block ((readsLoosely_machineClause levels).mono (by omega)) (fun c ts hts => ?_)
      (row_iff.mpr rfl) hblock (fun t ht => ?_) fun body' hbody' => reads_pure ?_ r
    · subst hts
      cases c with
      | binding d => exact opening_binding d
      | state d => exact opening_state d
    · have hlone : Lone t := lone_of_sign ht (by decide)
      exact Rejects.orElse_rejects (rejects_binding hlone).bind (rejects_state _ hlone).bind
    · rw [hbody', show name' = name from hname']
  · rintro ⟨⟨name', body'⟩, span'⟩ hdecl
    simp only [Prod.mk.injEq] at hdecl
    obtain ⟨rfl, hbody'⟩ := hdecl
    exact reads_pure (by simp [MachineDecl.bare, hbody']) r

/-! ## Imports -/

/-- A text between quotes is accepted if it does not have such a quote itself. -/
lemma reads_quotedBy {q : Char} {body : String} (hbody : q ∉ body.toList) (r : List Char) :
    Reads id (quotedBy q) ((Token.quoted q body).text ++ r) body r := by
  have hchars : ∀ x ∈ body.toList, (x != q) = true := by
    rintro x hx
    rw [bne_iff_ne]
    rintro rfl
    exact hbody hx
  have hend : ([q] ++ r).head?.any (· != q) = false := by simp
  obtain ⟨htake, hdrop⟩ := split_while hchars hend
  have hquote : ∀ r, Reads id (literal (String.singleton q)) (q :: r) () r := fun r => by
    have hread := reads_literal (String.singleton q) r
    rwa [String.toList_singleton] at hread
  have htext : (Token.quoted q body).text ++ r = q :: (body.toList ++ ([q] ++ r)) := by
    simp [Token.text]
  have hinner := reads_charsWhile (· != q) (body.toList ++ ([q] ++ r))
  rw [htake, hdrop] at hinner
  rw [htext]
  refine (hquote _).bind fun _ _ => hinner.bind fun chars hchars => ?_
  refine (hquote r).bind fun _ _ => reads_pure ?_ r
  rw [show chars = body.toList from hchars]
  exact String.ofList_toList

/-- Strings are accepted, in quotes of either kind. -/
lemma reads_string {q : Char} {body : String} (h : Begins [(.free, .quoted q body)] s last r) :
    Reads Located.value string s body r := by
  obtain ⟨⟨hq, hbody⟩, rfl, -⟩ := begins_singleton.mp h
  have hread := reads_quotedBy hbody r
  rcases hq with rfl | rfl
  · exact hread.orElse.rule
  · refine Reads.rule (Rejects.orElse (Rejects.bind (rejects_literal ?_)) hread)
    rintro ⟨u, hu⟩
    cases hu

/-- A further name of a list is accepted, with the comma in front of it. -/
lemma readsLoosely_listed (bound : Nat) :
    ReadsLoosely (fun n ts => ts = [sign ",", plainName n.value]) Located.value (do
      literal ","
      skip
      ident) bound := by
  refine readsLoosely_of_reads fun n s last r _ h ha _ => ?_
  refine reads_word h fun t ht => reads_skip_bind ?_
  exact reads_ident (ht.follow (opening_name _ _)).1 ha

/-- A comma without a name behind it is not part of the list. -/
lemma rejects_listed_of_last {comma : Bool}
    (h : Begins ((if comma then [sign ","] else []) ++ [sign "\x7d"]) s last r) :
    Rejects (do literal ","; skip; ident) s := by
  cases comma with
  | false => exact (rejects_other h (by decide)).bind
  | true =>
      obtain ⟨t, us, u, ⟨⟩, rfl, -, hrest⟩ := h
      refine (reads_literal "," u).bind_rejects fun _ _ => (reads_skip u).bind_rejects fun _ _ => ?_
      exact (rejects_name (any_head?_of_begins (hrest.begins ⟨_, _, rfl⟩).1 (by decide))).rule

/-- Lists of names are accepted, with or without a comma behind the last.  Without one, the trivia
in front of the brace are taken along with the list, which is why only what follows them is said to
be left. -/
lemma reads_specifierNames {name : String} {more : List (Located String)} {comma : Bool}
    (h : Begins (plainName name :: ((more.map Located.value).flatMap
      (fun name => [sign ",", plainName name]) ++ if comma then [sign ","] else [])) s last t)
    (hclose : Spelling last [sign "\x7d"] t before r) :
    ∃ u, clear u = clear t ∧ Reads (List.map Located.value) specifierNames s
      (name :: more.map Located.value) u := by
  have hopen : ∀ ts : List Lexeme,
      Opening ((if comma then [sign ","] else []) ++ sign "\x7d" :: ts) := fun ts => by
    cases comma <;> exact opening_sign (by decide) _
  obtain ⟨mid, s₁, hname, hrest⟩ := begins_cons h
  obtain ⟨mid', s₂, hmore, hcomma⟩ := spelling_append hrest
  have hlast := hcomma.append hclose
  obtain ⟨hend, ha, hc⟩ := hlast.follow (hopen [])
  have hrow : Row (fun n ts => ts = [sign ",", plainName n.value]) more
      ((more.map Located.value).flatMap fun name => [sign ",", plainName name]) :=
    row_iff.mpr (List.flatMap_map _ _ _)
  have hopens : ∀ (n : Located String) (ts : List Lexeme), ts = [sign ",", plainName n.value] →
      Opening ts := fun n ts hts => hts ▸ opening_sign (by decide) _
  obtain ⟨v, hv, hreads⟩ := reads_row (readsLoosely_listed _) hopens hrow hmore ha hc
    (rejects_listed_of_last hend) (Nat.le_refl _)
  have hafter := (follow_row hopens hrow hmore ha hc).1
  have hnames : ∀ {first : Located String} {names : List (Located String)},
      first.value = name → names.map Located.value = more.map Located.value →
      (first :: names).map Located.value = name :: more.map Located.value := fun hf hn => by
    rw [List.map_cons, hf, hn]
  cases comma with
  | false =>
      cases hcomma
      refine ⟨clear v, by rw [clear_clear, hv], ?_⟩
      refine (reads_ident hname hafter).bind fun first hfirst => reads_skip_bind ?_
      refine hreads.bind fun names hmap => reads_skip_bind ?_
      have hnone : Rejects (literal ",") (clear v) := hv ▸ rejects_other hend (by decide)
      exact hnone.optional.map fun _ _ => hnames hfirst hmap
  | true =>
      obtain ⟨_, u, hsign, hrest⟩ := begins_cons hend
      obtain ⟨-, hu, -⟩ := begins_singleton.mp hsign
      have ht : u = t := by
        obtain ⟨_, _, w, ⟨⟩, hw, -, hnil⟩ := (hcomma.begins ⟨_, _, rfl⟩).1
        cases hnil
        exact List.append_cancel_left (hu.symm.trans hw)
      subst ht
      refine ⟨u, rfl, ?_⟩
      refine (reads_ident hname hafter).bind fun first hfirst => reads_skip_bind ?_
      refine hreads.bind fun names hmap => reads_skip_bind ?_
      rw [hv, hu]
      exact (reads_literal "," u).optional.map fun _ _ => hnames hfirst hmap

lemma eq_of_braced {us vs : List Lexeme} (h : braced us = braced vs) : us = vs :=
  List.append_cancel_right (List.cons.inj h).2

/-- The braces of an import are left out only if there are no names. -/
lemma SpecifierTokens.cases {values : List String} (h : SpecifierTokens values ts) :
    (ts = [] ∧ values = []) ∨ ∃ us, ts = braced us := by
  cases h with
  | absent => exact .inl ⟨rfl, rfl⟩
  | empty => exact .inr ⟨_, rfl⟩
  | names name more comma => exact .inr ⟨_, rfl⟩

/-- Lists of names in braces are accepted, also the empty one. -/
lemma reads_specifiers {names : List (Located String)} {us : List Lexeme}
    (hts : SpecifierTokens (names.map Located.value) (braced us))
    (h : Begins (braced us) s last r) :
    Reads (fun found => found.value.map Located.value) specifiers s (names.map Located.value) r := by
  refine Reads.rule ?_
  refine reads_word h fun s₁ hrest => reads_skip_bind ?_
  generalize hvalues : names.map Located.value = values at hts
  generalize hbraced : braced us = ts at hts
  cases hts with
  | absent => cases hbraced
  | empty =>
      obtain rfl := eq_of_braced hbraced
      obtain ⟨hclose, -, -⟩ := hrest.follow (opening_sign (by decide) _)
      have hnone : Rejects specifierNames (clear s₁) :=
        (rejects_name (any_head?_of_begins hclose (by decide))).rule.bind
      refine hnone.optional.bind fun found hfound => ?_
      refine reads_skip_last hclose.spelled (reads_pure ?_ r)
      rw [show found = none from hfound]
      rfl
  | names name more comma =>
      obtain rfl := eq_of_braced hbraced
      cases names with
      | nil => cases hvalues
      | cons first names =>
          obtain ⟨rfl, rfl⟩ := List.cons.inj hvalues
          obtain ⟨mid, t, hlist, hclose⟩ := spelling_append hrest
          obtain ⟨u, hu, hread⟩ := reads_specifierNames (hlist.begins ⟨_, _, rfl⟩).1 hclose
          refine hread.optional.bind fun found hfound => ?_
          obtain ⟨found, rfl, hmap⟩ := Option.map_eq_some_iff.mp hfound
          have hend := (hclose.begins ⟨_, _, rfl⟩).1
          rw [← hu] at hend
          exact reads_skip_bind (reads_word hend fun t ht => by cases ht; exact reads_pure hmap r)

/-- Imports are accepted.  One without a list takes the trivia behind its path along, since a list
may follow them. -/
lemma readsLoosely_importDecl (bound : Nat) :
    ReadsLoosely ImportDecl.Tokens ImportDecl.bare importDecl bound := by
  rintro ⟨path, names, span⟩ ts s last r ⟨q, us, hnames, rfl⟩ - h - hc
  have hbare : ∀ {decl : Located (String × List (Located String))} {v : List Char},
      (decl.value.1, decl.value.2.map Located.value) = (path, names.map Located.value) →
      Reads ImportDecl.bare (pure (ImportDecl.mk decl.value.1 decl.value.2 decl.span)) v
        (ImportDecl.bare ⟨path, names, span⟩) v := by
    intro decl v hdecl
    obtain ⟨hpath, hmap⟩ := Prod.mk.inj hdecl
    refine reads_pure ?_ v
    have hspans := congrArg (List.map fun n => (⟨n, .point 0⟩ : Located String)) hmap
    rw [List.map_map, List.map_map] at hspans
    exact congrArg₂ (fun path names => ImportDecl.mk path names (.point 0)) hpath hspans
  rcases hnames.cases with ⟨rfl, hempty⟩ | ⟨vs, rfl⟩
  · -- the trivia behind the path is taken before the names are missed
    refine ⟨clear r, .inr rfl, Reads.declare (b := (path, names.map Located.value))
      (e := fun x : String × List (Located String) => (x.1, x.2.map Located.value)) ?_
      fun _ => hbare⟩
    refine reads_word h fun s₁ hrest => reads_skip_bind ?_
    refine (reads_string (hrest.begins ⟨_, _, rfl⟩).1).bind fun path' hpath => reads_skip_bind ?_
    have hnone : Rejects specifiers (clear r) := by
      refine Rejects.rule (Rejects.bind (rejects_literal ?_))
      rintro ⟨u, hu⟩
      exact (hc '{' (by rw [← hu]; rfl)).2 rfl
    refine hnone.optional.map fun found hfound => ?_
    rw [show found = none from hfound, hpath, show names.map Located.value = [] from hempty]
    rfl
  · refine ⟨r, .inl rfl, Reads.declare (b := (path, names.map Located.value))
      (e := fun x : String × List (Located String) => (x.1, x.2.map Located.value)) ?_
      fun _ => hbare⟩
    refine reads_word h fun s₁ hrest => reads_skip_bind ?_
    obtain ⟨mid, s₂, hpath, hlist⟩ := begins_cons (hrest.begins ⟨_, _, rfl⟩).1
    refine (reads_string hpath).bind fun path' hpath' => reads_skip_bind ?_
    have hread := reads_specifiers hnames (hlist.begins ⟨_, _, rfl⟩).1
    refine hread.optional.map fun found hfound => ?_
    obtain ⟨found, rfl, hmap⟩ := Option.map_eq_some_iff.mp hfound
    rw [hpath', ← hmap]
    rfl

/-! ## Charts -/

/-- No declaration begins with a parenthesis or a brace. -/
lemma opening_item {item : Item} (h : item.Tokens ts) : Opening ts := by
  cases item with
  | importDecl d =>
      obtain ⟨q, names, -, rfl⟩ := h
      exact opening_sign (by decide) _
  | binding d => exact h ▸ opening_binding d
  | machine d => exact h ▸ (opening_head _ (by decide) _).append _

lemma rejects_importDecl_of_word (h : Begins (sign w :: ts) s last r)
    (hw : ¬"use".toList <+: w.toList ∧ ¬w.toList <+: "use".toList) : Rejects importDecl s :=
  Rejects.bind (Rejects.rule (rejects_other h hw).bind)

/-- **Declarations of the top level are accepted**, since each kind has a first word of its own. -/
lemma readsLoosely_item (levels : Nat) :
    ReadsLoosely Item.Tokens Item.bare (item (levels + 1)) levels := by
  rintro item ts s last r hts hlen h ha hc
  cases item with
  | importDecl d =>
      obtain ⟨v, hv, hread⟩ := readsLoosely_importDecl levels hts hlen h ha hc
      exact ⟨v, hv, Reads.orElse (hread.map fun _ hd => congrArg Item.importDecl hd)⟩
  | binding d =>
      obtain rfl : ts = d.tokens := hts
      have himport : Rejects importDecl s := by
        refine rejects_importDecl_of_word h ?_
        cases d.kind <;> decide
      refine ⟨r, .inl rfl, himport.bind.orElse (Reads.orElse ((reads_binding h ha hc).map
        fun d' hd => congrArg Item.binding hd))⟩
  | machine d =>
      obtain rfl : ts = d.tokens := hts
      have himport : Rejects importDecl s := rejects_importDecl_of_word h (by decide)
      have hbinding : Rejects binding s := rejects_binding_of_word h (by decide) (by decide)
      refine ⟨r, .inl rfl, himport.bind.orElse (hbinding.bind.orElse ((reads_machine hlen h).map
        fun d' hd => congrArg Item.machine hd))⟩

/-- No declaration is read at the end of the text. -/
lemma rejects_item_nil (levels : Nat) : Rejects (item levels) [] := by
  have hliteral : ∀ {w : String}, w.toList ≠ [] → Rejects (literal w) [] := fun hw =>
    rejects_literal fun h => hw (List.prefix_nil.mp h)
  refine Rejects.orElse_rejects ?_ (Rejects.orElse_rejects ?_ ?_)
  · exact Rejects.bind (Rejects.bind (Rejects.rule (hliteral (by decide)).bind))
  · exact Rejects.bind (rejects_binding ⟨[], [], rfl, by simp, rfl, rfl⟩)
  · exact Rejects.bind (Rejects.bind (Rejects.rule (Rejects.bind (Rejects.bind
      (Rejects.rule (hliteral (by decide)).bind)))))

/-- Behind the last token no name goes on. -/
lemma Trailing.apart (h : Trailing s) : Apart before s.head? := by
  refine apart_of_clear (apart_of_after ?_)
  rw [h.clear_eq]
  rfl

/-- **A rendering of a chart is accepted**, and read as that chart. -/
lemma parse_of_renders {text : String} {items : List Item} (h : Renders items text.toList) :
    ∃ found, parse text = .ok found ∧ found.map Item.bare = items.map Item.bare := by
  obtain ⟨ts, last, rest, hrow, hspelling, htrailing⟩ := h
  have hclear := htrailing.clear_eq
  have hstop : Rejects (item (text.toList.length + 1)) (clear rest) := by
    rw [hclear]
    exact rejects_item_nil _
  obtain ⟨v, hv, hreads⟩ := reads_row (readsLoosely_item _) (fun _ _ => opening_item) hrow hspelling
    htrailing.apart (by rw [Calm, hclear]; simp) hstop (Nat.le_refl _)
  have hend : Reads (fun _ => ()) (rule .endOfInput atEnd) [] () [] := fun o =>
    ⟨⟨(), o, o⟩, o, rfl, rfl⟩
  have hfile : Reads (List.map Item.bare) (file (text.toList.length + 1)) text.toList
      (items.map Item.bare) [] := by
    refine Reads.declare ?_ fun found hfound => reads_pure hfound []
    refine reads_skip_bind (hreads.bind fun found hfound => reads_skip_bind ?_)
    rw [hv, hclear]
    exact hend.map fun _ _ => hfound
  obtain ⟨found, o, houtcome, hfound⟩ := hfile 0
  refine ⟨found, ?_, hfound⟩
  unfold parse
  simp only [houtcome]

end declarations

end Statechart.Language
