/-
# What a call leaves alone

Each call writes to few parts of the state, whatever the arithmetic does:

* encoding only grows the solver (`grows_encode`, in the sense of `Solver.Grows`);
* placing a row changes the tableau and gives out numbers (`place_rest`), so adding does no more
  than that and one entry on the list (`add_rest`);
* removing changes the tableau and takes an entry off the list (`remove_rest`);
* no call but a reset takes a number back (`counter_perform`).

These are equations between states, one for each call, so that what stays is read off them: the
fields they do not name.  They need no invariant, and hold of any state.
-/
import IncrementalSimplex.Proofs.Calls

namespace IncrementalSimplex

variable {α : Type} [Scalar α]

namespace Solver

/-! ## 1. Encoding -/

theorem grows_encodeTerm (acc : Solver α × Row α) (t : Term α) :
    acc.1.Grows (encodeTerm acc t).1 := by
  unfold encodeTerm
  split
  · exact .refl _
  · dsimp only
    split <;> exact acc.1.grows_symbolOf t.var

theorem grows_encodeTerms (s : Solver α) (e : Expression α) : s.Grows (s.encodeTerms e).1 := by
  suffices h : ∀ (ts : List (Term α)) (acc : Solver α × Row α),
      acc.1.Grows (ts.foldl encodeTerm acc).1 from h e.terms (s, .ofConstant e.constant)
  intro ts
  induction ts with
  | nil => exact fun acc => .refl acc.1
  | cons t ts ih => exact fun acc => (grows_encodeTerm acc t).trans (ih _)

/-- **Encoding only grows the solver.** -/
theorem grows_encode (s : Solver α) (c : Constraint α) : s.Grows (s.encode c).solver := by
  have hterms := s.grows_encodeTerms c.expression
  have hrelation := (tagged_encodeRelation (s.encodeTerms c.expression).1
    (s.encodeTerms c.expression).2 c.priority c.relation).grows
  unfold encode
  dsimp only
  split <;> exact hterms.trans hrelation

/-- **The symbols of the tag are new**, and have numbers that are given out. -/
theorem fresh_encode (s : Solver α) (c : Constraint α) {x : Symbol} (hx : (s.encode c).tag.Has x) :
    s.counter < x.id ∧ x.id ≤ (s.encode c).solver.counter := by
  have hterms := (s.grows_encodeTerms c.expression).counter
  have hfresh := (tagged_encodeRelation (s.encodeTerms c.expression).1
    (s.encodeTerms c.expression).2 c.priority c.relation).fresh x
  unfold encode at hx ⊢
  dsimp only at hx ⊢
  split at hx
  · rename_i hneg
    rw [if_pos hneg]
    exact ⟨hterms.trans_lt (hfresh hx).1, (hfresh hx).2.2.1⟩
  · rename_i hnonneg
    rw [if_neg hnonneg]
    exact ⟨hterms.trans_lt (hfresh hx).1, (hfresh hx).2.2.1⟩

end Solver

/-! ## 2. Adding -/

/-- **Placing a row** changes the tableau and gives out numbers. -/
theorem Encoding.place_rest (e : Encoding α) (id : ConstraintId) :
    ∃ n t, e.solver.counter ≤ n ∧
      (e.place id).solver = { e.solver with counter := n, tableau := t } := by
  unfold place
  split
  · unfold placeBasic
    split <;> exact ⟨_, _, le_refl _, rfl⟩
  · exact ⟨_, _, le_refl _, rfl⟩
  · unfold placeArtificial
    dsimp only [Solver.newSymbol]
    split <;> exact ⟨_, _, Nat.le_succ _, rfl⟩

namespace Solver

/-- **An addition** comes to nothing, or it does what encoding and placing do; then the constraint
may be on the list. -/
theorem add_rest (s : Solver α) (c : Constraint α) :
    (s.add c).solver = s ∨ ∃ n t cs, (s.encode c).solver.counter ≤ n ∧
      (s.add c).solver =
        { (s.encode c).solver with counter := n, tableau := t, constraints := cs } := by
  unfold add
  split
  · exact .inl rfl
  · split
    · exact .inl rfl
    · obtain ⟨n, t, hn, hplace⟩ := (s.encode c).place_rest c.id
      dsimp only
      cases hout : ((s.encode c).place c.id).outcome with
      | error halt =>
        rw [Reply.andThen_of_error hout, Reply.andThen_of_error hout, hplace]
        exact .inr ⟨n, t, _, hn, rfl⟩
      | ok =>
        rw [Reply.andThen_of_ok hout, Reply.andThen_of_ok rfl, hplace]
        exact .inr ⟨n, _, _, hn, rfl⟩

/-- **The names after an addition** are the old ones, or those of the encoding. -/
theorem symbols_add (s : Solver α) (c : Constraint α) :
    (s.add c).solver.symbols = s.symbols ∨
      (s.add c).solver.symbols = (s.encode c).solver.symbols := by
  rcases s.add_rest c with hrest | ⟨n, t, cs, -, hrest⟩
  · exact .inl (by rw [hrest])
  · exact .inr (by rw [hrest])

theorem edits_add (s : Solver α) (c : Constraint α) : (s.add c).solver.edits = s.edits := by
  rcases s.add_rest c with hrest | ⟨n, t, cs, -, hrest⟩
  · rw [hrest]
  · rw [hrest]
    exact (s.grows_encode c).edits

/-! ## 3. Removing -/

/-- **A removal** changes the tableau and the list. -/
theorem remove_rest (s : Solver α) (c : Constraint α) :
    ∃ t, (s.remove c).solver =
      { s with constraints := s.constraints.erase c.id, tableau := t } := by
  unfold remove
  cases hr : s.constraints.get? c.id with
  | none =>
    rw [Registry.erase_eq_self hr]
    exact ⟨s.tableau, rfl⟩
  | some r =>
    unfold clear
    dsimp only
    split <;> exact ⟨_, rfl⟩

theorem symbols_remove (s : Solver α) (c : Constraint α) :
    (s.remove c).solver.symbols = s.symbols := by
  obtain ⟨t, hrest⟩ := s.remove_rest c
  rw [hrest]

theorem edits_remove (s : Solver α) (c : Constraint α) : (s.remove c).solver.edits = s.edits := by
  obtain ⟨t, hrest⟩ := s.remove_rest c
  rw [hrest]

/-! ## 4. Numbers are not taken back -/

theorem counter_add (s : Solver α) (c : Constraint α) : s.counter ≤ (s.add c).solver.counter := by
  rcases s.add_rest c with hrest | ⟨n, t, cs, hn, hrest⟩
  · exact le_of_eq (congrArg counter hrest.symm)
  · exact ((s.grows_encode c).counter.trans hn).trans_eq (congrArg counter hrest.symm)

theorem counter_remove (s : Solver α) (c : Constraint α) :
    (s.remove c).solver.counter = s.counter := by
  obtain ⟨t, hrest⟩ := s.remove_rest c
  rw [hrest]

theorem counter_recordEdit (s : Solver α) (c : Constraint α) (v : Variable) :
    (s.recordEdit c v).solver.counter = s.counter := by
  unfold recordEdit
  split <;> rfl

theorem counter_suggest (s : Solver α) (v : Variable) (x : α) :
    (s.suggest v x).solver.counter = s.counter := by
  unfold suggest
  split <;> rfl

/-- **No call takes a number back** but a reset, which begins anew. -/
theorem counter_perform (s : Solver α) {c : Call α} (hc : c ≠ .reset) :
    s.counter ≤ (s.perform c).solver.counter :=
  perform_keeps (P := fun u => s.counter ≤ u.counter) (fun u c hu => hu.trans (u.counter_add c))
    (fun u c hu => hu.trans_eq (u.counter_remove c).symm)
    (fun u c v hu => hu.trans_eq (u.counter_recordEdit c v).symm) (fun _ _ hu => hu)
    (fun u v x hu => hu.trans_eq (u.counter_suggest v x).symm) (le_refl _) hc

end Solver

end IncrementalSimplex
