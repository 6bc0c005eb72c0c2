/-
# Solved values are optimal

Between two calls a solver is AT REST: no restricted row is negative, the rows of dummies are sums
of dummies with the constant zero, and no cost is negative (`Tableau.AtRest`).  Then the point of
the tableau is a proper solution of the system of least cost, and in the reading of the variables
this says that the solved values meet every required constraint and that no values that meet them
cost less (`Sound.admits_value`, `Sound.discontent_value_le`).

Two things can disturb the rest.  One is a pass that stops at its limit.  The other is removing a
required equality, whose marker may be in the rows of other dummies.  Calls that do neither are
QUIET (`Quiet`), and a course of quiet calls stays at rest (`Reached.atRest`).  Two of the steps
need an argument.

* A suggestion leaves the costs alone and restores feasibility by the dual pass, which can be stuck
  only if the new system has no proper solution.  But the required constraints do not depend on any
  target, so the values from before the suggestion still meet them, and they extend to one
  (`Faithful.not_stuck`).
* A rejection must be right: values that meet the new constraint along with the old ones would
  extend to a solution that phase one says there is none of (`Sound.unsatisfiable_iff`).
-/
import IncrementalSimplex.Proofs.Calls
import IncrementalSimplex.Proofs.Demands

namespace IncrementalSimplex

/-! ## 1. At rest -/

/-- **A tableau at rest.** -/
structure Tableau.AtRest (t : Tableau ℚ) : Prop where
  feasible : t.Feasible
  pure : t.DummyPure
  settled : t.Settled

/-- The point of a tableau at rest is proper. -/
theorem Tableau.AtRest.proper_point {t : Tableau ℚ} (h : t.AtRest) : t.point.Proper where
  nonneg _ hx := h.feasible.point_nonneg hx
  dummy _ hx := h.pure.point_eq_zero hx

/-- The call was cut short by the limit on pivots. -/
def Reply.HitLimit (r : Reply ℚ) : Prop :=
  ∃ n, r.outcome = .error (.refused (.iterationLimit n))

namespace Solver

variable {book : ConstraintId → Origin} {forms forms' : ConstraintId → Form} {s u : Solver ℚ}
  {c : Constraint ℚ} {ρ : Variable → ℚ}

/-- The point of the tableau satisfies the system. -/
theorem Sound.satisfies_point (h : s.Sound forms) : s.Satisfies forms s.tableau.point :=
  (h.presents.solves _).mp h.presents.toCanonical.solves_point

/-- **At rest the solved values meet what is required.** -/
theorem Sound.admits_value (h : s.Sound forms) (hrest : s.tableau.AtRest) :
    Admits (s.demands forms) s.value := by
  rw [s.value_eq_reading]
  exact h.records.admits h.satisfies_point hrest.proper_point

/-- **At rest no values that meet it cost less.**  The objective's constant lies between the two:
the solved values pay no more, and no proper solution pays less. -/
theorem Sound.discontent_value_le (h : s.Sound forms) (hrest : s.tableau.AtRest)
    (hρ : Admits (s.demands forms) ρ) :
    discontent (s.demands forms) s.value ≤ discontent (s.demands forms) ρ := by
  obtain ⟨σ, hproper, hsat, hcost⟩ := h.records.exists_extension h.names hρ
  obtain ⟨k, hk⟩ := h.presents.objective_value
  have hfree : s.tableau.Free s.tableau.objective := fun _ hx => h.presents.objective hx
  have hpoint : s.tableau.objective.constant = s.cost s.tableau.point + k := by
    rw [← hfree.value_point]
    exact hk _ h.satisfies_point
  have hvalue : discontent (s.demands forms) s.value ≤ s.cost s.tableau.point := by
    rw [s.value_eq_reading]
    exact h.records.discontent_le_cost h.satisfies_point hrest.proper_point.nonneg
  have hleast : s.tableau.objective.constant ≤ s.tableau.objective.value σ :=
    Row.constant_le_value h.presents.externalFree.objective hrest.settled hproper
  rw [hk σ hsat] at hleast
  linarith

/-! ## 2. Adding -/

/-- **Adding stays at rest**, unless it is cut short. -/
theorem Sound.atRest_add (h : s.Sound forms) (hform : forms c.id = c.form)
    (hrest : s.tableau.AtRest) (hlimit : ¬ (s.add c).HitLimit) :
    (s.add c).solver.tableau.AtRest := by
  obtain ⟨-, -, hfeas, hpure⟩ := h.add_frame hform
  rcases h.add_outcome hform with ⟨-, hset, -⟩ | hout | ⟨error, -, htab, -⟩
  · exact ⟨hfeas hrest.feasible, hpure hrest.pure, hset⟩
  · exact absurd ⟨_, hout⟩ hlimit
  · rw [htab]
    exact hrest

/-- A constraint that was added is among the demands, along with the old ones. -/
theorem Sound.admits_of_add (h : s.Sound forms) (hform : forms c.id = c.form)
    (hnew : s.constraints.get? c.id = none) (hok : (s.add c).outcome = .ok ())
    (hρ : Admits ((s.add c).solver.demands forms) ρ) :
    (c.priority.isRequired = true → c.form.Holds ρ) ∧ Admits (s.demands forms) ρ := by
  obtain ⟨-, hcons, -⟩ := h.add_frame hform
  have hall := admits_demands_iff.mp hρ
  refine ⟨fun hreq => ?_, admits_demands_iff.mpr fun id r hr hreq => ?_⟩
  · rcases h.add_outcome hform with ⟨-, -, tag, hget⟩ | hout | ⟨error, hout, -⟩
    · rw [← hform]
      exact hall c.id _ hget hreq
    · rw [hok] at hout
      cases hout
    · rw [hok] at hout
      cases hout
  · refine hall id r ((hcons id ?_).trans hr) hreq
    rintro rfl
    rw [hnew] at hr
    cases hr

/-- **Values that meet the new constraint satisfy its row**, together with the system.  The solver
in which they do is the one that has recorded the constraint without placing its row. -/
theorem Sound.exists_solution (h : s.Sound forms) (hform : forms c.id = c.form) {e : Encoding ℚ}
    (heq : s.Equation c e) (hnew : s.constraints.get? c.id = none)
    (hprice : 0 ≤ c.priority.value) (hc : c.priority.isRequired = true → c.form.Holds ρ)
    (hρ : Admits (s.demands forms) ρ) :
    ∃ σ : Assignment, σ.Proper ∧ s.Satisfies forms σ ∧ e.row.value σ = 0 := by
  have hrecords := h.records.record heq (.refl e.solver) hform hprice
  have hnames : (e.solver.record c e.tag).solver.Names := heq.names.mono rfl (le_refl _)
  have hadmits : Admits ((e.solver.record c e.tag).solver.demands forms) ρ := by
    refine admits_demands_iff.mpr fun id r hr hreq => ?_
    rw [get?_record] at hr
    split at hr
    · rename_i hid
      cases hr
      rw [hid, hform]
      exact hc hreq
    · rw [heq.grows.constraints] at hr
      exact admits_demands_iff.mp hρ id r hr hreq
  obtain ⟨σ, hproper, hsat, -⟩ := hrecords.exists_extension hnames hadmits
  obtain ⟨hold, hequates⟩ :=
    (h.records.satisfies_record heq.toEncoded (.refl e.solver) hnew hform σ).mp hsat
  exact ⟨σ, hproper, hold,
    (heq.value_eq_zero_iff (.refl e.solver) ((h.presents.solves σ).mpr hold)).mpr hequates⟩

/-- **A constraint is rejected just if it is required and contradicts what is required already.** -/
theorem Sound.unsatisfiable_iff (h : s.Sound forms) (hform : forms c.id = c.form)
    (hrest : s.tableau.AtRest) (hnew : s.constraints.get? c.id = none)
    (hprice : 0 ≤ c.priority.value) (hlimit : ¬ (s.add c).HitLimit) :
    (s.add c).outcome = .error (.refused (.unsatisfiableConstraint c.id)) ↔
      c.priority.isRequired = true ∧ ¬ ∃ ρ, c.form.Holds ρ ∧ Admits (s.demands forms) ρ := by
  have hrest' := h.atRest_add hform hrest hlimit
  constructor
  · intro hout
    rcases h.add_cases hform with ⟨hhas, -⟩ | ⟨-, hneg, -⟩ |
      ⟨-, -, henc, ⟨error, hout', hu⟩ | ⟨u, hu, -, hout'⟩⟩
    · rw [Solver.has, Registry.contains, hnew] at hhas
      cases hhas
    · exact absurd hprice (not_le.mpr hneg)
    · rw [hout] at hout'
      rcases hu.reason with hreason | ⟨-, hnone⟩
      · rw [hreason] at hout'
        cases hout'
      · refine ⟨hu.required, ?_⟩
        rintro ⟨ρ, hc, hρ⟩
        obtain ⟨σ, hproper, hsol⟩ :=
          h.exists_solution hform henc hnew hprice (fun _ => hc) hρ
        exact hnone hrest.feasible hrest.pure σ hproper hsol
    · rw [hout] at hout'
      rcases hu.sound.optimize.2.2.2 with ⟨hok, -⟩ | hlim
      · rw [hok] at hout'
        cases hout'
      · rw [hlim] at hout'
        cases hout'
  · rintro ⟨hreq, hnone⟩
    have hnotok : (s.add c).outcome ≠ .ok () := by
      intro hok
      obtain ⟨hc, hρ⟩ :=
        h.admits_of_add hform hnew hok ((h.add hform).admits_value hrest')
      exact hnone ⟨_, hc hreq, hρ⟩
    rcases h.add_cases hform with ⟨hhas, -⟩ | ⟨-, hneg, -⟩ |
      ⟨-, -, henc, ⟨error, hout, hu⟩ | ⟨u, hu, -, hout⟩⟩
    · rw [Solver.has, Registry.contains, hnew] at hhas
      cases hhas
    · exact absurd hprice (not_le.mpr hneg)
    · rcases hu.reason with hreason | ⟨hreason, -⟩
      · rw [hreason] at hout
        exact absurd ⟨_, hout⟩ hlimit
      · rw [hreason] at hout
        exact hout
    · rcases hu.sound.optimize.2.2.2 with ⟨hok, -⟩ | hlim
      · exact absurd (hout.trans hok) hnotok
      · exact absurd ⟨_, hout.trans hlim⟩ hlimit

/-! ## 3. Removing -/

/-- **Removing stays at rest**, unless it is cut short or the marker is a dummy. -/
theorem Sound.atRest_remove (h : s.Sound forms) (hrest : s.tableau.AtRest)
    (hlimit : ¬ (s.remove c).HitLimit)
    (hmarker : ∀ r, s.constraints.get? c.id = some r → r.tag.marker.isDummy = false) :
    (s.remove c).solver.tableau.AtRest := by
  obtain ⟨-, -, -, hfeas, hpure⟩ := h.remove_frame c
  rcases h.remove_outcome c with ⟨hsol, -⟩ | ⟨-, hset⟩ | hout
  · rw [hsol]
    exact hrest
  · exact ⟨hfeas hrest.feasible,
      hpure hrest.pure fun r hr => hrest.pure.expelsCleanly (hmarker r hr), hset⟩
  · exact absurd ⟨_, hout⟩ hlimit

/-- A marker is a dummy in required equalities only. -/
theorem Records.marker_not_dummy (h : s.Records forms) {id : ConstraintId} {r : ConstraintRecord}
    (hr : s.constraints.get? id = some r)
    (hgentle : ¬ (r.priority.isRequired = true ∧ (forms id).relation = .equal)) :
    r.tag.marker.isDummy = false := by
  cases hdum : r.tag.marker.isDummy with
  | false => rfl
  | true =>
    have hfit := h.fits hr
    obtain ⟨hrel, hreq⟩ := hfit.of_isDummy hfit.has_marker hdum
    exact absurd ⟨hreq, hrel⟩ hgentle

/-! ## 4. Edits -/

variable {id : ConstraintId} {v : Variable} {x : ℚ}

/-- **Beginning an edit is adding a constraint**, unless it is cut short: apart from the list of
edits nothing else changes. -/
theorem Faithful.addEdit_of_not_hitLimit (h : s.Faithful book) (hb : book id = .edit v)
    (hnew : s.constraints.get? id = none) (p : Priority) (hlimit : ¬ (s.addEdit id v p).HitLimit) :
    (s.addEdit id v p).solver = s ∨
      ∃ c : Constraint ℚ, c.id = id ∧ s.forms book c.id = c.form ∧ ¬ (s.add c).HitLimit ∧
        ∃ edits, (s.addEdit id v p).solver = { (s.add c).solver with edits := edits } := by
  rcases h.addEdit_cases hb p with ⟨e, -, heq⟩ | ⟨c, hid, hform, -, hcases⟩
  · rw [heq]
    exact .inl rfl
  have hadd : ¬ (s.add c).HitLimit := by
    rintro ⟨n, hn⟩
    rcases hcases with ⟨tag, hok, -⟩ | ⟨error, herr, hout, -⟩
    · rw [hok] at hn
      cases hn
    · rw [herr] at hn
      exact hlimit ⟨n, hout.trans hn⟩
  refine .inr ⟨c, hid, hform, hadd, ?_⟩
  rcases hcases with ⟨tag, -, -, -, -, hsol⟩ | ⟨error, herr, -, ⟨-, hsol⟩ | hsol⟩
  · exact ⟨_, hsol⟩
  · exact ⟨(s.add c).solver.edits, hsol⟩
  · -- Nothing was recorded, so there is nothing to remove.
    rcases h.sound.add_outcome hform with ⟨hok, -⟩ | hlim | ⟨e, -, -, hcons⟩
    · rw [herr] at hok
      cases hok
    · exact absurd ⟨_, hlim⟩ hadd
    · refine ⟨(s.add c).solver.edits, hsol.trans ?_⟩
      rcases (h.sound.add hform).remove_cases c with ⟨-, heq⟩ | ⟨r, u, hr, -⟩
      · rw [heq]
        rfl
      · rw [hcons, hid, hnew] at hr
        cases hr

/-- **Beginning an edit stays at rest**, unless it is cut short. -/
theorem Faithful.atRest_addEdit (h : s.Faithful book) (hb : book id = .edit v)
    (hnew : s.constraints.get? id = none) (p : Priority) (hrest : s.tableau.AtRest)
    (hlimit : ¬ (s.addEdit id v p).HitLimit) : (s.addEdit id v p).solver.tableau.AtRest := by
  rcases h.addEdit_of_not_hitLimit hb hnew p hlimit with hsol | ⟨c, -, hform, hadd, edits, hsol⟩
  · rwa [hsol]
  · rw [hsol]
    exact h.sound.atRest_add hform hrest hadd

/-- **Ending an edit stays at rest**, unless it is cut short: the constraint of an edit is soft. -/
theorem Faithful.atRest_removeEdit (h : s.Faithful book) (hrest : s.tableau.AtRest)
    (hlimit : ¬ (s.removeEdit v).HitLimit) : (s.removeEdit v).solver.tableau.AtRest := by
  cases he : s.edits.get? v with
  | none =>
    rw [removeEdit_eq he]
    exact hrest
  | some e =>
    obtain ⟨hsol, hout⟩ := removeEdit_of_edit he
    have hs : (s.unedited v).Sound (s.forms book) := h.sound.withEdits _
    rw [hsol]
    refine hs.atRest_remove hrest (fun hhit => hlimit ?_) fun r hr => ?_
    · obtain ⟨n, hn⟩ := hhit
      exact ⟨n, hout.trans hn⟩
    · obtain ⟨-, r', hr', -, hsoft⟩ := h.tracks.live v e he
      have heq : r = r' := Option.some.inj (hr.symm.trans hr')
      refine h.sound.records.marker_not_dummy (hr.trans rfl) fun hreq => ?_
      rw [heq, hsoft] at hreq
      exact Bool.false_ne_true hreq.1

/-- **No target matters to a required constraint.** -/
theorem Tracks.admits_congr (hs : s.Tracks book) (hcons : u.constraints = s.constraints)
    (hρ : Admits (s.demands (s.forms book)) ρ) : Admits (u.demands (u.forms book)) ρ := by
  refine admits_demands_iff.mpr fun id r hr hreq => ?_
  rw [hcons] at hr
  have hholds := admits_demands_iff.mp hρ id r hr hreq
  unfold forms at hholds ⊢
  cases hb : book id with
  | written f =>
    rw [hb] at hholds
    exact hholds
  | edit v =>
    obtain ⟨e, he, hid⟩ := hs.listed id r v hr hb
    obtain ⟨-, r', hr', -, hsoft⟩ := hs.live v e he
    rw [hid, hr] at hr'
    cases hr'
    rw [hsoft] at hreq
    cases hreq

/-- **The dual pass is not stuck after a suggestion**: what met the required constraints before
still does. -/
theorem Faithful.not_stuck (h : s.Faithful book) (hrest : s.tableau.AtRest) (v : Variable) (x : ℚ) :
    ∃ σ : Assignment, σ.Proper ∧
      (s.suggest v x).solver.Satisfies ((s.suggest v x).solver.forms book) σ := by
  obtain ⟨hu, -, hcons, -⟩ := h.suggest v x
  have hρ := h.tracks.admits_congr hcons (h.sound.admits_value hrest)
  obtain ⟨σ, hproper, hsat, -⟩ := hu.sound.records.exists_extension hu.sound.names hρ
  exact ⟨σ, hproper, hsat⟩

/-- **Suggesting stays at rest**, unless it is cut short. -/
theorem Faithful.atRest_suggest (h : s.Faithful book) (hrest : s.tableau.AtRest)
    (hlimit : ¬ (s.suggest v x).HitLimit) : (s.suggest v x).solver.tableau.AtRest := by
  obtain ⟨-, -, -, hpure, hset, hout⟩ := h.suggest v x
  rcases hout with ⟨-, hfeas⟩ | hlim | ⟨-, hnone⟩
  · exact ⟨hfeas hrest.feasible, hpure hrest.pure, hset hrest.settled⟩
  · exact absurd ⟨_, hlim⟩ hlimit
  · obtain ⟨σ, hproper, hsat⟩ := h.not_stuck hrest v x
    exact absurd hsat (hnone σ hproper)

end Solver

/-! ## 5. Quiet calls -/

/-- A call on a single constraint or edit that removes no required equality. -/
def Call.Gentle (s : Solver ℚ) : Call ℚ → Prop
  | .remove c => ∀ r, s.constraints.get? c.id = some r →
    ¬ (r.priority.isRequired = true ∧ c.relation = .equal)
  | .addAll _ | .removeAll _ | .reset => False
  | .add _ | .edit _ _ _ | .unedit _ | .suggest _ _ => True

/-- **A quiet call**: gentle and not cut short. -/
def Quiet (s : Solver ℚ) (c : Call ℚ) : Prop := c.Gentle s ∧ ¬ (s.perform c).HitLimit

theorem Tableau.atRest_empty : (Tableau.empty : Tableau ℚ).AtRest := by
  refine ⟨?_, ?_, fun x _ => le_refl _⟩
  · intro b row hb
    cases hb
  · intro b row hb
    cases hb

namespace Solver

/-- **A quiet call stays at rest.** -/
theorem Faithful.atRest_perform {book : ConstraintId → Origin} {s : Solver ℚ}
    (h : s.Faithful book) (hrest : s.tableau.AtRest) {c : Call ℚ} (hc : c.Lawful book s)
    (hquiet : Quiet s c) : (s.perform c).solver.tableau.AtRest := by
  obtain ⟨hgentle, hlimit⟩ := hquiet
  cases c with
  | add c => exact h.sound.atRest_add (s.forms_written hc) hrest hlimit
  | remove c =>
    refine h.sound.atRest_remove hrest hlimit fun r hr => ?_
    refine h.sound.records.marker_not_dummy hr ?_
    rw [s.forms_written hc]
    exact hgentle r hr
  | addAll cs => exact hgentle.elim
  | removeAll cs => exact hgentle.elim
  | edit id v p => exact h.atRest_addEdit hc.1 hc.2 p hrest hlimit
  | unedit v => exact h.atRest_removeEdit hrest hlimit
  | suggest v x => exact h.atRest_suggest hrest hlimit
  | reset => exact hgentle.elim

end Solver

namespace Reached

variable {book : ConstraintId → Origin} {s : Solver ℚ} {τ : Variable → ℚ}

/-- **A course of quiet calls stays at rest.** -/
theorem atRest (h : Reached book Quiet s τ) : s.tableau.AtRest := by
  induction h with
  | new config => exact Tableau.atRest_empty
  | call c hreached lawful allowed ih =>
    exact hreached.faithful.1.atRest_perform ih lawful allowed

theorem sound (h : Reached book Quiet s τ) : s.Sound fun id => (book id).form τ := by
  rw [← h.forms_eq]
  exact h.faithful.1.sound

/-- **Soundness and completeness.**  After quiet calls the solved values meet every required
constraint, and a further constraint is rejected just if it is required and no values meet it along
with the others. -/
theorem admits_and_unsatisfiable_iff (h : Reached book Quiet s τ) :
    Admits (s.demands fun id => (book id).form τ) s.value ∧
    ∀ c : Constraint ℚ, s.has c = false → 0 ≤ c.priority.value → ¬ (s.add c).HitLimit →
      ((s.add c).outcome = .error (.refused (.unsatisfiableConstraint c.id)) ↔
        c.priority.isRequired = true ∧
          ¬ ∃ ρ, c.form.Holds ρ ∧ Admits (s.demands fun id => (book id).form τ) ρ) := by
  refine ⟨h.sound.admits_value h.atRest, fun c hhas hprice hlimit => ?_⟩
  have hnew : s.constraints.get? c.id = none := by
    simpa [Solver.has, Registry.contains] using hhas
  -- The number is free, so whatever the book has for it may be replaced by the constraint's form.
  set forms : ConstraintId → Form :=
    Function.update (fun id => (book id).form τ) c.id c.form with hforms
  have hsame : ∀ id r, s.constraints.get? id = some r → forms id = (book id).form τ := by
    intro id r hr
    refine Function.update_of_ne ?_ _ _
    rintro rfl
    rw [hnew] at hr
    cases hr
  have hdemands : s.demands forms = s.demands fun id => (book id).form τ := by
    refine List.map_congr_left fun e he => ?_
    rw [hsame e.1 e.2 (Registry.mem_entries_iff.mp he)]
  rw [← hdemands]
  exact (h.sound.congr_forms hsame).unsatisfiable_iff (Function.update_self _ _ _) h.atRest hnew
    hprice hlimit

end Reached

/-- A gentle call that succeeds is quiet. -/
theorem quiet_of_ok {s : Solver ℚ} {c : Call ℚ} (hgentle : c.Gentle s)
    (hok : (s.perform c).outcome = .ok ()) : Quiet s c := by
  refine ⟨hgentle, ?_⟩
  rintro ⟨n, hn⟩
  rw [hok] at hn
  cases hn

theorem quiet_pulled : Reached pulledBook Quiet pulled pulledTarget :=
  reached_pulled (quiet_of_ok trivial (by decide +kernel)) (quiet_of_ok trivial (by decide +kernel))
    (quiet_of_ok trivial (by decide +kernel))

/-- Pulled to one, the variable stays at two; and `v <= 1` is rejected, because no value meets it
along with the bound. -/
theorem pulled_admits_and_rejects :
    let atMostOne : Constraint ℚ := ⟨⟨2⟩, ⟨[.ofVariable ⟨0⟩], -1⟩, .atMost, .required⟩
    Reached pulledBook Quiet pulled pulledTarget ∧ pulled.value ⟨0⟩ = 2 ∧
      Admits (pulled.demands fun id => (pulledBook id).form pulledTarget) pulled.value ∧
      (pulled.add atMostOne).outcome = .error (.refused (.unsatisfiableConstraint ⟨2⟩)) ∧
      ¬ ∃ ρ, atMostOne.form.Holds ρ ∧
        Admits (pulled.demands fun id => (pulledBook id).form pulledTarget) ρ := by
  intro atMostOne
  obtain ⟨hadmits, hiff⟩ := quiet_pulled.admits_and_unsatisfiable_iff
  have hout : (pulled.add atMostOne).outcome =
      .error (.refused (.unsatisfiableConstraint ⟨2⟩)) := by
    decide +kernel
  refine ⟨quiet_pulled, by decide +kernel, hadmits, hout, ?_⟩
  refine ((hiff atMostOne (by decide +kernel) (by decide) ?_).mp hout).2
  rintro ⟨n, hn⟩
  rw [hout] at hn
  cases hn

namespace Reached

/-- **Optimality.**  After quiet calls the solved values meet every required constraint, and no
values that do cost less.  So it does not matter how the state was reached: two states with the same
demands, one of them perhaps built from nothing, have the same least cost. -/
theorem discontent_value_least (h : Reached book Quiet s τ) :
    Admits (s.demands fun id => (book id).form τ) s.value ∧
    (∀ ρ, Admits (s.demands fun id => (book id).form τ) ρ →
      discontent (s.demands fun id => (book id).form τ) s.value ≤
        discontent (s.demands fun id => (book id).form τ) ρ) ∧
    ∀ {book' : ConstraintId → Origin} {s' : Solver ℚ} {τ' : Variable → ℚ},
      Reached book' Quiet s' τ' →
      (s'.demands fun id => (book' id).form τ').Perm (s.demands fun id => (book id).form τ) →
      discontent (s'.demands fun id => (book' id).form τ') s'.value =
        discontent (s.demands fun id => (book id).form τ) s.value := by
  refine ⟨h.sound.admits_value h.atRest, fun ρ hρ => h.sound.discontent_value_le h.atRest hρ, ?_⟩
  intro book' s' τ' h' hperm
  have hadmits := h.sound.admits_value h.atRest
  have hadmits' := h'.sound.admits_value h'.atRest
  refine le_antisymm ?_ ?_
  · rw [← discontent_perm hperm s.value]
    exact h'.sound.discontent_value_le h'.atRest (hadmits.perm hperm.symm)
  · rw [discontent_perm hperm s'.value]
    exact h.sound.discontent_value_le h.atRest (hadmits'.perm hperm)

end Reached

/-- The same demands without an edit, from the start. -/
def scratchBook (id : ConstraintId) : Origin :=
  if id = ⟨0⟩ then .written atLeastTwo.form else .written (.edit ⟨0⟩ 1)

/-- The bound is added as before, and then a demand that is not an edit. -/
def scratch : Solver ℚ :=
  (pulledBegun.perform (.add ⟨⟨7⟩, ⟨[.ofVariable ⟨0⟩], -1⟩, .equal, .strong⟩)).solver

theorem reached_scratch : Reached scratchBook Quiet scratch fun _ => 0 :=
  .call _ (.call _ (.new {}) rfl (quiet_of_ok trivial (by decide +kernel))) rfl
    (quiet_of_ok trivial (by decide +kernel))

/-- Pulled to one against the bound, the variable pays one strong violation, which is the least that
any values pay, and what it pays in a solver that was given `v == 1` from the start. -/
theorem pulled_pays_least :
    Reached pulledBook Quiet pulled pulledTarget ∧
      (∀ ρ, Admits (pulled.demands fun id => (pulledBook id).form pulledTarget) ρ →
        discontent (pulled.demands fun id => (pulledBook id).form pulledTarget) pulled.value ≤
          discontent (pulled.demands fun id => (pulledBook id).form pulledTarget) ρ) ∧
      discontent (pulled.demands fun id => (pulledBook id).form pulledTarget) pulled.value =
        1000000 ∧
      discontent (scratch.demands fun id => (scratchBook id).form fun _ => 0) scratch.value =
        discontent (pulled.demands fun id => (pulledBook id).form pulledTarget) pulled.value := by
  obtain ⟨-, hleast, hsame⟩ := quiet_pulled.discontent_value_least
  have hpulled : pulled.constraints.entries =
      [(⟨0⟩, ⟨{ marker := ⟨2, .slack⟩ }, .required⟩),
        (⟨1⟩, ⟨{ marker := ⟨3, .error⟩, other := ⟨4, .error⟩ }, .strong⟩)] := by
    decide +kernel
  have hscratch : scratch.constraints.entries =
      [(⟨0⟩, ⟨{ marker := ⟨2, .slack⟩ }, .required⟩),
        (⟨7⟩, ⟨{ marker := ⟨3, .error⟩, other := ⟨4, .error⟩ }, .strong⟩)] := by
    decide +kernel
  refine ⟨quiet_pulled, hleast, by decide +kernel, hsame reached_scratch ?_⟩
  rw [Solver.demands, Solver.demands, hpulled, hscratch]
  rfl

end IncrementalSimplex
