/-
# Removing a redundant equality

A required equality that follows from others is kept as a row of its own: its dummy is basic, in
terms of the dummies of the others, with the constant zero.  All dummies are to stay at zero, but to
the tableau a dummy is one restricted symbol among others.

**Where that goes wrong.**  Removing a required equality whose dummy is free puts that dummy in the
basis first.  The row it is exchanged with is chosen by a ratio among the restricted rows in which
its coefficient is negative; rows with the opposite sign come second, whatever their ratio.  A
redundant row is likely to have the opposite sign.  Then it is not chosen, it is rewritten along
with the rest, and the dummy of an equality that is still live comes out positive
(`remove_breaks_equality`).

**What is left.**  Successful calls keep all restricted rows feasible, bulk calls and
removals included (`Reached.feasible`).  So after any successful removal the required inequalities
hold, a required equality `e == 0` holds at least as `e <= 0`, and by how much it fails is the
value of its dummy (`Reached.admits_remove_iff`).  If the redundant rows were intact before, and
the marker that goes is either in none of them or exchanged with one of them, nothing fails at
all.  Where nothing is soft there is an exact condition on the state before the removal: an
equality stays satisfied just if its row does not have the marker or the row that is exchanged has
the constant zero.
-/
import IncrementalSimplex.Proofs.Optimum

namespace IncrementalSimplex

/-! ## 1. Feasible rows along successful calls -/

/-- The call succeeds. -/
def Succeeds (s : Solver ℚ) (c : Call ℚ) : Prop := (s.perform c).outcome = .ok ()

/-- If the call is a suggestion, it succeeds. -/
def Followed (s : Solver ℚ) (c : Call ℚ) : Prop := ∀ v x, c = .suggest v x → Succeeds s c

theorem Succeeds.followed {s : Solver ℚ} {c : Call ℚ} (h : Succeeds s c) : Followed s c :=
  fun _ _ _ => h

namespace Solver

variable {book : ConstraintId → Origin} {s : Solver ℚ}

/-- Beginning an edit keeps the rows feasible, however it ends. -/
theorem Faithful.feasible_addEdit (h : s.Faithful book) {id : ConstraintId} {v : Variable}
    (hb : book id = .edit v) (p : Priority) (hfeas : s.tableau.Feasible) :
    (s.addEdit id v p).solver.tableau.Feasible := by
  rcases h.addEdit_cases hb p with ⟨e, -, heq⟩ | ⟨c, -, hform, -, hcases⟩
  · rw [heq]
    exact hfeas
  obtain ⟨-, -, hkeep, -⟩ := h.sound.add_frame hform
  rcases hcases with ⟨tag, -, -, -, -, hsol⟩ | ⟨error, -, -, ⟨-, hsol⟩ | hsol⟩
  · rw [hsol]
    exact hkeep hfeas
  · rw [hsol]
    exact hkeep hfeas
  · obtain ⟨-, -, -, hkeep', -⟩ := (h.sound.add hform).remove_frame c
    rw [hsol]
    exact hkeep' (hkeep hfeas)

/-- Ending an edit does too. -/
theorem Faithful.feasible_removeEdit (h : s.Faithful book) (v : Variable)
    (hfeas : s.tableau.Feasible) : (s.removeEdit v).solver.tableau.Feasible := by
  cases he : s.edits.get? v with
  | none =>
    rw [removeEdit_eq he]
    exact hfeas
  | some e =>
    have hs : (s.unedited v).Sound (s.forms book) := h.sound.withEdits _
    obtain ⟨-, -, -, hkeep, -⟩ := hs.remove_frame e.constraint
    rw [(removeEdit_of_edit he).1]
    exact hkeep hfeas

/-- **A call keeps the rows feasible**, however it ends, unless it is a suggestion that fails. -/
theorem Faithful.feasible_perform (h : s.Faithful book) (hfeas : s.tableau.Feasible) {c : Call ℚ}
    (hc : c.Lawful book s) (hfollowed : Followed s c) :
    (s.perform c).solver.tableau.Feasible := by
  have hadd : ∀ (u : Solver ℚ) (c : Constraint ℚ), book c.id = .written c.form →
      u.Faithful book ∧ u.tableau.Feasible →
        (u.add c).solver.Faithful book ∧ (u.add c).solver.tableau.Feasible :=
    fun u c hc hu => ⟨(hu.1.add hc).1, (hu.1.sound.add_frame (u.forms_written hc)).2.2.1 hu.2⟩
  have hremove : ∀ (u : Solver ℚ) (c : Constraint ℚ), book c.id = .written c.form →
      u.Faithful book ∧ u.tableau.Feasible →
        (u.remove c).solver.Faithful book ∧ (u.remove c).solver.tableau.Feasible :=
    fun u c hc hu => ⟨(hu.1.remove hc).1, (hu.1.sound.remove_frame c).2.2.2.1 hu.2⟩
  have hnone : ∀ c ∈ ([] : List (Constraint ℚ)), book c.id = .written c.form := by simp
  cases c with
  | add c => exact (hadd s c hc ⟨h, hfeas⟩).2
  | remove c => exact (hremove s c hc ⟨h, hfeas⟩).2
  | addAll cs => exact (batch_keeps hadd hremove hc hnone ⟨h, hfeas⟩).2
  | removeAll cs => exact (batch_keeps hremove hadd hc hnone ⟨h, hfeas⟩).2
  | edit id v p => exact h.feasible_addEdit hc.1 p hfeas
  | unedit v => exact h.feasible_removeEdit v hfeas
  | suggest v x =>
    have hok : (s.suggest v x).outcome = .ok () := hfollowed v x rfl
    obtain ⟨-, -, -, -, -, hout⟩ := h.suggest v x
    rcases hout with ⟨-, hkeep⟩ | hlimit | ⟨hstuck, -⟩
    · exact hkeep hfeas
    · rw [hok] at hlimit
      cases hlimit
    · rw [hok] at hstuck
      cases hstuck
  | reset => exact Tableau.atRest_empty.feasible

/-! ## 2. Required constraints of a feasible solver -/

variable {forms : ConstraintId → Form}

/-- **The required constraints of a feasible solver.**  The inequalities hold, and the equalities
fail by the values of their dummies. -/
theorem Sound.required_of_feasible (h : s.Sound forms) (hfeas : s.tableau.Feasible) :
    (∀ id r, s.constraints.get? id = some r → r.priority.isRequired = true →
      (forms id).relation ≠ .equal → (forms id).Holds s.value) ∧
    (∀ id r, s.constraints.get? id = some r → r.priority.isRequired = true →
      (forms id).relation = .equal → 0 ≤ s.symbolValue r.tag.marker ∧
        (forms id).expression.valueAt s.value = -s.symbolValue r.tag.marker) ∧
    (Admits (s.demands forms) s.value ↔ ∀ id r, s.constraints.get? id = some r →
      r.priority.isRequired = true → (forms id).relation = .equal →
        s.symbolValue r.tag.marker = 0) := by
  have hnonneg : ∀ x : Symbol, x.isRestricted → 0 ≤ s.tableau.point x := fun x =>
    hfeas.point_nonneg
  have hiff : ∀ id r, s.constraints.get? id = some r → r.priority.isRequired = true →
      ((forms id).Holds s.value ↔
        ((forms id).relation = .equal → s.symbolValue r.tag.marker = 0)) := by
    intro id r hr hreq
    rw [s.value_eq_reading, s.symbolValue_eq_point]
    exact h.records.holds_iff h.satisfies_point hnonneg hr hreq
  refine ⟨fun id r hr hreq hrel => ?_, fun id r hr hreq hrel => ⟨?_, ?_⟩, ?_⟩
  · exact (hiff id r hr hreq).mpr fun heq => absurd heq hrel
  · rw [s.symbolValue_eq_point]
    exact hnonneg _ (h.records.fits hr).marker_restricted
  · have heq := h.satisfies_point id r hr
    unfold Equates ConstraintRecord.tagPart at heq
    rw [hrel] at heq
    simp only [hreq, if_true] at heq
    rw [s.value_eq_reading, s.symbolValue_eq_point]
    linarith
  · rw [admits_demands_iff]
    exact forall_congr' fun id => forall_congr' fun r => forall_congr' fun hr =>
      forall_congr' fun hreq => hiff id r hr hreq

/-- **Without soft constraints there is nothing to minimize**: the objective is a constant on the
solutions, and so it has no coefficients. -/
theorem Sound.entering?_eq_none (h : s.Sound forms)
    (hhard : ∀ id r, s.constraints.get? id = some r → r.priority.isRequired = true) :
    Tableau.entering? s.tableau.objective = none := by
  have hcost : ∀ σ, s.cost σ = 0 := by
    intro σ
    refine List.sum_eq_zero fun q hq => ?_
    obtain ⟨⟨id, r⟩, he, rfl⟩ := List.mem_map.mp hq
    have hr := Registry.mem_entries_iff.mp he
    exact ConstraintRecord.penalty_of_required (f := forms id) (h.records.fits hr) (hhard id r hr) σ
  obtain ⟨k, hk⟩ := h.presents.objective_value
  have hfree : s.tableau.Free s.tableau.objective := fun _ hx => h.presents.objective hx
  have hzero : s.tableau.Free (.ofConstant 0) := fun x hx =>
    absurd hx (Row.not_mentions_ofConstant _ x)
  have hconst : ∀ σ, s.tableau.objective.value σ = (Row.ofConstant 0).value σ + k := by
    refine h.presents.toCanonical.value_eq_of_solves hfree hzero fun σ hσ => ?_
    rw [hk σ ((h.presents.solves σ).mp hσ), hcost, Row.value_ofConstant]
  cases he : Tableau.entering? s.tableau.objective with
  | none => rfl
  | some e =>
    obtain ⟨-, -, hneg⟩ := Tableau.of_entering? he
    rw [Row.coefficient_congr hconst,
      Row.coefficient_of_not_mentions (Row.not_mentions_ofConstant _ e)] at hneg
    exact absurd hneg (lt_irrefl _)

end Solver

namespace Reached

variable {book : ConstraintId → Origin} {s : Solver ℚ} {τ : Variable → ℚ}

/-- **A course of successful calls keeps the rows feasible.** -/
theorem feasible (h : Reached book Succeeds s τ) : s.tableau.Feasible := by
  induction h with
  | new config => exact Tableau.atRest_empty.feasible
  | call c hreached lawful allowed ih =>
    exact hreached.faithful.1.feasible_perform ih lawful allowed.followed

/-! ## 3. Removing -/

/-- **A removal where nothing is soft.**  If the rows of dummies were intact before and only
required constraints are left, the values satisfy them just if the expulsion of the marker disturbs
no dummy. -/
theorem admits_remove_iff_undisturbed (h : Reached book Succeeds s τ) {c : Constraint ℚ}
    (hc : book c.id = .written c.form) (hok : (s.remove c).outcome = .ok ())
    {r : ConstraintRecord} (hr : s.constraints.get? c.id = some r) (hpure : s.tableau.DummyPure)
    (hhard : ∀ id q, s.constraints.get? id = some q → id ≠ c.id → q.priority.isRequired = true) :
    Admits ((s.remove c).solver.demands fun id => (book id).form τ) (s.remove c).solver.value ↔
      ∀ id q, s.constraints.get? id = some q → id ≠ c.id →
        ((book id).form τ).relation = .equal →
          s.tableau.Undisturbed r.tag.marker q.tag.marker := by
  have hu : Reached book Succeeds (s.remove c).solver τ := h.call (.remove c) hc hok
  have hsound := h.faithful.1.sound
  have hafter := hu.faithful.1.sound
  rw [h.forms_eq] at hsound
  rw [hu.forms_eq] at hafter
  rcases hsound.remove_cases c with ⟨hnone, -⟩ | ⟨r', w, hr', hw, hsol, -⟩
  · rw [hr] at hnone
    cases hnone
  rw [hr] at hr'
  cases hr'
  have hlive : ∀ {id q}, (s.remove c).solver.constraints.get? id = some q ↔
      id ≠ c.id ∧ s.constraints.get? id = some q := hsound.get?_remove c
  have hpoint : (s.remove c).solver.tableau.point = w.tableau.point := by
    rw [hsol]
    refine Tableau.point_congr (Tableau.rows_minimize_of_entering?_eq_none ?_ _)
    refine hw.sound.entering?_eq_none fun id q hq => ?_
    have hq' : (s.remove c).solver.constraints.get? id = some q := by
      rw [hsol]
      exact hq
    exact hhard id q (hlive.mp hq').2 (hlive.mp hq').1
  have hrows := s.refunded_rows r
  have hregular : (s.refunded r).Regular := (hsound.presents_refunded hr).toRegular
  rw [(hafter.required_of_feasible hu.feasible).2.2]
  have hiff : ∀ id q, s.constraints.get? id = some q → id ≠ c.id →
      ((book id).form τ).relation = .equal →
        ((s.remove c).solver.symbolValue q.tag.marker = 0 ↔
          s.tableau.Undisturbed r.tag.marker q.tag.marker) := by
    intro id q hq hid hrel
    have hfit := hsound.records.fits hq
    have hdum := hfit.marker_isDummy hrel (hhard id q hq hid)
    have hne : q.tag.marker ≠ r.tag.marker := fun heq => hid (hsound.records.disjoint hq hr
      q.tag.marker hfit.has_marker ⟨hfit.marker_ne_placeholder, .inl heq⟩)
    rw [Solver.symbolValue_eq_point, hpoint, (hpure.of_rows hrows).point_expel_eq_zero_iff hregular
      hw.expelled hdum hne]
    unfold Tableau.Undisturbed Tableau.leavingForMarker?
    rw [hrows]
  constructor
  · intro hall id q hq hid hrel
    exact (hiff id q hq hid hrel).mp (hall id q (hlive.mpr ⟨hid, hq⟩) (hhard id q hq hid) hrel)
  · intro hall id q hq _ hrel
    obtain ⟨hid, hq⟩ := hlive.mp hq
    exact (hiff id q hq hid hrel).mpr (hall id q hq hid hrel)

/-- **What a successful removal leaves of the required constraints.**  They are all satisfied just
if the dummies of the live equalities are at zero.  If the rows of dummies were intact before, this
is so when the marker is expelled cleanly; and where nothing is soft, so that the expulsion alone
decides, just when it disturbs no dummy. -/
theorem admits_remove_iff (h : Reached book Succeeds s τ) {c : Constraint ℚ}
    (hc : book c.id = .written c.form) (hok : (s.remove c).outcome = .ok ()) :
    let u := (s.remove c).solver
    let forms := fun id => (book id).form τ
    (∀ id r, u.constraints.get? id = some r → r.priority.isRequired = true →
      (forms id).relation ≠ .equal → (forms id).Holds u.value) ∧
    (∀ id r, u.constraints.get? id = some r → r.priority.isRequired = true →
      (forms id).relation = .equal → 0 ≤ u.symbolValue r.tag.marker ∧
        (forms id).expression.valueAt u.value = -u.symbolValue r.tag.marker) ∧
    (Admits (u.demands forms) u.value ↔ ∀ id r, u.constraints.get? id = some r →
      r.priority.isRequired = true → (forms id).relation = .equal →
        u.symbolValue r.tag.marker = 0) ∧
    (s.tableau.DummyPure → (∀ r, s.constraints.get? c.id = some r →
      s.tableau.ExpelsCleanly r.tag.marker) → Admits (u.demands forms) u.value) ∧
    (s.tableau.DummyPure → (∀ id q, s.constraints.get? id = some q → id ≠ c.id →
        q.priority.isRequired = true) → ∀ r, s.constraints.get? c.id = some r →
      (Admits (u.demands forms) u.value ↔ ∀ id q, s.constraints.get? id = some q → id ≠ c.id →
        (forms id).relation = .equal → s.tableau.Undisturbed r.tag.marker q.tag.marker)) := by
  intro u forms
  have hu : Reached book Succeeds u τ := h.call (.remove c) hc hok
  have hsound : u.Sound forms := by
    have := hu.faithful.1.sound
    rwa [hu.forms_eq] at this
  obtain ⟨hineq, heq, hiff⟩ := hsound.required_of_feasible hu.feasible
  refine ⟨hineq, heq, hiff, fun hpure hclean => ?_, fun hpure hhard r hr =>
    h.admits_remove_iff_undisturbed hc hok hr hpure hhard⟩
  obtain ⟨-, -, -, -, hkeep⟩ := h.faithful.1.sound.remove_frame c
  have hproper : u.tableau.point.Proper :=
    ⟨fun x => hu.feasible.point_nonneg, fun x => (hkeep hpure hclean).point_eq_zero⟩
  rw [u.value_eq_reading]
  exact hsound.records.admits hsound.satisfies_point hproper

end Reached

/-! ## 4. The same equality twice -/

/-- The constraints: `v == 5` under two numbers ... -/
def equalFive (n : Nat) : Constraint ℚ := ⟨⟨n⟩, ⟨[.ofVariable ⟨0⟩], -5⟩, .equal, .required⟩

/-- ... and `v >= 2`. -/
def boundTwo : Constraint ℚ := ⟨⟨2⟩, ⟨[.ofVariable ⟨0⟩], -2⟩, .atLeast, .required⟩

def twiceBook (id : ConstraintId) : Origin :=
  if id = ⟨2⟩ then .written boundTwo.form else .written (equalFive 0).form

def twiceBegun : Solver ℚ := ((Solver.new : Solver ℚ).perform (.add (equalFive 0))).solver

def twiceEqual : Solver ℚ := (twiceBegun.perform (.add (equalFive 1))).solver

def twice : Solver ℚ := (twiceEqual.perform (.add boundTwo)).solver

theorem reached_twice : Reached twiceBook Succeeds twice fun _ => 0 := by
  have hfirst : Succeeds (Solver.new {}) (.add (equalFive 0)) := by
    unfold Succeeds
    decide +kernel
  have hsecond : Succeeds twiceBegun (.add (equalFive 1)) := by
    unfold Succeeds
    decide +kernel
  have hthird : Succeeds twiceEqual (.add boundTwo) := by
    unfold Succeeds
    decide +kernel
  exact .call _ (.call _ (.call _ (.new {}) rfl hfirst) rfl hsecond) rfl hthird

/-- **Removing one of them breaks the other.**  The removal succeeds and the second equality is
still live and required, but the solved value is two. -/
theorem remove_breaks_equality :
    Reached twiceBook Succeeds twice (fun _ => 0) ∧ twice.has (equalFive 0) ∧
      (twice.remove (equalFive 0)).outcome = .ok () ∧
      (twice.remove (equalFive 0)).solver.has (equalFive 1) ∧
      (twice.remove (equalFive 0)).solver.value ⟨0⟩ = 2 ∧
      ¬ Admits ((twice.remove (equalFive 0)).solver.demands fun id =>
        (twiceBook id).form fun _ => 0) (twice.remove (equalFive 0)).solver.value := by
  have hlive : (twice.remove (equalFive 0)).solver.constraints.get? ⟨1⟩ =
      some ⟨{ marker := ⟨3, .dummy⟩ }, .required⟩ := by
    decide +kernel
  have hvalue : (twice.remove (equalFive 0)).solver.value ⟨0⟩ = 2 := by decide +kernel
  refine ⟨reached_twice, by decide +kernel, by decide +kernel, by decide +kernel, hvalue,
    fun hadmits => ?_⟩
  have hfive : -5 + 1 * (twice.remove (equalFive 0)).solver.value ⟨0⟩ = 0 :=
    Solver.admits_demands_iff.mp hadmits ⟨1⟩ _ hlive rfl
  rw [hvalue] at hfive
  norm_num at hfive

/-- The other way round nothing breaks: the dummy of the second equality is basic, and its row is
dropped. -/
theorem remove_second_admits :
    Reached twiceBook Succeeds twice (fun _ => 0) ∧ (twice.remove (equalFive 1)).outcome = .ok () ∧
      Admits ((twice.remove (equalFive 1)).solver.demands fun id =>
        (twiceBook id).form fun _ => 0) (twice.remove (equalFive 1)).solver.value := by
  have hok : (twice.remove (equalFive 1)).outcome = .ok () := by decide +kernel
  have hzero : ∀ e ∈ (twice.remove (equalFive 1)).solver.constraints.entries,
      (twice.remove (equalFive 1)).solver.symbolValue e.2.tag.marker = 0 ∨
        e.1 = ⟨2⟩ := by
    decide +kernel
  refine ⟨reached_twice, hok, (reached_twice.admits_remove_iff rfl hok).2.2.1.mpr ?_⟩
  intro id r hr _ hrel
  rcases hzero _ (Registry.mem_entries_iff.mpr hr) with hz | hid
  · exact hz
  · have htwo : id = ⟨2⟩ := hid
    rw [htwo] at hrel
    cases hrel

end IncrementalSimplex
