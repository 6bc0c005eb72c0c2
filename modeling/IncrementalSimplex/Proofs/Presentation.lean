/-
# What a tableau presents

A tableau is only a way to write something down: a system of equations and a cost.  `Presents t S c`
says that `t` is sound, that the assignments which solve it are those that satisfy `S`, and that on
them the objective is the cost `c`, up to a constant.  It is the one invariant that every later
module carries through the calls, and each operation of the solver has one lemma that says which
system and which cost are presented AFTERWARDS:

    charge an error              S                       c + weight * error
    uncharge it                  S                       c - weight * error
    a primal or dual pass        S                       c
    place a row                  S and row = 0           c
    expel a marker m             S for some value of m   c
    shift an edit's target       S with m moved          c

This module has the first four, where the row that is placed is solved for a symbol of its own
(`Presents.enter`).  Phase one, which needs a symbol from outside, the expulsion and the shift have
modules of their own.

**The constant of the cost is open** because a shift changes it: the objective's own constant is
left as it was when the target moves.  No call reads that constant.
-/
import IncrementalSimplex.Solver.Removal
import IncrementalSimplex.Proofs.Passes

namespace IncrementalSimplex

namespace Tableau

/-! ## 1. The invariant -/

/-- **The tableau presents the system `S` at the cost `c`.** -/
structure Presents (t : Tableau ℚ) (S : Assignment → Prop) (c : Assignment → ℚ) : Prop
    extends t.Sound where
  noArtificial : t.artificial = none
  solves : ∀ σ, t.Solves σ ↔ S σ
  prices : t.Prices .main c

variable {t u : Tableau ℚ} {S S' : Assignment → Prop} {c c' : Assignment → ℚ}

/-- A system and a cost are as good as what they mean. -/
theorem Presents.congr (h : t.Presents S c) (hS : ∀ σ, S σ ↔ S' σ) (hc : ∀ σ, c σ = c' σ) :
    t.Presents S' c' := by
  obtain ⟨k, hk⟩ := h.prices
  refine ⟨h.toSound, h.noArtificial, fun σ => (h.solves σ).trans (hS σ), k, ?_⟩
  intro objective hobj σ hσ
  rw [← hc σ]
  exact hk objective hobj σ hσ

/-- The objective of a presenting tableau. -/
theorem Presents.objective_value (h : t.Presents S c) :
    ∃ k, ∀ σ, S σ → t.objective.value σ = c σ + k := by
  obtain ⟨k, hk⟩ := h.prices
  exact ⟨k, fun σ hσ => hk t.objective rfl σ ((h.solves σ).mpr hσ)⟩

/-- Only a symbol that occurs in the tableau can matter to the system. -/
theorem Presents.update_of_absent (h : t.Presents S c) {x : Symbol} (hx : t.Nonbasic x)
    (habs : ∀ b row, t.rows.get? b = some row → ¬ row.Mentions x) (σ : Assignment) (q : ℚ) :
    S (Function.update σ x q) ↔ S σ := by
  rw [← h.solves, ← h.solves]
  exact solves_update_of_absent hx habs σ q

theorem Presents.withQueue (h : t.Presents S c) {queue : List Symbol}
    (hqueue : ∀ x ∈ queue, x.isRestricted) :
    ({ t with infeasible := queue } : Tableau ℚ).Presents S c :=
  ⟨h.toSound.withQueue hqueue, h.noArtificial, h.solves, h.prices⟩

/-- The empty tableau presents the system without equations, at no cost. -/
theorem presents_empty : (empty : Tableau ℚ).Presents (fun _ => True) (fun _ => 0) where
  rows h := by cases h
  objective h := by cases h
  artificial h := by cases h
  reduced h := by cases h
  objective_reduced := Row.reduced_ofConstant 0
  artificial_reduced h := by cases h
  externalFree := by
    refine ⟨?_, ?_, ?_⟩
    · intro b row h
      cases h
    · intro x h
      cases h
    · intro row h
      cases h
  queueRestricted _ h := by cases h
  noArtificial := rfl
  solves _ := ⟨fun _ => trivial, fun _ _ _ h => by cases h⟩
  prices := by
    refine ⟨0, fun objective hobj σ _ => ?_⟩
    cases hobj
    exact (Row.value_ofConstant 0 σ).trans (add_zero 0).symm

/-! ## 2. Passes -/

/-- An equivalent sound tableau presents the same. -/
theorem Presents.of_equivalent (h : t.Presents S c) (hu : u.Sound) (heq : t.Equivalent u) :
    u.Presents S c where
  toSound := hu
  noArtificial := by
    have hart := heq.artificial _ h.toCanonical.solves_point
    rw [h.noArtificial] at hart
    exact Option.map_eq_none_iff.mp hart
  solves σ := (heq.solves σ).trans (h.solves σ)
  prices := heq.prices h.prices

/-- **The primal pass**: what is presented stays, feasible rows and the rows of dummies stay so, and
it ends with a settled objective or at its limit. -/
theorem Presents.minimize (h : t.Presents S c) (hmono : MonotoneCost c) (limit : Nat) :
    (t.minimize limit .main).tableau.Presents S c ∧
      (t.Feasible → (t.minimize limit .main).tableau.Feasible) ∧
      (t.DummyPure → (t.minimize limit .main).tableau.DummyPure) ∧
      ((t.minimize limit .main).outcome = .ok () ∧ (t.minimize limit .main).tableau.Settled ∨
        (t.minimize limit .main).outcome = .error (.refused (.iterationLimit limit))) := by
  obtain ⟨last, ⟨hlast, hfeas, hpure⟩, hend⟩ := minimize_ends
    (P := fun u => u.Presents S c ∧ (t.Feasible → u.Feasible) ∧ (t.DummyPure → u.DummyPure))
    (fun u v ⟨hu, hfeas, hpure⟩ (hs : PrimalStep .main u v) =>
      ⟨hu.of_equivalent (hs.sound hu.toSound) (hs.equivalent hu.toCanonical),
        fun ht => hs.feasible hu.toCanonical (hfeas ht), fun ht => hs.dummyPure (hpure ht)⟩)
    ⟨h, id, id⟩ limit
  have hkept : (t.minimize limit .main).tableau.Presents S c ∧
      (t.Feasible → (t.minimize limit .main).tableau.Feasible) ∧
      (t.DummyPure → (t.minimize limit .main).tableau.DummyPure) := by
    rcases hend.tableau_eq with heq | heq
    · rw [heq]
      exact ⟨hlast, hfeas, hpure⟩
    · rw [heq]
      exact ⟨hlast.withQueue (by simp), hfeas, hpure⟩
  refine ⟨hkept.1, hkept.2.1, hkept.2.2, ?_⟩
  rcases hend.cases_outcome hlast.toCanonical with ⟨ho, he⟩ | ho | ⟨-, objective, e, hobj, he, hl⟩
  · refine .inl ⟨ho, fun x hx => ?_⟩
    have hlow := nonneg_of_entering?_eq_none (he last.objective rfl) hx
    rcases hend.tableau_eq with heq | heq
    · rw [heq]
      exact hlow
    · rw [heq]
      exact hlow
  · exact .inr ho
  · exact absurd hl (leaving?_ne_none hlast.toCanonical hlast.prices hmono hobj he)

/-- **The dual pass**: what is presented stays, so do the rows of dummies and a settled objective,
and it ends with all rows repaired, at its limit, or because no proper assignment satisfies the
system. -/
theorem Presents.repair (h : t.Presents S c) (limit : Nat) :
    (t.repair limit).tableau.Presents S c ∧
      (t.DummyPure → (t.repair limit).tableau.DummyPure) ∧
      (t.Settled → (t.repair limit).tableau.Settled) ∧
      ((t.repair limit).outcome = .ok () ∧ (t.Queued → (t.repair limit).tableau.Feasible) ∨
        (t.repair limit).outcome = .error (.refused (.iterationLimit limit)) ∨
        (t.repair limit).outcome = .error (.refused (.internal .dualStuck)) ∧
          ∀ σ : Assignment, σ.Proper → ¬ S σ) := by
  obtain ⟨last, ⟨hlast, hpure, hset, hq⟩, hend⟩ := repair_ends
    (P := fun u => u.Presents S c ∧ (t.DummyPure → u.DummyPure) ∧ (t.Settled → u.Settled) ∧
      (t.Queued → u.Queued))
    (fun u v ⟨hu, hpure, hset, _⟩ hs =>
      ⟨hu.of_equivalent (hs.sound hu.toSound) (hs.equivalent hu.toRegular),
        fun ht => hs.dummyPure (hpure ht), fun ht => hs.settled hu.toRegular (hset ht),
        fun _ => hs.queued hu.toRegular⟩)
    ⟨h, id, id, id⟩ limit
  have hkept : (t.repair limit).tableau.Presents S c ∧
      (t.DummyPure → (t.repair limit).tableau.DummyPure) ∧
      (t.Settled → (t.repair limit).tableau.Settled) := by
    obtain ⟨queue, hqueue, heq⟩ := hend.tableau_eq
    rw [heq]
    exact ⟨hlast.withQueue fun x hx => hlast.queueRestricted x (hqueue x hx), hpure, hset⟩
  refine ⟨hkept.1, hkept.2.1, hkept.2.2, ?_⟩
  rcases hend.cases_outcome hlast.toCanonical with
    ⟨ho, hnext, heq⟩ | ho | ⟨ho, l, row, rest, hnext, he⟩
  · refine .inl ⟨ho, fun ht => ?_⟩
    rw [heq]
    exact (hq ht).feasible_of_drained hnext
  · exact .inr (.inl ho)
  · refine .inr (.inr ⟨ho, fun σ hσ hS => ?_⟩)
    obtain ⟨hrow, hneg, hl, -⟩ := of_nextInfeasible? hnext
    exact dualEntering?_ne_none hlast.toSound hσ ((hlast.solves σ).mpr hS) hrow
      (hlast.queueRestricted _ hl) hneg he

/-! ## 3. Charges -/

/-- The amount that is charged for a symbol: its value if it is an error, else nothing. -/
def errorAt (σ : Assignment) (x : Symbol) : ℚ := if x.isError then σ x else 0

/-- **Another objective** presents another cost, by as much as they differ on the solutions. -/
theorem Presents.setObjective (h : t.Presents S c) {objective : Row ℚ}
    (hfree : t.Free objective) (hred : objective.Reduced) (hext : objective.ExternalFree)
    (hval : ∀ σ, t.Solves σ → objective.value σ = t.objective.value σ + c' σ) :
    ({ t with objective := objective } : Tableau ℚ).Presents S (fun σ => c σ + c' σ) where
  rows := h.rows
  objective := @fun x hx => hfree x hx
  artificial := h.artificial
  reduced := h.reduced
  objective_reduced := hred
  artificial_reduced := h.artificial_reduced
  externalFree := ⟨h.externalFree.rows, hext, h.externalFree.artificial⟩
  queueRestricted := h.queueRestricted
  noArtificial := h.noArtificial
  solves := h.solves
  prices := by
    obtain ⟨k, hk⟩ := h.prices
    refine ⟨k, fun other hother σ hσ => ?_⟩
    cases hother
    rw [hval σ hσ, hk t.objective rfl σ hσ]
    ring

/-- A symbol without a row is charged in its own cell. -/
theorem Presents.addCost (h : t.Presents S c) {x : Symbol} (hx : t.Nonbasic x)
    (hres : x.isRestricted) (w : ℚ) :
    ({ t with objective := t.objective.addCell x w } : Tableau ℚ).Presents S
      (fun σ => c σ + w * σ x) := by
  refine h.setObjective (fun y hy => ?_) (h.objective_reduced.addCell x w) (fun y hy => ?_)
    (fun σ _ => Row.value_addCell _ x w σ)
  · rcases Row.mentions_addCell hy with rfl | hy
    · exact hx
    · exact h.objective hy
  · rcases Row.mentions_addCell hy with rfl | hy
    · exact hres
    · exact h.externalFree.objective y hy

theorem uncharge_rows {α : Type} [Scalar α] (t : Tableau α) (x : Symbol) (w : α) :
    (t.uncharge x w).rows = t.rows := by
  unfold uncharge
  split <;> rfl

/-- **Uncharging takes the price of an error back**, also where the error is basic. -/
theorem Presents.uncharge (h : t.Presents S c) (x : Symbol) (w : ℚ) :
    (t.uncharge x w).Presents S (fun σ => c σ - w * errorAt σ x) := by
  unfold Tableau.uncharge errorAt
  split
  · rename_i herr
    have hres := Symbol.isRestricted_of_isError herr
    cases hrow : t.rows.get? x with
    | some row =>
      have hval : ∀ σ, t.Solves σ →
          (t.objective.addRow row (-w)).value σ = t.objective.value σ + -w * σ x := by
        intro σ hσ
        rw [Row.value_addRow, ← hσ x row hrow]
        ring
      refine (h.setObjective (fun y hy => ?_) (h.objective_reduced.addRow row (-w))
        (fun y hy => ?_) hval).congr (fun _ => Iff.rfl) (fun σ => by ring)
      · rcases Row.mentions_addRow hy with hy | hy
        · exact h.objective hy
        · exact h.rows hrow hy
      · rcases Row.mentions_addRow hy with hy | hy
        · exact h.externalFree.objective y hy
        · exact h.externalFree.rows hrow hres y hy
    | none => exact (h.addCost hrow hres (-w)).congr (fun _ => Iff.rfl) (fun σ => by ring)
  · exact h.congr (fun _ => Iff.rfl) (fun σ => by ring)

/-! ## 4. A row that is to equal zero -/

/-- **Making a row basic adds its equation.**  It is solved for a symbol of its own that has no row
yet; unless that is an external one, the row must be without external symbols. -/
theorem Presents.enter (h : t.Presents S c) {row solved : Row ℚ} {x : Symbol}
    (hx : t.Nonbasic x) (hfree : t.Free row) (hred : row.Reduced)
    (hsolved : row.solveFor? x = some solved) (hext : x.isExternal = true ∨ row.ExternalFree) :
    (t.enter x solved).Presents (fun σ => S σ ∧ row.value σ = 0) c := by
  have hmen : ∀ {y}, solved.Mentions y → y ≠ x ∧ row.Mentions y :=
    (Row.mentions_solveFor? hsolved).mp
  have hc : row.coefficient x ≠ 0 := by
    refine hred.coefficient_ne_zero ?_
    obtain ⟨q, hq, -⟩ := Option.map_eq_some_iff.mp hsolved
    exact Row.mentions_iff.mpr ⟨q, hq⟩
  refine ⟨⟨h.toRegular.enter (fun hy => (hmen hy).1 rfl) (fun y hy => hfree y (hmen hy).2)
    (hred.solveFor? hsolved), ?_, h.queueRestricted.enter x solved⟩, ?_, fun σ => ?_, ?_⟩
  · rcases hext with hext | hext
    · exact h.externalFree.enter_external hext
    · have hsol : solved.ExternalFree := fun y hy => hext y (hmen hy).2
      exact h.externalFree.enter (fun _ => hsol) (.inl hsol)
  · show t.artificial.map _ = none
    rw [h.noArtificial]
    rfl
  · rw [solves_enter hx, h.solves, Row.eq_value_solveFor?_iff hsolved hc]
  · obtain ⟨k, hk⟩ := h.prices
    refine ⟨k, fun objective hobj σ hσ => ?_⟩
    cases hobj
    obtain ⟨hσ, heq⟩ := (solves_enter hx σ).mp hσ
    exact (Row.value_substitute_of_eq heq).trans (hk t.objective rfl σ hσ)

/-! ## 5. Taking a row or a column out -/

/-- What is presented once the row of a symbol without a price is taken out.  External symbols may
have been in that row. -/
theorem Regular.presents_dropRow (h : t.Regular) (hart : t.artificial = none)
    (hS : ∀ σ, t.Solves σ ↔ S σ) (hp : t.Prices .main c) (hq : t.QueueRestricted) {m : Symbol}
    {row : Row ℚ} (hrow : t.rows.get? m = some row)
    (hcm : ∀ σ q, c (Function.update σ m q) = c σ) (hext : (t.dropRow m).ExternalFree) :
    (t.dropRow m).Presents (fun σ => ∃ q, S (Function.update σ m q)) c where
  toSound := ⟨h.dropRow m, hext, hq⟩
  noArtificial := hart
  solves σ := (h.toCanonical.solves_dropRow hrow σ).trans (exists_congr fun q => hS _)
  prices := by
    obtain ⟨k, hk⟩ := hp
    refine ⟨k, fun objective hobj σ hσ => ?_⟩
    cases hobj
    obtain ⟨q, hq⟩ := (h.toCanonical.solves_dropRow hrow σ).mp hσ
    have hval : t.objective.value (Function.update σ m q) = t.objective.value σ :=
      Row.value_congr fun y hy => Function.update_of_ne ((h.objective hy).ne hrow) _ _
    show t.objective.value σ = c σ + k
    rw [← hcm σ q, ← hk t.objective rfl _ hq, hval]

theorem Feasible.dropColumn (h : t.Feasible) (x : Symbol) : (t.dropColumn x).Feasible := by
  intro b row hb hres
  obtain ⟨old, hold, rfl⟩ := get?_of_dropColumn hb
  exact h b old hold hres

/-- **Dropping the column of a free symbol without a price** sets the symbol to zero. -/
theorem Presents.dropColumn (h : t.Presents S c) {x : Symbol} (hx : t.Nonbasic x)
    (hcx : ∀ σ q, c (Function.update σ x q) = c σ) :
    (t.dropColumn x).Presents (fun σ => S (Function.update σ x 0)) c where
  toSound := ⟨h.toRegular.dropColumn x, h.externalFree.dropColumn x, h.queueRestricted⟩
  noArtificial := h.noArtificial
  solves σ := (solves_dropColumn hx σ).trans (h.solves _)
  prices := by
    obtain ⟨k, hk⟩ := h.prices
    refine ⟨k, fun objective hobj σ hσ => ?_⟩
    cases hobj
    show (t.objective.dropCell x).value σ = c σ + k
    rw [value_dropCell_eq_update, hk t.objective rfl _ ((solves_dropColumn hx σ).mp hσ), hcx]

end Tableau

end IncrementalSimplex
