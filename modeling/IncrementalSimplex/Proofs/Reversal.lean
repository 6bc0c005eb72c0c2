/-
# A pivot can be taken back

One pivot rewrites every row and the objective: cells are added, cells cancel and are dropped, and
the leaving symbol comes in wherever the entering one was.  Pivoting on the same two symbols the
other way round takes all of it back, down to the stored cells.

The proof follows no cell through the two rewritings.  **A tableau in solved form is determined by
its basis and its solutions.**  Its rows are over free symbols, and free symbols may be chosen at
will, so two rows for one basic symbol that agree on the solutions agree everywhere
(`Canonical.value_eq_of_solves`).  Without zero cells a row is determined by its values
(`Row.Reduced.ext`).  The two pivots keep the solutions and the values of the objective at them, and
they end at the basis that they began with; so they end at the rows and the objective that they began
with (`Regular.eq_of_equivalent`).

**What is not assumed.**  `SolvedForm` asks for nothing of the artificial objective, which a tableau
may or may not hold at the time.  Pivots carry it along without looking at it, so it is taken off
before the argument starts (`SolvedForm.regular`, `pivot_disarm`).
-/
import IncrementalSimplex.Proofs.PhaseOne

namespace IncrementalSimplex

/-! ## 1. A reduced row is determined by its values -/

namespace Row

/-- The cells of a reduced row, read off its coefficients. -/
theorem Reduced.get?_eq {r : Row ℚ} (h : r.Reduced) (x : Symbol) :
    r.cells.get? x = if r.coefficient x = 0 then none else some (r.coefficient x) := by
  split
  · rename_i hzero
    exact not_mentions_iff.mp fun hx => h.mentions_iff.mp hx hzero
  · rename_i hne
    obtain ⟨c, hc⟩ := Row.mentions_iff.mp (h.mentions_iff.mpr hne)
    rw [coefficient_of_get? hc, hc]

/-- **Reduced rows with the same values are the same row**, cells and all. -/
theorem Reduced.ext {r t : Row ℚ} (hr : r.Reduced) (ht : t.Reduced)
    (h : ∀ σ, r.value σ = t.value σ) : r = t := by
  have hconstant : r.constant = t.constant := by
    rw [← r.value_zero, ← t.value_zero]
    exact h _
  have hcoefficient : ∀ x, r.coefficient x = t.coefficient x :=
    coefficient_congr fun σ => (h σ).trans (add_zero _).symm
  have hcells : r.cells = t.cells := SymbolMap.ext fun x => by
    rw [hr.get?_eq, ht.get?_eq, hcoefficient]
  cases r
  cases t
  cases hconstant
  cases hcells
  rfl

theorem reduced_iff {r : Row ℚ} : r.Reduced ↔ ∀ e ∈ r.cells.entries, e.2 ≠ 0 :=
  ⟨fun h e he => h e.1 e.2 (SymbolMap.mem_entries_iff.mp he),
    fun h x c hc => h (x, c) (SymbolMap.mem_entries_iff.mpr hc)⟩

instance (r : Row ℚ) : Decidable r.Reduced := decidable_of_iff _ reduced_iff.symm

end Row

namespace Tableau

/-! ## 2. A tableau is determined by its basis and its solutions -/

/-- **Two regular tableaus with one basis and the same system have the same rows and the same
objective.** -/
theorem Regular.eq_of_equivalent {t v : Tableau ℚ} (ht : t.Regular) (hv : v.Regular)
    (hbasis : ∀ x, v.Nonbasic x ↔ t.Nonbasic x) (heq : t.Equivalent v) :
    v.rows = t.rows ∧ v.objective = t.objective := by
  -- forms of the two tableaus that agree on the solutions are one form
  have hform : ∀ {r new : Row ℚ}, t.Free r → v.Free new → r.Reduced → new.Reduced →
      (∀ σ, t.Solves σ → new.value σ = r.value σ) → new = r := by
    intro r new hr hnew hred hrednew hval
    refine hrednew.ext hred fun σ => ?_
    have := ht.toCanonical.value_eq_of_solves (k := 0)
      (fun x hx => (hbasis x).mp (hnew x hx)) hr
      (fun τ hτ => (hval τ hτ).trans (add_zero _).symm) σ
    rwa [add_zero] at this
  refine ⟨SymbolMap.ext fun b => ?_, ?_⟩
  · cases hold : t.rows.get? b with
    | none => exact (hbasis b).mpr hold
    | some r =>
      cases hnew : v.rows.get? b with
      | none => exact absurd ((hbasis b).mp hnew) (not_nonbasic_of_get? hold)
      | some new =>
        refine congrArg some (hform (fun _ => ht.rows hold) (fun _ => hv.rows hnew)
          (ht.reduced hold) (hv.reduced hnew) fun σ hσ => ?_)
        rw [← hσ b r hold, (heq.solves σ).mpr hσ b new hnew]
  · exact hform (fun _ => ht.objective) (fun _ => hv.objective) ht.objective_reduced
      hv.objective_reduced heq.objective

/-! ## 3. There and back -/

section Any

variable {α : Type} [Scalar α]

/-- **The basis after a pivot**: the entering symbol is basic in place of the leaving one. -/
theorem nonbasic_pivot_iff {t u : Tableau α} {e l : Symbol} (hu : t.pivot ⟨e, l⟩ = .ok u)
    (x : Symbol) : u.Nonbasic x ↔ x ≠ e ∧ (x = l ∨ t.Nonbasic x) := by
  obtain ⟨row, solved, -, -, rfl⟩ := pivot_cases hu
  rw [nonbasic_enter]
  refine and_congr_right fun _ => ?_
  rw [Nonbasic, get?_dropRow]
  by_cases hxl : x = l <;> simp [hxl, Nonbasic]

end Any

/-- The leaving symbol has a cell in the new row of the entering one. -/
theorem mentions_leaving {t u : Tableau ℚ} (ht : t.Regular) {e l : Symbol} (he : t.Nonbasic e)
    (hu : t.pivot ⟨e, l⟩ = .ok u) : ∃ row, u.rows.get? e = some row ∧ row.Mentions l := by
  obtain ⟨row, solved, hrow, hel, hc, hsolved, rfl⟩ := ht.pivot_row he hu
  refine ⟨solved, by rw [get?_enter, if_pos rfl], Row.mentions_of_coefficient_ne_zero ?_⟩
  have hown : row.coefficient l = 0 :=
    Row.coefficient_of_not_mentions fun hl => (ht.rows hrow hl).ne hrow rfl
  rw [Row.coefficient_exchange? hel (Ne.symm hel) hsolved hc, if_pos rfl, hown, sub_zero]
  exact one_div_ne_zero hc

/-- **The pivot on the same symbols the other way round brings the rows and the objective back.** -/
theorem Regular.pivot_back {t u : Tableau ℚ} (ht : t.Regular) {e l : Symbol} (he : t.Nonbasic e)
    (hu : t.pivot ⟨e, l⟩ = .ok u) :
    ∃ v, u.pivot ⟨l, e⟩ = .ok v ∧ v.rows = t.rows ∧ v.objective = t.objective := by
  obtain ⟨row, -, hrow, hel, -⟩ := ht.pivot_row he hu
  obtain ⟨new, hnew, hl⟩ := mentions_leaving ht he hu
  obtain ⟨v, hv⟩ := exists_pivot (Ne.symm hel) hnew hl
  have hfree : u.Nonbasic l := (nonbasic_pivot_iff hu l).mpr ⟨Ne.symm hel, .inl rfl⟩
  have hbasis : ∀ x, v.Nonbasic x ↔ t.Nonbasic x := by
    intro x
    rw [nonbasic_pivot_iff hv, nonbasic_pivot_iff hu]
    constructor
    · rintro ⟨hxl, rfl | ⟨-, rfl | hx⟩⟩
      · exact he
      · exact absurd rfl hxl
      · exact hx
    · intro hx
      refine ⟨hx.ne hrow, ?_⟩
      by_cases hxe : x = e
      · exact .inl hxe
      · exact .inr ⟨hxe, .inr hx⟩
  have hequiv : t.Equivalent v :=
    (ht.pivot_equivalent he hu).trans ((ht.pivot hu).pivot_equivalent hfree hv)
  exact ⟨v, hv, ht.eq_of_equivalent ((ht.pivot hu).pivot hv) hbasis hequiv⟩

/-! ## 4. Without the artificial objective -/

/-- **No basic symbol occurs in a cell of a row or of the objective, and no cell there is zero.**
The artificial objective may hold anything. -/
structure SolvedForm (t : Tableau ℚ) : Prop where
  rows : ∀ {b row}, t.rows.get? b = some row → t.Free row ∧ row.Reduced
  objective : t.Free t.objective ∧ t.objective.Reduced

theorem SolvedForm.regular {t : Tableau ℚ} (h : t.SolvedForm) : t.disarm.Regular where
  rows hb _ := (h.rows hb).1 _
  objective := h.objective.1 _
  artificial ha := by cases ha
  reduced hb := (h.rows hb).2
  objective_reduced := h.objective.2
  artificial_reduced ha := by cases ha

theorem Regular.solvedForm {t : Tableau ℚ} (h : t.disarm.Regular) : t.SolvedForm :=
  ⟨fun hb => ⟨fun _ => h.rows hb, h.reduced hb⟩, fun _ => h.objective, h.objective_reduced⟩

theorem solvedForm_iff {t : Tableau ℚ} : t.SolvedForm ↔
    (∀ e ∈ t.rows.entries, t.Free e.2 ∧ e.2.Reduced) ∧ t.Free t.objective ∧
      t.objective.Reduced :=
  ⟨fun h => ⟨fun _ he => h.rows (SymbolMap.mem_entries_iff.mp he), h.objective⟩,
    fun ⟨hrows, hobj⟩ => ⟨fun hb => hrows _ (SymbolMap.mem_entries_iff.mpr hb), hobj⟩⟩

instance (t : Tableau ℚ) : Decidable t.SolvedForm := decidable_of_iff _ solvedForm_iff.symm

/-- A pivot does not look at the artificial objective. -/
theorem pivot_disarm {α : Type} [Scalar α] {t u : Tableau α} {e l : Symbol}
    (hu : t.pivot ⟨e, l⟩ = .ok u) : t.disarm.pivot ⟨e, l⟩ = .ok u.disarm := by
  obtain ⟨row, solved, hrow, hsolved, rfl⟩ := pivot_cases hu
  exact pivot_eq_ok_iff.mpr ⟨row, solved, hrow, hsolved, rfl⟩

/-- **A pivot and its reversal.**  From a tableau in solved form, and for every basic symbol `l` and
every symbol `e` with a cell in its row, the pivot is carried out and ends in solved form with `e`
basic in place of `l`, has the same solutions, and leaves `l` a cell in the row of `e`.  The pivot
that exchanges the two again is carried out as well, and ends with the rows and the objective that
there were at the beginning. -/
theorem SolvedForm.pivot_reverses {t : Tableau ℚ} (ht : t.SolvedForm) {e l : Symbol} {row : Row ℚ}
    (hrow : t.rows.get? l = some row) (he : row.Mentions e) :
    ∃ u, t.pivot ⟨e, l⟩ = .ok u ∧ u.SolvedForm ∧
      (∀ x, u.Nonbasic x ↔ x ≠ e ∧ (x = l ∨ t.Nonbasic x)) ∧
      (∀ σ, u.Solves σ ↔ t.Solves σ) ∧
      (∃ new, u.rows.get? e = some new ∧ new.Mentions l) ∧
      ∃ v, u.pivot ⟨l, e⟩ = .ok v ∧ v.rows = t.rows ∧ v.objective = t.objective := by
  have hreg := ht.regular
  have hfree : t.Nonbasic e := (ht.rows hrow).1 e he
  obtain ⟨u, hu⟩ := exists_pivot (hfree.ne hrow) hrow he
  have hu' := pivot_disarm hu
  obtain ⟨new, hnew, hl⟩ := mentions_leaving hreg hfree hu'
  have hel : l ≠ e := fun hle => hfree.ne hrow hle.symm
  obtain ⟨v, hv⟩ := exists_pivot hel (t := u) hnew hl
  obtain ⟨w, hw, hrows, hobj⟩ := hreg.pivot_back hfree hu'
  -- the second pivot is the same with the artificial objective and without it
  cases (pivot_disarm hv).symm.trans hw
  exact ⟨u, hu, (hreg.pivot hu').solvedForm, nonbasic_pivot_iff hu,
    fun σ => hreg.solves_pivot hfree hu' σ, ⟨new, hnew, hl⟩, v, hv, hrows, hobj⟩

/-- Two rows with a common difference, and a cost on the symbol that enters.  The pivot of `e1` for
`s3` creates a cell in the row of `s4` while another one there cancels. -/
def braided : Tableau ℚ :=
  let e1 : Symbol := ⟨1, .error⟩
  let e2 : Symbol := ⟨2, .error⟩
  let row (c : ℚ) : Row ℚ := ((Row.ofConstant c).addCell e1 (-3)).addCell e2 2
  let t := (empty.setRow ⟨3, .slack⟩ (row 1)).setRow ⟨4, .slack⟩ (row 5)
  { t with objective := (Row.ofConstant 7).addCell e1 2 }

theorem braided_pivot_reverses :
    braided.SolvedForm ∧
      ∃ u, braided.pivot ⟨⟨1, .error⟩, ⟨3, .slack⟩⟩ = .ok u ∧ u.SolvedForm ∧
        ∃ v, u.pivot ⟨⟨3, .slack⟩, ⟨1, .error⟩⟩ = .ok v ∧
          v.rows = braided.rows ∧ v.objective = braided.objective := by
  have hform : braided.SolvedForm := by decide +kernel
  have hrow : braided.rows.get? ⟨3, .slack⟩ =
      some (((Row.ofConstant 1).addCell ⟨1, .error⟩ (-3)).addCell ⟨2, .error⟩ 2) := by rfl
  have he : (((Row.ofConstant (1 : ℚ)).addCell ⟨1, .error⟩ (-3)).addCell ⟨2, .error⟩ 2).Mentions
      ⟨1, .error⟩ := by
    unfold Row.Mentions
    decide +kernel
  obtain ⟨u, hu, hsolved, -, -, -, hback⟩ := hform.pivot_reverses hrow he
  exact ⟨hform, u, hu, hsolved, hback⟩

end Tableau

end IncrementalSimplex
