/-
# Tableaus as systems of equations

In the exact reading a tableau is a system of linear equations in solved form, one for each row:
the basic symbol equals its row.  `Tableau.Solves` says that an assignment satisfies all of them.
The solver never looks at assignments; it rewrites rows.  What carries every later result is that
each rewriting moves the solution set in a known way:

* entering a symbol adds the equation of its row (`solves_enter`);
* a pivot adds and removes nothing (`Regular.solves_pivot`), and the objectives keep their values on
  the solutions (`Regular.pivot_equivalent`);
* taking the row of a basic symbol out PROJECTS that symbol away (`Canonical.solves_dropRow`), and
  dropping the column of a free one sets it to zero (`solves_dropColumn`).

In canonical form the free symbols may be chosen at will and the basic ones follow
(`solves_extend`).  So two forms over free symbols that agree on all solutions agree everywhere
(`Canonical.value_eq_of_solves`), and what is known of a row on the solutions is known of its cells.
-/
import IncrementalSimplex.Proofs.Valuation
import IncrementalSimplex.Tableau.Pass

namespace IncrementalSimplex

namespace Tableau

/-! ## 1. Solutions -/

/-- Every basic symbol equals its row. -/
def Solves (t : Tableau ℚ) (σ : Assignment) : Prop :=
  ∀ b row, t.rows.get? b = some row → σ b = row.value σ

theorem solves_congr_rows {t u : Tableau ℚ} (h : t.rows = u.rows) (σ : Assignment) :
    t.Solves σ ↔ u.Solves σ := by
  unfold Solves
  rw [h]

/-- One row of the system, taken apart from the others. -/
theorem solves_iff_dropRow {t : Tableau ℚ} {l : Symbol} {row : Row ℚ}
    (hrow : t.rows.get? l = some row) (σ : Assignment) :
    t.Solves σ ↔ (t.dropRow l).Solves σ ∧ σ l = row.value σ := by
  constructor
  · intro h
    exact ⟨fun b r hb => h b r (get?_of_dropRow hb).2, h l row hrow⟩
  · rintro ⟨h, hl⟩ b r hb
    by_cases hbl : b = l
    · subst hbl
      rw [hrow] at hb
      cases hb
      exact hl
    · refine h b r ?_
      rw [get?_dropRow, if_neg hbl]
      exact hb

/-- **Entering a free symbol adds the equation of its row** and changes no other, since the row may
be put in place of the symbol wherever they are equal. -/
theorem solves_enter {t : Tableau ℚ} {s : Symbol} {row : Row ℚ} (hs : t.Nonbasic s)
    (σ : Assignment) : (t.enter s row).Solves σ ↔ t.Solves σ ∧ σ s = row.value σ := by
  constructor
  · intro h
    have hrow : σ s = row.value σ := h s row (by rw [get?_enter, if_pos rfl])
    refine ⟨fun b old hb => ?_, hrow⟩
    have hbs : b ≠ s := fun hbs => hs.ne hb hbs.symm
    rw [← Row.value_substitute_of_eq hrow]
    exact h b _ (by rw [get?_enter, if_neg hbs, hb]; rfl)
  · rintro ⟨h, hrow⟩ b new hb
    rcases get?_of_enter hb with ⟨rfl, rfl⟩ | ⟨-, old, hold, rfl⟩
    · exact hrow
    · rw [Row.value_substitute_of_eq hrow]
      exact h b old hold

/-- Storing a row under a symbol without one adds its equation. -/
theorem solves_setRow {t : Tableau ℚ} {s : Symbol} {row : Row ℚ} (hs : t.Nonbasic s)
    (σ : Assignment) : (t.setRow s row).Solves σ ↔ t.Solves σ ∧ σ s = row.value σ := by
  constructor
  · intro h
    refine ⟨fun b old hb => h b old ?_, h s row (by rw [get?_setRow, if_pos rfl])⟩
    rw [get?_setRow, if_neg fun hbs => hs.ne hb hbs.symm]
    exact hb
  · rintro ⟨h, hrow⟩ b new hb
    rw [get?_setRow] at hb
    split at hb
    · rename_i hbs
      subst hbs
      cases hb
      exact hrow
    · exact h b new hb

/-! ## 2. Free symbols may be chosen at will -/

/-- The assignment with every basic symbol replaced by the value of its row. -/
def extend (t : Tableau ℚ) (σ : Assignment) : Assignment := fun x =>
  match t.rows.get? x with
  | some row => row.value σ
  | none => σ x

theorem extend_nonbasic {t : Tableau ℚ} {x : Symbol} (h : t.Nonbasic x) (σ : Assignment) :
    t.extend σ x = σ x := by
  rw [extend, show t.rows.get? x = none from h]

theorem extend_basic {t : Tableau ℚ} {b : Symbol} {row : Row ℚ}
    (h : t.rows.get? b = some row) (σ : Assignment) : t.extend σ b = row.value σ := by
  rw [extend, h]

/-- A form over free symbols does not see the replacement. -/
theorem Free.value_extend {t : Tableau ℚ} {row : Row ℚ} (h : t.Free row) (σ : Assignment) :
    row.value (t.extend σ) = row.value σ :=
  Row.value_congr fun x hx => extend_nonbasic (h x hx) σ

/-- **In canonical form every choice for the free symbols extends to a solution.** -/
theorem Canonical.solves_extend {t : Tableau ℚ} (h : t.Canonical) (σ : Assignment) :
    t.Solves (t.extend σ) := by
  intro b row hb
  rw [extend_basic hb, Free.value_extend fun _ => h.rows hb]

/-- **Forms over free symbols that agree on the solutions agree everywhere.** -/
theorem Canonical.value_eq_of_solves {t : Tableau ℚ} (h : t.Canonical) {r₁ r₂ : Row ℚ}
    (h₁ : t.Free r₁) (h₂ : t.Free r₂) {k : ℚ}
    (heq : ∀ σ, t.Solves σ → r₁.value σ = r₂.value σ + k) (σ : Assignment) :
    r₁.value σ = r₂.value σ + k := by
  rw [← Free.value_extend h₁, ← Free.value_extend h₂]
  exact heq _ (h.solves_extend σ)

/-- The solution in which every free symbol is zero: the one that the solver reports. -/
def point (t : Tableau ℚ) : Assignment := t.extend fun _ => 0

theorem point_basic {t : Tableau ℚ} {b : Symbol} {row : Row ℚ} (h : t.rows.get? b = some row) :
    t.point b = row.constant := by
  rw [point, extend_basic h, Row.value_zero]

/-- The point is made of the rows alone. -/
theorem point_congr {t u : Tableau ℚ} (h : u.rows = t.rows) : u.point = t.point := by
  funext x
  rw [point, point, extend, extend, h]

theorem point_nonbasic {t : Tableau ℚ} {x : Symbol} (h : t.Nonbasic x) : t.point x = 0 :=
  extend_nonbasic h _

theorem Canonical.solves_point {t : Tableau ℚ} (h : t.Canonical) : t.Solves t.point :=
  h.solves_extend _

/-- At that solution a form over free symbols is its constant. -/
theorem Free.value_point {t : Tableau ℚ} {row : Row ℚ} (h : t.Free row) :
    row.value t.point = row.constant := by
  rw [point, Free.value_extend h, Row.value_zero]

/-- **A symbol that does not occur may have any value.** -/
theorem solves_update_of_absent {t : Tableau ℚ} {x : Symbol} (hx : t.Nonbasic x)
    (habs : ∀ b row, t.rows.get? b = some row → ¬ row.Mentions x) (σ : Assignment) (q : ℚ) :
    t.Solves (Function.update σ x q) ↔ t.Solves σ := by
  have hbasic : ∀ {b row}, t.rows.get? b = some row → b ≠ x := fun hb hbx => hx.ne hb hbx.symm
  constructor
  · intro hσ b row hb
    have hrow := hσ b row hb
    rwa [Function.update_of_ne (hbasic hb),
      Row.value_update_of_not_mentions (habs b row hb)] at hrow
  · intro hσ b row hb
    rw [Function.update_of_ne (hbasic hb), Row.value_update_of_not_mentions (habs b row hb)]
    exact hσ b row hb

/-! ## 3. Taking symbols out -/

/-- **Taking out the row of a basic symbol projects the symbol away.** -/
theorem Canonical.solves_dropRow {t : Tableau ℚ} (h : t.Canonical) {m : Symbol} {row : Row ℚ}
    (hrow : t.rows.get? m = some row) (σ : Assignment) :
    (t.dropRow m).Solves σ ↔ ∃ q, t.Solves (Function.update σ m q) := by
  have hm : ∀ {b r}, t.rows.get? b = some r → ∀ q, r.value (Function.update σ m q) = r.value σ := by
    intro b r hb q
    refine Row.value_congr fun x hx => Function.update_of_ne ?_ _ _
    exact (h.rows hb hx).ne hrow
  constructor
  · intro hσ
    refine ⟨row.value σ, (solves_iff_dropRow hrow _).mpr ⟨fun b r hb => ?_, ?_⟩⟩
    · obtain ⟨hbm, hb'⟩ := get?_of_dropRow hb
      rw [Function.update_of_ne hbm, hm hb']
      exact hσ b r hb
    · rw [Function.update_self, hm hrow]
  · rintro ⟨q, hq⟩ b r hb
    obtain ⟨hbm, hb'⟩ := get?_of_dropRow hb
    have := hq b r hb'
    rwa [Function.update_of_ne hbm, hm hb'] at this

theorem value_dropCell_eq_update (r : Row ℚ) (s : Symbol) (σ : Assignment) :
    (r.dropCell s).value σ = r.value (Function.update σ s 0) := by
  rw [Row.value_dropCell, Row.value_update]
  ring

/-- **Dropping the column of a free symbol sets the symbol to zero.** -/
theorem solves_dropColumn {t : Tableau ℚ} {s : Symbol} (hs : t.Nonbasic s) (σ : Assignment) :
    (t.dropColumn s).Solves σ ↔ t.Solves (Function.update σ s 0) := by
  constructor
  · intro h b row hb
    rw [Function.update_of_ne fun hbs => hs.ne hb hbs.symm, ← value_dropCell_eq_update]
    exact h b _ ((SymbolMap.get?_map _ _ _).trans (by rw [hb]; rfl))
  · intro h b row hb
    obtain ⟨old, hold, rfl⟩ := get?_of_dropColumn hb
    rw [value_dropCell_eq_update, ← h b old hold,
      Function.update_of_ne fun hbs => hs.ne hold hbs.symm]

/-! ## 4. Regular tableaus and pivots -/

/-- In canonical form, and without zero cells. -/
structure Regular (t : Tableau ℚ) : Prop extends t.Canonical where
  reduced : ∀ {b row}, t.rows.get? b = some row → row.Reduced
  objective_reduced : t.objective.Reduced
  artificial_reduced : ∀ {row}, t.artificial = some row → row.Reduced

theorem Regular.dropRow {t : Tableau ℚ} (h : t.Regular) (s : Symbol) : (t.dropRow s).Regular where
  toCanonical := h.toCanonical.dropRow s
  reduced hb := h.reduced (get?_of_dropRow hb).2
  objective_reduced := h.objective_reduced
  artificial_reduced ha := h.artificial_reduced ha

theorem Regular.dropColumn {t : Tableau ℚ} (h : t.Regular) (s : Symbol) :
    (t.dropColumn s).Regular where
  toCanonical := h.toCanonical.dropColumn s
  reduced hb := by
    obtain ⟨old, hold, rfl⟩ := get?_of_dropColumn hb
    exact (h.reduced hold).dropCell s
  objective_reduced := h.objective_reduced.dropCell s
  artificial_reduced ha := h.artificial_reduced ha

theorem Regular.enter {t : Tableau ℚ} (h : t.Regular) {s : Symbol} {row : Row ℚ}
    (hs : ¬ row.Mentions s) (hfree : t.Free row) (hrow : row.Reduced) :
    (t.enter s row).Regular where
  toCanonical := h.toCanonical.enter hs hfree
  reduced hb := by
    rcases get?_of_enter hb with ⟨-, rfl⟩ | ⟨-, old, hold, rfl⟩
    · exact hrow
    · exact (h.reduced hold).substitute s row
  objective_reduced := h.objective_reduced.substitute s row
  artificial_reduced ha := by
    obtain ⟨old, hold, rfl⟩ := Option.map_eq_some_iff.mp ha
    exact (h.artificial_reduced hold).substitute s row

theorem Regular.pivot {t u : Tableau ℚ} (h : t.Regular) {e l : Symbol}
    (hu : t.pivot ⟨e, l⟩ = .ok u) : u.Regular := by
  obtain ⟨row, solved, hrow, hsolved, rfl⟩ := pivot_cases hu
  exact (h.dropRow l).enter (fun hx => (Row.mentions_exchange? hsolved hx).1 rfl)
    (h.free_exchange hrow hsolved) ((h.reduced hrow).exchange? hsolved)

/-- **The same system with the same objectives**: the solutions are the same, and each objective has
the same value at them. -/
structure Equivalent (t u : Tableau ℚ) : Prop where
  solves : ∀ σ, u.Solves σ ↔ t.Solves σ
  objective : ∀ σ, t.Solves σ → u.objective.value σ = t.objective.value σ
  artificial : ∀ σ, t.Solves σ →
    u.artificial.map (·.value σ) = t.artificial.map (·.value σ)

theorem Equivalent.refl (t : Tableau ℚ) : t.Equivalent t :=
  ⟨fun _ => Iff.rfl, fun _ _ => rfl, fun _ _ => rfl⟩

theorem Equivalent.trans {t u v : Tableau ℚ} (htu : t.Equivalent u) (huv : u.Equivalent v) :
    t.Equivalent v where
  solves σ := (huv.solves σ).trans (htu.solves σ)
  objective σ hσ := (huv.objective σ ((htu.solves σ).mpr hσ)).trans (htu.objective σ hσ)
  artificial σ hσ := (huv.artificial σ ((htu.solves σ).mpr hσ)).trans (htu.artificial σ hσ)

/-- The facts about the leaving row that a pivot goes by. -/
theorem Regular.pivot_row {t u : Tableau ℚ} (h : t.Regular) {e l : Symbol} (he : t.Nonbasic e)
    (hu : t.pivot ⟨e, l⟩ = .ok u) :
    ∃ row solved, t.rows.get? l = some row ∧ e ≠ l ∧ row.coefficient e ≠ 0 ∧
      row.exchange? l e = some solved ∧ u = (t.dropRow l).enter e solved := by
  obtain ⟨row, solved, hrow, hsolved, rfl⟩ := pivot_cases hu
  have hel : e ≠ l := he.ne hrow
  exact ⟨row, solved, hrow, hel,
    (h.reduced hrow).coefficient_ne_zero (Row.mentions_of_exchange? hel hsolved), hsolved, rfl⟩

/-- **A pivot on a cell other than zero keeps the system and the objectives.** -/
theorem pivot_equivalent {t u : Tableau ℚ} {e l : Symbol} {row : Row ℚ} (he : t.Nonbasic e)
    (hrow : t.rows.get? l = some row) (hc : row.coefficient e ≠ 0)
    (hu : t.pivot ⟨e, l⟩ = .ok u) : t.Equivalent u := by
  obtain ⟨row', solved, hrow', hsolved, rfl⟩ := pivot_cases hu
  rw [hrow] at hrow'
  cases hrow'
  have hel : e ≠ l := he.ne hrow
  have heq : ∀ σ, t.Solves σ → σ e = solved.value σ := fun σ hσ =>
    (Row.eq_value_exchange?_iff hel hsolved hc σ).mpr (hσ l row hrow)
  refine ⟨fun σ => ?_, fun σ hσ => ?_, fun σ hσ => ?_⟩
  · rw [solves_enter (nonbasic_dropRow he), Row.eq_value_exchange?_iff hel hsolved hc σ,
      ← solves_iff_dropRow hrow]
  · exact Row.value_substitute_of_eq (heq σ hσ)
  · show (t.artificial.map fun r => r.substitute e solved).map _ = _
    rw [Option.map_map]
    refine Option.map_congr fun r _ => ?_
    exact Row.value_substitute_of_eq (heq σ hσ)

/-- In a regular tableau that is every pivot. -/
theorem Regular.pivot_equivalent {t u : Tableau ℚ} (h : t.Regular) {e l : Symbol}
    (he : t.Nonbasic e) (hu : t.pivot ⟨e, l⟩ = .ok u) : t.Equivalent u := by
  obtain ⟨row, -, hrow, -, hc, -⟩ := h.pivot_row he hu
  exact Tableau.pivot_equivalent he hrow hc hu

theorem Regular.solves_pivot {t u : Tableau ℚ} (h : t.Regular) {e l : Symbol}
    (he : t.Nonbasic e) (hu : t.pivot ⟨e, l⟩ = .ok u) (σ : Assignment) :
    u.Solves σ ↔ t.Solves σ := (h.pivot_equivalent he hu).solves σ

end Tableau

end IncrementalSimplex
