/-
# Shifting the target of an edit

A suggested value moves the target of an edit's constraint `v - target - m + o = 0`, where `m` and
`o` are its two error symbols.  The target itself is nowhere in the tableau; what is moved instead
is one of the errors, by the same amount:

    v - (target + d) - m + o  =  v - target - (m + d) + o  =  v - target - m + (o - d)

The three branches of the shift are three ways to do that: a basic marker moves in its own row, a
basic other symbol moves in its row the other way, and a free marker moves in all rows that have it.
Each changes constants only, so what occurs where stays as it is (`Sound.of_cells`), and whatever
falls below zero is put on the queue.
-/
import IncrementalSimplex.Solver.Editing
import IncrementalSimplex.Proofs.Presentation

namespace IncrementalSimplex

namespace Tableau

/-! ## 1. A shift changes constants only -/

section Any

variable {α : Type} [Scalar α]

theorem cells_shiftRow (m : Symbol) (δ : α) (row : Row α) :
    (shiftRow m δ row).cells = row.cells := by
  unfold shiftRow
  dsimp only
  split <;> rfl

theorem setRowQueued_rest (t : Tableau α) (x : Symbol) (row : Row α) :
    (t.setRowQueued x row).rows = t.rows.insert x row ∧
      (t.setRowQueued x row).objective = t.objective ∧
      (t.setRowQueued x row).artificial = t.artificial := by
  unfold setRowQueued
  dsimp only
  split <;> exact ⟨rfl, rfl, rfl⟩

/-- A shift changes constants only. -/
theorem shift_cells (t : Tableau α) (tag : Tag) (δ : α) :
    (∀ b new, (t.shift tag δ).rows.get? b = some new →
      ∃ old, t.rows.get? b = some old ∧ new.cells = old.cells) ∧
      (t.shift tag δ).objective = t.objective ∧ (t.shift tag δ).artificial = t.artificial := by
  have hbasic : ∀ {x row} (e : α), t.rows.get? x = some row → ∀ b new,
      (t.setRowQueued x (row.addConstant e)).rows.get? b = some new →
        ∃ old, t.rows.get? b = some old ∧ new.cells = old.cells := by
    intro x row e hrow b new hb
    rw [(t.setRowQueued_rest x _).1, SymbolMap.get?_insert] at hb
    split at hb
    · rename_i hbx
      cases hb
      exact ⟨row, by rw [hbx, hrow], rfl⟩
    · exact ⟨new, hb, rfl⟩
  unfold Tableau.shift
  split
  · rename_i row hrow
    exact ⟨hbasic _ hrow, (t.setRowQueued_rest _ _).2⟩
  · split
    · rename_i row hrow
      exact ⟨hbasic _ hrow, (t.setRowQueued_rest _ _).2⟩
    · refine ⟨fun b new hb => ?_, rfl, rfl⟩
      obtain ⟨old, hold, rfl⟩ :=
        Option.map_eq_some_iff.mp ((SymbolMap.get?_map _ _ _).symm.trans hb)
      exact ⟨old, hold, cells_shiftRow _ _ old⟩

/-- A shift brings no symbol in. -/
theorem Over.shift {P : Symbol → Prop} {t : Tableau α} (h : t.Over P) (tag : Tag) (δ : α) :
    (t.shift tag δ).Over P := by
  obtain ⟨hcells, hobj, hart⟩ := t.shift_cells tag δ
  exact h.of_cells hcells hobj hart

theorem Canonical.shift {t : Tableau α} (h : t.Canonical) (tag : Tag) (δ : α) :
    (t.shift tag δ).Canonical := by
  obtain ⟨hcells, hobj, hart⟩ := t.shift_cells tag δ
  exact h.of_cells hcells hobj hart

end Any

variable {t u : Tableau ℚ} {S : Assignment → Prop} {c : Assignment → ℚ}

/-- New constants keep a tableau sound: what occurs where has not changed. -/
theorem Sound.of_cells (h : t.Sound)
    (hcells : ∀ b new, u.rows.get? b = some new →
      ∃ old, t.rows.get? b = some old ∧ new.cells = old.cells)
    (hobj : u.objective = t.objective) (hart : u.artificial = t.artificial)
    (hq : u.QueueRestricted) : u.Sound := by
  refine ⟨⟨h.toCanonical.of_cells hcells hobj hart, ?_, ?_, ?_⟩, ⟨?_, ?_, ?_⟩, hq⟩
  · intro b new hb x q hget
    obtain ⟨old, hold, heq⟩ := hcells b new hb
    rw [heq] at hget
    exact h.reduced hold x q hget
  · rw [hobj]
    exact h.objective_reduced
  · intro row ha
    rw [hart] at ha
    exact h.artificial_reduced ha
  · intro b new hb hres x hx
    obtain ⟨old, hold, heq⟩ := hcells b new hb
    exact h.externalFree.rows hold hres x ((Row.mentions_congr heq).mp hx)
  · rw [hobj]
    exact h.externalFree.objective
  · intro row ha
    rw [hart] at ha
    exact h.externalFree.artificial ha

/-- **Moving one symbol of the system.**  The objective keeps presenting the cost, though with
another constant. -/
theorem Presents.move (h : t.Presents S c) (hu : u.Sound) (hobj : u.objective = t.objective)
    (hart : u.artificial = t.artificial) {x : Symbol} {e : ℚ}
    (hsol : ∀ σ, u.Solves σ ↔ t.Solves (Function.update σ x (σ x + e)))
    (hc : ∃ w, ∀ σ, c (Function.update σ x (σ x + e)) = c σ + w) :
    u.Presents (fun σ => S (Function.update σ x (σ x + e))) c where
  toSound := hu
  noArtificial := hart.trans h.noArtificial
  solves σ := (hsol σ).trans (h.solves _)
  prices := by
    obtain ⟨k, hk⟩ := h.prices
    obtain ⟨w, hw⟩ := hc
    refine ⟨w + k - t.objective.coefficient x * e, fun objective hother σ hσ => ?_⟩
    cases hother
    have hval := hk t.objective rfl _ ((hsol σ).mp hσ)
    rw [Row.value_update, hw σ] at hval
    rw [hobj]
    linarith

/-! ## 2. Which symbol moves -/

/-- Adding to the constant of a row moves its basic symbol. -/
theorem Canonical.solves_addConstant (h : t.Canonical) {x : Symbol} {row : Row ℚ}
    (hrow : t.rows.get? x = some row) {e : ℚ}
    (hu : u.rows = t.rows.insert x (row.addConstant (-e))) (σ : Assignment) :
    u.Solves σ ↔ t.Solves (Function.update σ x (σ x + e)) := by
  have hval : ∀ {b old}, t.rows.get? b = some old →
      old.value (Function.update σ x (σ x + e)) = old.value σ := fun hb =>
    Row.value_congr fun y hy => Function.update_of_ne ((h.rows hb hy).ne hrow) _ _
  have hget : ∀ b, u.rows.get? b =
      if b = x then some (row.addConstant (-e)) else t.rows.get? b := by
    intro b
    rw [hu, SymbolMap.get?_insert]
  constructor
  · intro hσ b old hb
    rw [hval hb]
    by_cases hbx : b = x
    · subst hbx
      rw [hrow] at hb
      cases hb
      have := hσ b _ ((hget b).trans (if_pos rfl))
      rw [Row.value_addConstant] at this
      rw [Function.update_self, this]
      ring
    · rw [Function.update_of_ne hbx]
      exact hσ b old ((hget b).trans (by rw [if_neg hbx, hb]))
  · intro hσ b new hb
    rw [hget] at hb
    split at hb
    · rename_i hbx
      subst hbx
      cases hb
      have := hσ b row hrow
      rw [hval hrow, Function.update_self] at this
      rw [Row.value_addConstant, ← this]
      ring
    · rename_i hbx
      have := hσ b new hb
      rwa [hval hb, Function.update_of_ne hbx] at this

theorem value_shiftRow (m : Symbol) (δ : ℚ) (row : Row ℚ) (σ : Assignment) :
    (shiftRow m δ row).value σ = row.value (Function.update σ m (σ m + δ)) := by
  rw [Row.value_update]
  unfold shiftRow
  dsimp only
  split
  · rw [Row.value_addConstant]
    ring
  · rename_i hc
    have : row.coefficient m = 0 := by
      have hd : ¬ (!decide (row.coefficient m = 0)) = true := hc
      simpa using hd
    rw [this]
    ring

/-- Shifting all rows in proportion moves a free symbol. -/
theorem solves_shiftRow {m : Symbol} (hm : t.Nonbasic m) {δ : ℚ}
    (hu : u.rows = t.rows.map (shiftRow m δ)) (σ : Assignment) :
    u.Solves σ ↔ t.Solves (Function.update σ m (σ m + δ)) := by
  have hget : ∀ b, u.rows.get? b = (t.rows.get? b).map (shiftRow m δ) := by
    intro b
    rw [hu, SymbolMap.get?_map]
  constructor
  · intro hσ b old hb
    rw [Function.update_of_ne fun hbm => hm.ne hb hbm.symm, ← value_shiftRow]
    exact hσ b _ ((hget b).trans (by rw [hb]; rfl))
  · intro hσ b new hb
    obtain ⟨old, hold, rfl⟩ := Option.map_eq_some_iff.mp ((hget b).symm.trans hb)
    have := hσ b old hold
    rwa [Function.update_of_ne fun hbm => hm.ne hold hbm.symm, ← value_shiftRow] at this

/-! ## 3. The branches -/

/-- A stored row waits on the queue if it is negative. -/
theorem setRowQueued_infeasible (t : Tableau ℚ) (x : Symbol) (row : Row ℚ) :
    (row.constant < 0 ∧ (t.setRowQueued x row).infeasible = x :: t.infeasible) ∨
      (¬ row.constant < 0 ∧ (t.setRowQueued x row).infeasible = t.infeasible) := by
  unfold setRowQueued
  dsimp only
  split
  · rename_i hneg
    exact .inl ⟨hneg, rfl⟩
  · rename_i hneg
    exact .inr ⟨hneg, rfl⟩

/-- **Shifting the row of a basic error symbol.** -/
theorem Presents.shift_basic (h : t.Presents S c) {x : Symbol} {row : Row ℚ}
    (hrow : t.rows.get? x = some row) (hres : x.isRestricted) {e : ℚ}
    (hc : ∃ w, ∀ σ, c (Function.update σ x (σ x + e)) = c σ + w) :
    (t.setRowQueued x (row.addConstant (-e))).Presents
        (fun σ => S (Function.update σ x (σ x + e))) c ∧
      (t.Feasible → (t.setRowQueued x (row.addConstant (-e))).Queued) ∧
      (x.isDummy = false → t.DummyPure →
        (t.setRowQueued x (row.addConstant (-e))).DummyPure) := by
  obtain ⟨hrows, hobj, hart⟩ := t.setRowQueued_rest x (row.addConstant (-e))
  have hqueue := t.setRowQueued_infeasible x (row.addConstant (-e))
  set u := t.setRowQueued x (row.addConstant (-e)) with hu
  have hget : ∀ b new, u.rows.get? b = some new →
      (b = x ∧ new = row.addConstant (-e)) ∨ (b ≠ x ∧ t.rows.get? b = some new) := by
    intro b new hb
    rw [hrows, SymbolMap.get?_insert] at hb
    split at hb
    · rename_i hbx
      cases hb
      exact .inl ⟨hbx, rfl⟩
    · rename_i hbx
      exact .inr ⟨hbx, hb⟩
  have hcells : ∀ b new, u.rows.get? b = some new →
      ∃ old, t.rows.get? b = some old ∧ new.cells = old.cells := by
    intro b new hb
    rcases hget b new hb with ⟨rfl, rfl⟩ | ⟨-, hb⟩
    · exact ⟨row, hrow, rfl⟩
    · exact ⟨new, hb, rfl⟩
  have hrestr : u.QueueRestricted := by
    intro y hy
    rcases hqueue with ⟨-, hq⟩ | ⟨-, hq⟩
    · rw [hq] at hy
      rcases List.mem_cons.mp hy with rfl | hy
      · exact hres
      · exact h.queueRestricted y hy
    · rw [hq] at hy
      exact h.queueRestricted y hy
  refine ⟨h.move (h.toSound.of_cells hcells hobj hart hrestr) hobj hart
    (h.toCanonical.solves_addConstant hrow hrows) hc, fun hfeas => ?_, fun hx hpure => ?_⟩
  · intro b new hb hbres hneg
    rcases hget b new hb with ⟨rfl, rfl⟩ | ⟨-, hb⟩
    · rcases hqueue with ⟨-, hq⟩ | ⟨hnot, -⟩
      · rw [hq]
        exact List.mem_cons_self
      · exact absurd hneg hnot
    · exact absurd (hfeas b new hb hbres) (not_le.mpr hneg)
  · intro d new hd hdum
    rcases hget d new hd with ⟨rfl, -⟩ | ⟨-, hd⟩
    · rw [hx] at hdum
      cases hdum
    · exact hpure d new hd hdum

theorem mem_shiftedNegative {rows : SymbolMap (Row ℚ)} {m b : Symbol} {δ : ℚ} :
    b ∈ shiftedNegative rows m δ ↔ ∃ row, rows.get? b = some row ∧ row.coefficient m ≠ 0 ∧
      (shiftRow m δ row).constant < 0 ∧ b.isRestricted := by
  have hne : ∀ row : Row ℚ, ((row.coefficient m != 0) = true) ↔ row.coefficient m ≠ 0 := by
    intro row
    show (!decide (row.coefficient m = 0)) = true ↔ _
    simp
  simp only [shiftedNegative, List.mem_map, List.mem_filter, Prod.exists, Bool.and_eq_true, hne,
    decide_eq_true_eq]
  constructor
  · rintro ⟨s, row, ⟨hmem, ⟨hc, hneg⟩, hres⟩, rfl⟩
    exact ⟨row, SymbolMap.mem_entries_iff.mp hmem, hc, hneg, hres⟩
  · rintro ⟨row, hget, hc, hneg, hres⟩
    exact ⟨b, row, ⟨SymbolMap.mem_entries_iff.mpr hget, ⟨hc, hneg⟩, hres⟩, rfl⟩

/-- A row without the symbol is left as it is. -/
theorem shiftRow_of_coefficient_eq_zero {m : Symbol} {row : Row ℚ} (hc : row.coefficient m = 0)
    (δ : ℚ) : shiftRow m δ row = row := by
  unfold shiftRow
  refine if_neg ?_
  show ¬ (!decide (row.coefficient m = 0)) = true
  simp [hc]

/-- **Shifting all rows that have a free marker.** -/
theorem Presents.shift_free (h : t.Presents S c) {m : Symbol} (hm : t.Nonbasic m) {δ : ℚ}
    (hu : u.rows = t.rows.map (shiftRow m δ)) (hobj : u.objective = t.objective)
    (hart : u.artificial = t.artificial)
    (hq : u.infeasible = (shiftedNegative t.rows m δ).reverse ++ t.infeasible)
    (hc : ∃ w, ∀ σ, c (Function.update σ m (σ m + δ)) = c σ + w) :
    u.Presents (fun σ => S (Function.update σ m (σ m + δ))) c ∧ (t.Feasible → u.Queued) ∧
      (m.isDummy = false → t.DummyPure → u.DummyPure) := by
  have hget : ∀ b new, u.rows.get? b = some new →
      ∃ old, t.rows.get? b = some old ∧ new = shiftRow m δ old := by
    intro b new hb
    rw [hu, SymbolMap.get?_map] at hb
    obtain ⟨old, hold, rfl⟩ := Option.map_eq_some_iff.mp hb
    exact ⟨old, hold, rfl⟩
  have hcells : ∀ b new, u.rows.get? b = some new →
      ∃ old, t.rows.get? b = some old ∧ new.cells = old.cells := by
    intro b new hb
    obtain ⟨old, hold, rfl⟩ := hget b new hb
    exact ⟨old, hold, cells_shiftRow m δ old⟩
  have hrestr : u.QueueRestricted := by
    intro y hy
    rw [hq] at hy
    rcases List.mem_append.mp hy with hy | hy
    · obtain ⟨row, -, -, -, hres⟩ := mem_shiftedNegative.mp (List.mem_reverse.mp hy)
      exact hres
    · exact h.queueRestricted y hy
  refine ⟨h.move (h.toSound.of_cells hcells hobj hart hrestr) hobj hart
    (solves_shiftRow hm hu) hc, fun hfeas => ?_, fun hx hpure => ?_⟩
  · intro b new hb hbres hneg
    obtain ⟨old, hold, rfl⟩ := hget b new hb
    rw [hq]
    refine List.mem_append_left _ (List.mem_reverse.mpr (mem_shiftedNegative.mpr
      ⟨old, hold, fun hzero => ?_, hneg, hbres⟩))
    rw [shiftRow_of_coefficient_eq_zero hzero] at hneg
    exact absurd (hfeas b old hold hbres) (not_le.mpr hneg)
  · intro d new hd hdum
    obtain ⟨old, hold, rfl⟩ := hget d new hd
    have habs : ¬ old.Mentions m := by
      intro hmen
      have := (hpure d old hold hdum).2 m hmen
      rw [hx] at this
      cases this
    rw [shiftRow_of_coefficient_eq_zero (Row.coefficient_of_not_mentions habs)]
    exact hpure d old hold hdum

/-! ## 4. The shift -/

/-- **Shifting the target of an edit** whose two error symbols matter to the system by their
difference only: then raising the one and lowering the other are the same. -/
theorem Presents.shift (h : t.Presents S c) {tag : Tag} {δ : ℚ} (hm : tag.marker.isRestricted)
    (hmd : tag.marker.isDummy = false) (ho : tag.other.isRestricted)
    (hod : tag.other.isDummy = false)
    (hS : ∀ σ, S (Function.update σ tag.other (σ tag.other + -δ)) ↔
      S (Function.update σ tag.marker (σ tag.marker + δ)))
    (hc : ∀ x, x = tag.marker ∨ x = tag.other →
      ∀ e, ∃ w, ∀ σ, c (Function.update σ x (σ x + e)) = c σ + w) :
    (t.shift tag δ).Presents (fun σ => S (Function.update σ tag.marker (σ tag.marker + δ))) c ∧
      (t.Feasible → (t.shift tag δ).Queued) ∧ (t.DummyPure → (t.shift tag δ).DummyPure) ∧
      (t.Settled → (t.shift tag δ).Settled) := by
  unfold Tableau.shift
  cases hmrow : t.rows.get? tag.marker with
  | some row =>
    obtain ⟨hpres, hq, hpure⟩ := h.shift_basic hmrow hm (hc _ (.inl rfl) δ)
    refine ⟨hpres, hq, hpure hmd, fun hset x hx => ?_⟩
    rw [(t.setRowQueued_rest tag.marker _).2.1]
    exact hset x hx
  | none =>
    cases horow : t.rows.get? tag.other with
    | some row =>
      obtain ⟨hpres, hq, hpure⟩ := h.shift_basic horow ho (hc _ (.inr rfl) (-δ))
      rw [neg_neg] at hpres hq hpure
      refine ⟨hpres.congr hS fun _ => rfl, hq, hpure hod, fun hset x hx => ?_⟩
      rw [(t.setRowQueued_rest tag.other _).2.1]
      exact hset x hx
    | none =>
      obtain ⟨hpres, hq, hpure⟩ := h.shift_free (u := { t with
        rows := t.rows.map (shiftRow tag.marker δ)
        infeasible := (shiftedNegative t.rows tag.marker δ).reverse ++ t.infeasible })
        hmrow rfl rfl rfl rfl (hc _ (.inl rfl) δ)
      exact ⟨hpres, hq, hpure hmd, fun hset => hset⟩

end Tableau

end IncrementalSimplex
