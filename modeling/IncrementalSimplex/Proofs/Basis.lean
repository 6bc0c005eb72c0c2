/-
# What a change of the basis keeps

Besides the solution set, five facts about a tableau decide whether its `point` -- all free symbols
at zero -- is an answer, and whether it is the best one:

* `Feasible`: a row of a restricted symbol has no negative constant;
* `Queued`: if it has, its symbol waits on the queue;
* `ExternalFree`: external symbols, which may take any sign, occur in external rows only;
* `DummyPure`: the row of a dummy has nothing but dummies in it and the constant zero, so that a
  dummy is zero wherever the other dummies are;
* `Settled`: the objective has no negative cost, except for dummies, which never move.

For each there is a lemma on `enter`, and from it one on the pivots that keep it.  Feasibility comes
from the primal ratio test (`Feasible.primal`), and `Settled` from the dual one (`Settled.dual`).
The rule of both is the same: moving the entering symbol by the ratio moves every other row by its
coefficient times the ratio (`row_of_pivot`).
-/
import Mathlib.Algebra.Order.Field.Basic
import IncrementalSimplex.Proofs.Choice

namespace IncrementalSimplex

namespace Tableau

/-! ## 1. Rows after a pivot -/

/-- **A pivot moves the entering symbol**, from zero to the ratio of the leaving row, and every
other row in proportion. -/
theorem row_of_pivot {t u : Tableau ℚ} {e l : Symbol} {row : Row ℚ} (he : t.Nonbasic e)
    (hrow : t.rows.get? l = some row) (hc : row.coefficient e ≠ 0)
    (hu : t.pivot ⟨e, l⟩ = .ok u) {b : Symbol} {new : Row ℚ} (hb : u.rows.get? b = some new) :
    (b = e ∧ new.constant = -row.constant / row.coefficient e) ∨
      (b ≠ e ∧ b ≠ l ∧ ∃ old, t.rows.get? b = some old ∧
        new.constant = old.constant +
          old.coefficient e * (-row.constant / row.coefficient e)) := by
  obtain ⟨row', solved, hrow', hsolved, rfl⟩ := pivot_cases hu
  rw [hrow] at hrow'
  cases hrow'
  have hconst := Row.constant_exchange? (he.ne hrow) hsolved hc
  rcases get?_of_enter hb with ⟨rfl, rfl⟩ | ⟨hbe, old, hold, rfl⟩
  · exact .inl ⟨rfl, hconst⟩
  · obtain ⟨hbl, hold⟩ := get?_of_dropRow hold
    refine .inr ⟨hbe, hbl, old, hold, ?_⟩
    rw [Row.constant_substitute, hconst]

/-! ## 2. Feasibility -/

/-- **Every restricted symbol is at or above zero at the point.** -/
def Feasible (t : Tableau ℚ) : Prop :=
  ∀ b row, t.rows.get? b = some row → b.isRestricted → 0 ≤ row.constant

theorem feasible_iff {t : Tableau ℚ} :
    t.Feasible ↔ ∀ e ∈ t.rows.entries, e.1.isRestricted → 0 ≤ e.2.constant :=
  ⟨fun h e he => h e.1 e.2 (SymbolMap.mem_entries_iff.mp he),
    fun h b row hb => h (b, row) (SymbolMap.mem_entries_iff.mpr hb)⟩

instance (t : Tableau ℚ) : Decidable t.Feasible := decidable_of_iff _ feasible_iff.symm

theorem Feasible.dropRow {t : Tableau ℚ} (h : t.Feasible) (s : Symbol) : (t.dropRow s).Feasible :=
  fun b row hb hres => h b row (get?_of_dropRow hb).2 hres

theorem Feasible.of_rows {t u : Tableau ℚ} (h : t.Feasible) (hrows : u.rows = t.rows) :
    u.Feasible := by
  intro b row hb hres
  rw [hrows] at hb
  exact h b row hb hres

theorem Feasible.point_nonneg {t : Tableau ℚ} (h : t.Feasible) {x : Symbol}
    (hx : x.isRestricted) : 0 ≤ t.point x := by
  cases hrow : t.rows.get? x with
  | none => rw [point_nonbasic hrow]
  | some row =>
    rw [point_basic hrow]
    exact h x row hrow hx

/-- Entering an external symbol, which occurs in no restricted row, moves no restricted row. -/
theorem Feasible.enter_of_absent {t : Tableau ℚ} (h : t.Feasible) {s : Symbol} {row : Row ℚ}
    (hs : s.isRestricted → 0 ≤ row.constant)
    (habs : ∀ b old, t.rows.get? b = some old → b.isRestricted → ¬ old.Mentions s) :
    (t.enter s row).Feasible := by
  intro b new hb hres
  rcases get?_of_enter hb with ⟨rfl, rfl⟩ | ⟨-, old, hold, rfl⟩
  · exact hs hres
  · rw [Row.substitute_of_not_mentions (habs b old hold hres)]
    exact h b old hold hres

/-- A row that falls may follow up to its own ratio. -/
theorem nonneg_of_ratio_le {a c θ : ℚ} (hc : c < 0) (hθ : θ ≤ -a / c) : 0 ≤ a + c * θ := by
  have h : c * (-a / c) ≤ c * θ := mul_le_mul_of_nonpos_left hθ hc.le
  rw [mul_div_cancel₀ _ hc.ne] at h
  linarith

/-- **A symbol moves**: `u` has the rows of `t` with `e` raised to `θ`, and `e` itself at `θ`. -/
def Moved (t u : Tableau ℚ) (e : Symbol) (θ : ℚ) : Prop :=
  ∀ b new, u.rows.get? b = some new → (b = e ∧ new.constant = θ) ∨
    ∃ old, t.rows.get? b = some old ∧ new.constant = old.constant + old.coefficient e * θ

theorem moved_of_pivot {t u : Tableau ℚ} {e l : Symbol} {row : Row ℚ} (he : t.Nonbasic e)
    (hrow : t.rows.get? l = some row) (hc : row.coefficient e ≠ 0)
    (hu : t.pivot ⟨e, l⟩ = .ok u) : t.Moved u e (-row.constant / row.coefficient e) :=
  fun _ _ hb => (row_of_pivot he hrow hc hu hb).imp_right fun ⟨_, _, hold⟩ => hold

/-- **Moving a symbol by the least ratio keeps all restricted rows feasible.** -/
theorem Feasible.of_moved {t u : Tableau ℚ} (h : t.Feasible) {e l : Symbol} {row : Row ℚ}
    (hrow : t.rows.get? l = some row) (hres : l.isRestricted) (hneg : row.coefficient e < 0)
    (hleast : ∀ b other, t.rows.get? b = some other → b.isRestricted → other.coefficient e < 0 →
      -row.constant / row.coefficient e ≤ -other.constant / other.coefficient e)
    (hu : t.Moved u e (-row.constant / row.coefficient e)) : u.Feasible := by
  have hθ : 0 ≤ -row.constant / row.coefficient e :=
    div_nonneg_of_nonpos (neg_nonpos.mpr (h l row hrow hres)) hneg.le
  intro b new hb hbres
  rcases hu b new hb with ⟨-, hconst⟩ | ⟨old, hold, hconst⟩
  · rw [hconst]
    exact hθ
  · rw [hconst]
    have hold0 := h b old hold hbres
    rcases lt_or_ge (old.coefficient e) 0 with hlt | hge
    · exact nonneg_of_ratio_le hlt (hleast b old hold hbres hlt)
    · have := mul_nonneg hge hθ
      linarith

/-- A symbol that stays where it is moves nothing. -/
theorem Feasible.of_moved_zero {t u : Tableau ℚ} (h : t.Feasible) {e : Symbol}
    (hu : t.Moved u e 0) : u.Feasible := by
  intro b new hb hbres
  rcases hu b new hb with ⟨-, hconst⟩ | ⟨old, hold, hconst⟩
  · exact hconst.ge
  · rw [hconst, mul_zero, add_zero]
    exact h b old hold hbres

/-- A symbol that no restricted row has moves nothing but itself. -/
theorem Feasible.of_moved_absent {t u : Tableau ℚ} (h : t.Feasible) {e : Symbol} {θ : ℚ}
    (hu : t.Moved u e θ) (hθ : e.isRestricted → 0 ≤ θ)
    (habs : ∀ b old, t.rows.get? b = some old → b.isRestricted → ¬ old.Mentions e) :
    u.Feasible := by
  intro b new hb hbres
  rcases hu b new hb with ⟨rfl, hconst⟩ | ⟨old, hold, hconst⟩
  · rw [hconst]
    exact hθ hbres
  · rw [hconst, Row.coefficient_of_not_mentions (habs b old hold hbres)]
    simpa using h b old hold hbres

/-- **The primal ratio test keeps all restricted rows feasible.** -/
theorem Feasible.primal {t u : Tableau ℚ} (h : t.Feasible) {e l : Symbol} {row : Row ℚ}
    (he : t.Nonbasic e) (hrow : t.rows.get? l = some row)
    (hres : l.isRestricted) (hneg : row.coefficient e < 0)
    (hleast : ∀ b other, t.rows.get? b = some other → b.isRestricted → other.coefficient e < 0 →
      -row.constant / row.coefficient e ≤ -other.constant / other.coefficient e)
    (hu : t.pivot ⟨e, l⟩ = .ok u) : u.Feasible :=
  h.of_moved hrow hres hneg hleast (moved_of_pivot he hrow hneg.ne hu)

/-- Where a leaving row is at zero, nothing moves. -/
theorem Feasible.degenerate {t u : Tableau ℚ} (h : t.Feasible) {e l : Symbol} {row : Row ℚ}
    (he : t.Nonbasic e) (hrow : t.rows.get? l = some row) (hc : row.coefficient e ≠ 0)
    (hzero : row.constant = 0) (hu : t.pivot ⟨e, l⟩ = .ok u) : u.Feasible := by
  have hmoved := moved_of_pivot he hrow hc hu
  rw [hzero, neg_zero, zero_div] at hmoved
  exact h.of_moved_zero hmoved

/-- **Exchanging a marker and taking its row out keeps all restricted rows feasible**, whichever of
the three tiers its row comes from.  In the second the marker itself may end below zero, so it is
only without its row that the tableau is feasible. -/
theorem Feasible.expel {t u : Tableau ℚ} (h : t.Feasible) {m l : Symbol} {row : Row ℚ}
    (hm : t.Nonbasic m) (hrow : t.rows.get? l = some row) (hchoice : MarkerRow t m l row)
    (hu : t.pivot ⟨m, l⟩ = .ok u) : (u.dropRow m).Feasible := by
  cases hchoice with
  | falling hres hneg hleast => exact (h.primal hm hrow hres hneg hleast hu).dropRow m
  | rising hres hpos hnonneg hleast =>
    intro b new hb hbres
    obtain ⟨hbm, hb⟩ := get?_of_dropRow hb
    rcases row_of_pivot hm hrow hpos.ne' hu hb with ⟨rfl, -⟩ | ⟨-, -, old, hold, hconst⟩
    · exact absurd rfl hbm
    · have hold0 := h b old hold hbres
      rw [hconst]
      rcases (hnonneg b old hold hbres).eq_or_lt with hzero | hlt
      · rw [← hzero]
        simpa using hold0
      · have hle := hleast b old hold hbres hlt
        have hmul := mul_le_mul_of_nonneg_left hle hlt.le
        rw [mul_div_cancel₀ _ hlt.ne'] at hmul
        rw [neg_div, mul_neg]
        linarith
  | external hext hne habs =>
    intro b new hb hbres
    obtain ⟨hbm, hb⟩ := get?_of_dropRow hb
    rcases row_of_pivot hm hrow hne hu hb with ⟨rfl, -⟩ | ⟨-, -, old, hold, hconst⟩
    · exact absurd rfl hbm
    · rw [hconst, habs b old hold hbres]
      simpa using h b old hold hbres

/-! ## 3. The queue -/

/-- **Every infeasible row waits on the queue.** -/
def Queued (t : Tableau ℚ) : Prop :=
  ∀ b row, t.rows.get? b = some row → b.isRestricted → row.constant < 0 → b ∈ t.infeasible

theorem Feasible.queued {t : Tableau ℚ} (h : t.Feasible) : t.Queued :=
  fun b row hb hres hneg => absurd (h b row hb hres) (not_le.mpr hneg)

/-- With an empty queue nothing is infeasible. -/
theorem Queued.feasible {t : Tableau ℚ} (h : t.Queued) (hnil : t.infeasible = []) :
    t.Feasible := by
  intro b row hb hres
  by_contra hneg
  have := h b row hb hres (not_le.mp hneg)
  rw [hnil] at this
  cases this

theorem mem_negativeRows {rows : SymbolMap (Row ℚ)} {b : Symbol} :
    b ∈ negativeRows rows ↔ ∃ row, rows.get? b = some row ∧ b.isRestricted ∧ row.constant < 0 := by
  simp only [negativeRows, List.mem_map, List.mem_filter, Prod.exists]
  constructor
  · rintro ⟨s, row, ⟨hmem, hcond⟩, rfl⟩
    have := Bool.and_eq_true_iff.mp hcond
    exact ⟨row, SymbolMap.mem_entries_iff.mp hmem, this.1, of_decide_eq_true this.2⟩
  · rintro ⟨row, hget, hres, hneg⟩
    exact ⟨b, row, ⟨SymbolMap.mem_entries_iff.mpr hget,
      Bool.and_eq_true_iff.mpr ⟨hres, decide_eq_true hneg⟩⟩, rfl⟩

/-- **A substitution queues whatever it leaves negative**, whatever the queue held before. -/
theorem queued_enter {t : Tableau ℚ} {s : Symbol} {row : Row ℚ} (hs : 0 ≤ row.constant) :
    (t.enter s row).Queued := by
  intro b new hb hres hneg
  rcases get?_of_enter hb with ⟨rfl, rfl⟩ | ⟨-, old, hold, rfl⟩
  · exact absurd hs (not_le.mpr hneg)
  · refine List.mem_append_left _ (List.mem_reverse.mpr (mem_negativeRows.mpr ⟨_, ?_, hres, hneg⟩))
    exact (SymbolMap.get?_map _ _ _).trans (by rw [hold]; rfl)

/-! ## 4. External symbols -/

end Tableau

/-- The row has restricted symbols only. -/
def Row.ExternalFree {α : Type} (r : Row α) : Prop := ∀ x, r.Mentions x → x.isRestricted

theorem Row.ExternalFree.not_mentions {α : Type} {r : Row α} (h : r.ExternalFree) {x : Symbol}
    (hx : x.isExternal) : ¬ r.Mentions x :=
  fun hmen => Symbol.not_isRestricted_of_isExternal hx (h x hmen)

namespace Tableau

/-- **External symbols occur in external rows only.** -/
structure ExternalFree {α : Type} (t : Tableau α) : Prop where
  rows : ∀ {b row}, t.rows.get? b = some row → b.isRestricted → row.ExternalFree
  objective : t.objective.ExternalFree
  artificial : ∀ {row}, t.artificial = some row → row.ExternalFree

section External

variable {α : Type} [Scalar α]

omit [Scalar α] in
theorem ExternalFree.dropRow {t : Tableau α} (h : t.ExternalFree) (s : Symbol) :
    (t.dropRow s).ExternalFree :=
  ⟨fun hb hres => h.rows (get?_of_dropRow hb).2 hres, h.objective, h.artificial⟩

omit [Scalar α] in
theorem ExternalFree.dropColumn {t : Tableau α} (h : t.ExternalFree) (s : Symbol) :
    (t.dropColumn s).ExternalFree where
  rows hb hres x hx := by
    obtain ⟨old, hold, rfl⟩ := get?_of_dropColumn hb
    exact h.rows hold hres x (Row.mentions_dropCell.mp hx).2
  objective x hx := h.objective x (Row.mentions_dropCell.mp hx).2
  artificial ha := h.artificial ha

/-- A symbol may be entered if its row is without external symbols, or if it occurs in external
rows only. -/
theorem ExternalFree.enter {t : Tableau α} (h : t.ExternalFree) {s : Symbol} {row : Row α}
    (hs : s.isRestricted → row.ExternalFree)
    (hrow : row.ExternalFree ∨ ((∀ b old, t.rows.get? b = some old → b.isRestricted →
      ¬ old.Mentions s) ∧ ¬ t.objective.Mentions s ∧
        ∀ old, t.artificial = some old → ¬ old.Mentions s)) :
    (t.enter s row).ExternalFree := by
  have hsub : ∀ {old : Row α}, old.ExternalFree → row.ExternalFree ∨ ¬ old.Mentions s →
      (old.substitute s row).ExternalFree := by
    intro old hold hor x hx
    rcases hor with hfree | habs
    · rcases Row.mentions_substitute hx with ⟨-, hx⟩ | ⟨-, hx⟩
      · exact hold x hx
      · exact hfree x hx
    · rw [Row.substitute_of_not_mentions habs] at hx
      exact hold x hx
  refine ⟨?_, hsub h.objective (hrow.imp_right fun habs => habs.2.1), ?_⟩
  · intro b new hb hres
    rcases get?_of_enter hb with ⟨rfl, rfl⟩ | ⟨-, old, hold, rfl⟩
    · exact hs hres
    · exact hsub (h.rows hold hres) (hrow.imp_right fun habs => habs.1 b old hold hres)
  · intro new ha
    obtain ⟨old, hold, rfl⟩ := Option.map_eq_some_iff.mp ha
    exact hsub (h.artificial hold) (hrow.imp_right fun habs => habs.2.2 old hold)

/-- An external symbol occurs in external rows only, so it may be entered with any row. -/
theorem ExternalFree.enter_external {t : Tableau α} (h : t.ExternalFree) {s : Symbol}
    {row : Row α} (hs : s.isExternal = true) : (t.enter s row).ExternalFree := by
  have hnot := Symbol.not_isRestricted_of_isExternal hs
  refine h.enter (fun hres => absurd hres hnot) (.inr ⟨?_, ?_, ?_⟩)
  · intro b old hold hres
    exact (h.rows hold hres).not_mentions hs
  · exact h.objective.not_mentions hs
  · intro old hold
    exact (h.artificial hold).not_mentions hs

/-- The exchanged row of a restricted symbol is without external symbols. -/
theorem ExternalFree.exchange {t : Tableau α} (h : t.ExternalFree) {e l : Symbol}
    {row solved : Row α} (hrow : t.rows.get? l = some row) (hres : l.isRestricted)
    (hsolved : row.exchange? l e = some solved) : solved.ExternalFree := by
  intro x hx
  rcases (Row.mentions_exchange? hsolved hx).2 with rfl | hx
  · exact hres
  · exact h.rows hrow hres x hx

/-- **A pivot on the row of a restricted symbol brings in no external one.** -/
theorem ExternalFree.pivot {t u : Tableau α} (h : t.ExternalFree) {e l : Symbol}
    (hres : l.isRestricted) (hu : t.pivot ⟨e, l⟩ = .ok u) : u.ExternalFree := by
  obtain ⟨row, solved, hrow, hsolved, rfl⟩ := pivot_cases hu
  have hfree := h.exchange hrow hres hsolved
  exact (h.dropRow l).enter (fun _ => hfree) (.inl hfree)

end External

/-! ## 5. Dummies -/

/-- **A basic dummy equals a combination of free dummies.** -/
def DummyPure (t : Tableau ℚ) : Prop :=
  ∀ d row, t.rows.get? d = some row → d.isDummy →
    row.constant = 0 ∧ ∀ x, row.Mentions x → x.isDummy

theorem DummyPure.dropRow {t : Tableau ℚ} (h : t.DummyPure) (s : Symbol) :
    (t.dropRow s).DummyPure := fun d row hd hdum => h d row (get?_of_dropRow hd).2 hdum

theorem DummyPure.dropColumn {t : Tableau ℚ} (h : t.DummyPure) (s : Symbol) :
    (t.dropColumn s).DummyPure := by
  intro d row hd hdum
  obtain ⟨old, hold, rfl⟩ := get?_of_dropColumn hd
  exact ⟨(h d old hold hdum).1,
    fun x hx => (h d old hold hdum).2 x (Row.mentions_dropCell.mp hx).2⟩

/-- The rows of dummies do not have a symbol that is none, so they stay as they are when it enters.
-/
theorem DummyPure.enter {t : Tableau ℚ} (h : t.DummyPure) {s : Symbol} {row : Row ℚ}
    (hs : s.isDummy = false) : (t.enter s row).DummyPure := by
  intro d new hd hdum
  rcases get?_of_enter hd with ⟨rfl, -⟩ | ⟨-, old, hold, rfl⟩
  · rw [hs] at hdum
    cases hdum
  · have hnot : ¬ old.Mentions s := by
      intro hmen
      have := (h d old hold hdum).2 s hmen
      rw [hs] at this
      cases this
    rw [Row.substitute_of_not_mentions hnot]
    exact h d old hold hdum

theorem DummyPure.of_rows {t u : Tableau ℚ} (h : t.DummyPure) (hrows : u.rows = t.rows) :
    u.DummyPure := by
  intro d row hd hdum
  rw [hrows] at hd
  exact h d row hd hdum

/-- A new symbol may be entered with a row of dummies. -/
theorem DummyPure.enter_pure {t : Tableau ℚ} (h : t.DummyPure) {s : Symbol} {row : Row ℚ}
    (hzero : row.constant = 0) (hpure : ∀ x, row.Mentions x → x.isDummy)
    (habs : ∀ d old, t.rows.get? d = some old → ¬ old.Mentions s) :
    (t.enter s row).DummyPure := by
  intro d new hd hdum
  rcases get?_of_enter hd with ⟨-, rfl⟩ | ⟨-, old, hold, rfl⟩
  · exact ⟨hzero, hpure⟩
  · rw [Row.substitute_of_not_mentions (habs d old hold)]
    exact h d old hold hdum

/-- A pivot that enters no dummy keeps the rows of dummies. -/
theorem DummyPure.pivot {t u : Tableau ℚ} (h : t.DummyPure) {e l : Symbol}
    (he : e.isDummy = false) (hu : t.pivot ⟨e, l⟩ = .ok u) : u.DummyPure := by
  obtain ⟨row, solved, -, -, rfl⟩ := pivot_cases hu
  exact (h.dropRow l).enter he

theorem DummyPure.point_eq_zero {t : Tableau ℚ} (h : t.DummyPure) {x : Symbol}
    (hx : x.isDummy) : t.point x = 0 := by
  cases hrow : t.rows.get? x with
  | none => exact point_nonbasic hrow
  | some row =>
    rw [point_basic hrow]
    exact (h x row hrow hx).1

/-- Where the free dummies are zero, so are the basic ones. -/
theorem DummyPure.extend_eq_zero {t : Tableau ℚ} (h : t.DummyPure) {σ : Assignment}
    (hσ : ∀ x, x.isDummy → σ x = 0) {x : Symbol} (hx : x.isDummy) : t.extend σ x = 0 := by
  cases hrow : t.rows.get? x with
  | none => rw [extend_nonbasic hrow, hσ x hx]
  | some row =>
    obtain ⟨hconst, hpure⟩ := h x row hrow hx
    rw [extend_basic hrow, Row.value_congr (τ := fun _ => 0) fun y hy => hσ y (hpure y hy),
      Row.value_zero, hconst]

/-! ## 6. Settled objectives -/

/-- **No symbol but a dummy has a negative cost.** -/
def Settled (t : Tableau ℚ) : Prop := ∀ x, x.isDummy = false → 0 ≤ t.objective.coefficient x

/-- **The dual ratio test keeps the objective settled.**  The cost of a symbol falls by its
coefficient in the leaving row times the least cost per unit. -/
theorem Settled.dual {t u : Tableau ℚ} (h : t.Settled) (hreg : t.Regular) {e l : Symbol}
    {row : Row ℚ} (he : t.Nonbasic e) (hrow : t.rows.get? l = some row)
    (hchoice : t.dualEntering? row = some e) (hu : t.pivot ⟨e, l⟩ = .ok u) : u.Settled := by
  obtain ⟨-, hedum, hpos⟩ := of_dualEntering? hchoice
  obtain ⟨row', solved, hrow', hel, hc, hsolved, rfl⟩ := hreg.pivot_row he hu
  rw [hrow] at hrow'
  cases hrow'
  intro x hx
  have hcost := h e hedum
  show 0 ≤ (t.objective.substitute e solved).coefficient x
  by_cases hxe : x = e
  · subst hxe
    have hnot : ¬ (t.objective.substitute x solved).Mentions x :=
      Row.not_mentions_substitute_self fun hx => (Row.mentions_exchange? hsolved hx).1 rfl
    rw [Row.coefficient_of_not_mentions hnot]
  · rw [Row.coefficient_substitute _ _ hxe, Row.coefficient_exchange? hel hxe hsolved hc]
    have hxcost := h x hx
    have hratio : 0 ≤ t.objective.coefficient e / row.coefficient e := div_nonneg hcost hpos.le
    -- the part of the leaving symbol only adds to the cost
    have hleft :
        0 ≤ t.objective.coefficient e * ((if x = l then 1 else 0) / row.coefficient e) := by
      split
      · exact mul_nonneg hcost (div_nonneg zero_le_one hpos.le)
      · simp
    have hright : row.coefficient x * (t.objective.coefficient e / row.coefficient e) ≤
        t.objective.coefficient x := by
      rcases lt_or_ge 0 (row.coefficient x) with hgt | hle
      · have hmul := mul_le_mul_of_nonneg_left (dualEntering?_le hchoice hx hgt) hgt.le
        rwa [mul_div_cancel₀ _ hgt.ne'] at hmul
      · exact (mul_nonpos_of_nonpos_of_nonneg hle hratio).trans hxcost
    have hsplit : t.objective.coefficient x + t.objective.coefficient e *
        (((if x = l then 1 else 0) - row.coefficient x) / row.coefficient e) =
        t.objective.coefficient e * ((if x = l then 1 else 0) / row.coefficient e) +
          (t.objective.coefficient x -
            row.coefficient x * (t.objective.coefficient e / row.coefficient e)) := by
      ring
    rw [hsplit]
    linarith

end Tableau

end IncrementalSimplex
