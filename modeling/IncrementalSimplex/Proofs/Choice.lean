/-
# What the choices choose

Whatever the arithmetic, a symbol that is chosen is one of the candidates; that needs no law of
numbers but a few about `0` and `1` (`Scalar.LawfulUnits`), namely that the zero read from an absent
cell does not look like a candidate.  So a chosen symbol always has the cell that the pivot will
solve for.

In the exact reading two more things hold, and feasibility rests on them: a ratio test returns the
FIRST symbol with the LEAST ratio (`RatioTest.split_of_least?`), and it returns nothing only if there
is no candidate at all.  The second is where the missing ceiling of that reading is used.

The choice of a row to exchange with a marker (`leavingForMarker?`) has three tiers, and
`MarkerRow` has one constructor for each.  A lower tier is entered only when the ones above it have
no candidate.
-/
import IncrementalSimplex.Proofs.Solutions

namespace IncrementalSimplex

/-- **What every reading gets right about zero and one.**  Zero is not below itself and equals
itself, and the sums that store a new cell with `1` or `-1` do store it. -/
class Scalar.LawfulUnits (α : Type) [Scalar α] : Prop where
  not_zero_lt_zero : ¬ (0 : α) < 0
  zero_beq_zero : ((0 : α) == 0) = true
  nearZero_one : nearZero (0 + 1 : α) = false
  nearZero_neg_one : nearZero (0 + -1 : α) = false

instance : Scalar.LawfulUnits ℚ where
  not_zero_lt_zero := lt_irrefl (0 : ℚ)
  zero_beq_zero := rfl
  nearZero_one := decide_eq_false (by norm_num : ¬ (0 + 1 : ℚ) = 0)
  nearZero_neg_one := decide_eq_false (by norm_num : ¬ (0 + -1 : ℚ) = 0)

instance : Scalar.LawfulUnits Tolerant where
  not_zero_lt_zero := lt_irrefl (0 : ℚ)
  zero_beq_zero := rfl
  nearZero_one := by decide +kernel
  nearZero_neg_one := by decide +kernel

/-- **One and minus one are stored in a new cell**, which is all that encoding asks of a reading. -/
class Scalar.StoredUnits (α : Type) [Scalar α] : Prop where
  nearZero_one : nearZero (0 + 1 : α) = false
  nearZero_neg_one : nearZero (0 + -1 : α) = false

instance {α : Type} [Scalar α] [Scalar.LawfulUnits α] : Scalar.StoredUnits α where
  nearZero_one := Scalar.LawfulUnits.nearZero_one
  nearZero_neg_one := Scalar.LawfulUnits.nearZero_neg_one

/-! ## 1. The ratio test -/

namespace RatioTest

section Any

variable {α : Type} [Scalar α]

theorem foldl_offer_mem {d : α × Symbol} : ∀ (l : List (α × Symbol)) (best : Option (α × Symbol)),
    l.foldl offer best = some d → best = some d ∨ d ∈ l
  | [], _, h => .inl h
  | c :: l, best, h => by
    rcases foldl_offer_mem l (offer best c) h with h | h
    · unfold offer at h
      split at h
      · split at h
        · cases h
          exact .inr List.mem_cons_self
        · cases h
      · split at h
        · cases h
          exact .inr List.mem_cons_self
        · exact .inl h
    · exact .inr (List.mem_cons_of_mem _ h)

/-- The symbol that wins is a candidate. -/
theorem mem_of_least? {l : List (α × Symbol)} {s : Symbol} (h : least? l = some s) :
    ∃ r, (r, s) ∈ l := by
  obtain ⟨⟨r, _⟩, hfold, rfl⟩ := Option.map_eq_some_iff.mp h
  rcases foldl_offer_mem l none hfold with h | h
  · cases h
  · exact ⟨r, h⟩

end Any

/-- **Exactly: the first of the least.**  The winner of a fold stands behind candidates that are
all worse and before candidates that are no better. -/
theorem foldl_offer_split : ∀ (l : List (ℚ × Symbol)) (b : ℚ × Symbol),
    ∃ pre d post, b :: l = pre ++ d :: post ∧ l.foldl offer (some b) = some d ∧
      (∀ c ∈ pre, d.1 < c.1) ∧ ∀ c ∈ post, d.1 ≤ c.1
  | [], b => ⟨[], b, [], rfl, rfl, by simp, by simp⟩
  | c :: l, b => by
    by_cases hlt : c.1 < b.1
    · obtain ⟨pre, d, post, hl, hd, hpre, hpost⟩ := foldl_offer_split l c
      have hdc : d.1 ≤ c.1 := by
        have hmem : c ∈ pre ++ d :: post := hl ▸ List.mem_cons_self
        rcases List.mem_append.mp hmem with hc | hc
        · exact (hpre c hc).le
        · rcases List.mem_cons.mp hc with rfl | hc
          · exact le_refl _
          · exact hpost c hc
      refine ⟨b :: pre, d, post, by rw [hl]; rfl, ?_, ?_, hpost⟩
      · rw [List.foldl_cons, offer]
        exact (congrArg (l.foldl offer) (if_pos hlt)).trans hd
      · intro e he
        rcases List.mem_cons.mp he with rfl | he
        · exact hdc.trans_lt hlt
        · exact hpre e he
    · obtain ⟨pre, d, post, hl, hd, hpre, hpost⟩ := foldl_offer_split l b
      have hfold : (c :: l).foldl offer (some b) = some d := by
        rw [List.foldl_cons, offer]
        exact (congrArg (l.foldl offer) (if_neg hlt)).trans hd
      cases pre with
      | nil =>
        obtain ⟨rfl, rfl⟩ := List.cons.inj hl
        refine ⟨[], b, c :: l, rfl, hfold, by simp, fun e he => ?_⟩
        rcases List.mem_cons.mp he with rfl | he
        · exact not_lt.mp hlt
        · exact hpost e he
      | cons a pre =>
        obtain ⟨rfl, rfl⟩ := List.cons.inj hl
        have hdb : d.1 < b.1 := hpre b List.mem_cons_self
        refine ⟨b :: c :: pre, d, post, rfl, hfold, fun e he => ?_, hpost⟩
        rcases List.mem_cons.mp he with rfl | he
        · exact hdb
        · rcases List.mem_cons.mp he with rfl | he
          · exact hdb.trans_le (not_lt.mp hlt)
          · exact hpre e (List.mem_cons_of_mem _ he)

theorem split_of_least? {l : List (ℚ × Symbol)} {s : Symbol} (h : least? l = some s) :
    ∃ pre r post, l = pre ++ (r, s) :: post ∧ (∀ c ∈ pre, r < c.1) ∧ ∀ c ∈ post, r ≤ c.1 := by
  cases l with
  | nil => cases h
  | cons b l =>
    obtain ⟨pre, d, post, hl, hd, hpre, hpost⟩ := foldl_offer_split l b
    have hfold : (b :: l).foldl offer none = some d := hd
    obtain ⟨e, he, rfl⟩ := Option.map_eq_some_iff.mp h
    rw [hfold] at he
    cases he
    exact ⟨pre, d.1, post, hl, hpre, hpost⟩

/-- **Exactly: the winner has the least ratio.** -/
theorem le_of_least? {l : List (ℚ × Symbol)} {s : Symbol} (h : least? l = some s) :
    ∃ r, (r, s) ∈ l ∧ ∀ c ∈ l, r ≤ c.1 := by
  obtain ⟨pre, r, post, rfl, hpre, hpost⟩ := split_of_least? h
  refine ⟨r, by simp, fun c hc => ?_⟩
  rcases List.mem_append.mp hc with hc | hc
  · exact (hpre c hc).le
  · rcases List.mem_cons.mp hc with rfl | hc
    · exact le_refl _
    · exact hpost c hc

/-- **Exactly: of candidates in symbol order, those before the winner are strictly worse.** -/
theorem lt_of_least? {l : List (ℚ × Symbol)} (hsorted : l.Pairwise fun c d => c.2 < d.2)
    {s : Symbol} (h : least? l = some s) :
    ∃ r, (r, s) ∈ l ∧ ∀ c ∈ l, c.2 < s → r < c.1 := by
  obtain ⟨pre, r, post, rfl, hpre, -⟩ := split_of_least? h
  obtain ⟨-, hrest, -⟩ := List.pairwise_append.mp hsorted
  refine ⟨r, by simp, fun c hc hlt => ?_⟩
  rcases List.mem_append.mp hc with hc | hc
  · exact hpre c hc
  · rcases List.mem_cons.mp hc with rfl | hc
    · exact absurd hlt (Symbol.lt_irrefl s)
    · have hgt : s < c.2 := (List.pairwise_cons.mp hrest).1 c hc
      exact absurd (Symbol.lt_trans hlt hgt) (Symbol.lt_irrefl _)

/-- **Exactly: nothing wins only where there is no candidate.** -/
theorem eq_nil_of_least? {l : List (ℚ × Symbol)} (h : least? l = none) : l = [] := by
  cases l with
  | nil => rfl
  | cons b l =>
    obtain ⟨-, d, -, -, hd, -⟩ := foldl_offer_split l b
    have hfold : (b :: l).foldl offer none = some d := hd
    rw [least?, hfold] at h
    cases h

end RatioTest

namespace Tableau

/-! ## 2. Candidates -/

section Candidates

variable {α : Type} [Scalar α]

theorem mem_fallingRatios {rows : List (Symbol × Row α)} {x b : Symbol} {r : α} :
    (r, b) ∈ fallingRatios rows x ↔ ∃ row, (b, row) ∈ rows ∧ b.isRestricted ∧
      row.coefficient x < 0 ∧ r = -row.constant / row.coefficient x := by
  simp only [fallingRatios, List.mem_filterMap, Prod.exists]
  constructor
  · rintro ⟨c, row, hmem, h⟩
    split at h
    · rename_i hcond
      simp only [Bool.and_eq_true, decide_eq_true_eq] at hcond
      cases h
      exact ⟨row, hmem, hcond.1, hcond.2, rfl⟩
    · cases h
  · rintro ⟨row, hmem, hb, hc, rfl⟩
    exact ⟨b, row, hmem, by simp [hb, hc]⟩

/-- Ratios are in the symbol order of their rows. -/
theorem fallingRatios_sorted {rows : List (Symbol × Row α)} (x : Symbol)
    (h : rows.Pairwise fun a b => a.1 < b.1) :
    (fallingRatios rows x).Pairwise fun c d => c.2 < d.2 := by
  refine List.Pairwise.filterMap _ (fun a b hab c hc d hd => ?_) h
  dsimp only at hc hd
  split at hc
  · split at hd
    · cases hc
      cases hd
      exact hab
    · cases hd
  · cases hc

theorem mem_risingRatios {rows : List (Symbol × Row α)} {x b : Symbol} {r : α} :
    (r, b) ∈ risingRatios rows x ↔ ∃ row, (b, row) ∈ rows ∧ b.isRestricted ∧
      ¬ row.coefficient x < 0 ∧ r = row.constant / row.coefficient x := by
  simp only [risingRatios, List.mem_filterMap, Prod.exists]
  constructor
  · rintro ⟨c, row, hmem, h⟩
    split at h
    · rename_i hcond
      simp only [Bool.and_eq_true, Bool.not_eq_true', decide_eq_false_iff_not] at hcond
      cases h
      exact ⟨row, hmem, hcond.1, hcond.2, rfl⟩
    · cases h
  · rintro ⟨row, hmem, hb, hc, rfl⟩
    exact ⟨b, row, hmem, by simp [hb, hc]⟩

theorem of_entering? {objective : Row α} {e : Symbol} (h : entering? objective = some e) :
    objective.Mentions e ∧ e.isDummy = false ∧ objective.coefficient e < 0 := by
  obtain ⟨⟨x, c⟩, hfind, rfl⟩ := Option.map_eq_some_iff.mp h
  have hmem := SymbolMap.mem_entries_iff.mp (List.mem_of_find?_eq_some hfind)
  have hcond := List.find?_some hfind
  simp only [Bool.and_eq_true, Bool.not_eq_true', decide_eq_true_eq] at hcond
  refine ⟨Row.mentions_iff.mpr ⟨c, hmem⟩, hcond.1, ?_⟩
  rw [Row.coefficient, hmem]
  exact hcond.2

/-- The leaving symbol is restricted and its row falls with the entering one. -/
theorem of_leaving? {t : Tableau α} {e l : Symbol} (h : t.leaving? e = some l) :
    ∃ row, t.rows.get? l = some row ∧ l.isRestricted ∧ row.coefficient e < 0 := by
  obtain ⟨r, hr⟩ := RatioTest.mem_of_least? h
  obtain ⟨row, hmem, hl, hc, -⟩ := mem_fallingRatios.mp hr
  exact ⟨row, SymbolMap.mem_entries_iff.mp hmem, hl, hc⟩

theorem mem_dualCandidates {t : Tableau α} {row : Row α} {x : Symbol} {r : α} :
    (r, x) ∈ (row.cells.entries.filterMap fun (s, c) =>
      if !s.isDummy && decide (0 < c) then some (t.objective.coefficient s / c, s) else none) ↔
      row.Mentions x ∧ x.isDummy = false ∧ 0 < row.coefficient x ∧
        r = t.objective.coefficient x / row.coefficient x := by
  simp only [List.mem_filterMap, Prod.exists]
  constructor
  · rintro ⟨s, c, hmem, h⟩
    have hget := SymbolMap.mem_entries_iff.mp hmem
    split at h
    · rename_i hcond
      simp only [Bool.and_eq_true, Bool.not_eq_true', decide_eq_true_eq] at hcond
      cases h
      have hcoef : row.coefficient x = c := by rw [Row.coefficient, hget]; rfl
      rw [hcoef]
      exact ⟨Row.mentions_iff.mpr ⟨c, hget⟩, hcond.1, hcond.2, rfl⟩
    · cases h
  · rintro ⟨hx, hd, hc, rfl⟩
    obtain ⟨c, hget⟩ := Row.mentions_iff.mp hx
    have hcoef : row.coefficient x = c := by rw [Row.coefficient, hget]; rfl
    rw [hcoef] at hc ⊢
    exact ⟨x, c, SymbolMap.mem_entries_iff.mpr hget, by simp [hd, hc]⟩

theorem of_dualEntering? {t : Tableau α} {row : Row α} {e : Symbol}
    (h : t.dualEntering? row = some e) :
    row.Mentions e ∧ e.isDummy = false ∧ 0 < row.coefficient e := by
  obtain ⟨r, hr⟩ := RatioTest.mem_of_least? h
  obtain ⟨hmen, hd, hc, -⟩ := mem_dualCandidates.mp hr
  exact ⟨hmen, hd, hc⟩

theorem mem_markerRows {t : Tableau α} {m b : Symbol} {row : Row α} :
    (b, row) ∈ t.rows.entries.filter (fun (_, row) => row.coefficient m != 0) ↔
      t.rows.get? b = some row ∧ (row.coefficient m != 0) = true := by
  rw [List.mem_filter, SymbolMap.mem_entries_iff]

/-- The row exchanged with a marker has a coefficient for it that does not pass for zero. -/
theorem of_leavingForMarker? {t : Tableau α} {m l : Symbol}
    (h : t.leavingForMarker? m = some l) :
    ∃ row, t.rows.get? l = some row ∧ (row.coefficient m != 0) = true := by
  have hmem : ∀ {row : Row α}, (l, row) ∈
      t.rows.entries.filter (fun (_, row) => row.coefficient m != 0) →
      ∃ row, t.rows.get? l = some row ∧ (row.coefficient m != 0) = true :=
    fun {row} hrow => ⟨row, mem_markerRows.mp hrow⟩
  unfold leavingForMarker? at h
  rcases Option.or_eq_some_iff.mp h with h | ⟨-, h⟩
  · obtain ⟨r, hr⟩ := RatioTest.mem_of_least? h
    obtain ⟨row, hrow, -⟩ := mem_fallingRatios.mp hr
    exact hmem hrow
  · rcases Option.or_eq_some_iff.mp h with h | ⟨-, h⟩
    · obtain ⟨r, hr⟩ := RatioTest.mem_of_least? h
      obtain ⟨row, hrow, -⟩ := mem_risingRatios.mp hr
      exact hmem hrow
    · obtain ⟨⟨b, row⟩, hrow, rfl⟩ := List.mem_map.mp (List.mem_of_find?_eq_some h)
      exact hmem hrow

end Candidates

/-! ## 3. No chosen pivot can fail

A chosen symbol has a coefficient that compares with zero, so it has a cell. -/

end Tableau

namespace Row

variable {α : Type} [Scalar α] [Scalar.LawfulUnits α]

theorem mentions_of_coefficient_neg {r : Row α} {x : Symbol} (h : r.coefficient x < 0) :
    r.Mentions x := by
  by_contra hx
  rw [coefficient_of_not_mentions hx] at h
  exact Scalar.LawfulUnits.not_zero_lt_zero h

theorem mentions_of_coefficient_bne {r : Row α} {x : Symbol}
    (h : (r.coefficient x != 0) = true) : r.Mentions x := by
  by_contra hx
  rw [coefficient_of_not_mentions hx, bne, Scalar.LawfulUnits.zero_beq_zero] at h
  cases h

end Row

namespace Tableau

/-- **A primal pivot never fails.** -/
theorem exists_pivot_of_leaving? {α : Type} [Scalar α] [Scalar.LawfulUnits α] {t : Tableau α}
    {e l : Symbol} (he : t.Nonbasic e) (h : t.leaving? e = some l) :
    ∃ u, t.pivot ⟨e, l⟩ = .ok u := by
  obtain ⟨row, hrow, -, hc⟩ := of_leaving? h
  exact exists_pivot (he.ne hrow) hrow (Row.mentions_of_coefficient_neg hc)

/-! ## 4. The choices in the exact reading -/

/-- No restricted row falls where nothing can be entered. -/
theorem nonneg_of_entering?_eq_none {objective : Row ℚ} (h : entering? objective = none)
    {x : Symbol} (hx : x.isDummy = false) : 0 ≤ objective.coefficient x := by
  by_contra hneg
  have hlt : objective.coefficient x < 0 := not_le.mp hneg
  obtain ⟨c, hget⟩ := Row.mentions_iff.mp (Row.mentions_of_coefficient_ne_zero hlt.ne)
  have hmem := SymbolMap.mem_entries_iff.mpr hget
  have hnone := List.find?_eq_none.mp (Option.map_eq_none_iff.mp h) (x, c) hmem
  rw [Row.coefficient_of_get? hget] at hlt
  simp only [hx, Bool.not_false, Bool.true_and, decide_eq_true_eq] at hnone
  exact hnone hlt

/-- **No symbol before the entering one, dummies apart, has a negative cost.** -/
theorem nonneg_of_lt_entering? {objective : Row ℚ} {e : Symbol} (h : entering? objective = some e)
    {x : Symbol} (hx : x.isDummy = false) (hxe : x < e) : 0 ≤ objective.coefficient x := by
  obtain ⟨⟨y, c⟩, hfind, rfl⟩ := Option.map_eq_some_iff.mp h
  obtain ⟨-, pre, post, hentries, hpre⟩ := List.find?_eq_some_iff_append.mp hfind
  by_contra hneg
  have hlt : objective.coefficient x < 0 := not_le.mp hneg
  obtain ⟨d, hget⟩ := Row.mentions_iff.mp (Row.mentions_of_coefficient_ne_zero hlt.ne)
  rw [Row.coefficient_of_get? hget] at hlt
  have hmem := SymbolMap.mem_entries_iff.mpr hget
  have hsorted := objective.cells.sorted
  rw [hentries] at hmem hsorted
  obtain ⟨-, hrest, -⟩ := List.pairwise_append.mp hsorted
  rcases List.mem_append.mp hmem with hmem | hmem
  · have hnot := hpre (x, d) hmem
    simp only [hx, Bool.not_false, Bool.true_and, Bool.not_eq_true', decide_eq_false_iff_not]
      at hnot
    exact hnot hlt
  · rcases List.mem_cons.mp hmem with hxy | hmem
    · cases hxy
      exact Symbol.lt_irrefl x hxe
    · have hgt : y < x := (List.pairwise_cons.mp hrest).1 (x, d) hmem
      exact Symbol.lt_irrefl x (Symbol.lt_trans hxe hgt)

/-- **The leaving row reaches zero first.** -/
theorem leaving?_le {t : Tableau ℚ} {e l : Symbol} {row : Row ℚ} (h : t.leaving? e = some l)
    (hrow : t.rows.get? l = some row) :
    ∀ b other, t.rows.get? b = some other → b.isRestricted → other.coefficient e < 0 →
      -row.constant / row.coefficient e ≤ -other.constant / other.coefficient e := by
  obtain ⟨r, hr, hle⟩ := RatioTest.le_of_least? h
  obtain ⟨row', hmem, -, -, rfl⟩ := mem_fallingRatios.mp hr
  have heq : row' = row := by
    rw [SymbolMap.mem_entries_iff, hrow] at hmem
    exact (Option.some.inj hmem).symm
  subst heq
  intro b other hb hres hneg
  exact hle _ (mem_fallingRatios.mpr
    ⟨other, SymbolMap.mem_entries_iff.mpr hb, hres, hneg, rfl⟩)

/-- **Of the rows that reach zero first, the one of the first symbol leaves.** -/
theorem leaving?_lt {t : Tableau ℚ} {e l : Symbol} {row : Row ℚ} (h : t.leaving? e = some l)
    (hrow : t.rows.get? l = some row) :
    ∀ b other, t.rows.get? b = some other → b.isRestricted → other.coefficient e < 0 → b < l →
      -row.constant / row.coefficient e < -other.constant / other.coefficient e := by
  obtain ⟨r, hr, hlt⟩ := RatioTest.lt_of_least? (fallingRatios_sorted e t.rows.sorted) h
  obtain ⟨row', hmem, -, -, rfl⟩ := mem_fallingRatios.mp hr
  have heq : row' = row := by
    rw [SymbolMap.mem_entries_iff, hrow] at hmem
    exact (Option.some.inj hmem).symm
  subst heq
  intro b other hb hres hneg hbl
  exact hlt _ (mem_fallingRatios.mpr
    ⟨other, SymbolMap.mem_entries_iff.mpr hb, hres, hneg, rfl⟩) hbl

/-- Nothing leaves only if no restricted row falls. -/
theorem nonneg_of_leaving?_eq_none {t : Tableau ℚ} {e : Symbol} (h : t.leaving? e = none)
    {b : Symbol} {row : Row ℚ} (hb : t.rows.get? b = some row) (hres : b.isRestricted) :
    0 ≤ row.coefficient e := by
  by_contra hneg
  have hmem := mem_fallingRatios.mpr
    ⟨row, SymbolMap.mem_entries_iff.mpr hb, hres, not_le.mp hneg, rfl⟩
  rw [RatioTest.eq_nil_of_least? h] at hmem
  cases hmem

/-- **The entering symbol of a dual pivot costs least per unit.** -/
theorem dualEntering?_le {t : Tableau ℚ} {row : Row ℚ} {e : Symbol}
    (h : t.dualEntering? row = some e) {x : Symbol} (hx : x.isDummy = false)
    (hc : 0 < row.coefficient x) :
    t.objective.coefficient e / row.coefficient e ≤
      t.objective.coefficient x / row.coefficient x := by
  obtain ⟨r, hr, hle⟩ := RatioTest.le_of_least? h
  obtain ⟨-, -, -, rfl⟩ := mem_dualCandidates.mp hr
  exact hle _ (mem_dualCandidates.mpr
    ⟨Row.mentions_of_coefficient_ne_zero hc.ne', hx, hc, rfl⟩)

/-- Nothing can be entered only if no symbol but a dummy raises the row. -/
theorem nonpos_of_dualEntering?_eq_none {t : Tableau ℚ} {row : Row ℚ}
    (h : t.dualEntering? row = none) {x : Symbol} (hx : x.isDummy = false) :
    row.coefficient x ≤ 0 := by
  by_contra hpos
  have hlt : 0 < row.coefficient x := not_le.mp hpos
  have hmem := (mem_dualCandidates (t := t)).mpr
    ⟨Row.mentions_of_coefficient_ne_zero hlt.ne', hx, hlt, rfl⟩
  rw [RatioTest.eq_nil_of_least? h] at hmem
  cases hmem

/-! ## 5. The row exchanged with a marker -/

/-- Where the row that is exchanged with a marker comes from. -/
inductive MarkerRow (t : Tableau ℚ) (m l : Symbol) (row : Row ℚ) : Prop
  /-- A restricted row that falls with the marker, and reaches zero first. -/
  | falling (restricted : l.isRestricted) (neg : row.coefficient m < 0)
      (least : ∀ b other, t.rows.get? b = some other → b.isRestricted → other.coefficient m < 0 →
        -row.constant / row.coefficient m ≤ -other.constant / other.coefficient m)
  /-- No restricted row falls; of those that rise, the one that reaches zero first downwards. -/
  | rising (restricted : l.isRestricted) (pos : 0 < row.coefficient m)
      (noFalling : ∀ b other, t.rows.get? b = some other → b.isRestricted →
        0 ≤ other.coefficient m)
      (least : ∀ b other, t.rows.get? b = some other → b.isRestricted → 0 < other.coefficient m →
        row.constant / row.coefficient m ≤ other.constant / other.coefficient m)
  /-- No restricted row has the marker. -/
  | external (external : l.isExternal) (ne : row.coefficient m ≠ 0)
      (absent : ∀ b other, t.rows.get? b = some other → b.isRestricted →
        other.coefficient m = 0)

theorem MarkerRow.coefficient_ne_zero {t : Tableau ℚ} {m l : Symbol} {row : Row ℚ}
    (h : MarkerRow t m l row) : row.coefficient m ≠ 0 := by
  cases h with
  | falling _ hneg => exact hneg.ne
  | rising _ hpos => exact hpos.ne'
  | external _ hne => exact hne

theorem mem_markerRows_rat {t : Tableau ℚ} {m b : Symbol} {row : Row ℚ} :
    (b, row) ∈ t.rows.entries.filter (fun (_, row) => row.coefficient m != 0) ↔
      t.rows.get? b = some row ∧ row.coefficient m ≠ 0 := by
  rw [mem_markerRows]
  have : ((row.coefficient m != 0) = true) ↔ row.coefficient m ≠ 0 := by
    show (!decide (row.coefficient m = 0)) = true ↔ _
    simp
  rw [this]

/-- **The three tiers.** -/
theorem leavingForMarker?_spec {t : Tableau ℚ} {m l : Symbol}
    (h : t.leavingForMarker? m = some l) :
    ∃ row, t.rows.get? l = some row ∧ MarkerRow t m l row := by
  unfold leavingForMarker? at h
  set rows := t.rows.entries.filter (fun (_, row) => row.coefficient m != 0) with hrows
  have hmem : ∀ {b row}, (b, row) ∈ rows ↔ t.rows.get? b = some row ∧ row.coefficient m ≠ 0 :=
    mem_markerRows_rat
  rcases Option.or_eq_some_iff.mp h with h | ⟨hfall, h⟩
  · obtain ⟨r, hr, hle⟩ := RatioTest.le_of_least? h
    obtain ⟨row, hrow, hres, hneg, rfl⟩ := mem_fallingRatios.mp hr
    refine ⟨row, (hmem.mp hrow).1, .falling hres hneg fun b other hb hbres hbneg => ?_⟩
    exact hle _ (mem_fallingRatios.mpr ⟨other, hmem.mpr ⟨hb, hbneg.ne⟩, hbres, hbneg, rfl⟩)
  · have hnone := RatioTest.eq_nil_of_least? hfall
    have hnonneg : ∀ b other, t.rows.get? b = some other → b.isRestricted →
        0 ≤ other.coefficient m := by
      intro b other hb hbres
      by_contra hneg
      have hlt : other.coefficient m < 0 := not_le.mp hneg
      have := mem_fallingRatios.mpr ⟨other, hmem.mpr ⟨hb, hlt.ne⟩, hbres, hlt, rfl⟩
      rw [hnone] at this
      cases this
    rcases Option.or_eq_some_iff.mp h with h | ⟨hrise, h⟩
    · obtain ⟨r, hr, hle⟩ := RatioTest.le_of_least? h
      obtain ⟨row, hrow, hres, hnneg, rfl⟩ := mem_risingRatios.mp hr
      have hpos : 0 < row.coefficient m :=
        lt_of_le_of_ne (not_lt.mp hnneg) (hmem.mp hrow).2.symm
      refine ⟨row, (hmem.mp hrow).1, .rising hres hpos hnonneg fun b other hb hbres hbpos => ?_⟩
      exact hle _ (mem_risingRatios.mpr
        ⟨other, hmem.mpr ⟨hb, hbpos.ne'⟩, hbres, hbpos.not_gt, rfl⟩)
    · have hnone' := RatioTest.eq_nil_of_least? hrise
      obtain ⟨⟨b, row⟩, hrow, rfl⟩ := List.mem_map.mp (List.mem_of_find?_eq_some h)
      refine ⟨row, (hmem.mp hrow).1,
        .external (List.find?_some h) (hmem.mp hrow).2 fun c other hc hcres => ?_⟩
      by_contra hne
      have hnneg : ¬ other.coefficient m < 0 := (hnonneg c other hc hcres).not_gt
      have := mem_risingRatios.mpr ⟨other, hmem.mpr ⟨hc, hne⟩, hcres, hnneg, rfl⟩
      rw [hnone'] at this
      cases this

/-- No row is found only if the marker is in no row. -/
theorem coefficient_of_leavingForMarker?_eq_none {t : Tableau ℚ} {m : Symbol}
    (h : t.leavingForMarker? m = none) {b : Symbol} {row : Row ℚ}
    (hb : t.rows.get? b = some row) : row.coefficient m = 0 := by
  unfold leavingForMarker? at h
  obtain ⟨hfall, h⟩ := Option.or_eq_none_iff.mp h
  obtain ⟨hrise, hext⟩ := Option.or_eq_none_iff.mp h
  by_contra hne
  have hmem := mem_markerRows_rat.mpr ⟨hb, hne⟩
  cases hres : b.isRestricted with
  | true =>
    rcases lt_or_gt_of_ne hne with hlt | hgt
    · have := mem_fallingRatios.mpr ⟨row, hmem, hres, hlt, rfl⟩
      rw [RatioTest.eq_nil_of_least? hfall] at this
      cases this
    · have := mem_risingRatios.mpr ⟨row, hmem, hres, hgt.not_gt, rfl⟩
      rw [RatioTest.eq_nil_of_least? hrise] at this
      cases this
  | false =>
    have hx : b.isExternal = true := by simpa [Symbol.isRestricted] using hres
    exact List.find?_eq_none.mp hext b (List.mem_map.mpr ⟨(b, row), hmem, rfl⟩) hx

end Tableau

end IncrementalSimplex
