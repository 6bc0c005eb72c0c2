/-
# What a tolerance does to additions

`Tolerant` computes exactly and differs from the exact reading in one test: what lies within the
tolerance counts as zero.  So cells are lost, but CONSTANTS ARE NOT: whatever a row loses, a pivot
moves its constant by its coefficient times the step of the entering symbol (`Tableau.Moved`), and
the ratio test chooses as it does over the rationals (`Tableau.leaving?_exact`).  Hence the primal
passes keep all restricted rows feasible, with a tolerance as without.

**Where the test decides whether a row is right.**  A row is put in though it is not satisfied in
two places: where it has dummies alone and its constant is near zero, and where phase one leaves the
artificial symbol near zero.  What is left then is the REMAINDER of the addition
(`Solver.remainder`).  It lies within the tolerance, but what happens to it does not: the artificial
symbol is exchanged for the first pivotable symbol of its row, whatever its coefficient, and that
symbol moves by the remainder DIVIDED by the coefficient (`Tableau.moved_retire`).

**What holds.**  After any course of additions that succeed there is no artificial objective and the
queue is empty, and as long as no addition left a remainder no restricted row is negative
(`Accumulated.at_rest`).  One remainder within the tolerance is enough for a row that is far below
it (`accepted_remainder_amplified`).
-/
import IncrementalSimplex.Proofs.Insertion
import IncrementalSimplex.Proofs.Integrity
import IncrementalSimplex.Proofs.Queueing

namespace IncrementalSimplex

/-! ## 1. Cells and constants of a sum -/

namespace Row

variable {α : Type} [Scalar α]

theorem constant_foldl_addCell (c : α) (l : List (Symbol × α)) (r : Row α) :
    (l.foldl (fun acc e => acc.addCell e.1 (e.2 * c)) r).constant = r.constant := by
  induction l generalizing r with
  | nil => rfl
  | cons e l ih => exact ih _

/-- The constant of a sum is that of its terms, whatever becomes of the cells. -/
theorem constant_addRow (r t : Row α) (c : α) :
    (r.addRow t c).constant = r.constant + t.constant * c :=
  constant_foldl_addCell c _ _

theorem constant_substitute_of_get? {r t : Row α} {s : Symbol} {c : α}
    (h : r.cells.get? s = some c) : (r.substitute s t).constant = r.constant + t.constant * c := by
  rw [substitute, h]
  exact constant_addRow _ _ _

/-- An exchange divides the constant by the coefficient. -/
theorem constant_exchange_of_some {r t : Row α} {l e : Symbol} (hel : e ≠ l)
    (h : r.exchange? l e = some t) :
    ∃ c, r.cells.get? e = some c ∧ t.constant = r.constant * (-1 / c) := by
  obtain ⟨c, hc, rfl⟩ := Option.map_eq_some_iff.mp h
  rw [get?_addCell_of_ne _ _ hel] at hc
  exact ⟨c, hc, rfl⟩

/-- So does solving. -/
theorem constant_solveFor_of_some {r t : Row α} {s : Symbol} (h : r.solveFor? s = some t) :
    ∃ c, r.cells.get? s = some c ∧ t.constant = r.constant * (-1 / c) := by
  obtain ⟨c, hc, rfl⟩ := Option.map_eq_some_iff.mp h
  exact ⟨c, hc, rfl⟩

/-- **A cell of a sum**: what was there, if the other row does not have the symbol, else the sum
unless it is near zero. -/
theorem get?_foldl_addCell (c : α) (x : Symbol) : ∀ {l : List (Symbol × α)} (r : Row α),
    l.Pairwise (fun a b => a.1 < b.1) →
      (l.foldl (fun acc e => acc.addCell e.1 (e.2 * c)) r).cells.get? x =
        match l.lookup x with
        | none => r.cells.get? x
        | some v => if nearZero (r.coefficient x + v * c) then none
            else some (r.coefficient x + v * c)
  | [], _, _ => rfl
  | (y, w) :: l, r, h => by
    obtain ⟨hy, hl⟩ := List.pairwise_cons.mp h
    rw [List.foldl_cons, get?_foldl_addCell c x _ hl, List.lookup_cons]
    by_cases hxy : x = y
    · subst hxy
      rw [SymbolMap.lookup_eq_none_of_lt hy, beq_self_eq_true]
      exact get?_addCell_self _ _ _
    · have hne : (x == y) = false := by simpa using hxy
      rw [hne, coefficient, get?_addCell_of_ne _ _ hxy]
      rfl

theorem get?_addRow (r t : Row α) (c : α) (x : Symbol) :
    (r.addRow t c).cells.get? x =
      match t.cells.get? x with
      | none => r.cells.get? x
      | some v => if nearZero (r.coefficient x + v * c) then none
          else some (r.coefficient x + v * c) :=
  get?_foldl_addCell c x _ t.cells.sorted

end Row

namespace Tableau

/-! ## 2. The tolerant tableau over the rationals -/

/-- **The same tableau for exact arithmetic.**  What counts as near zero is no part of it. -/
def exact (t : Tableau Tolerant) : Tableau ℚ := t

/-- The ratio test does not look at what is near zero. -/
theorem leaving?_exact (t : Tableau Tolerant) (e : Symbol) : t.exact.leaving? e = t.leaving? e :=
  rfl

/-- Entering a symbol moves it to the constant of its row. -/
theorem moved_enter (t : Tableau Tolerant) (x : Symbol) {row : Row Tolerant} :
    t.exact.Moved (t.enter x row).exact x row.constant := by
  have hstays : ∀ a b : ℚ, a = a + 0 * b := fun a b => by ring
  have hmoves : ∀ a b c : ℚ, a + b * c = a + c * b := fun a b c => by ring
  intro b new hb
  rcases get?_of_enter (t := t) hb with ⟨rfl, rfl⟩ | ⟨-, old, hold, rfl⟩
  · exact .inl ⟨rfl, rfl⟩
  · refine .inr ⟨old, hold, ?_⟩
    cases hcell : old.cells.get? x with
    | none =>
      have hzero : Row.coefficient (α := ℚ) old x = 0 :=
        Row.coefficient_of_not_mentions (Row.not_mentions_iff.mpr hcell)
      rw [Row.substitute_of_absent hcell, hzero]
      exact hstays _ _
    | some c =>
      have hcoef : Row.coefficient (α := ℚ) old x = c := Row.coefficient_of_get? hcell
      rw [hcoef]
      exact (Row.constant_substitute_of_get? hcell).trans (hmoves _ _ _)

/-- The step of an exchange. -/
theorem constant_exchange_exact {row solved : Row Tolerant} {l e : Symbol} (hel : e ≠ l)
    (h : row.exchange? l e = some solved) :
    (solved.constant : ℚ) = -Row.constant (α := ℚ) row / Row.coefficient (α := ℚ) row e := by
  obtain ⟨c, hc, hconst⟩ := Row.constant_exchange_of_some hel h
  have hcoef : Row.coefficient (α := ℚ) row e = c := Row.coefficient_of_get? hc
  have hstep : ∀ a b : ℚ, a * (-1 / b) = -a / b := fun a b => by ring
  rw [hcoef]
  exact hconst.trans (hstep _ _)

/-- **A pivot moves the entering symbol by the ratio of the leaving row**, with a tolerance as
without. -/
theorem moved_pivot {t u : Tableau Tolerant} {e l : Symbol} (hel : e ≠ l) {row : Row Tolerant}
    (hrow : t.rows.get? l = some row) (hu : t.pivot ⟨e, l⟩ = .ok u) :
    t.exact.Moved u.exact e
      (-Row.constant (α := ℚ) row / Row.coefficient (α := ℚ) row e) := by
  obtain ⟨row', solved, hrow', hsolved, rfl⟩ := pivot_cases hu
  rw [hrow] at hrow'
  cases hrow'
  rw [← constant_exchange_exact hel hsolved]
  intro b new hb
  rcases (t.dropRow l).moved_enter e b new hb with hnew | ⟨old, hold, hconst⟩
  · exact .inl hnew
  · exact .inr ⟨old, (get?_of_dropRow (t := t) hold).2, hconst⟩

/-- **A primal step keeps all restricted rows feasible.** -/
theorem PrimalStep.feasible_exact {goal : Goal} {t u : Tableau Tolerant} (ht : t.Canonical)
    (hfeas : t.exact.Feasible) (h : PrimalStep goal t u) : u.exact.Feasible := by
  obtain ⟨hobj, he, hl, hu⟩ := h
  obtain ⟨row, hrow, hres, hneg⟩ := of_leaving? hl
  have hel := (ht.objectiveOf? hobj _ (of_entering? he).1).ne hrow
  have hleast := leaving?_le ((t.leaving?_exact _).trans hl) hrow
  exact hfeas.of_moved (t := t.exact) hrow hres hneg hleast (moved_pivot hel hrow hu)

/-- So does a primal pass. -/
theorem Canonical.feasible_minimize {t : Tableau Tolerant} (ht : t.Canonical)
    (hfeas : t.exact.Feasible) (limit : Nat) (goal : Goal) :
    (t.minimize limit goal).tableau.exact.Feasible := by
  obtain ⟨last, ⟨-, hlast⟩, hend⟩ := minimize_ends
    (P := fun u : Tableau Tolerant => u.Canonical ∧ u.exact.Feasible)
    (fun _ _ ⟨hcan, hu⟩ hs => ⟨hs.canonical hcan, hs.feasible_exact hcan hu⟩) ⟨ht, hfeas⟩ limit
  exact hlast.of_rows (t := last.exact) hend.rows_eq

/-! ## 3. External symbols

Symbols of variables are in rows of variables only, so that solving for one moves no restricted row.
That does not depend on the arithmetic. -/

section External

variable {α : Type} [Scalar α] {t : Tableau α}

theorem ExternalFree.minimize (h : t.ExternalFree) (limit : Nat) (goal : Goal) :
    (t.minimize limit goal).tableau.ExternalFree := by
  obtain ⟨last, hlast, hend⟩ := minimize_ends (P := ExternalFree)
    (fun _ _ hu hs => PrimalStep.externalFree hu hs) h limit
  rcases hend.tableau_eq with heq | heq
  · rw [heq]
    exact hlast
  · rw [heq]
    exact ⟨hlast.rows, hlast.objective, hlast.artificial⟩

omit [Scalar α] in
theorem ExternalFree.arm (h : t.ExternalFree) (art : Symbol) {row : Row α}
    (hrow : row.ExternalFree) : (t.arm art row).ExternalFree := by
  refine ⟨fun {b r} hb hres => ?_, h.objective, fun {r} ha => ?_⟩
  · rcases get?_of_arm hb with ⟨-, rfl⟩ | hb
    · exact hrow
    · exact h.rows hb hres
  · cases ha
    exact hrow

omit [Scalar α] in
theorem ExternalFree.disarm (h : t.ExternalFree) : t.disarm.ExternalFree :=
  ⟨h.rows, h.objective, fun ha => by cases ha⟩

theorem ExternalFree.retire (h : t.ExternalFree) {art : Symbol} (hart : art.isRestricted)
    (driven : Bool) : (t.retire art driven).tableau.ExternalFree :=
  retire_keeps (h.dropColumn art) (h.dropRow art)
    (fun _ _ _ _ _ hu => (h.pivot hart hu).dropColumn art) driven

end External

/-! ## 4. The artificial symbol -/

section Artificial

/-- **Solving a row for a symbol and putting it into itself** leaves the symbol that it was the row
of, and no other: everything else cancels, for numbers without rounding. -/
theorem nonneg_of_substitute_exchange {row solved : Row Tolerant} {art e : Symbol} (hel : e ≠ art)
    (hart : ¬ row.Mentions art) (hneg : row.coefficient e < 0)
    (hsolved : row.exchange? art e = some solved) {x : Symbol} {c : Tolerant}
    (hx : (row.substitute e solved).cells.get? x = some c) : ¬ c < 0 := by
  obtain ⟨q, hq, rfl⟩ := Option.map_eq_some_iff.mp hsolved
  rw [Row.get?_addCell_of_ne _ _ hel] at hq
  have hq0 : (q : ℚ) ≠ 0 := by
    rw [Row.coefficient, hq] at hneg
    exact ne_of_lt (α := ℚ) hneg
  rw [Row.substitute, hq] at hx
  dsimp only at hx
  rw [Row.get?_addRow, Row.get?_scale, Row.get?_dropCell, Row.get?_dropCell] at hx
  by_cases hxe : x = e
  · rw [if_pos hxe, if_pos hxe] at hx
    cases hx
  rw [if_neg hxe, if_neg hxe] at hx
  by_cases hxa : x = art
  · -- the symbol of the row comes out with one
    subst hxa
    have hnew : (row.addCell x (-1)).cells.get? x = some (0 + -1) := by
      rw [Row.get?_addCell_self, Row.coefficient_of_not_mentions hart,
        Scalar.LawfulUnits.nearZero_neg_one]
      rfl
    have hzero : (row.dropCell e).coefficient x = 0 :=
      Row.coefficient_of_not_mentions fun hmen => hart (Row.mentions_dropCell.mp hmen).2
    have hone : ∀ p : ℚ, p ≠ 0 → (0 + (0 + -1) * (-1 / p) * p : ℚ) = 1 := fun p hp => by
      field_simp
      ring
    rw [hnew, Option.map_some, hzero] at hx
    dsimp only at hx
    split at hx
    · cases hx
    · cases hx
      exact not_lt.mpr ((hone q hq0).symm ▸ zero_le_one)
  · rw [Row.get?_addCell_of_ne _ _ hxa] at hx
    cases hv : row.cells.get? x with
    | none =>
      rw [hv] at hx
      cases hx
    | some v =>
      -- any other cancels
      have hcell : (row.dropCell e).coefficient x = v := by
        rw [Row.coefficient, Row.get?_dropCell, if_neg hxe, hv]
        rfl
      have hcancel : ∀ w p : ℚ, p ≠ 0 → w + w * (-1 / p) * p = 0 := fun w p hp => by
        field_simp
        ring
      have hnear : nearZero (v + v * (-1 / q) * q) = true := by
        rw [show v + v * (-1 / q) * q = (0 : Tolerant) from hcancel v q hq0]
        decide +kernel
      rw [hv, Option.map_some, hcell] at hx
      dsimp only at hx
      rw [hnear] at hx
      cases hx

/-- Nothing enters where no cell is negative. -/
theorem entering?_eq_none_of_nonneg {α : Type} [Scalar α] {objective : Row α}
    (h : ∀ x c, objective.cells.get? x = some c → ¬ c < 0) : entering? objective = none := by
  unfold entering?
  refine Option.map_eq_none_iff.mpr (List.find?_eq_none.mpr fun e he => ?_)
  simp [h e.1 e.2 (SymbolMap.mem_entries_iff.mp he)]

/-- **The artificial symbol on its way down.**  While it is basic its row is the artificial
objective, and once it is free there is nothing left to improve. -/
def Driving (art : Symbol) (t : Tableau Tolerant) : Prop :=
  (∃ row, t.rows.get? art = some row ∧ t.artificial = some row) ∨
    t.rows.get? art = none ∧ ∀ objective, t.artificial = some objective →
      entering? objective = none

variable {t u : Tableau Tolerant} {art : Symbol} {row : Row Tolerant}

theorem Driving.step (ht : t.Canonical) (h : t.Driving art)
    (hs : PrimalStep .artificial t u) : u.Driving art := by
  obtain ⟨hobj, he, hl, hu⟩ := hs
  rename_i objective e l
  rcases h with ⟨row, hrow, hart⟩ | ⟨-, hnone⟩
  · have hobj' : t.artificial = some objective := hobj
    obtain rfl : objective = row := Option.some.inj (hobj'.symm.trans hart)
    have hfree := ht.artificial hart (of_entering? he).1
    obtain ⟨left, solved, hleft, hsolved, rfl⟩ := pivot_cases hu
    have hnew : ((t.dropRow l).enter e solved).artificial =
        some (objective.substitute e solved) := by
      change t.artificial.map _ = _
      rw [hart]
      rfl
    by_cases hla : l = art
    · -- it leaves
      subst hla
      rw [hrow] at hleft
      cases hleft
      have hown : ¬ objective.Mentions l := fun hmen =>
        not_nonbasic_of_get? hrow (ht.rows hrow hmen)
      obtain ⟨left, hleft, -, hneg⟩ := of_leaving? hl
      rw [hrow] at hleft
      cases hleft
      refine .inr ⟨?_, fun other hother => ?_⟩
      · rw [get?_enter, if_neg (hfree.ne hrow).symm, get?_dropRow, if_pos rfl]
        rfl
      · rw [hnew] at hother
        cases hother
        exact entering?_eq_none_of_nonneg fun x c hx =>
          nonneg_of_substitute_exchange (hfree.ne hrow) hown hneg hsolved hx
    · refine .inl ⟨objective.substitute e solved, ?_, hnew⟩
      rw [get?_enter, if_neg (hfree.ne hrow).symm, get?_dropRow, if_neg (Ne.symm hla), hrow]
      rfl
  · rw [hnone objective hobj] at he
    cases he

/-- **What a driven artificial symbol is left with lies within the tolerance.** -/
theorem nearZero_of_driven (ht : (t.arm art row).Canonical) {limit : Nat} {left : Row Tolerant}
    (hdriven : ((t.arm art row).minimize limit .artificial).tableau.driven = true)
    (hleft : ((t.arm art row).minimize limit .artificial).tableau.rows.get? art = some left) :
    withinTolerance left.constant = true := by
  have hbegin : (t.arm art row).Driving art :=
    .inl ⟨row, by rw [get?_arm, if_pos rfl], rfl⟩
  obtain ⟨last, ⟨-, hlast⟩, hend⟩ := minimize_ends
    (P := fun u : Tableau Tolerant => u.Canonical ∧ u.Driving art)
    (fun _ _ ⟨hcan, hu⟩ hs => ⟨hs.canonical hcan, hu.step hcan hs⟩) ⟨ht, hbegin⟩ limit
  rw [hend.tableau_eq_of_artificial] at hdriven hleft
  rcases hlast with ⟨other, hother, hart⟩ | ⟨hnone, -⟩
  · rw [hother] at hleft
    cases hleft
    rw [driven, hart] at hdriven
    exact hdriven
  · rw [hnone] at hleft
    cases hleft

/-- Only a driven symbol is taken out with success. -/
theorem driven_of_retire {α : Type} [Scalar α] {t : Tableau α} {art : Symbol} {driven : Bool}
    (h : (t.retire art driven).outcome = .ok true) : driven = true := by
  unfold retire at h
  split at h
  · exact Except.ok.inj h
  · dsimp only at h
    split at h
    · exact Except.ok.inj h
    · split at h
      · cases h
      · split at h
        · cases h
        · exact Except.ok.inj h

/-- **Taking the artificial symbol out moves another one by the remainder**: the first pivotable
symbol of its row, by the constant divided by the coefficient, however small that is. -/
theorem moved_retire (ht : t.Canonical) (hrow : t.rows.get? art = some row)
    (hcells : row.cells.size ≠ 0) {driven : Bool}
    (hok : (t.retire art driven).outcome = .ok true) :
    ∃ x, row.firstPivotable? = some x ∧ t.exact.Moved (t.retire art driven).tableau.exact x
      (-Row.constant (α := ℚ) row / Row.coefficient (α := ℚ) row x) := by
  unfold retire at hok ⊢
  rw [hrow] at hok ⊢
  dsimp only at hok ⊢
  rw [if_neg hcells] at hok ⊢
  cases he : row.firstPivotable? with
  | none =>
    rw [he] at hok
    cases hok
  | some x =>
    rw [he] at hok
    dsimp only at hok ⊢
    have hne := (ht.rows hrow (of_firstPivotable? he).1).ne hrow
    cases hsolved : row.exchange? art x with
    | none =>
      rw [hsolved] at hok
      cases hok
    | some solved =>
      refine ⟨x, rfl, fun b new hb => ?_⟩
      obtain ⟨kept, hkept, rfl⟩ := get?_of_dropColumn (t := (t.dropRow art).enter x solved) hb
      have hpivot : t.pivot ⟨x, art⟩ = .ok ((t.dropRow art).enter x solved) :=
        pivot_eq_ok_iff.mpr ⟨row, solved, hrow, hsolved, rfl⟩
      exact moved_pivot hne hrow hpivot b kept hkept

/-- **Without a remainder taking it out moves nothing.** -/
theorem Canonical.feasible_retire (ht : t.Canonical) (hfeas : t.exact.Feasible)
    (hzero : ∀ row, t.rows.get? art = some row → row.constant = 0) {driven : Bool}
    (hok : (t.retire art driven).outcome = .ok true) :
    (t.retire art driven).tableau.exact.Feasible := by
  cases hrow : t.rows.get? art with
  | none =>
    unfold Tableau.retire
    rw [hrow]
    exact Feasible.dropColumn (t := t.exact) hfeas art
  | some row =>
    by_cases hcells : row.cells.size = 0
    · unfold Tableau.retire
      rw [hrow]
      dsimp only
      rw [if_pos hcells]
      exact Feasible.dropRow (t := t.exact) hfeas art
    · obtain ⟨x, -, hmoved⟩ := moved_retire ht hrow hcells hok
      have hstill : -Row.constant (α := ℚ) row / Row.coefficient (α := ℚ) row x = 0 := by
        rw [show Row.constant (α := ℚ) row = 0 from hzero row hrow, neg_zero, zero_div]
      rw [hstill] at hmoved
      exact hfeas.of_moved_zero hmoved

end Artificial

end Tableau

/-! ## 5. Placing a row -/

namespace Encoding

variable {α : Type} [Scalar α]

/-- The tableau in which the pass of phase one ends, for an encoded row. -/
def minimized (e : Encoding α) : Tableau α :=
  ((e.solver.tableau.arm ⟨e.solver.counter + 1, .slack⟩ e.row).minimize
    e.solver.config.maxIterations .artificial).tableau

/-- **What is left of the row when it is placed.**  Nothing, if it is solved for a symbol of its
own.  A row of dummies alone leaves its constant, and any other one what the pass of phase one leaves
of the artificial symbol. -/
def remainder (e : Encoding α) : α :=
  match e.subject? with
  | some _ => 0
  | none =>
    if e.row.allDummies then e.row.constant
    else
      match e.minimized.rows.get? ⟨e.solver.counter + 1, .slack⟩ with
      | some row => row.constant
      | none => 0

/-- **How a row was placed**, and the tableau that came of it. -/
inductive Placed (e : Encoding α) : Tableau α → Prop
  | subject {x : Symbol} {row : Row α} (hx : e.subject? = some x)
      (hrow : e.row.solveFor? x = some row) : Placed e (e.solver.tableau.enter x row)
  | redundant {row : Row α} (hnone : e.subject? = none) (hall : e.row.allDummies = true)
      (hzero : nearZero e.row.constant = true) (hrow : e.row.solveFor? e.tag.marker = some row) :
      Placed e (e.solver.tableau.enter e.tag.marker row)
  | driven (hnone : e.subject? = none) (hall : e.row.allDummies = false)
      (hok : (e.minimized.disarm.retire ⟨e.solver.counter + 1, .slack⟩
        e.minimized.driven).outcome = .ok true) :
      Placed e (e.minimized.disarm.retire ⟨e.solver.counter + 1, .slack⟩
        e.minimized.driven).tableau

/-- Placing a row under a symbol succeeds if it can be solved for it. -/
theorem solveFor_of_placeBasic {e : Encoding α} {x : Symbol}
    (h : (e.placeBasic x).outcome = .ok ()) : ∃ row, e.row.solveFor? x = some row ∧
      (e.placeBasic x).solver.tableau = e.solver.tableau.enter x row := by
  unfold placeBasic at h ⊢
  cases hrow : e.row.solveFor? x with
  | none =>
    rw [hrow] at h
    cases h
  | some row => exact ⟨row, rfl, rfl⟩

/-- Placing it through phase one succeeds with phase one. -/
theorem retire_of_placeArtificial {e : Encoding α} {id : ConstraintId}
    (h : (e.placeArtificial id).outcome = .ok ()) :
    let retired := e.minimized.disarm.retire ⟨e.solver.counter + 1, .slack⟩ e.minimized.driven
    retired.outcome = .ok true ∧ (e.placeArtificial id).solver.tableau = retired.tableau := by
  have hphase : (e.solver.tableau.phaseOne e.solver.config.maxIterations
      ⟨e.solver.counter + 1, .slack⟩ e.row).outcome = .ok true ∧
      (e.placeArtificial id).solver.tableau = (e.solver.tableau.phaseOne
        e.solver.config.maxIterations ⟨e.solver.counter + 1, .slack⟩ e.row).tableau := by
    unfold placeArtificial at h ⊢
    dsimp only [Solver.newSymbol] at h ⊢
    split at h
    · rename_i hok
      exact ⟨hok, rfl⟩
    · cases h
    · cases h
    · cases h
  obtain ⟨hok, htableau⟩ := hphase
  cases hpass : ((e.solver.tableau.arm ⟨e.solver.counter + 1, .slack⟩ e.row).minimize
      e.solver.config.maxIterations .artificial).outcome with
  | error halt =>
    rw [(Tableau.phaseOne_of_error hpass).1] at hok
    cases hok
  | ok =>
    obtain ⟨hout, htab⟩ := Tableau.phaseOne_of_ok rfl hpass
    exact ⟨hout.symm.trans hok, htableau.trans htab⟩

/-- **A row that was placed was placed in one of these ways.** -/
theorem placed_of_ok {e : Encoding α} {id : ConstraintId} (h : (e.place id).outcome = .ok ()) :
    e.Placed (e.place id).solver.tableau := by
  unfold place placement at h ⊢
  cases hx : e.subject? with
  | some x =>
    rw [hx] at h
    dsimp only at h ⊢
    obtain ⟨row, hrow, htableau⟩ := solveFor_of_placeBasic h
    rw [htableau]
    exact .subject hx hrow
  | none =>
    rw [hx] at h
    dsimp only at h ⊢
    cases hall : e.row.allDummies with
    | true =>
      rw [hall, if_pos rfl] at h
      rw [if_pos rfl]
      cases hzero : nearZero e.row.constant with
      | true =>
        rw [hzero] at h
        obtain ⟨row, hrow, htableau⟩ := solveFor_of_placeBasic h
        change e.Placed (e.placeBasic e.tag.marker).solver.tableau
        rw [htableau]
        exact .redundant hx hall hzero hrow
      | false =>
        rw [hzero] at h
        cases h
    | false =>
      rw [hall] at h
      have hplaced : (e.placeArtificial id).outcome = .ok () := h
      obtain ⟨hok, htableau⟩ := retire_of_placeArtificial hplaced
      change e.Placed (e.placeArtificial id).solver.tableau
      rw [htableau]
      exact .driven hx hall hok

namespace Placed

variable {e : Encoding α} {t : Tableau α}

/-- **Placing a row keeps symbols of variables in rows of variables.** -/
theorem externalFree (h : e.Placed t) (hext : e.solver.tableau.ExternalFree) : t.ExternalFree := by
  have hsolved : ∀ {x : Symbol} {row : Row α}, e.row.ExternalFree →
      e.row.solveFor? x = some row → row.ExternalFree := fun hfree hrow y hy =>
    hfree y ((Row.mentions_solveFor? hrow).mp hy).2
  cases h with
  | subject hx hrow =>
    rcases Solver.of_subject? hx with hsymbol | ⟨hfree, -⟩
    · exact hext.enter_external hsymbol
    · exact hext.enter (fun _ => hsolved hfree hrow) (.inl (hsolved hfree hrow))
  | redundant hnone _ _ hrow =>
    have hfree := hsolved (Solver.externalFree_of_subject?_eq_none hnone) hrow
    exact hext.enter (fun _ => hfree) (.inl hfree)
  | driven hnone _ _ =>
    have harmed := hext.arm ⟨e.solver.counter + 1, .slack⟩
      (Solver.externalFree_of_subject?_eq_none hnone)
    exact (harmed.minimize _ _).disarm.retire rfl _

end Placed

namespace Placed

variable {e : Encoding Tolerant} {t : Tableau Tolerant}

/-- **A row is placed only if its remainder lies within the tolerance.** -/
theorem withinTolerance_remainder (h : e.Placed t)
    (harm : (e.solver.tableau.arm ⟨e.solver.counter + 1, .slack⟩ e.row).Canonical) :
    withinTolerance e.remainder = true := by
  have hzero : withinTolerance (0 : ℚ) = true := by decide +kernel
  unfold remainder
  cases h with
  | subject hx _ =>
    rw [hx]
    exact hzero
  | redundant hnone hall hnear _ =>
    rw [hnone, hall]
    exact hnear
  | driven hnone hall hok =>
    rw [hnone, hall]
    dsimp only
    rw [if_neg Bool.false_ne_true]
    split
    · rename_i left hleft
      exact Tableau.nearZero_of_driven harm (Tableau.driven_of_retire hok) hleft
    · exact hzero

/-- **Without a remainder placing a row keeps all restricted rows feasible.** -/
theorem feasible (h : e.Placed t)
    (harm : (e.solver.tableau.arm ⟨e.solver.counter + 1, .slack⟩ e.row).Canonical)
    (hext : e.solver.tableau.ExternalFree) (hmarker : e.tag.Has e.tag.marker)
    (hfresh : ∀ x, e.tag.Has x → ∀ b old, e.solver.tableau.rows.get? b = some old →
      ¬ old.Mentions x)
    (hconst : 0 ≤ Row.constant (α := ℚ) e.row) (hfeas : e.solver.tableau.exact.Feasible)
    (hzero : e.remainder = 0) : t.exact.Feasible := by
  unfold remainder at hzero
  cases h with
  | subject hx hrow =>
    rename_i x row
    refine hfeas.of_moved_absent (e.solver.tableau.moved_enter x) (fun hres => ?_)
      fun b old hb hbres hmen => ?_
    · rcases Solver.of_subject? hx with hsymbol | ⟨-, -, -, hneg⟩
      · exact absurd hres (Symbol.not_isRestricted_of_isExternal hsymbol)
      · -- the side that the row is read from makes this constant nonnegative
        have hstep : ∀ a b : ℚ, 0 ≤ a → b < 0 → 0 ≤ a * (-1 / b) := fun a b ha hb =>
          mul_nonneg ha (div_nonneg_of_nonpos (by norm_num) hb.le)
        obtain ⟨q, hq, hsolved⟩ := Row.constant_solveFor_of_some hrow
        rw [Row.coefficient, hq] at hneg
        rw [hsolved]
        exact hstep _ q hconst hneg
    · rcases Solver.of_subject? hx with hsymbol | ⟨-, hhas, -, -⟩
      · exact (hext.rows hb hbres).not_mentions hsymbol hmen
      · exact hfresh x hhas b old hb hmen
  | redundant hnone hall _ hrow =>
    rw [hnone, hall] at hzero
    have hnothing : e.row.constant = 0 := hzero
    refine hfeas.of_moved_absent (e.solver.tableau.moved_enter e.tag.marker) (fun _ => ?_)
      fun b old hb _ => hfresh _ hmarker b old hb
    obtain ⟨q, -, hsolved⟩ := Row.constant_solveFor_of_some hrow
    rw [hsolved, hnothing]
    have hstays : ∀ b : ℚ, 0 ≤ 0 * (-1 / b) := fun b => (zero_mul _).ge
    exact hstays q
  | driven hnone hall hok =>
    rw [hnone, hall] at hzero
    dsimp only at hzero
    rw [if_neg Bool.false_ne_true] at hzero
    have hpass : e.minimized.exact.Feasible := harm.feasible_minimize
      (Tableau.Feasible.arm (t := e.solver.tableau.exact) hfeas hconst) _ _
    refine (harm.minimize _ _).disarm.feasible_retire hpass (fun left hleft => ?_) hok
    have hrow : e.minimized.rows.get? ⟨e.solver.counter + 1, .slack⟩ = some left := hleft
    rw [hrow] at hzero
    exact hzero

end Placed

end Encoding

/-! ## 6. Additions -/

namespace Solver

/-- Encoding charges restricted symbols only. -/
theorem Encoded.externalFree {α : Type} {s : Solver α} {c : Constraint α} {e : Encoding α}
    (h : s.Encoded c e) (hext : s.tableau.ExternalFree) (hart : s.tableau.artificial = none) :
    e.solver.tableau.ExternalFree := by
  refine ⟨fun {b row} hb hres => ?_, fun x hx => ?_, fun {row} ha => ?_⟩
  · rw [h.rows] at hb
    exact hext.rows hb hres
  · rcases h.objective x hx with hx | hx
    · exact hext.objective x hx
    · exact h.fits.restricted hx
  · rw [h.artificial, hart] at ha
    cases ha

/-- **What an addition leaves of its row.** -/
def remainder {α : Type} [Scalar α] (s : Solver α) (c : Constraint α) : α := (s.encode c).remainder

variable {P : Symbol → Prop} {s : Solver Tolerant} {c : Constraint Tolerant}

/-- A row is read from the side where its constant is not negative. -/
theorem nonneg_constant_encode (s : Solver Tolerant) (c : Constraint Tolerant) :
    0 ≤ Row.constant (α := ℚ) (s.encode c).row := by
  unfold encode
  dsimp only
  split
  · rename_i hneg
    have hflip : ∀ a : ℚ, a < 0 → 0 ≤ -a := fun a ha => neg_nonneg.mpr ha.le
    exact hflip _ hneg
  · rename_i hnonneg
    exact le_of_not_gt (α := ℚ) hnonneg

/-- **What a successful addition keeps.**  Its remainder lies within the tolerance, and if there is
none the restricted rows stay feasible. -/
theorem Ledger.feasible_add (h : s.Ledger P) (hext : s.tableau.ExternalFree)
    (hok : (s.add c).outcome = .ok ()) :
    (s.add c).solver.tableau.ExternalFree ∧ withinTolerance (s.remainder c) = true ∧
      (s.tableau.exact.Feasible → s.remainder c = 0 →
        (s.add c).solver.tableau.exact.Feasible) := by
  have henc := encoded_encode h.names h.tableau.canonical h.over_knows c
  have hentered := h.encode c
  have hext' := henc.externalFree hext h.tableau.noArtificial
  obtain ⟨hplaced, hsolver, -⟩ := add_of_ok hok
  have hseat := Encoding.placed_of_ok hplaced
  obtain ⟨Q, hledger, -⟩ := hentered.place c.id
  rw [hsolver]
  refine ⟨(hseat.externalFree hext').minimize _ _,
    hseat.withinTolerance_remainder hentered.canonical_arm, fun hfeas hzero => ?_⟩
  have hrows : (s.encode c).solver.tableau.exact.Feasible :=
    hfeas.of_rows (t := s.tableau.exact) henc.rows
  refine hledger.tableau.canonical.feasible_minimize (hseat.feasible hentered.canonical_arm hext'
    henc.fits.has_marker (fun x hx b old hb hmen => ?_) (nonneg_constant_encode s c) hrows
    hzero) _ _
  rw [henc.rows] at hb
  exact (h.over_knows.rows hb hmen).ne_of_lt (henc.fresh x hx).1 rfl

end Solver

/-! ## 7. Courses of additions -/

/-- **The states that successful additions lead to**, with what each addition left of its row, the
latest first. -/
inductive Accumulated : Solver Tolerant → List Tolerant → Prop
  | new (config : SolverConfig) : Accumulated (.new config) []
  | add {s : Solver Tolerant} {remainders : List Tolerant} (c : Constraint Tolerant)
      (h : Accumulated s remainders) (hok : (s.add c).outcome = .ok ()) :
      Accumulated (s.add c).solver (s.remainder c :: remainders)

namespace Accumulated

variable {s : Solver Tolerant} {remainders : List Tolerant}

theorem attained (h : Accumulated s remainders) : Attained s := by
  induction h with
  | new config => exact .new config
  | add c _ _ ih => exact ih.call (.add c)

theorem externalFree_new (config : SolverConfig) :
    (Solver.new config : Solver Tolerant).tableau.ExternalFree := by
  refine ⟨fun {b row} hb => ?_, fun x hx => ?_, fun {row} ha => ?_⟩
  · cases hb
  · exact absurd hx (Row.not_mentions_ofConstant _ x)
  · cases ha

/-- What one addition keeps, a course keeps. -/
theorem keeps (h : Accumulated s remainders) :
    s.tableau.ExternalFree ∧ (∀ r ∈ remainders, withinTolerance r = true) ∧
      ((∀ r ∈ remainders, r = 0) → s.tableau.exact.Feasible) := by
  induction h with
  | new config => exact ⟨externalFree_new config, nofun, fun _ b row hb => by cases hb⟩
  | add c hs hok ih =>
    obtain ⟨hext, hwithin, hfeas⟩ := ih
    obtain ⟨P, hP⟩ := hs.attained.exists_ledger
    obtain ⟨hext', hone, hkeep⟩ := hP.feasible_add hext hok
    refine ⟨hext', fun r hr => ?_, fun hzero => ?_⟩
    · rcases List.mem_cons.mp hr with rfl | hr
      · exact hone
      · exact hwithin r hr
    · exact hkeep (hfeas fun r hr => hzero r (List.mem_cons_of_mem _ hr))
        (hzero _ List.mem_cons_self)

/-- **The state after a course of additions that succeed.**  The queue is empty and there is no
artificial objective.  Each addition left no more than the tolerance lets pass, and as long as none
left anything no restricted row is negative. -/
theorem at_rest (h : Accumulated s remainders) :
    s.tableau.infeasible = [] ∧ s.tableau.artificial = none ∧
      (∀ r ∈ remainders, withinTolerance r = true) ∧
      ((∀ r ∈ remainders, r = 0) → s.tableau.exact.Feasible) := by
  obtain ⟨-, hwithin, hfeas⟩ := h.keeps
  obtain ⟨P, hP⟩ := h.attained.exists_ledger
  refine ⟨?_, hP.tableau.noArtificial, hwithin, hfeas⟩
  cases h with
  | new config => rfl
  | add c _ hok => exact Solver.infeasible_add hok

end Accumulated

/-! ## 8. A remainder that shows -/

instance : DecidableEq Tolerant := inferInstanceAs (DecidableEq ℚ)

/-- The bounds `1048576 * v <= 5242880`, which is `v <= 5` ... -/
def steepFive : Constraint Tolerant :=
  ⟨⟨0⟩, ⟨[⟨⟨0⟩, Scalar.ofInt 1048576⟩], Scalar.ofInt (-5242880)⟩, .atMost, .required⟩

/-- ... and `v >= 5 + 2⁻²⁸`. -/
def justAboveFive : Constraint Tolerant :=
  ⟨⟨1⟩, ⟨[.ofVariable ⟨0⟩], (mkRat (-1342177281) 268435456 : ℚ)⟩, .atLeast, .required⟩

/-- The first bound is there ... -/
def steep : Solver Tolerant := ((Solver.new : Solver Tolerant).add steepFive).solver

/-- ... and the second, which contradicts it by less than the tolerance. -/
def amplified : Solver Tolerant := (steep.add justAboveFive).solver

theorem accumulated_steep : Accumulated steep [Solver.remainder .new steepFive] :=
  .add steepFive (.new {}) (by decide +kernel)

theorem accumulated_amplified : Accumulated amplified
    [steep.remainder justAboveFive, Solver.remainder .new steepFive] :=
  accumulated_steep.add justAboveFive (by decide +kernel)

/-- **A remainder of `2⁻²⁸`, amplified.**  Both additions succeed.  The first slack has the
coefficient `2⁻²⁰` in the row of the artificial symbol, so it is left at `-2⁻⁸`, far below the
tolerance. -/
theorem accepted_remainder_amplified :
    Accumulated amplified [steep.remainder justAboveFive, Solver.remainder .new steepFive] ∧
      steep.remainder justAboveFive = Scalar.ofInt 1 / Scalar.ofInt 268435456 ∧
      (amplified.tableau.exact.rows.get? ⟨2, .slack⟩).map (·.constant) = some (-1 / 256) ∧
      (-1 / 256 : ℚ) < -tolerance :=
  ⟨accumulated_amplified, by decide +kernel, by decide +kernel, by decide +kernel⟩

/-- The first bound alone leaves nothing; the second leaves a remainder within the tolerance. -/
theorem steep_at_rest :
    Accumulated steep [Solver.remainder .new steepFive] ∧
      steep.tableau.infeasible = [] ∧ steep.tableau.artificial = none ∧
      steep.tableau.exact.Feasible ∧
      amplified.tableau.infeasible = [] ∧ amplified.tableau.artificial = none ∧
      withinTolerance (steep.remainder justAboveFive) = true := by
  have hnothing : Solver.remainder (.new : Solver Tolerant) steepFive = 0 := by decide +kernel
  obtain ⟨hqueue, hart, -, hfeas⟩ := accumulated_steep.at_rest
  obtain ⟨hqueue', hart', hwithin, -⟩ := accumulated_amplified.at_rest
  exact ⟨accumulated_steep, hqueue, hart,
    hfeas fun r hr => (List.mem_singleton.mp hr).trans hnothing, hqueue', hart',
    hwithin _ List.mem_cons_self⟩

end IncrementalSimplex
