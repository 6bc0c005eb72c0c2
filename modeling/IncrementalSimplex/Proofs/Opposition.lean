/-
# Two symbols with opposite cells

A soft constraint brings two symbols in, and they stand in its equation with opposite units.  What
happens to that equation afterwards happens to both: it is scaled, it is added to other rows, and
what counts as zero on one side counts as zero on the other.  So the pair stays recognizable:

* while both are free, every row has opposite cells for them, or neither cell (`Row.Opposed`);
* when one of them becomes basic its row is solved for it, and the other one comes out with
  coefficient one.  Put in place of the first it cancels the cells of the second, and from then on
  the second stands in this row only (`Tableau.Carries`);
* when the basic one leaves, its row has `-1` for it and `1` for the other, and they are opposed
  again.

**A pivot is two halves.**  A row is taken out of the tableau, and a row is solved and entered.  In
between it is PENDING, and the question is what a pending row must be like to be entered later
(`Tableau.Suits`).  Taking out gives such a row (`Tableau.Paired.dropRow_suits`), and entering it
keeps the pair, whichever symbol it is solved for (`Tableau.Paired.enter`).  A new constraint needs
the second half only, and a removal drops the row that was entered.

Of the arithmetic this takes exact opposites and nothing about what is near zero except that it does
not depend on the sign (`Scalar.LawfulOpposites`).
-/
import IncrementalSimplex.Proofs.Cleanup

namespace IncrementalSimplex

/-- **Opposites behave**: they pass through sums and products, a number and its opposite are near
zero together, and a number that is not zero cancels with its opposite, in a quotient and in a
sum. -/
class Scalar.LawfulOpposites (α : Type) [Scalar α] : Prop extends Scalar.StoredUnits α where
  neg_neg : ∀ a : α, - -a = a
  neg_zero : -(0 : α) = 0
  zero_add : ∀ a : α, 0 + a = a
  neg_add : ∀ a b : α, -a + -b = -(a + b)
  neg_mul : ∀ a b : α, -a * b = -(a * b)
  nearZero_neg : ∀ a : α, nearZero (-a) = nearZero a
  cancelled : ∀ a : α, nearZero (-a + 1 * a) = true
  solved : ∀ a : α, a ≠ 0 → -a * (-1 / a) = 1
  kept : KeptInCells fun a : α => a ≠ 0

instance : Scalar.LawfulOpposites ℚ where
  neg_neg := neg_neg
  neg_zero := neg_zero
  zero_add := zero_add
  neg_add q r := (neg_add q r).symm
  neg_mul := neg_mul
  nearZero_neg q := decide_eq_decide.mpr neg_eq_zero
  cancelled q := decide_eq_true (by ring)
  solved q hq := by field_simp
  kept :=
    { stored := of_decide_eq_false
      negated := neg_ne_zero.mpr
      solved := fun hq hr => mul_ne_zero hq (div_ne_zero (neg_ne_zero.mpr one_ne_zero) hr) }

instance : Scalar.LawfulOpposites Tolerant where
  neg_neg := fun q : ℚ => neg_neg q
  neg_zero := neg_zero (G := ℚ)
  zero_add := fun q : ℚ => zero_add q
  neg_add := fun q r : ℚ => (neg_add q r).symm
  neg_mul := fun q r : ℚ => neg_mul q r
  nearZero_neg q := by
    have hneg : ∀ q : ℚ, withinTolerance (-q) = withinTolerance q := fun q => by
      simp only [withinTolerance, neg_lt_neg_iff, neg_lt, Bool.and_comm]
    exact hneg q
  cancelled q := by
    have hzero : ∀ q : ℚ, withinTolerance (-q + 1 * q) = true := fun q => by
      rw [one_mul, neg_add_cancel]
      decide +kernel
    exact hzero q
  solved q hq := by
    have hone : ∀ q : ℚ, q ≠ 0 → -q * (-1 / q) = 1 := fun q hq => by field_simp
    exact hone q hq
  kept := keptInCells_ne_zero

variable {α : Type} [Scalar α]

/-! ## 1. Rows -/

namespace Row

/-- **The cells of the two symbols are opposite**, or the row has neither. -/
def Opposed (r : Row α) (m o : Symbol) : Prop :=
  r.cells.get? o = (r.cells.get? m).map fun c => -c

theorem opposed_of_absent {r : Row α} {m o : Symbol} (hm : ¬ r.Mentions m)
    (ho : ¬ r.Mentions o) : r.Opposed m o := by
  rw [Opposed, not_mentions_iff.mp hm, not_mentions_iff.mp ho]
  rfl

namespace Opposed

variable {r t : Row α} {m o x : Symbol}

theorem of_cells (h : r.Opposed m o) (hcells : t.cells = r.cells) : t.Opposed m o := by
  rw [Opposed, hcells]
  exact h

/-- Dropping another cell. -/
theorem dropCell (h : r.Opposed m o) (hm : m ≠ x) (ho : o ≠ x) : (r.dropCell x).Opposed m o := by
  rw [Opposed, get?_dropCell, get?_dropCell, if_neg hm, if_neg ho]
  exact h

/-- Adding to another cell. -/
theorem addCell (h : r.Opposed m o) (hm : m ≠ x) (ho : o ≠ x) (c : α) :
    (r.addCell x c).Opposed m o := by
  rw [Opposed, get?_addCell_of_ne _ _ hm, get?_addCell_of_ne _ _ ho]
  exact h

variable [Scalar.LawfulOpposites α]

theorem symm (h : r.Opposed m o) : r.Opposed o m := by
  rw [Opposed, h, Option.map_map]
  cases r.cells.get? m with
  | none => rfl
  | some c => exact congrArg some (Scalar.LawfulOpposites.neg_neg c).symm

theorem coefficient (h : r.Opposed m o) : r.coefficient o = -r.coefficient m := by
  rw [Row.coefficient, h, Row.coefficient]
  cases r.cells.get? m with
  | none => exact Scalar.LawfulOpposites.neg_zero.symm
  | some c => rfl

omit [Scalar.LawfulOpposites α] in
theorem negate (h : r.Opposed m o) : r.negate.Opposed m o := by
  rw [Opposed, get?_negate, get?_negate, h]

theorem scale (h : r.Opposed m o) (c : α) : (r.scale c).Opposed m o := by
  rw [Opposed, get?_scale, get?_scale, h]
  cases r.cells.get? m with
  | none => rfl
  | some d => exact congrArg some (Scalar.LawfulOpposites.neg_mul d c)

/-- **A sum of opposed rows is opposed**: what cancels on one side cancels on the other. -/
theorem addRow (h : r.Opposed m o) (ht : t.Opposed m o) (c : α) : (r.addRow t c).Opposed m o := by
  rw [Opposed, get?_addRow, get?_addRow, ht, h.coefficient]
  cases t.cells.get? m with
  | none => exact h
  | some d =>
    have hsum : -r.coefficient m + -d * c = -(r.coefficient m + d * c) := by
      rw [Scalar.LawfulOpposites.neg_mul, Scalar.LawfulOpposites.neg_add]
    dsimp only [Option.map_some]
    rw [hsum, Scalar.LawfulOpposites.nearZero_neg]
    split <;> rfl

/-- Solving for another symbol. -/
theorem solveFor (h : r.Opposed m o) (hm : m ≠ x) (ho : o ≠ x) (hsolved : r.solveFor? x = some t) :
    t.Opposed m o := by
  obtain ⟨c, -, rfl⟩ := Option.map_eq_some_iff.mp hsolved
  exact (h.dropCell hm ho).scale _

/-- Putting an opposed row in place of another symbol. -/
theorem substitute (h : r.Opposed m o) (ht : t.Opposed m o) (hm : m ≠ x) (ho : o ≠ x) :
    (r.substitute x t).Opposed m o := by
  unfold Row.substitute
  split
  · exact (h.dropCell hm ho).addRow ht _
  · exact h

/-- **Solved for one of the two**, the row has the other with coefficient one ... -/
theorem get?_solveFor (h : r.Opposed m o) (hne : m ≠ o) (hcells : r.Each (· ≠ 0))
    (hsolved : r.solveFor? m = some t) : t.cells.get? o = some 1 := by
  obtain ⟨c, hc, rfl⟩ := Option.map_eq_some_iff.mp hsolved
  rw [get?_scale, get?_dropCell, if_neg hne.symm, h, hc]
  exact congrArg some (Scalar.LawfulOpposites.solved c (hcells m c hc))

/-- ... and in place of the first it cancels the second. -/
theorem not_mentions_substitute (h : r.Opposed m o) (hne : m ≠ o)
    (ht : t.cells.get? o = some 1) : ¬ (r.substitute m t).Mentions o := by
  rw [not_mentions_iff, Row.substitute]
  cases hm : r.cells.get? m with
  | none =>
    rw [h, hm]
    rfl
  | some c =>
    have hcell : (r.dropCell m).coefficient o = -c := by
      rw [Row.coefficient, get?_dropCell, if_neg hne.symm, h, hm]
      rfl
    dsimp only
    rw [get?_addRow, ht, hcell]
    exact if_pos (Scalar.LawfulOpposites.cancelled c)

end Opposed

/-- A substitution leaves the cells alone that are not in the row put in. -/
theorem get?_substitute_of_absent {r t : Row α} {s x : Symbol} (hxs : x ≠ s)
    (ht : ¬ t.Mentions x) : (r.substitute s t).cells.get? x = r.cells.get? x := by
  unfold substitute
  split
  · rw [get?_addRow, not_mentions_iff.mp ht]
    exact (get?_dropCell _ _ _).trans (if_neg hxs)
  · rfl

end Row

/-! ## 2. Pairs -/

namespace Tableau

/-- **A basic symbol carries the other one of its pair**: with coefficient one, and no other row has
it. -/
structure Carries (t : Tableau α) (x y : Symbol) : Prop where
  row : ∃ row, t.rows.get? x = some row ∧ row.cells.get? y = some (1 : α)
  others : ∀ b row, t.rows.get? b = some row → b ≠ x → ¬ row.Mentions y
  free : t.Nonbasic y

/-- **A pair of symbols in a tableau**: opposed while both are free, and else the basic one carries
the other. -/
inductive Paired (t : Tableau α) (m o : Symbol) : Prop
  | free (hm : t.Nonbasic m) (ho : t.Nonbasic o)
      (hrows : ∀ b row, t.rows.get? b = some row → row.Opposed m o)
  | marker (h : t.Carries m o)
  | other (h : t.Carries o m)

/-- **What a pending row must be like to be entered beside a pair**: opposed like the rows, or
without the symbol that is carried. -/
structure Suits (t : Tableau α) (m o : Symbol) (z : Row α) : Prop where
  free : t.Nonbasic m → t.Nonbasic o → z.Opposed m o
  marker : ¬ t.Nonbasic m → ¬ z.Mentions o
  other : ¬ t.Nonbasic o → ¬ z.Mentions m

variable {t u : Tableau α} {m o x y : Symbol} {z row solved : Row α}

theorem Carries.of_cells (h : t.Carries x y)
    (hnew : ∀ b new, u.rows.get? b = some new →
      ∃ old, t.rows.get? b = some old ∧ new.cells = old.cells)
    (hold : ∀ b, u.Nonbasic b → t.Nonbasic b) : u.Carries x y where
  row := by
    obtain ⟨row, hrow, hy⟩ := h.row
    cases hx : u.rows.get? x with
    | none => exact absurd (hold x hx) (not_nonbasic_of_get? hrow)
    | some new =>
      obtain ⟨old, hold, hcells⟩ := hnew x new hx
      rw [hrow] at hold
      cases hold
      exact ⟨new, rfl, hcells ▸ hy⟩
  others b new hb hbx hmen := by
    obtain ⟨old, hold, hcells⟩ := hnew b new hb
    exact h.others b old hold hbx ((Row.mentions_congr hcells).mp hmen)
  free := nonbasic_of_cells hnew h.free

/-- **New constants do not part a pair.** -/
theorem Paired.of_cells (h : t.Paired m o)
    (hnew : ∀ b new, u.rows.get? b = some new →
      ∃ old, t.rows.get? b = some old ∧ new.cells = old.cells)
    (hold : ∀ b, u.Nonbasic b → t.Nonbasic b) : u.Paired m o := by
  cases h with
  | free hm ho hrows =>
    refine .free (nonbasic_of_cells hnew hm) (nonbasic_of_cells hnew ho) fun b new hb => ?_
    obtain ⟨old, hold, hcells⟩ := hnew b new hb
    exact (hrows b old hold).of_cells hcells
  | marker h => exact .marker (h.of_cells hnew hold)
  | other h => exact .other (h.of_cells hnew hold)

/-- Only the rows matter. -/
theorem Paired.of_rows (h : t.Paired m o) (hrows : u.rows = t.rows) : u.Paired m o :=
  h.of_cells (fun b new hb => ⟨new, hrows ▸ hb, rfl⟩) fun b hb => by
    rwa [Nonbasic, ← hrows]

theorem Suits.of_rows (h : t.Suits m o z) (hrows : u.rows = t.rows) : u.Suits m o z := by
  obtain ⟨hfree, hmarker, hother⟩ := h
  refine ⟨?_, ?_, ?_⟩ <;> unfold Nonbasic <;> rw [hrows] <;> assumption

/-! ### What a pair says -/

theorem Carries.not_nonbasic (h : t.Carries x y) : ¬ t.Nonbasic x := by
  obtain ⟨row, hrow, -⟩ := h.row
  exact not_nonbasic_of_get? hrow

theorem Carries.get? (h : t.Carries x y) (hx : t.rows.get? x = some row) :
    row.cells.get? y = some 1 := by
  obtain ⟨row', hrow, hcell⟩ := h.row
  rw [hx] at hrow
  cases hrow
  exact hcell

/-- **Never are both basic.** -/
theorem Paired.nonbasic_or (h : t.Paired m o) : t.Nonbasic m ∨ t.Nonbasic o := by
  cases h with
  | free hm => exact .inl hm
  | marker h => exact .inr h.free
  | other h => exact .inl h.free

theorem Paired.opposed (h : t.Paired m o) (hm : t.Nonbasic m) (ho : t.Nonbasic o) {b : Symbol}
    (hb : t.rows.get? b = some row) : row.Opposed m o := by
  cases h with
  | free _ _ hrows => exact hrows b row hb
  | marker h => exact absurd hm h.not_nonbasic
  | other h => exact absurd ho h.not_nonbasic

/-- **The one that is basic carries the other.** -/
theorem Paired.carries_other (h : t.Paired m o) (hm : ¬ t.Nonbasic m) : t.Carries m o := by
  cases h with
  | free hmfree => exact absurd hmfree hm
  | marker h => exact h
  | other h => exact absurd h.free hm

theorem Paired.carries_marker (h : t.Paired m o) (ho : ¬ t.Nonbasic o) : t.Carries o m := by
  cases h with
  | free _ hofree => exact absurd hofree ho
  | marker h => exact absurd h.free ho
  | other h => exact h

/-! ### Both sides of a pair -/

theorem Suits.symm [Scalar.LawfulOpposites α] (h : t.Suits m o z) : t.Suits o m z :=
  ⟨fun ho hm => (h.free hm ho).symm, h.other, h.marker⟩

theorem Paired.symm [Scalar.LawfulOpposites α] (h : t.Paired m o) : t.Paired o m := by
  cases h with
  | free hm ho hrows => exact .free ho hm fun b row hb => (hrows b row hb).symm
  | marker h => exact .other h
  | other h => exact .marker h

/-! ## 3. Pending rows -/

theorem suits_of_absent (hm : ¬ z.Mentions m) (ho : ¬ z.Mentions o) : t.Suits m o z :=
  ⟨fun _ _ => Row.opposed_of_absent hm ho, fun _ => ho, fun _ => hm⟩

/-- The rows of other symbols have neither of the two. -/
theorem Carries.not_mentions (h : t.Carries x y) (hcan : t.Canonical) {b : Symbol}
    (hb : t.rows.get? b = some row) (hbx : b ≠ x) : ¬ row.Mentions x ∧ ¬ row.Mentions y :=
  ⟨fun hx => h.not_nonbasic (hcan.rows hb hx), h.others b row hb hbx⟩

/-- The row of another symbol could be entered once more. -/
theorem Paired.suits (h : t.Paired m o) (hcan : t.Canonical) {b : Symbol}
    (hb : t.rows.get? b = some row) (hm : b ≠ m) (ho : b ≠ o) : t.Suits m o row := by
  cases h with
  | free hmfree hofree hrows =>
    exact ⟨fun _ _ => hrows b row hb, fun hn => absurd hmfree hn, fun hn => absurd hofree hn⟩
  | marker h =>
    obtain ⟨habs, habs'⟩ := h.not_mentions hcan hb hm
    exact suits_of_absent habs habs'
  | other h =>
    obtain ⟨habs, habs'⟩ := h.not_mentions hcan hb ho
    exact suits_of_absent habs' habs

namespace Suits

theorem addCell (h : t.Suits m o z) (hm : m ≠ x) (ho : o ≠ x) (c : α) :
    t.Suits m o (z.addCell x c) :=
  ⟨fun hmfree hofree => (h.free hmfree hofree).addCell hm ho c,
    fun hn => mt (Row.mentions_addCell_of_ne ho).mp (h.marker hn),
    fun hn => mt (Row.mentions_addCell_of_ne hm).mp (h.other hn)⟩

variable [Scalar.LawfulOpposites α]

theorem addRow (h : t.Suits m o z) (hrow : t.Suits m o row) (c : α) :
    t.Suits m o (z.addRow row c) :=
  ⟨fun hm ho => (h.free hm ho).addRow (hrow.free hm ho) c,
    fun hn hx => (Row.mentions_addRow hx).elim (h.marker hn) (hrow.marker hn),
    fun hn hx => (Row.mentions_addRow hx).elim (h.other hn) (hrow.other hn)⟩

omit [Scalar.LawfulOpposites α] in
theorem negate (h : t.Suits m o z) : t.Suits m o z.negate :=
  ⟨fun hm ho => (h.free hm ho).negate, fun hn => mt Row.mentions_negate.mp (h.marker hn),
    fun hn => mt Row.mentions_negate.mp (h.other hn)⟩

end Suits

/-! ## 4. Taking a row out -/

section Open

variable [Scalar.LawfulOpposites α]

omit [Scalar.LawfulOpposites α] in
/-- A carrying symbol whose row stays keeps carrying. -/
theorem Carries.dropRow (h : t.Carries x y) {l : Symbol} (hl : x ≠ l) :
    (t.dropRow l).Carries x y where
  row := by
    obtain ⟨row, hrow, hy⟩ := h.row
    exact ⟨row, by rw [get?_dropRow, if_neg hl, hrow], hy⟩
  others b row hb := h.others b row (get?_of_dropRow hb).2
  free := nonbasic_dropRow h.free

/-- **The carrying symbol leaves**: then both are free, and opposed in its row. -/
theorem Carries.dropRow_self (h : t.Carries x y) (hcan : t.Canonical) (hne : x ≠ y)
    (hrow : t.rows.get? x = some row) :
    (t.dropRow x).Paired x y ∧ (t.dropRow x).Suits x y (row.addCell x (-1)) := by
  have hy := h.get? hrow
  have hx : ¬ row.Mentions x := fun hx => h.not_nonbasic (hcan.rows hrow hx)
  have hopposed : (row.addCell x (-1)).Opposed x y := by
    have hunit : -(0 + -1 : α) = 1 := by
      rw [Scalar.LawfulOpposites.zero_add, Scalar.LawfulOpposites.neg_neg]
    rw [Row.Opposed, Row.get?_addCell_of_ne _ _ hne.symm, hy,
      Row.get?_addCell_self_of_absent hx Scalar.StoredUnits.nearZero_neg_one, Option.map_some,
      hunit]
  refine ⟨.free (nonbasic_dropRow_self t x) (nonbasic_dropRow h.free) fun b old hb => ?_,
    ⟨fun _ _ => hopposed, fun hn => absurd (nonbasic_dropRow_self t x) hn,
      fun hn => absurd (nonbasic_dropRow h.free) hn⟩⟩
  obtain ⟨hbx, hb⟩ := get?_of_dropRow hb
  exact Row.opposed_of_absent (fun hmen => h.not_nonbasic (hcan.rows hb hmen))
    (h.others b old hb hbx)

/-- Any row may leave beside a carrying symbol. -/
theorem Carries.dropRow_suits (h : t.Carries x y) (hcan : t.Canonical) (hne : x ≠ y) {l : Symbol}
    (hrow : t.rows.get? l = some row) :
    (t.dropRow l).Paired x y ∧ (t.dropRow l).Suits x y (row.addCell l (-1)) := by
  by_cases hl : l = x
  · subst hl
    exact h.dropRow_self hcan hne hrow
  · obtain ⟨hx, hy⟩ := h.not_mentions hcan hrow hl
    have hly : y ≠ l := h.free.ne hrow
    exact ⟨.marker (h.dropRow (Ne.symm hl)),
      suits_of_absent (mt (Row.mentions_addCell_of_ne (Ne.symm hl)).mp hx)
        (mt (Row.mentions_addCell_of_ne hly).mp hy)⟩

/-- **A row taken out may be entered again**, solved for any of its symbols. -/
theorem Paired.dropRow_suits (h : t.Paired m o) (hcan : t.Canonical) (hne : m ≠ o) {l : Symbol}
    (hrow : t.rows.get? l = some row) :
    (t.dropRow l).Paired m o ∧ (t.dropRow l).Suits m o (row.addCell l (-1)) := by
  cases h with
  | free hm ho hrows =>
    have hopposed : (row.addCell l (-1)).Opposed m o :=
      (hrows l row hrow).addCell (hm.ne hrow) (ho.ne hrow) _
    exact ⟨.free (nonbasic_dropRow hm) (nonbasic_dropRow ho) fun b old hb =>
        hrows b old (get?_of_dropRow hb).2,
      ⟨fun _ _ => hopposed, fun hn => absurd (nonbasic_dropRow hm) hn,
        fun hn => absurd (nonbasic_dropRow ho) hn⟩⟩
  | marker h => exact h.dropRow_suits hcan hne hrow
  | other h =>
    obtain ⟨hpair, hsuits⟩ := h.dropRow_suits hcan hne.symm hrow
    exact ⟨hpair.symm, hsuits.symm⟩

omit [Scalar.LawfulOpposites α] in
/-- The row of another symbol may go for good. -/
theorem Paired.dropRow (h : t.Paired m o) {l : Symbol} (hm : m ≠ l) (ho : o ≠ l) :
    (t.dropRow l).Paired m o := by
  cases h with
  | free hmfree hofree hrows =>
    exact .free (nonbasic_dropRow hmfree) (nonbasic_dropRow hofree) fun b old hb =>
      hrows b old (get?_of_dropRow hb).2
  | marker h => exact .marker (h.dropRow hm)
  | other h => exact .other (h.dropRow ho)

end Open

/-! ## 5. Entering a row -/

section Close

variable [Scalar.LawfulOpposites α] {e : Symbol}

omit [Scalar.LawfulOpposites α] in
/-- **Beside a carrying symbol** a row without the two changes nothing for them. -/
theorem Carries.enter (h : t.Carries x y) (hfree : t.Free z) (hz : ¬ z.Mentions y)
    (hsolved : z.solveFor? e = some solved) : (t.enter e solved).Carries x y := by
  have hmen : ∀ {w}, solved.Mentions w → z.Mentions w := fun hw =>
    ((Row.mentions_solveFor? hsolved).mp hw).2
  have he : z.Mentions e := by
    obtain ⟨c, hc, -⟩ := Option.map_eq_some_iff.mp hsolved
    exact Row.mentions_iff.mpr ⟨c, hc⟩
  have hex : x ≠ e := by
    rintro rfl
    exact h.not_nonbasic (hfree x he)
  have hey : y ≠ e := by
    rintro rfl
    exact hz he
  refine ⟨?_, fun b new hb hbx hy => ?_, nonbasic_enter.mpr ⟨hey, h.free⟩⟩
  · obtain ⟨row, hrow, hy⟩ := h.row
    refine ⟨row.substitute e solved, ?_, ?_⟩
    · rw [get?_enter, if_neg hex, hrow]
      rfl
    · rw [Row.get?_substitute_of_absent hey fun hw => hz (hmen hw), hy]
  · rcases get?_of_enter hb with ⟨-, rfl⟩ | ⟨-, old, hold, rfl⟩
    · exact hz (hmen hy)
    · rcases Row.mentions_substitute hy with ⟨-, hy⟩ | ⟨-, hy⟩
      · exact h.others b old hold hbx hy
      · exact hz (hmen hy)

/-- **One of two opposed symbols enters**, and carries the other. -/
theorem carries_enter (hy : t.Nonbasic y) (hrows : ∀ b row, t.rows.get? b = some row →
    row.Opposed x y) (hne : x ≠ y) (hz : z.Opposed x y) (hcells : z.Each (· ≠ 0))
    (hsolved : z.solveFor? x = some solved) : (t.enter x solved).Carries x y := by
  have hone := hz.get?_solveFor hne hcells hsolved
  refine ⟨⟨solved, by rw [get?_enter, if_pos rfl], hone⟩, fun b new hb hbx hmen => ?_,
    nonbasic_enter.mpr ⟨hne.symm, hy⟩⟩
  rcases get?_of_enter hb with ⟨rfl, -⟩ | ⟨-, old, hold, rfl⟩
  · exact hbx rfl
  · exact (hrows b old hold).not_mentions_substitute hne hone hmen

/-- **Entering a pending row keeps the pair**, whichever symbol it is solved for. -/
theorem Paired.enter (h : t.Paired m o) (hne : m ≠ o) (hz : t.Suits m o z) (hfree : t.Free z)
    (hcells : z.Each (· ≠ 0)) (hsolved : z.solveFor? e = some solved) :
    (t.enter e solved).Paired m o := by
  cases h with
  | free hm ho hrows =>
    have hopposed := hz.free hm ho
    by_cases hem : e = m
    · subst hem
      exact .marker (carries_enter ho hrows hne hopposed hcells hsolved)
    by_cases heo : e = o
    · subst heo
      exact .other (carries_enter hm (fun b row hb => (hrows b row hb).symm) hne.symm
        hopposed.symm hcells hsolved)
    have hnew := hopposed.solveFor (Ne.symm hem) (Ne.symm heo) hsolved
    refine .free (nonbasic_enter.mpr ⟨Ne.symm hem, hm⟩) (nonbasic_enter.mpr ⟨Ne.symm heo, ho⟩)
      fun b new hb => ?_
    rcases get?_of_enter hb with ⟨-, rfl⟩ | ⟨-, old, hold, rfl⟩
    · exact hnew
    · exact (hrows b old hold).substitute hnew (Ne.symm hem) (Ne.symm heo)
  | marker h => exact .marker (h.enter hfree (hz.marker h.not_nonbasic) hsolved)
  | other h => exact .other (h.enter hfree (hz.other h.not_nonbasic) hsolved)

end Close

/-! ## 6. Passes -/

section Passes

variable [Scalar.LawfulOpposites α]

/-- **A pivot** takes a row out and enters it again. -/
theorem Paired.pivot (h : t.Paired m o) (hcan : t.Canonical) (hcells : t.Cells (· ≠ 0))
    (hne : m ≠ o) {e l : Symbol} (hu : t.pivot ⟨e, l⟩ = .ok u) : u.Paired m o := by
  obtain ⟨row, solved, hrow, hsolved, rfl⟩ := pivot_cases hu
  obtain ⟨hpair, hsuits⟩ := h.dropRow_suits hcan hne hrow
  refine hpair.enter hne hsuits (fun x hx => ?_)
    ((hcells.rows l row hrow).addCell Scalar.LawfulOpposites.kept.stored l _) hsolved
  rcases Row.mentions_addCell hx with rfl | hx
  · exact nonbasic_dropRow_self t x
  · exact nonbasic_dropRow (hcan.rows hrow hx)

/-- **A pair in a neat tableau**: canonical, and without a cell that is zero. -/
structure Neat (t : Tableau α) (m o : Symbol) : Prop where
  canonical : t.Canonical
  cells : t.Cells (· ≠ 0)
  paired : t.Paired m o

theorem Neat.pivot (h : t.Neat m o) (hne : m ≠ o) {e l : Symbol}
    (hu : t.pivot ⟨e, l⟩ = .ok u) : u.Neat m o :=
  ⟨h.canonical.pivot hu, h.cells.pivot Scalar.LawfulOpposites.kept hu,
    h.paired.pivot h.canonical h.cells hne hu⟩

/-- **The primal pass keeps a pair.** -/
theorem Neat.minimize (h : t.Neat m o) (hne : m ≠ o) (limit : Nat) (goal : Goal) :
    (t.minimize limit goal).tableau.Neat m o := by
  have hstep : ∀ t u : Tableau α, t.Neat m o → PrimalStep goal t u → u.Neat m o := by
    rintro t u ht ⟨-, -, -, hu⟩
    exact ht.pivot hne hu
  obtain ⟨last, hlast, hend⟩ := minimize_ends hstep h limit
  exact ⟨h.canonical.minimize limit goal, h.cells.minimize Scalar.LawfulOpposites.kept limit goal,
    hlast.paired.of_rows hend.rows_eq⟩

/-- **The dual pass keeps a pair.** -/
theorem Neat.repair (h : t.Neat m o) (hne : m ≠ o) (limit : Nat) :
    (t.repair limit).tableau.Neat m o := by
  have hstep : ∀ t u : Tableau α, t.Neat m o → DualStep t u → u.Neat m o := by
    intro t u ht hs
    obtain ⟨e, l, row, rest, -, -, hu⟩ := hs.parts
    have hqueue : ({ t with infeasible := rest } : Tableau α).Neat m o :=
      ⟨ht.canonical.withQueue rest, ht.cells.congr rfl rfl, ht.paired.of_rows rfl⟩
    exact hqueue.pivot hne hu
  obtain ⟨last, hlast, hend⟩ := repair_ends hstep h limit
  obtain ⟨queue, -, heq⟩ := hend.tableau_eq
  refine ⟨h.canonical.repair limit, h.cells.repair Scalar.LawfulOpposites.kept limit, ?_⟩
  rw [heq]
  exact hlast.paired.of_rows rfl

/-! ### Phase one -/

omit [Scalar.LawfulOpposites α] in
/-- Dropping the column of another symbol. -/
theorem Paired.dropColumn (h : t.Paired m o) {s : Symbol} (hm : m ≠ s) (ho : o ≠ s) :
    (t.dropColumn s).Paired m o := by
  have hcarries : ∀ {x y}, t.Carries x y → y ≠ s → (t.dropColumn s).Carries x y := by
    intro x y h hy
    refine ⟨?_, fun b new hb hbx hmen => ?_, nonbasic_dropColumn h.free⟩
    · obtain ⟨row, hrow, hcell⟩ := h.row
      refine ⟨row.dropCell s, ?_, ?_⟩
      · rw [Tableau.dropColumn, SymbolMap.get?_map, hrow, Option.map_some]
      · rw [Row.get?_dropCell, if_neg hy, hcell]
    · obtain ⟨old, hold, rfl⟩ := get?_of_dropColumn hb
      exact h.others b old hold hbx (Row.mentions_dropCell.mp hmen).2
  cases h with
  | free hmfree hofree hrows =>
    refine .free (nonbasic_dropColumn hmfree) (nonbasic_dropColumn hofree) fun b new hb => ?_
    obtain ⟨old, hold, rfl⟩ := get?_of_dropColumn hb
    exact (hrows b old hold).dropCell hm ho
  | marker h => exact .marker (hcarries h ho)
  | other h => exact .other (hcarries h hm)

omit [Scalar.LawfulOpposites α] in
/-- A pending row may be made basic under a new symbol. -/
theorem Paired.arm (h : t.Paired m o) (hz : t.Suits m o z) {art : Symbol}
    (hart : t.Nonbasic art) (hm : m ≠ art) (ho : o ≠ art) : (t.arm art z).Paired m o := by
  have hcarries : ∀ {x y}, t.Carries x y → ¬ z.Mentions y → y ≠ art →
      (t.arm art z).Carries x y := by
    intro x y h habs hy
    refine ⟨?_, fun b new hb hbx hmen => ?_, nonbasic_arm h.free hy⟩
    · obtain ⟨row, hrow, hcell⟩ := h.row
      have hxart : x ≠ art := by
        rintro rfl
        exact h.not_nonbasic hart
      exact ⟨row, by rw [get?_arm, if_neg hxart, hrow], hcell⟩
    · rcases get?_of_arm hb with ⟨-, rfl⟩ | hb
      · exact habs hmen
      · exact h.others b new hb hbx hmen
  cases h with
  | free hmfree hofree hrows =>
    refine .free (nonbasic_arm hmfree hm) (nonbasic_arm hofree ho) fun b new hb => ?_
    rcases get?_of_arm hb with ⟨-, rfl⟩ | hb
    · exact hz.free hmfree hofree
    · exact hrows b new hb
  | marker h => exact .marker (hcarries h (hz.marker h.not_nonbasic) ho)
  | other h => exact .other (hcarries h (hz.other h.not_nonbasic) hm)

theorem Neat.retire (h : t.Neat m o) (hne : m ≠ o) {art : Symbol} (hm : m ≠ art)
    (ho : o ≠ art) (driven : Bool) : (t.retire art driven).tableau.Paired m o :=
  retire_keeps (P := fun u => u.Paired m o) (h.paired.dropColumn hm ho) (h.paired.dropRow hm ho)
    (fun _ _ _ _ _ hu => (h.pivot hne hu).paired.dropColumn hm ho) driven

/-- **Phase one keeps a pair**, however it ends. -/
theorem Neat.phaseOne {art : Symbol} (h : t.Neat m o) (hz : t.Suits m o z)
    (hcells : z.Each (· ≠ 0)) (harm : (t.arm art z).Canonical) (hart : t.Nonbasic art)
    (hne : m ≠ o) (hm : m ≠ art) (ho : o ≠ art) (limit : Nat) :
    (t.phaseOne limit art z).tableau.Neat m o := by
  have harmed : (t.arm art z).Neat m o :=
    ⟨harm, (h.cells.setRow art hcells).congr rfl rfl, h.paired.arm hz hart hm ho⟩
  have hpass := harmed.minimize hne limit .artificial
  have hend : ((t.arm art z).minimize limit .artificial).tableau.disarm.Neat m o :=
    ⟨hpass.canonical.disarm, hpass.cells.congr rfl rfl, hpass.paired.of_rows rfl⟩
  exact ⟨(harm.after_phaseOne limit).1,
    h.cells.phaseOne Scalar.LawfulOpposites.kept limit art hcells,
    phaseOne_keeps (P := fun u => u.Paired m o) hend.paired (hend.retire hne hm ho)⟩

/-! ### Removals and suggestions -/

/-- **Expelling another marker keeps a pair.** -/
theorem Neat.expel (h : t.Neat m o) (hne : m ≠ o) (hm : m ≠ x) (ho : o ≠ x)
    (hu : t.expel x = .ok u) : u.Neat m o := by
  refine ⟨h.canonical.expel hu, h.cells.expel Scalar.LawfulOpposites.kept hu, ?_⟩
  rcases expel_cases hu with ⟨-, -, rfl⟩ | ⟨-, -, rfl⟩ |
    ⟨hx, l, row, solved, -, hrow, hsolved, rfl⟩
  · exact h.paired.dropRow hm ho
  · exact h.paired
  · have hpivot : t.pivot ⟨x, l⟩ = .ok ((t.dropRow l).enter x solved) :=
      pivot_eq_ok_iff.mpr ⟨row, solved, hrow, hsolved, rfl⟩
    rw [substitute_eq_dropRow_enter (nonbasic_dropRow (t := t) hx)]
    exact (h.pivot hne hpivot).paired.dropRow hm ho

omit [Scalar.LawfulOpposites α] in
theorem nonbasic_of_shift {tag : Tag} {δ : α} {b : Symbol} (hb : (t.shift tag δ).Nonbasic b) :
    t.Nonbasic b := by
  have hbasic : ∀ {x new}, ((t.setRowQueued x new).rows.get? b = none) → t.Nonbasic b := by
    intro x new hb
    rw [(t.setRowQueued_rest x new).1, SymbolMap.get?_insert] at hb
    split at hb
    · cases hb
    · exact hb
  unfold Nonbasic Tableau.shift at hb
  split at hb
  · exact hbasic hb
  · split at hb
    · exact hbasic hb
    · exact Option.map_eq_none_iff.mp ((SymbolMap.get?_map _ _ _).symm.trans hb)

omit [Scalar.LawfulOpposites α] in
/-- **A shift keeps every pair**, its own included. -/
theorem Neat.shift (h : t.Neat m o) (tag : Tag) (δ : α) : (t.shift tag δ).Neat m o :=
  ⟨h.canonical.shift tag δ, h.cells.shift tag δ,
    h.paired.of_cells (t.shift_cells tag δ).1 fun _ => nonbasic_of_shift⟩

end Passes

end Tableau

end IncrementalSimplex
