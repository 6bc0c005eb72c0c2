/-
# Which cells are dropped

A cell near zero is dropped when something is added to it.  That is the only cleanup: where a row is
negated or solved for a symbol its cells change and are kept, however small they become.  So the
cleanup covers the objective and does not cover the rows.

**The objective is only ever added to.**  Encoding adds a cost, a removal adds its negative, and a
substitution adds a multiple of a row.  Hence no cell of the objective is near zero, in any state
and whatever the arithmetic (`Attained.cells`).

**A row is solved for a symbol** when it enters the basis, and the other cells are divided by the
coefficient of that symbol.  So a row keeps only what division keeps.  With a tolerance that is to
be different from zero and nothing else: the numbers that occur in the rows of reachable states are
just the numbers other than zero (`costs_stored_and_cells_nonzero`).  One constraint is enough
for a cell within the tolerance (`scaled_cell_survives`).

A small cell does not spread.  When a row is put in place of a symbol, a cell of the sum is either
what the row had there before, or not near zero (`Row.get?_substitute_cases`).  So a pivot brings in
a small cell only in the row that it solves, and it does so just when a cell of that row is small
beside the one it divides by (`Tableau.Cells.stored_pivot_iff`).
-/
import IncrementalSimplex.Proofs.Tolerance

namespace IncrementalSimplex

variable {α : Type} [Scalar α]

/-! ## 1. Rows -/

/-- The number is not near zero, so an addition stores it. -/
def Stored (c : α) : Prop := nearZero c = false

/-- **A property of numbers that operations on cells keep**: what is stored has it, and negating and
solving do not lose it. -/
structure KeptInCells (P : α → Prop) : Prop where
  stored : ∀ {c}, Stored c → P c
  negated : ∀ {c}, P c → P (-c)
  solved : ∀ {c d}, P c → P d → P (c * (-1 / d))

namespace Row

/-- A cell after an addition is stored, or it was there before. -/
theorem get?_addCell_cases {r : Row α} {s x : Symbol} {c d : α}
    (h : (r.addCell s c).cells.get? x = some d) : Stored d ∨ r.cells.get? x = some d := by
  by_cases hxs : x = s
  · subst hxs
    rw [get?_addCell_self] at h
    split at h
    · cases h
    · rename_i hnear
      cases h
      exact .inl (Bool.eq_false_iff.mpr hnear)
  · rw [get?_addCell_of_ne _ _ hxs] at h
    exact .inr h

theorem get?_addRow_cases {r t : Row α} {x : Symbol} {c d : α}
    (h : (r.addRow t c).cells.get? x = some d) : Stored d ∨ r.cells.get? x = some d := by
  rw [get?_addRow] at h
  split at h
  · exact .inr h
  · split at h
    · cases h
    · rename_i hnear
      cases h
      exact .inl (Bool.eq_false_iff.mpr hnear)

/-- **Putting a row in place of a symbol brings in no small cell**: a cell afterwards is stored, or
it was there before. -/
theorem get?_substitute_cases {r t : Row α} {s x : Symbol} {d : α}
    (h : (r.substitute s t).cells.get? x = some d) : Stored d ∨ r.cells.get? x = some d := by
  unfold substitute at h
  split at h
  · rcases get?_addRow_cases h with hstored | hold
    · exact .inl hstored
    · rw [get?_dropCell] at hold
      split at hold
      · cases hold
      · exact .inr hold
  · exact .inr h

/-- **Every cell has the property.** -/
def Each (P : α → Prop) (r : Row α) : Prop := ∀ x c, r.cells.get? x = some c → P c

variable {P : α → Prop} {r t : Row α} {s : Symbol}

omit [Scalar α] in
theorem each_ofConstant (P : α → Prop) (c : α) : (ofConstant c).Each P := nofun

omit [Scalar α] in
theorem Each.dropCell (h : r.Each P) (s : Symbol) : (r.dropCell s).Each P := by
  intro x c hc
  rw [get?_dropCell] at hc
  split at hc
  · cases hc
  · exact h x c hc

theorem Each.addCell (hP : ∀ {c}, Stored c → P c) (h : r.Each P) (s : Symbol) (c : α) :
    (r.addCell s c).Each P :=
  fun x _ hd => (get?_addCell_cases hd).elim hP (h x _)

theorem Each.addRow (hP : ∀ {c}, Stored c → P c) (h : r.Each P) (t : Row α) (c : α) :
    (r.addRow t c).Each P :=
  fun x _ hd => (get?_addRow_cases hd).elim hP (h x _)

theorem Each.substitute (hP : ∀ {c}, Stored c → P c) (h : r.Each P) (s : Symbol) (t : Row α) :
    (r.substitute s t).Each P :=
  fun x _ hd => (get?_substitute_cases hd).elim hP (h x _)

theorem Each.negate (hP : KeptInCells P) (h : r.Each P) : r.negate.Each P := by
  intro x d hd
  rw [get?_negate] at hd
  obtain ⟨c, hc, rfl⟩ := Option.map_eq_some_iff.mp hd
  exact hP.negated (h x c hc)

/-- **Solving for a symbol** divides by a cell of the row. -/
theorem Each.solveFor (hP : KeptInCells P) (h : r.Each P) (hsolved : r.solveFor? s = some t) :
    t.Each P := by
  obtain ⟨d, hd, rfl⟩ := Option.map_eq_some_iff.mp hsolved
  intro x q hq
  rw [get?_scale] at hq
  obtain ⟨c, hc, rfl⟩ := Option.map_eq_some_iff.mp hq
  exact hP.solved (h.dropCell s x c hc) (h s d hd)

theorem Each.exchange (hP : KeptInCells P) (h : r.Each P) {l : Symbol}
    (hsolved : r.exchange? l s = some t) : t.Each P :=
  (h.addCell hP.stored l _).solveFor hP hsolved

end Row

/-! ## 2. Tableaus -/

namespace Tableau

/-- **The cells of a tableau**: those of the rows have the property, and those of the objective are
not near zero. -/
structure Cells (P : α → Prop) (t : Tableau α) : Prop where
  rows : ∀ b row, t.rows.get? b = some row → row.Each P
  objective : t.objective.Each Stored

variable {P : α → Prop} {t u : Tableau α}

/-- The queue and the artificial objective do not matter. -/
theorem Cells.congr (h : t.Cells P) (hrows : u.rows = t.rows) (hobj : u.objective = t.objective) :
    u.Cells P := by
  refine ⟨?_, ?_⟩
  · rw [hrows]
    exact h.rows
  · rw [hobj]
    exact h.objective

theorem Cells.dropRow (h : t.Cells P) (s : Symbol) : (t.dropRow s).Cells P :=
  ⟨fun b row hb => h.rows b row (get?_of_dropRow hb).2, h.objective⟩

theorem Cells.setRow (h : t.Cells P) (s : Symbol) {row : Row α} (hrow : row.Each P) :
    (t.setRow s row).Cells P := by
  refine ⟨fun b r hb => ?_, h.objective⟩
  rw [get?_setRow] at hb
  split at hb
  · cases hb
    exact hrow
  · exact h.rows b r hb

theorem Cells.dropColumn (h : t.Cells P) (s : Symbol) : (t.dropColumn s).Cells P := by
  refine ⟨fun b row hb => ?_, h.objective.dropCell s⟩
  obtain ⟨old, hold, rfl⟩ := get?_of_dropColumn hb
  exact (h.rows b old hold).dropCell s

theorem Cells.substitute (hP : ∀ {c}, Stored c → P c) (h : t.Cells P) (s : Symbol) (row : Row α) :
    (t.substitute s row).Cells P := by
  refine ⟨fun b r hb => ?_, h.objective.substitute id s row⟩
  rw [get?_substitute] at hb
  obtain ⟨old, hold, rfl⟩ := Option.map_eq_some_iff.mp hb
  exact (h.rows b old hold).substitute hP s row

theorem Cells.enter (hP : KeptInCells P) (h : t.Cells P) (s : Symbol) {row : Row α}
    (hrow : row.Each P) : (t.enter s row).Cells P := (h.substitute hP.stored s row).setRow s hrow

/-- **A pivot**: the solved row is divided by a cell of its own. -/
theorem Cells.pivot (hP : KeptInCells P) (h : t.Cells P) {p : Pivot} (hu : t.pivot p = .ok u) :
    u.Cells P := by
  obtain ⟨row, solved, hrow, hsolved, rfl⟩ := pivot_eq_ok_iff.mp hu
  exact (h.dropRow p.leaving).enter hP p.entering ((h.rows _ row hrow).exchange hP hsolved)

theorem Cells.minimize (hP : KeptInCells P) (h : t.Cells P) (limit : Nat) (goal : Goal) :
    (t.minimize limit goal).tableau.Cells P := by
  have hstep : ∀ t u : Tableau α, t.Cells P → PrimalStep goal t u → u.Cells P := by
    rintro t u ht ⟨-, -, -, hu⟩
    exact ht.pivot hP hu
  obtain ⟨last, hlast, hend⟩ := minimize_ends hstep h limit
  rcases hend.tableau_eq with heq | heq
  · rw [heq]
    exact hlast
  · rw [heq]
    exact hlast.congr rfl rfl

theorem Cells.repair (hP : KeptInCells P) (h : t.Cells P) (limit : Nat) :
    (t.repair limit).tableau.Cells P := by
  have hstep : ∀ t u : Tableau α, t.Cells P → DualStep t u → u.Cells P := by
    intro t u ht hs
    obtain ⟨e, l, row, rest, -, -, hu⟩ := hs.parts
    exact Cells.pivot hP (ht.congr (u := { t with infeasible := rest }) rfl rfl) hu
  obtain ⟨last, hlast, hend⟩ := repair_ends hstep h limit
  obtain ⟨queue, -, heq⟩ := hend.tableau_eq
  rw [heq]
  exact hlast.congr rfl rfl

theorem Cells.retire (hP : KeptInCells P) (h : t.Cells P) (art : Symbol) (driven : Bool) :
    (t.retire art driven).tableau.Cells P :=
  retire_keeps (P := fun u => u.Cells P) (h.dropColumn art) (h.dropRow art)
    (fun _ _ _ _ _ hu => (h.pivot hP hu).dropColumn art) driven

theorem Cells.phaseOne (hP : KeptInCells P) (h : t.Cells P) (limit : Nat) (art : Symbol)
    {row : Row α} (hrow : row.Each P) : (t.phaseOne limit art row).tableau.Cells P := by
  have harmed : (t.arm art row).Cells P := (h.setRow art hrow).congr rfl rfl
  have hpass := (harmed.minimize hP limit .artificial).congr
    (u := ((t.arm art row).minimize limit .artificial).tableau.disarm) rfl rfl
  exact phaseOne_keeps (P := fun u => u.Cells P) hpass (hpass.retire hP art)

theorem Cells.uncharge (h : t.Cells P) (x : Symbol) (w : α) : (t.uncharge x w).Cells P := by
  unfold Tableau.uncharge
  split
  · refine ⟨h.rows, ?_⟩
    dsimp only
    split
    · exact h.objective.addRow id _ _
    · exact h.objective.addCell id _ _
  · exact h

theorem Cells.expel (hP : KeptInCells P) (h : t.Cells P) {m : Symbol} (hu : t.expel m = .ok u) :
    u.Cells P := by
  rcases expel_cases hu with ⟨-, -, rfl⟩ | ⟨-, -, rfl⟩ | ⟨-, l, -, solved, -, -, -, rfl⟩
  · exact h.dropRow m
  · exact h
  · exact (h.dropRow l).substitute hP.stored m solved

/-- A shift changes constants only. -/
theorem Cells.shift (h : t.Cells P) (tag : Tag) (δ : α) : (t.shift tag δ).Cells P := by
  obtain ⟨hcells, hobj, -⟩ := t.shift_cells tag δ
  refine ⟨fun b row hb x c hc => ?_, ?_⟩
  · obtain ⟨old, hold, heq⟩ := hcells b row hb
    rw [heq] at hc
    exact h.rows b old hold x c hc
  · rw [hobj]
    exact h.objective

end Tableau

/-! ## 3. Calls -/

namespace Solver

variable {P : α → Prop} {s : Solver α}

omit [Scalar α] in
theorem tableau_symbolOf (s : Solver α) (v : Variable) : (s.symbolOf v).1.tableau = s.tableau := by
  unfold symbolOf
  split <;> rfl

/-- **The terms** are added to the row, and the tableau is left alone. -/
theorem each_encodeTerms (hP : KeptInCells P) (s : Solver α) (e : Expression α) :
    (s.encodeTerms e).1.tableau = s.tableau ∧ (s.encodeTerms e).2.Each P := by
  suffices hfold : ∀ (ts : List (Term α)) (acc : Solver α × Row α), acc.2.Each P →
      (ts.foldl encodeTerm acc).1.tableau = acc.1.tableau ∧ (ts.foldl encodeTerm acc).2.Each P from
    hfold e.terms (s, .ofConstant e.constant) (Row.each_ofConstant P _)
  intro ts
  induction ts with
  | nil => exact fun acc hacc => ⟨rfl, hacc⟩
  | cons t ts ih =>
    intro acc hacc
    have hone : (encodeTerm acc t).1.tableau = acc.1.tableau ∧ (encodeTerm acc t).2.Each P := by
      unfold encodeTerm
      split
      · exact ⟨rfl, hacc⟩
      · dsimp only
        split
        · exact ⟨acc.1.tableau_symbolOf t.var, hacc.addRow hP.stored _ _⟩
        · exact ⟨acc.1.tableau_symbolOf t.var, hacc.addCell hP.stored _ _⟩
    obtain ⟨htab, hrow⟩ := ih _ hone.2
    exact ⟨htab.trans hone.1, hrow⟩

theorem cells_charge (h : s.tableau.Cells P) (x : Symbol) (p : Priority) :
    (s.charge x p).tableau.Cells P := ⟨h.rows, h.objective.addCell id x _⟩

theorem cells_encodeRelation (hP : KeptInCells P) (h : s.tableau.Cells P) {row : Row α}
    (hrow : row.Each P) (p : Priority) (rel : Relation) :
    (s.encodeRelation row p rel).solver.tableau.Cells P ∧
      (s.encodeRelation row p rel).row.Each P := by
  have hinequality : ∀ unit against,
      (s.encodeInequality row unit against p).solver.tableau.Cells P ∧
        (s.encodeInequality row unit against p).row.Each P := by
    intro unit against
    unfold encodeInequality
    dsimp only
    split
    · exact ⟨h, hrow.addCell hP.stored _ _⟩
    · exact ⟨cells_charge (s := ((s.newSymbol .slack).1.newSymbol .error).1) h _ p,
        (hrow.addCell hP.stored _ _).addCell hP.stored _ _⟩
  cases rel with
  | atMost => exact hinequality _ _
  | atLeast => exact hinequality _ _
  | equal =>
    unfold encodeRelation encodeEquality
    dsimp only
    split
    · exact ⟨h, hrow.addCell hP.stored _ _⟩
    · have hcharged := cells_charge (s := ((s.newSymbol .error).1.newSymbol .error).1) h
        (s.newSymbol .error).2 p
      exact ⟨cells_charge hcharged _ p, (hrow.addCell hP.stored _ _).addCell hP.stored _ _⟩

/-- **Encoding** adds to the row and charges the objective. -/
theorem cells_encode (hP : KeptInCells P) (h : s.tableau.Cells P) (c : Constraint α) :
    (s.encode c).solver.tableau.Cells P ∧ (s.encode c).row.Each P := by
  obtain ⟨htab, hrow⟩ := each_encodeTerms hP s c.expression
  obtain ⟨hcells, hrow'⟩ := cells_encodeRelation hP (htab ▸ h) hrow c.priority c.relation
  unfold encode
  dsimp only
  split
  · exact ⟨hcells, hrow'.negate hP⟩
  · exact ⟨hcells, hrow'⟩

end Solver

theorem Encoding.cells_place {P : α → Prop} (hP : KeptInCells P) {e : Encoding α}
    (h : e.solver.tableau.Cells P) (hrow : e.row.Each P) (id : ConstraintId) :
    (e.place id).solver.tableau.Cells P := by
  unfold place
  split
  · unfold placeBasic
    split
    · exact h
    · rename_i hsolved
      exact h.enter hP _ (hrow.solveFor hP hsolved)
  · exact h
  · have hphase : (e.solver.newSymbol .slack).1.tableau.Cells P := h
    unfold placeArtificial
    dsimp only
    split
    · exact hphase.phaseOne hP _ _ hrow
    · exact h.congr rfl rfl
    · exact h.congr rfl rfl
    · exact hphase.phaseOne hP _ _ hrow

namespace Solver

variable {P : α → Prop} {s : Solver α}

theorem cells_add (hP : KeptInCells P) (h : s.tableau.Cells P) (c : Constraint α) :
    (s.add c).solver.tableau.Cells P := by
  obtain ⟨hcells, hrow⟩ := cells_encode hP h c
  unfold add
  split
  · exact h
  · split
    · exact h
    · exact andThen_keeps (P := fun u => u.tableau.Cells P)
        (andThen_keeps (P := fun u => u.tableau.Cells P) (Encoding.cells_place hP hcells hrow c.id)
          fun _ => id)
        fun u hu => hu.minimize hP u.config.maxIterations .main

theorem cells_remove (hP : KeptInCells P) (h : s.tableau.Cells P) (c : Constraint α) :
    (s.remove c).solver.tableau.Cells P := by
  unfold remove
  split
  · exact h
  · rename_i r hr
    have hcleared :
        (clear { s with constraints := s.constraints.erase c.id } r).solver.tableau.Cells P := by
      have hrefunded := (h.uncharge r.tag.marker r.priority.weight).uncharge r.tag.other
        r.priority.weight
      unfold clear
      dsimp only
      split
      · rename_i t ht
        exact hrefunded.expel hP ht
      · exact hrefunded
    exact andThen_keeps (P := fun u => u.tableau.Cells P)
      (andThen_keeps (P := fun u => u.tableau.Cells P) hcleared fun _ => id)
      fun u hu => hu.minimize hP u.config.maxIterations .main

theorem cells_recordEdit (h : s.tableau.Cells P) (c : Constraint α) (v : Variable) :
    (s.recordEdit c v).solver.tableau.Cells P := by
  unfold recordEdit
  split <;> exact h

theorem cells_suggest (hP : KeptInCells P) (h : s.tableau.Cells P) (v : Variable) (x : α) :
    (s.suggest v x).solver.tableau.Cells P := by
  unfold suggest
  split
  · exact h
  · exact (h.shift _ _).repair hP _

theorem cells_new (P : α → Prop) (config : SolverConfig) :
    (new config : Solver α).tableau.Cells P := ⟨nofun, nofun⟩

end Solver

/-- **The cells of every state**, whatever the arithmetic: no cell of the objective is near zero,
and those of the rows have any property that operations on cells keep. -/
theorem Attained.cells {P : α → Prop} (hP : KeptInCells P) {s : Solver α} (h : Attained s) :
    s.tableau.Cells P := by
  induction h with
  | new config => exact Solver.cells_new P config
  | @call s c _ ih =>
    by_cases hc : c = .reset
    · subst hc
      exact Solver.cells_new P s.config
    · exact Solver.perform_keeps (P := fun u => u.tableau.Cells P)
        (fun _ c hu => Solver.cells_add hP hu c) (fun _ c hu => Solver.cells_remove hP hu c)
        (fun _ c v hu => Solver.cells_recordEdit hu c v) (fun _ _ hu => hu)
        (fun _ v x hu => Solver.cells_suggest hP hu v x) ih hc

/-! ## 4. With a tolerance -/

/-- What is not near zero is as far from it as the tolerance. -/
theorem stored_iff {q : ℚ} : Stored (α := Tolerant) q ↔ tolerance ≤ |q| := by
  change (decide (-tolerance < q) && decide (q < tolerance)) = false ↔ _
  rw [le_abs, Bool.and_eq_false_iff, decide_eq_false_iff_not, decide_eq_false_iff_not, not_lt,
    not_lt, or_comm, le_neg]

/-- Division keeps a number different from zero. -/
theorem keptInCells_ne_zero : KeptInCells fun q : Tolerant => q ≠ 0 where
  stored {c} h := by
    rintro rfl
    have hzero : withinTolerance 0 = true := by decide +kernel
    exact Bool.false_ne_true (h.symm.trans hzero)
  negated {c} h := by
    have hneg : ∀ q : ℚ, q ≠ 0 → -q ≠ 0 := fun q => neg_ne_zero.mpr
    exact hneg c h
  solved {c d} hc hd := by
    have hsolved : ∀ q r : ℚ, q ≠ 0 → r ≠ 0 → q * (-1 / r) ≠ 0 := fun q r hq hr =>
      mul_ne_zero hq (div_ne_zero (neg_ne_zero.mpr one_ne_zero) hr)
    exact hsolved c d hc hd

/-- A stored number makes a cell of its own. -/
theorem Row.addCell_of_absent {r : Row Tolerant} {x : Symbol} (hx : r.cells.get? x = none)
    {c : Tolerant} (hc : Stored c) : r.addCell x c = { r with cells := r.cells.insert x c } := by
  have hsum : r.coefficient x + c = c := by
    have hzero : ∀ q : ℚ, 0 + q = q := zero_add
    rw [Row.coefficient, hx]
    exact hzero c
  unfold Row.addCell
  dsimp only
  rw [hsum, if_neg (Bool.eq_false_iff.mp hc)]

/-- **When solving leaves a small cell behind**: a cell is divided by that of the symbol, so it must
be as large as that one times the tolerance. -/
theorem Row.each_stored_solveFor_iff {r t : Row Tolerant} {s : Symbol} {d : ℚ}
    (hd : r.cells.get? s = some d) (hne : d ≠ 0) (hsolved : r.solveFor? s = some t) :
    t.Each Stored ↔
      ∀ x, x ≠ s → ∀ c : ℚ, r.cells.get? x = some c → tolerance * |d| ≤ |c| := by
  have hsmall : ∀ c : ℚ, Stored (α := Tolerant) (c * (-1 / d) : ℚ) ↔ tolerance * |d| ≤ |c| := by
    intro c
    rw [stored_iff, abs_mul, abs_div, abs_neg, abs_one, mul_one_div, le_div_iff₀ (abs_pos.mpr hne)]
  have hcells : ∀ x, t.cells.get? x =
      if x = s then none else (r.cells.get? x).map fun c : ℚ => (c * (-1 / d) : ℚ) := by
    intro x
    rw [Row.solveFor?, hd] at hsolved
    cases hsolved
    rw [Row.get?_scale, Row.get?_dropCell]
    split <;> rfl
  constructor
  · intro h x hx c hc
    refine (hsmall c).mp (h x _ ?_)
    rw [hcells, if_neg hx, hc]
    rfl
  · intro h x q hq
    rw [hcells] at hq
    split at hq
    · cases hq
    · rename_i hx
      obtain ⟨c, hc, rfl⟩ := Option.map_eq_some_iff.mp hq
      exact (hsmall c).mpr (h x hx c hc)

/-- **When a pivot leaves a small cell behind**, if there was none before: the leaving row must have
none that is small beside its cell of the entering symbol, and this cell must not be too large for
the leaving symbol itself, which gets the cell minus one. -/
theorem Tableau.Cells.stored_pivot_iff {t u : Tableau Tolerant} (h : t.Cells Stored)
    {e l : Symbol} {row : Row Tolerant} {d : ℚ} (hrow : t.rows.get? l = some row)
    (hl : row.cells.get? l = none) (hd : row.cells.get? e = some d)
    (hu : t.pivot ⟨e, l⟩ = .ok u) :
    u.Cells Stored ↔ tolerance * |d| ≤ 1 ∧
      ∀ x, x ≠ e → ∀ c : ℚ, row.cells.get? x = some c → tolerance * |d| ≤ |c| := by
  have hne : d ≠ 0 := keptInCells_ne_zero.stored (h.rows l row hrow e d hd)
  have hunit : |(-1 : ℚ)| = 1 := by rw [abs_neg, abs_one]
  have hle : e ≠ l := by
    rintro rfl
    rw [hl] at hd
    cases hd
  obtain ⟨row', solved, hrow', hsolved, rfl⟩ := pivot_cases hu
  rw [hrow] at hrow'
  cases hrow'
  have hcells : ∀ x, (row.addCell l (-1)).cells.get? x =
      if x = l then some (-1) else row.cells.get? x := by
    have hminus : Stored (-1 : Tolerant) := by
      unfold Stored
      decide +kernel
    intro x
    rw [Row.addCell_of_absent hl hminus]
    exact SymbolMap.get?_insert _ _ _ _
  have hd' : (row.addCell l (-1)).cells.get? e = some d := by rw [hcells, if_neg hle, hd]
  have hentered : ((t.dropRow l).enter e solved).Cells Stored ↔ solved.Each Stored := by
    constructor
    · intro hclean
      refine hclean.rows e solved ?_
      rw [Tableau.enter, get?_setRow, if_pos rfl]
    · intro hclean
      exact (Cells.substitute id (h.dropRow l) e solved).setRow e hclean
  rw [hentered, Row.each_stored_solveFor_iff hd' hne hsolved]
  constructor
  · intro hall
    refine ⟨?_, fun x hx c hc => hall x hx c ?_⟩
    · exact (hall l hle.symm (-1) ((hcells l).trans (if_pos rfl))).trans_eq hunit
    · have hxl : x ≠ l := by
        rintro rfl
        rw [hl] at hc
        cases hc
      rw [hcells, if_neg hxl, hc]
  · rintro ⟨hone, hall⟩ x hx c hc
    rw [hcells] at hc
    split at hc
    · cases hc
      exact hone.trans_eq hunit.symm
    · exact hall x hx c hc

namespace Solver

/-- `a * v + b * w == 0`, required. -/
def ratio (a b : Tolerant) : Constraint Tolerant :=
  ⟨⟨0⟩, ⟨[⟨⟨0⟩, a⟩, ⟨⟨1⟩, b⟩], 0⟩, .equal, .required⟩

/-- Its row before it is solved: `a * v + b * w + d`, with the dummy `d`. -/
def ratioRow (a b : Tolerant) : Row Tolerant :=
  ⟨0, ((SymbolMap.empty.insert ⟨1, .external⟩ a).insert ⟨2, .external⟩ b).insert ⟨3, .dummy⟩ 1⟩

theorem encode_ratio {a b : Tolerant} (ha : Stored a) (hb : Stored b) :
    ∃ n names, (new : Solver Tolerant).encode (ratio a b) =
      ⟨{ (new : Solver Tolerant) with counter := n, symbols := names }, ratioRow a b,
        { marker := ⟨3, .dummy⟩ }⟩ := by
  have ha' : ¬ nearZero a = true := Bool.eq_false_iff.mp ha
  have hb' : ¬ nearZero b = true := Bool.eq_false_iff.mp hb
  have hone : Stored (1 : Tolerant) := by
    unfold Stored
    decide +kernel
  have hrow : (((Row.ofConstant 0 : Row Tolerant).addCell ⟨1, .external⟩ a).addCell ⟨2, .external⟩
      b).addCell ⟨3, .dummy⟩ 1 = ratioRow a b := by
    rw [Row.addCell_of_absent rfl ha, Row.addCell_of_absent rfl hb, Row.addCell_of_absent rfl hone]
    rfl
  have hterms : ∃ names, (new : Solver Tolerant).encodeTerms (ratio a b).expression =
      ({ (new : Solver Tolerant) with counter := 2, symbols := names },
        ((Row.ofConstant 0).addCell ⟨1, .external⟩ a).addCell ⟨2, .external⟩ b) := by
    refine ⟨(Registry.empty.insert ⟨0⟩ ⟨1, .external⟩).insert ⟨1⟩ ⟨2, .external⟩, ?_⟩
    change encodeTerm (encodeTerm (new, .ofConstant 0) ⟨⟨0⟩, a⟩) ⟨⟨1⟩, b⟩ = _
    rw [encodeTerm, encodeTerm]
    simp only [ha', hb']
    rfl
  obtain ⟨names, hterms⟩ := hterms
  refine ⟨3, names, ?_⟩
  have hrelation : ({ (new : Solver Tolerant) with counter := 2, symbols := names } :
      Solver Tolerant).encodeRelation (((Row.ofConstant 0).addCell ⟨1, .external⟩ a).addCell
        ⟨2, .external⟩ b) (ratio a b).priority (ratio a b).relation =
          ⟨{ (new : Solver Tolerant) with counter := 3, symbols := names }, ratioRow a b,
            { marker := ⟨3, .dummy⟩ }⟩ := by
    rw [← hrow]
    rfl
  unfold encode
  simp only [hterms, hrelation]
  exact if_neg (lt_irrefl (0 : ℚ))

/-- **Solved for `v`**, the row has the coefficient of `w` divided by that of `v`. -/
theorem cell_add_ratio {a b : Tolerant} (ha : Stored a) (hb : Stored b) :
    ∃ row, ((new : Solver Tolerant).add (ratio a b)).solver.tableau.rows.get? ⟨1, .external⟩ =
      some row ∧ row.cells.get? ⟨2, .external⟩ = some (b * (-1 / a)) := by
  obtain ⟨n, names, hencode⟩ := encode_ratio ha hb
  let solved := ((ratioRow a b).dropCell ⟨1, .external⟩).scale (-1 / a)
  let entered : Tableau Tolerant := Tableau.empty.enter ⟨1, .external⟩ solved
  have hplace : ((new : Solver Tolerant).encode (ratio a b)).place (ratio a b).id =
      .done { (new : Solver Tolerant) with
        counter := n
        symbols := names
        tableau := entered } := by
    rw [hencode]
    rfl
  have hadd : ((new : Solver Tolerant).add (ratio a b)).solver.tableau.rows =
      (entered.minimize 100000 .main).tableau.rows := by
    have hnew : (new : Solver Tolerant).add (ratio a b) =
        ((((new : Solver Tolerant).encode (ratio a b)).place (ratio a b).id).andThen
          (·.record (ratio a b) ((new : Solver Tolerant).encode (ratio a b)).tag)).andThen
            optimize := rfl
    rw [hnew, hplace]
    rfl
  rw [hadd, Tableau.rows_minimize_of_entering?_eq_none rfl]
  exact ⟨solved, rfl, rfl⟩

/-- **Every number but zero is a ratio of stored ones**: the larger one of the number and its
inverse is a coefficient, and the other coefficient is one. -/
theorem exists_ratio {q : ℚ} (hq : q ≠ 0) :
    ∃ a b : ℚ, tolerance ≤ |a| ∧ tolerance ≤ |b| ∧ b * (-1 / a) = q := by
  have hone : tolerance ≤ 1 := by decide +kernel
  rcases le_total |q| 1 with hle | hge
  · have hinverse : 1 ≤ |-1 / q| := by
      rw [abs_div, abs_neg, abs_one]
      exact (one_le_div (abs_pos.mpr hq)).mpr hle
    exact ⟨-1 / q, 1, hone.trans hinverse, by rwa [abs_one], by field_simp⟩
  · exact ⟨-1, q, by rwa [abs_neg, abs_one], hone.trans hge, by norm_num⟩

/-- **Every number but zero is a cell of some state.** -/
theorem exists_cell_of_ne_zero {q : Tolerant} (hq : q ≠ 0) :
    ∃ s : Solver Tolerant, Attained s ∧ ∃ b row x, s.tableau.rows.get? b = some row ∧
      row.cells.get? x = some q := by
  obtain ⟨a, b, ha, hb, hab⟩ := exists_ratio hq
  obtain ⟨row, hrow, hcell⟩ := cell_add_ratio (stored_iff.mpr ha) (stored_iff.mpr hb)
  exact ⟨_, .call (.add (ratio a b)) (.new {}), _, row, _, hrow, hcell.trans (congrArg some hab)⟩

end Solver

/-- **What the cleanup guarantees**, number by number.  In no state does the objective hold a number
within the tolerance.  Of the rows only this can be said: a number occurs as a cell of some state
unless it is zero. -/
theorem costs_stored_and_cells_nonzero (q : Tolerant) :
    (∀ s : Solver Tolerant, Attained s → ∀ x, s.tableau.objective.cells.get? x = some q →
      withinTolerance q = false) ∧
    ((∃ s : Solver Tolerant, Attained s ∧ ∃ b row x,
      s.tableau.rows.get? b = some row ∧ row.cells.get? x = some q) ↔ q ≠ 0) := by
  refine ⟨fun s h x => (h.cells keptInCells_ne_zero).objective x q, ?_, ?_⟩
  · rintro ⟨s, h, b, row, x, hrow, hq⟩
    exact (h.cells keptInCells_ne_zero).rows b row hrow x q hq
  · exact Solver.exists_cell_of_ne_zero

/-! ## 5. A small cell -/

/-- `2^30 * v + w == 0`, weakly. -/
def steepWeak : Constraint Tolerant :=
  { Solver.ratio (Scalar.ofInt 1073741824) (Scalar.ofInt 1) with priority := .weak }

/-- The solver with that constraint, solved for `v`. -/
def slanted : Solver Tolerant := ((Solver.new : Solver Tolerant).perform (.add steepWeak)).solver

/-- The number `-2⁻³⁰`. -/
def sliver : Tolerant := Scalar.ofInt (-1) / Scalar.ofInt 1073741824

theorem attained_slanted : Attained slanted := .call _ (.new {})

theorem cell_slanted : (slanted.tableau.rows.get? ⟨1, .external⟩).bind
    (·.cells.get? ⟨2, .external⟩) = some sliver := by decide +kernel

/-- **A cell within the tolerance stays**: in the row of `v` the cell of `w` is `-2⁻³⁰`. -/
theorem scaled_cell_survives :
    Attained slanted ∧
      (slanted.tableau.rows.get? ⟨1, .external⟩).bind (·.cells.get? ⟨2, .external⟩) =
        some sliver ∧
      withinTolerance sliver = true :=
  ⟨attained_slanted, cell_slanted, by decide +kernel⟩

/-- In the same state an error is charged at one, which is far from the tolerance, and the small
cell is no zero. -/
theorem slanted_costs_and_cells :
    Attained slanted ∧
      slanted.tableau.objective.cells.get? ⟨3, .error⟩ = some 1 ∧
      withinTolerance (1 : ℚ) = false ∧ sliver ≠ 0 := by
  have hcost : slanted.tableau.objective.cells.get? ⟨3, .error⟩ = some 1 := by decide +kernel
  obtain ⟨row, hrow, hcell⟩ := Option.bind_eq_some_iff.mp cell_slanted
  exact ⟨attained_slanted, hcost,
    (costs_stored_and_cells_nonzero 1).1 slanted attained_slanted _ hcost,
    (costs_stored_and_cells_nonzero sliver).2.mp
      ⟨slanted, attained_slanted, _, row, _, hrow, hcell⟩⟩

end IncrementalSimplex
