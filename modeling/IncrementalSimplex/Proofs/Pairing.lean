/-
# The two symbols of a soft constraint

A suggestion shifts rows by what it reads off the two symbols of the edit's tag, and it never looks
at more than one of them: a basic marker moves alone, else a basic other symbol moves alone, else
the cells of the marker say by how much each row moves.  This is right because the two are a pair in
every state (`Solver.Coupled`, with `Opposition` for what a pair is):

* never are both basic;
* while both are free, every row has opposite cells for them, or neither;
* when one is basic, the other is in its row with coefficient one, and in no other.

So in the equation of every row the two have opposite coefficients, a basic symbol counting with
minus one (`Tableau.Paired.rate_other`).  The target of an edit stands in one equation,
`v - target - m + o = 0`, and there it moves like the marker.  The rows that depend on it are those
that depend on the marker, and a shift changes these and no others, each by as much as it depends
(`Tableau.Paired.get?_shift`).

**Why it holds with a tolerance as well.**  The cleanup drops cells of the rows, and so a row may
forget that it depends on a target a little.  But it forgets both symbols at once, because opposite
numbers are near zero together.

The argument follows a tag from its encoding on.  The row of a new constraint suits every older pair
(`Solver.Ledger.suits_encode`), and makes its own symbols one (`Solver.Ledger.twins_encode`).  From
there on pivots keep it, until the constraint is removed.
-/
import IncrementalSimplex.Proofs.Custody
import IncrementalSimplex.Proofs.Opposition
import IncrementalSimplex.Proofs.Rejection

namespace IncrementalSimplex

variable {α : Type} [Scalar α]

namespace Symbol

theorem ne_placeholder_of_isPivotable {x : Symbol} (h : x.isPivotable) : x ≠ .placeholder := by
  rintro rfl
  cases h

theorem ne_of_isPivotable_of_isExternal {x y : Symbol} (hx : x.isPivotable)
    (hy : y.isExternal) : x ≠ y := by
  rintro rfl
  rw [isExternal, beq_iff_eq] at hy
  rw [isPivotable, hy] at hx
  cases hx

end Symbol

/-! ## 1. Encoding -/

namespace Tableau

/-- **The symbols of a soft tag in a tableau**: slack or error symbols that are a pair. -/
structure Twins (t : Tableau α) (tag : Tag) : Prop where
  marker : tag.marker.isPivotable
  other : tag.other.isPivotable
  ne : tag.marker ≠ tag.other
  paired : t.Paired tag.marker tag.other

variable {t u : Tableau α} {tag : Tag}

theorem Twins.has_marker (h : t.Twins tag) : tag.Has tag.marker :=
  ⟨Symbol.ne_placeholder_of_isPivotable h.marker, .inl rfl⟩

theorem Twins.has_other (h : t.Twins tag) : tag.Has tag.other :=
  ⟨Symbol.ne_placeholder_of_isPivotable h.other, .inr rfl⟩

theorem Twins.withPaired (h : t.Twins tag) (hu : u.Paired tag.marker tag.other) : u.Twins tag :=
  ⟨h.marker, h.other, h.ne, hu⟩

end Tableau

namespace Solver

variable [Scalar.LawfulOpposites α] {s : Solver α} {P : Symbol → Prop} {tag : Tag}

omit [Scalar.LawfulOpposites α] in
/-- The symbols of a relation are new. -/
theorem suits_encodeRelation {t : Tableau α} {m o : Symbol} {row : Row α} (h : t.Suits m o row)
    (hm : m.id ≤ s.counter) (ho : o.id ≤ s.counter) (p : Priority) (rel : Relation) :
    t.Suits m o (s.encodeRelation row p rel).row := by
  have hne : ∀ {x : Symbol} {n k}, x.id ≤ s.counter → s.counter < n → x ≠ ⟨n, k⟩ := by
    rintro x n k hx hn rfl
    exact absurd hx (Nat.not_le.mpr hn)
  have hone : s.counter < s.counter + 1 := Nat.lt_succ_self _
  have htwo : s.counter < s.counter + 2 := Nat.lt_add_of_pos_right (by decide)
  cases hreq : p.isRequired with
  | true =>
    rw [encodeRelation_of_required s row rel hreq]
    exact h.addCell (hne hm hone) (hne ho hone) _
  | false =>
    rw [encodeRelation_of_soft s row rel hreq]
    exact (h.addCell (hne hm hone) (hne ho hone) _).addCell (hne hm htwo) (hne ho htwo) _

/-- **A term adds the symbol of a variable or its row**, and both suit a pair of errors. -/
theorem Terms.suits_encodeTerm {acc : Solver α × Row α} (h : s.Terms acc)
    (hcan : s.tableau.Canonical) (htwins : s.tableau.Twins tag)
    (hsuits : s.tableau.Suits tag.marker tag.other acc.2) (t : Term α) :
    s.tableau.Suits tag.marker tag.other (Solver.encodeTerm acc t).2 := by
  unfold Solver.encodeTerm
  split
  · exact hsuits
  · obtain ⟨-, htab, hnames, hget⟩ := symbolOf_spec h.names t.var
    have hexternal := (hnames.known _ _ hget).2
    have hm := Symbol.ne_of_isPivotable_of_isExternal htwins.marker hexternal
    have ho := Symbol.ne_of_isPivotable_of_isExternal htwins.other hexternal
    dsimp only
    rw [htab, h.tableau]
    cases hrow : s.tableau.rows.get? (acc.1.symbolOf t.var).2 with
    | some basic => exact hsuits.addRow (htwins.paired.suits hcan hrow hm.symm ho.symm) _
    | none => exact hsuits.addCell hm ho _

theorem suits_encodeTerms (hnames : s.Names) (hcan : s.tableau.Canonical)
    (hover : s.tableau.Over s.Knows) (htwins : s.tableau.Twins tag) (e : Expression α) :
    s.tableau.Suits tag.marker tag.other (s.encodeTerms e).2 := by
  suffices hfold : ∀ (ts : List (Term α)) (acc : Solver α × Row α), s.Terms acc →
      s.tableau.Suits tag.marker tag.other acc.2 →
        s.tableau.Suits tag.marker tag.other (ts.foldl encodeTerm acc).2 from
    hfold e.terms _ (terms_ofConstant hnames e.constant)
      (Tableau.suits_of_absent (Row.not_mentions_ofConstant _ _)
        (Row.not_mentions_ofConstant _ _))
  intro ts
  induction ts with
  | nil => exact fun _ _ hsuits => hsuits
  | cons t ts ih =>
    intro acc hterms hsuits
    exact ih _ (hterms.encodeTerm hcan hover t) (hterms.suits_encodeTerm hcan htwins hsuits t)

/-- **The row of a new constraint suits every pair that is there.** -/
theorem Ledger.suits_encode (h : s.Ledger P) (htwins : s.tableau.Twins tag)
    (htag : ∀ x, tag.Has x → P x) (c : Constraint α) :
    s.tableau.Suits tag.marker tag.other (s.encode c).row := by
  have hterms := terms_encodeTerms h.names h.tableau.canonical h.over_knows c.expression
  have hsuits := suits_encodeTerms h.names h.tableau.canonical h.over_knows htwins c.expression
  have hold : ∀ x, tag.Has x → x.id ≤ (s.encodeTerms c.expression).1.counter := fun x hx =>
    (h.known x (htag x hx)).2.1.trans hterms.grows.counter
  have hrow := suits_encodeRelation hsuits (hold _ htwins.has_marker) (hold _ htwins.has_other)
    c.priority c.relation
  unfold Solver.encode
  dsimp only
  split
  · exact hrow.negate
  · exact hrow

/-- **The symbols of a new soft tag are a pair**, and its row is the first that has them. -/
theorem Ledger.twins_encode (h : s.Ledger P) {c : Constraint α}
    (hsoft : c.priority.isRequired = false) :
    (s.encode c).solver.tableau.Twins (s.encode c).tag ∧
      (s.encode c).solver.tableau.Suits (s.encode c).tag.marker (s.encode c).tag.other
        (s.encode c).row := by
  have henc := encoded_encode h.names h.tableau.canonical h.over_knows c
  obtain ⟨side, hside, hmarker, hother⟩ := h.cells_encode_of_soft hsoft
  generalize s.encode c = e at henc hmarker hother ⊢
  have hfree : ∀ x, e.tag.Has x → e.solver.tableau.Nonbasic x := fun x hx =>
    henc.nonbasic (nonbasic_of_lt h.over_knows (henc.fresh x hx).1)
  have habs : ∀ x, e.tag.Has x → ∀ b row, e.solver.tableau.rows.get? b = some row →
      ¬ row.Mentions x := fun x hx b row hb hmen =>
    (h.over_knows.rows (henc.rows ▸ hb) hmen).ne_of_lt (henc.fresh x hx).1 rfl
  have hm := henc.fits.has_marker
  have ho := henc.fits.has_other hsoft
  have hunits : (0 + c.relation.otherUnit : α) = -(0 + c.relation.markerUnit false) := by
    simp only [Scalar.LawfulOpposites.zero_add]
    rcases c.relation.opposed_units (α := α) with ⟨hunit, hagainst⟩ | ⟨hunit, hagainst⟩
    · rw [hunit, hagainst]
    · rw [hunit, hagainst, Scalar.LawfulOpposites.neg_neg]
  have hopposed : e.row.Opposed e.tag.marker e.tag.other := by
    rw [Row.Opposed, hmarker, hother, hunits]
    rcases hside with rfl | rfl <;> rfl
  obtain ⟨hmkind, hokind⟩ := henc.fits.pivotable_of_soft hsoft
  refine ⟨⟨hmkind, hokind, henc.marker_ne_other, .free (hfree _ hm) (hfree _ ho) fun b row hb =>
      Row.opposed_of_absent (habs _ hm b row hb) (habs _ ho b row hb)⟩,
    ⟨fun _ _ => hopposed, fun hn => absurd (hfree _ hm) hn, fun hn => absurd (hfree _ ho) hn⟩⟩

/-! ## 2. Placing the row -/

/-- **Placing the row keeps a pair**, whether it is solved for a symbol of its own, goes through
phase one, or is not placed at all. -/
theorem Admitted.neat_place {e : Encoding α} (h : Admitted P e) {m o : Symbol}
    (hpair : e.solver.tableau.Neat m o) (hsuits : e.solver.tableau.Suits m o e.row)
    (hcells : e.row.Each (· ≠ 0)) (hne : m ≠ o) (hm : P m) (ho : P o) (id : ConstraintId) :
    (e.place id).solver.tableau.Neat m o := by
  have hart : e.solver.tableau.Nonbasic ⟨e.solver.counter + 1, .slack⟩ :=
    nonbasic_of_lt (h.ledger.tableau.symbols.mono h.ledger.known) (Nat.lt_succ_self _)
  have hold : ∀ {x}, P x → x ≠ ⟨e.solver.counter + 1, .slack⟩ := fun hx =>
    (h.ledger.known _ hx).ne_of_lt (Nat.lt_succ_self _)
  have hphase : (e.solver.tableau.phaseOne e.solver.config.maxIterations
      ⟨e.solver.counter + 1, .slack⟩ e.row).tableau.Neat m o :=
    hpair.phaseOne hsuits hcells h.canonical_arm hart hne (hold hm) (hold ho) _
  have hback : ({ e.solver.tableau with artificial := none } : Tableau α).Neat m o :=
    ⟨hpair.canonical.disarm, hpair.cells.congr rfl rfl, hpair.paired.of_rows rfl⟩
  unfold Encoding.place
  split
  · rename_i x _
    have hcanonical := (h.placeBasic x).tableau.canonical
    unfold Encoding.placeBasic at hcanonical ⊢
    cases hsolved : e.row.solveFor? x with
    | none => exact hpair
    | some solved =>
      rw [hsolved] at hcanonical
      exact ⟨hcanonical, hpair.cells.enter Scalar.LawfulOpposites.kept x
          (hcells.solveFor Scalar.LawfulOpposites.kept hsolved),
        hpair.paired.enter hne hsuits h.free hcells hsolved⟩
  · exact hpair
  · unfold Encoding.placeArtificial
    dsimp only [newSymbol]
    split
    · exact hphase
    · exact hback
    · exact hback
    · exact hphase

/-- **Adding a constraint keeps a pair that its row suits.** -/
theorem Ledger.neat_add (h : s.Ledger P) (hcells : s.tableau.Cells (· ≠ 0)) {c : Constraint α}
    (htwins : (s.encode c).solver.tableau.Twins tag)
    (hsuits : (s.encode c).solver.tableau.Suits tag.marker tag.other (s.encode c).row)
    (htag : ∀ x, tag.Has x → GivenOut P (s.encode c) x) :
    (s.add c).solver.tableau.Neat tag.marker tag.other := by
  have hadmitted := h.admitted c
  obtain ⟨hcells', hrow⟩ := cells_encode Scalar.LawfulOpposites.kept hcells c
  have hplaced := hadmitted.neat_place
    ⟨hadmitted.ledger.tableau.canonical, hcells', htwins.paired⟩ hsuits hrow htwins.ne
    (htag _ htwins.has_marker) (htag _ htwins.has_other) c.id
  have hrows := (encoded_encode h.names h.tableau.canonical h.over_knows c).rows
  have hrefused : s.tableau.Neat tag.marker tag.other :=
    ⟨h.tableau.canonical, hcells, htwins.paired.of_rows hrows.symm⟩
  unfold Solver.add
  split
  · exact hrefused
  · split
    · exact hrefused
    · exact andThen_keeps (P := fun u => u.tableau.Neat tag.marker tag.other)
        (andThen_keeps (P := fun u => u.tableau.Neat tag.marker tag.other) hplaced fun _ => id)
        fun u hu => hu.minimize htwins.ne u.config.maxIterations .main

/-! ## 3. Calls -/

/-- **The symbols of every live soft constraint are a pair**, in a solver whose books are in order. -/
structure Coupled (s : Solver α) : Prop where
  ledger : ∃ P, s.Ledger P
  apart : s.Apart
  cells : s.tableau.Cells (· ≠ 0)
  twins : ∀ id r, s.constraints.get? id = some r → r.priority.isRequired = false →
    s.tableau.Twins r.tag

namespace Coupled

omit [Scalar.LawfulOpposites α] in
theorem new (config : SolverConfig) : (Solver.new config : Solver α).Coupled :=
  ⟨⟨_, ledger_new config⟩, .new config, cells_new _ config, nofun⟩

omit [Scalar.LawfulOpposites α] in
theorem neat (h : s.Coupled) {id : ConstraintId} {r : ConstraintRecord}
    (hr : s.constraints.get? id = some r) (hsoft : r.priority.isRequired = false) :
    s.tableau.Neat r.tag.marker r.tag.other := by
  obtain ⟨P, hP⟩ := h.ledger
  exact ⟨hP.tableau.canonical, h.cells, (h.twins id r hr hsoft).paired⟩

/-- **Adding**: the old pairs stay, and a new soft constraint has one. -/
theorem add (h : s.Coupled) (c : Constraint α) : (s.add c).solver.Coupled := by
  obtain ⟨P, hP⟩ := h.ledger
  have hrows := (encoded_encode hP.names hP.tableau.canonical hP.over_knows c).rows
  have hold : ∀ id r, s.constraints.get? id = some r → r.priority.isRequired = false →
      (s.add c).solver.tableau.Twins r.tag := by
    intro id r hr hsoft
    have htwins := h.twins id r hr hsoft
    have hneat := hP.neat_add h.cells (htwins.withPaired (htwins.paired.of_rows hrows))
      ((hP.suits_encode htwins (hP.tagged id r hr) c).of_rows hrows)
      fun x hx => .inl (hP.tagged id r hr x hx)
    exact htwins.withPaired hneat.paired
  refine ⟨hP.after_add c, h.apart.add c, cells_add Scalar.LawfulOpposites.kept h.cells c,
    fun id r hr hsoft => ?_⟩
  rcases s.recorded_add c with ⟨hcons, -⟩ | ⟨-, hcons, -⟩
  · exact hold id r (hcons ▸ hr) hsoft
  · rw [hcons, Registry.get?_insert] at hr
    split at hr
    · cases hr
      obtain ⟨htwins, hsuits⟩ := hP.twins_encode hsoft
      exact htwins.withPaired
        (hP.neat_add h.cells htwins hsuits fun x hx => .inr (.inr hx)).paired
    · exact hold id r hr hsoft

/-- **Removing** takes out a symbol of no other pair. -/
theorem remove (h : s.Coupled) (c : Constraint α) : (s.remove c).solver.Coupled := by
  obtain ⟨P, hP⟩ := h.ledger
  refine ⟨⟨P, hP.after_remove c⟩, h.apart.remove c,
    cells_remove Scalar.LawfulOpposites.kept h.cells c, fun id r hr hsoft => ?_⟩
  rw [constraints_remove, Registry.get?_erase] at hr
  split at hr
  · cases hr
  rename_i hid
  have htwins := h.twins id r hr hsoft
  have hneat := h.neat hr hsoft
  unfold Solver.remove
  split
  · exact htwins
  rename_i q hq
  have hother : ∀ x, r.tag.Has x → x ≠ q.tag.marker := by
    rintro x hx rfl
    exact hid (h.apart.disjoint hr hq hx ⟨hx.1, .inl rfl⟩)
  have hrefunded : ((s.tableau.uncharge q.tag.marker q.priority.weight).uncharge q.tag.other
      q.priority.weight).Neat r.tag.marker r.tag.other :=
    ⟨(hneat.canonical.uncharge _ _).uncharge _ _, (hneat.cells.uncharge _ _).uncharge _ _,
      (hneat.paired.of_rows (Tableau.uncharge_rows _ _ _)).of_rows (Tableau.uncharge_rows _ _ _)⟩
  have hcleared : (clear { s with constraints := s.constraints.erase c.id } q).solver.tableau.Neat
      r.tag.marker r.tag.other := by
    unfold clear
    dsimp only
    split
    · rename_i t ht
      exact hrefunded.expel htwins.ne (hother _ htwins.has_marker) (hother _ htwins.has_other) ht
    · exact hrefunded
  refine htwins.withPaired (Tableau.Neat.paired ?_)
  exact andThen_keeps (P := fun u => u.tableau.Neat r.tag.marker r.tag.other)
    (andThen_keeps (P := fun u => u.tableau.Neat r.tag.marker r.tag.other) hcleared
      fun _ hu => hu)
    fun u hu => hu.minimize htwins.ne u.config.maxIterations .main

theorem suggest (h : s.Coupled) (v : Variable) (x : α) : (s.suggest v x).solver.Coupled := by
  obtain ⟨P, hP⟩ := h.ledger
  refine ⟨⟨P, (hP.suggest v x).1⟩, ?_, cells_suggest Scalar.LawfulOpposites.kept h.cells v x, ?_⟩
  · unfold Solver.suggest
    split
    · exact h.apart
    · exact h.apart.mono (fun _ _ hr => hr) le_rfl
  · unfold Solver.suggest
    split
    · exact h.twins
    · intro id r hr hsoft
      have htwins := h.twins id r hr hsoft
      exact htwins.withPaired
        (((h.neat hr hsoft).shift _ _).repair htwins.ne _).paired

omit [Scalar.LawfulOpposites α] in
theorem recordEdit (h : s.Coupled) (c : Constraint α) (v : Variable) :
    (s.recordEdit c v).solver.Coupled := by
  obtain ⟨P, hP⟩ := h.ledger
  refine ⟨⟨P, hP.recordEdit c v⟩, ?_, cells_recordEdit h.cells c v, ?_⟩ <;>
    unfold Solver.recordEdit <;> split
  · exact h.apart
  · exact h.apart.mono (fun _ _ hr => hr) le_rfl
  · exact h.twins
  · exact h.twins

omit [Scalar.LawfulOpposites α] in
theorem eraseEdit (h : s.Coupled) (v : Variable) :
    ({ s with edits := s.edits.erase v } : Solver α).Coupled := by
  obtain ⟨P, hP⟩ := h.ledger
  exact ⟨⟨P, hP.eraseEdit v⟩, h.apart.mono (fun _ _ hr => hr) le_rfl, h.cells, h.twins⟩

/-- **Every call keeps the pairs.** -/
theorem perform (h : s.Coupled) (c : Call α) : (s.perform c).solver.Coupled := by
  by_cases hc : c = .reset
  · subst hc
    exact .new s.config
  · exact perform_keeps (P := Coupled) (fun _ c hu => hu.add c) (fun _ c hu => hu.remove c)
      (fun _ c v hu => hu.recordEdit c v) (fun _ v hu => hu.eraseEdit v)
      (fun _ v x hu => hu.suggest v x) h hc

end Coupled

end Solver

/-- **In every state the symbols of live soft constraints are pairs**, whatever calls were made. -/
theorem Attained.coupled [Scalar.LawfulOpposites α] {s : Solver α} (h : Attained s) :
    s.Coupled := by
  induction h with
  | new config => exact .new config
  | call c _ ih => exact ih.perform c

/-! ## 4. What depends on a target -/

namespace Row

/-- **The equation of a row**, as what its two sides differ by. -/
def residual (row : Row ℚ) (b : Symbol) (σ : Assignment) : ℚ := row.value σ - σ b

/-- **The equation depends on a symbol.** -/
def DependsOn (row : Row ℚ) (b x : Symbol) : Prop :=
  ∃ σ q, row.residual b (Function.update σ x q) ≠ row.residual b σ

/-- How much it depends: the basic symbol counts with minus one. -/
def rate (row : Row ℚ) (b x : Symbol) : ℚ := row.coefficient x - if x = b then 1 else 0

variable {row : Row ℚ} {b x : Symbol}

theorem residual_update (row : Row ℚ) (b x : Symbol) (σ : Assignment) (q : ℚ) :
    row.residual b (Function.update σ x q) = row.residual b σ + row.rate b x * (q - σ x) := by
  unfold residual rate
  rw [value_update]
  by_cases hxb : x = b
  · rw [if_pos hxb, hxb, Function.update_self]
    ring
  · rw [if_neg hxb, Function.update_of_ne (Ne.symm hxb)]
    ring

theorem residual_addConstant (row : Row ℚ) (b : Symbol) (σ : Assignment) (q : ℚ) :
    (row.addConstant q).residual b σ = row.residual b σ + q := by
  unfold residual
  rw [value_addConstant]
  ring

theorem dependsOn_iff : row.DependsOn b x ↔ row.rate b x ≠ 0 := by
  constructor
  · rintro ⟨σ, q, hne⟩ hzero
    refine hne ?_
    rw [residual_update, hzero, zero_mul, add_zero]
  · intro hne
    refine ⟨fun _ => 0, 1, fun heq => hne ?_⟩
    rw [residual_update, sub_zero, mul_one] at heq
    exact add_eq_left.mp heq

theorem rate_of_not_mentions (h : ¬ row.Mentions x) (hxb : x ≠ b) : row.rate b x = 0 := by
  rw [rate, coefficient_of_not_mentions h, if_neg hxb, sub_zero]

theorem addConstant_eq_self_iff {q : ℚ} : row.addConstant q = row ↔ q = 0 := by
  constructor
  · intro h
    have hconst : row.constant + q = row.constant := congrArg Row.constant h
    exact add_eq_left.mp hconst
  · rintro rfl
    unfold addConstant
    rw [add_zero]

end Row

namespace Tableau

variable {t : Tableau ℚ} {m o x y b : Symbol} {row : Row ℚ} {tag : Tag}

/-- A basic symbol does not occur, so in its own row its rate is minus one. -/
theorem Canonical.rate_self (h : t.Canonical) (hb : t.rows.get? b = some row) :
    row.rate b b = -1 := by
  have hown : ¬ row.Mentions b := fun hmen => not_nonbasic_of_get? hb (h.rows hb hmen)
  rw [Row.rate, Row.coefficient_of_not_mentions hown, if_pos rfl, zero_sub]

/-- ... and in any other row it is zero. -/
theorem Canonical.rate_basic (h : t.Canonical) (hx : ¬ t.Nonbasic x)
    (hb : t.rows.get? b = some row) (hxb : x ≠ b) : row.rate b x = 0 :=
  Row.rate_of_not_mentions (fun hmen => hx (h.rows hb hmen)) hxb

/-- The symbol that is carried counts with one in the row that carries it. -/
theorem Carries.rate_carried (h : t.Carries x y) (hx : t.rows.get? x = some row) :
    row.rate x y = 1 := by
  rw [Row.rate, Row.coefficient_of_get? (h.get? hx), if_neg (h.free.ne hx), sub_zero]

theorem Carries.rate_other (h : t.Carries x y) (hcan : t.Canonical)
    (hb : t.rows.get? b = some row) : row.rate b y = -row.rate b x := by
  by_cases hbx : b = x
  · subst hbx
    rw [h.rate_carried hb, hcan.rate_self hb, neg_neg]
  · rw [Row.rate_of_not_mentions (h.others b row hb hbx) (h.free.ne hb),
      hcan.rate_basic h.not_nonbasic hb (Ne.symm hbx), neg_zero]

/-- **In every equation the two symbols of a pair have opposite rates.** -/
theorem Paired.rate_other (h : t.Paired m o) (hcan : t.Canonical)
    (hb : t.rows.get? b = some row) : row.rate b o = -row.rate b m := by
  cases h with
  | free hm ho hrows =>
    rw [Row.rate, Row.rate, if_neg (hm.ne hb), if_neg (ho.ne hb), (hrows b row hb).coefficient,
      sub_zero, sub_zero]
  | marker h => exact h.rate_other hcan hb
  | other h => rw [h.rate_other hcan hb, neg_neg]

/-- **What a shift does**: it adds to every row what the marker would if it were raised, whichever
of the three branches is taken. -/
theorem Paired.get?_shift (h : t.Paired tag.marker tag.other) (hcan : t.Canonical) (δ : ℚ)
    (hb : t.rows.get? b = some row) :
    (t.shift tag δ).rows.get? b = some (row.addConstant (row.rate b tag.marker * δ)) := by
  unfold Tableau.shift
  cases hm : t.rows.get? tag.marker with
  | some own =>
    dsimp only
    rw [(t.setRowQueued_rest _ _).1, SymbolMap.get?_insert]
    by_cases hbm : b = tag.marker
    · subst hbm
      rw [hm] at hb
      cases hb
      rw [if_pos rfl, hcan.rate_self hm, neg_one_mul]
    · rw [if_neg hbm, hb, hcan.rate_basic (not_nonbasic_of_get? hm) hb (Ne.symm hbm), zero_mul,
        Row.addConstant_eq_self_iff.mpr rfl]
  | none =>
    dsimp only
    cases ho : t.rows.get? tag.other with
    | some own =>
      -- the marker is free and the other one is not, so it is the other one that carries
      have hcarries := h.carries_marker (not_nonbasic_of_get? ho)
      dsimp only
      rw [(t.setRowQueued_rest _ _).1, SymbolMap.get?_insert]
      by_cases hbo : b = tag.other
      · subst hbo
        rw [ho] at hb
        cases hb
        rw [if_pos rfl, hcarries.rate_carried ho, one_mul]
      · rw [if_neg hbo, hb, Row.rate_of_not_mentions (hcarries.others b row hb hbo)
          (hcarries.free.ne hb), zero_mul, Row.addConstant_eq_self_iff.mpr rfl]
    | none =>
      have hmb : tag.marker ≠ b := Nonbasic.ne hm hb
      have hrate : row.rate b tag.marker = row.coefficient tag.marker := by
        rw [Row.rate, if_neg hmb, sub_zero]
      dsimp only
      rw [SymbolMap.get?_map, hb, hrate, Option.map_some]
      by_cases hzero : row.coefficient tag.marker = 0
      · rw [shiftRow_of_coefficient_eq_zero hzero, hzero, zero_mul,
          Row.addConstant_eq_self_iff.mpr rfl]
      · have hbranch : (row.coefficient tag.marker != 0) = true := by
          show (!decide (row.coefficient tag.marker = 0)) = true
          rw [decide_eq_false hzero]
          rfl
        rw [shiftRow, if_pos hbranch, mul_comm]

/-- **The rows of `u` are those of `t` after the target of a tag rose by `δ`.**  Only constants
differ.  Each equation reads as before with the marker raised by `δ`, or with the other symbol
lowered by it, and those that depend on the one or the other, and no others, have changed. -/
structure Retargeted (t u : Tableau ℚ) (tag : Tag) (δ : ℚ) : Prop where
  absent : ∀ b, t.Nonbasic b → u.Nonbasic b
  row : ∀ b row, t.rows.get? b = some row → ∃ new, u.rows.get? b = some new ∧
    new.cells = row.cells ∧
    (∀ σ, new.residual b σ =
      row.residual b (Function.update σ tag.marker (σ tag.marker + δ))) ∧
    (∀ σ, new.residual b σ =
      row.residual b (Function.update σ tag.other (σ tag.other + -δ))) ∧
    (row.DependsOn b tag.marker ↔ row.DependsOn b tag.other) ∧
    (δ ≠ 0 → (new ≠ row ↔ row.DependsOn b tag.marker))

/-- **A shift by the tag of a pair moves its target.** -/
theorem Paired.retargeted_shift (h : t.Paired tag.marker tag.other) (hcan : t.Canonical) (δ : ℚ) :
    t.Retargeted (t.shift tag δ) tag δ := by
  refine ⟨fun b hb => nonbasic_of_cells (t.shift_cells tag δ).1 hb, fun b row hb => ?_⟩
  have hopposed := h.rate_other hcan hb
  refine ⟨_, h.get?_shift hcan δ hb, rfl, fun σ => ?_, fun σ => ?_, ?_, fun hδ => ?_⟩
  · rw [Row.residual_addConstant, Row.residual_update, add_sub_cancel_left]
  · rw [Row.residual_addConstant, Row.residual_update, add_sub_cancel_left, hopposed, neg_mul_neg]
  · rw [Row.dependsOn_iff, Row.dependsOn_iff, hopposed, neg_ne_zero]
  · rw [Row.dependsOn_iff, Ne, Row.addConstant_eq_self_iff, mul_eq_zero, or_iff_left hδ]

/-- A pair does not look at what is near zero. -/
theorem Paired.exact {t : Tableau Tolerant} (h : t.Paired m o) : t.exact.Paired m o := by
  have hcarries : ∀ {x y}, t.Carries x y → t.exact.Carries x y := fun h =>
    ⟨h.row, h.others, h.free⟩
  cases h with
  | free hm ho hrows => exact .free hm ho hrows
  | marker h => exact .marker (hcarries h)
  | other h => exact .other (hcarries h)

end Tableau

/-! ## 5. Any state -/

/-- A caller that leaves the constraints of edits alone makes calls like any other. -/
theorem Operated.attained {own : ConstraintId → Prop} {s : Solver α} (h : Operated own s) :
    Attained s := by
  induction h with
  | new config => exact .new config
  | call c _ _ ih => exact ih.call c

/-- **The two symbols of a soft constraint, in every state**, with a tolerance.  They are never both
basic.  While neither is, every row has opposite cells for them or neither cell, and if one is, the
other occurs in its row with coefficient one and in no other.  So a shift by their tag moves the
target and changes just the rows that depend on it.

Edits are among them.  An edit has the tag of a live soft constraint, and in the equation of that
constraint a higher target, a higher marker and a lower other symbol are the same. -/
theorem Attained.soft_tags_paired {s : Solver Tolerant} (h : Attained s) :
    (∀ id r, s.constraints.get? id = some r → r.priority.value < Priority.required.value →
      (s.tableau.Nonbasic r.tag.marker ∨ s.tableau.Nonbasic r.tag.other) ∧
      (s.tableau.Nonbasic r.tag.marker → s.tableau.Nonbasic r.tag.other →
        ∀ b row, s.tableau.rows.get? b = some row →
          row.cells.get? r.tag.other = (row.cells.get? r.tag.marker).map fun c => -c) ∧
      (∀ x y, x = r.tag.marker ∧ y = r.tag.other ∨ x = r.tag.other ∧ y = r.tag.marker →
        ∀ row, s.tableau.rows.get? x = some row → row.cells.get? y = some 1 ∧
          ∀ b other, s.tableau.rows.get? b = some other → b ≠ x → ¬ other.Mentions y) ∧
      ∀ δ, s.tableau.exact.Retargeted (s.tableau.shift r.tag δ).exact r.tag δ) ∧
    ∀ own, Operated own s → ∀ v d, s.edits.get? v = some d →
      ∃ id p, s.constraints.get? id = some ⟨d.tag, p⟩ ∧
        p.value < Priority.required.value ∧ d.constraint = Solver.editConstraint id v p ∧
        ∀ x k δ, x = d.tag.marker ∧ k = δ ∨ x = d.tag.other ∧ k = -δ → ∀ target ρ σ,
          (Form.edit v (target + δ)).expression.valueAt ρ +
              (⟨d.tag, p⟩ : ConstraintRecord).tagPart .equal σ =
            (Form.edit v target).expression.valueAt ρ +
              (⟨d.tag, p⟩ : ConstraintRecord).tagPart .equal (Function.update σ x (σ x + k)) := by
  have hcoupled := h.coupled
  refine ⟨fun id r hr hlt => ?_, fun own hown v d hd => ?_⟩
  · have hsoft : r.priority.isRequired = false := decide_eq_false (not_le.mpr hlt)
    have hpair := (hcoupled.twins id r hr hsoft).paired
    have hcan := (hcoupled.neat hr hsoft).canonical
    refine ⟨hpair.nonbasic_or, fun hm ho b row hb => hpair.opposed hm ho hb, fun x y hxy row hx => ?_,
      fun δ => hpair.exact.retargeted_shift hcan δ⟩
    have hcarries : s.tableau.Carries x y := by
      rcases hxy with ⟨rfl, rfl⟩ | ⟨rfl, rfl⟩
      · exact hpair.carries_other (Tableau.not_nonbasic_of_get? hx)
      · exact hpair.carries_marker (Tableau.not_nonbasic_of_get? hx)
    exact ⟨hcarries.get? hx, hcarries.others⟩
  · obtain ⟨id, p, -, hconstraint, -, hsoft, hr⟩ := hown.inStep.live hd
    have hne := (hcoupled.twins id _ hr hsoft).ne
    refine ⟨id, p, hr, not_le.mp (of_decide_eq_false hsoft), hconstraint,
      fun x k δ hx target ρ σ => ?_⟩
    rw [Form.valueAt_edit, Form.valueAt_edit, ConstraintRecord.tagPart_move hne hsoft hx]
    ring

/-- The bound `v >= 2` with a tolerance, and an edit that pulls `v` to zero. -/
def tolerantEdited : Solver Tolerant :=
  (((Solver.new : Solver Tolerant).perform (.add tolerantBound)).solver.perform
    (.edit ⟨1⟩ ⟨0⟩ .strong)).solver

/-- The same edit with the target five. -/
def tolerantPulled : Solver Tolerant :=
  (tolerantEdited.perform (.suggest ⟨0⟩ (Scalar.ofInt 5))).solver

/-- First the edit is not met, and its marker is basic: its row alone is shifted.  With the target
five it is met, both symbols are free, and the rows of `v` and of the slack of the bound have
opposite cells for them. -/
theorem tolerantPulled_soft_tags_paired :
    let tag : Tag := ⟨⟨3, .error⟩, ⟨4, .error⟩⟩
    (tolerantEdited.constraints.get? ⟨1⟩ = some ⟨tag, .strong⟩ ∧
      tolerantEdited.tableau.rows.keys = [⟨1, .external⟩, tag.marker] ∧
      (∀ row, tolerantEdited.tableau.rows.get? tag.marker = some row →
        row.cells.get? tag.other = some 1) ∧
      ∀ δ, tolerantEdited.tableau.exact.Retargeted (tolerantEdited.tableau.shift tag δ).exact
        tag δ) ∧
    tolerantPulled.constraints.get? ⟨1⟩ = some ⟨tag, .strong⟩ ∧
      tolerantPulled.tableau.rows.keys = [⟨1, .external⟩, ⟨2, .slack⟩] ∧
      (∀ b row, tolerantPulled.tableau.rows.get? b = some row →
        row.cells.get? tag.other = (row.cells.get? tag.marker).map fun c => -c) ∧
      (∀ δ, tolerantPulled.tableau.exact.Retargeted (tolerantPulled.tableau.shift tag δ).exact
        tag δ) ∧
      ∃ d id p, tolerantPulled.edits.get? ⟨0⟩ = some d ∧
        tolerantPulled.constraints.get? id = some ⟨d.tag, p⟩ ∧
        d.constraint = Solver.editConstraint id ⟨0⟩ p := by
  intro tag
  have hbegun : Operated (· = ⟨1⟩) tolerantEdited :=
    .call _ (.call _ (.new {}) (show (⟨0⟩ : ConstraintId) ≠ ⟨1⟩ by decide)) ⟨rfl, by decide +kernel⟩
  have hpulled : Operated (· = ⟨1⟩) tolerantPulled := .call _ hbegun trivial
  have hedited := hbegun.attained.soft_tags_paired.1
  obtain ⟨hsoft, hedits⟩ := hpulled.attained.soft_tags_paired
  have htag : tolerantEdited.constraints.get? ⟨1⟩ = some ⟨tag, .strong⟩ := by decide +kernel
  have htag' : tolerantPulled.constraints.get? ⟨1⟩ = some ⟨tag, .strong⟩ := by decide +kernel
  obtain ⟨-, -, hcarried, hshift⟩ := hedited _ _ htag (by decide)
  obtain ⟨-, hfree, -, hshift'⟩ := hsoft _ _ htag' (by decide)
  have hmarker : tolerantPulled.tableau.rows.get? tag.marker = none := by decide +kernel
  have hother : tolerantPulled.tableau.rows.get? tag.other = none := by decide +kernel
  have hlisted : (tolerantPulled.edits.get? ⟨0⟩).isSome := by decide +kernel
  obtain ⟨d, hd⟩ := Option.isSome_iff_exists.mp hlisted
  obtain ⟨id, p, hr, -, hconstraint, -⟩ := hedits _ hpulled _ d hd
  exact ⟨⟨htag, by decide +kernel, fun row hrow => (hcarried _ _ (.inl ⟨rfl, rfl⟩) row hrow).1,
    hshift⟩, htag', by decide +kernel, hfree hmarker hother, hshift',
    d, id, p, hd, hr, hconstraint⟩

end IncrementalSimplex
