/-
# Adding a constraint

An insertion goes through three hands: the constraint is encoded, its row is placed, and once it is
recorded the objective is minimized.  What the solver means changes exactly once, when the
constraint is recorded; the tableau then presents its equation already (`Placed`).

**A soft constraint always finds a place.**  Its two tag symbols have opposite coefficients, so one
of them is negative and can be solved for (`Equation.exists_subject`).  Hence a rejection concerns a
required constraint, which has charged nothing, and the tableau that is put back is the old one
(`Refused`).
-/
import IncrementalSimplex.Solver.Insertion
import IncrementalSimplex.Proofs.Meaning
import IncrementalSimplex.Proofs.PhaseOne

namespace IncrementalSimplex

/-! ## 1. The subject -/

/-- A symbol of the tag that can be solved for makes a subject. -/
theorem Encoding.exists_subject {α : Type} [Scalar α] {e : Encoding α} {x : Symbol}
    (hx : x = e.tag.marker ∨ x = e.tag.other) (hpivotable : x.isPivotable)
    (hneg : e.row.coefficient x < 0) : ∃ y, e.subject? = some y := by
  have hfound : ([e.tag.marker, e.tag.other].find?
      fun y => y.isPivotable && decide (e.row.coefficient y < 0)).isSome :=
    List.find?_isSome.mpr ⟨x, by simpa using hx, by simp [hpivotable, hneg]⟩
  obtain ⟨y, hy⟩ := Option.isSome_iff_exists.mp hfound
  unfold subject?
  rw [hy]
  cases e.row.firstExternal? with
  | some z => exact ⟨z, rfl⟩
  | none => exact ⟨y, rfl⟩

/-- A subject is an external symbol of the row or a symbol of the tag; so it is in the row if those
are. -/
theorem Encoding.mentions_of_subject?_of_tag {α : Type} [Scalar α] {e : Encoding α} {x : Symbol}
    (htag : ∀ y, e.tag.Has y → e.row.Mentions y) (h : e.subject? = some x) : e.row.Mentions x := by
  unfold subject? at h
  rcases Option.or_eq_some_iff.mp h with h | ⟨-, h⟩
  · exact Row.mem_keys_iff.mp (List.mem_of_find?_eq_some h)
  · have hpivotable := List.find?_some h
    refine htag x ⟨?_, by simpa using List.mem_of_find?_eq_some h⟩
    rintro rfl
    cases hpivotable

namespace Solver

variable {forms : ConstraintId → Form} {s : Solver ℚ} {c : Constraint ℚ} {e : Encoding ℚ}

/-- A subject is in the row, whatever the arithmetic. -/
theorem mentions_of_subject? {α : Type} [Scalar α] [Scalar.LawfulUnits α] {e : Encoding α}
    {x : Symbol} (h : e.subject? = some x) : e.row.Mentions x := by
  unfold Encoding.subject? at h
  rcases Option.or_eq_some_iff.mp h with h | ⟨-, h⟩
  · exact Row.mem_keys_iff.mp (List.mem_of_find?_eq_some h)
  · have hx := List.find?_some h
    rw [Bool.and_eq_true, decide_eq_true_eq] at hx
    exact Row.mentions_of_coefficient_neg hx.2

/-- It is an external symbol, or a tag symbol with a negative coefficient in a row without external
ones. -/
theorem of_subject? {α : Type} [Scalar α] {e : Encoding α} {x : Symbol}
    (h : e.subject? = some x) :
    x.isExternal ∨
      e.row.ExternalFree ∧ e.tag.Has x ∧ x.isPivotable ∧ e.row.coefficient x < 0 := by
  unfold Encoding.subject? at h
  rcases Option.or_eq_some_iff.mp h with h | ⟨hnone, h⟩
  · exact .inl (List.find?_some h)
  · have hx := List.find?_some h
    rw [Bool.and_eq_true, decide_eq_true_eq] at hx
    obtain ⟨hpiv, hneg⟩ := hx
    refine .inr ⟨fun y hy => ?_, ⟨?_, ?_⟩, hpiv, hneg⟩
    · have := List.find?_eq_none.mp hnone y (Row.mem_keys_iff.mpr hy)
      simpa [Symbol.isRestricted] using this
    · rintro rfl
      cases hpiv
    · simpa using List.mem_of_find?_eq_some h

theorem externalFree_of_subject?_eq_none {α : Type} [Scalar α] {e : Encoding α}
    (h : e.subject? = none) : e.row.ExternalFree := by
  intro y hy
  obtain ⟨hnone, -⟩ := Option.or_eq_none_iff.mp h
  have := List.find?_eq_none.mp hnone y (Row.mem_keys_iff.mpr hy)
  simpa [Symbol.isRestricted] using this

/-- A soft constraint's tag symbols stand against each other. -/
theorem otherUnit_eq_neg (rel : Relation) : (rel.otherUnit : ℚ) = -rel.markerUnit false := by
  cases rel <;> simp [Relation.otherUnit, Relation.markerUnit]

/-- **A soft constraint has a subject.** -/
theorem Equation.exists_subject (heq : s.Equation c e) (hsoft : c.priority.isRequired = false) :
    ∃ x, e.subject? = some x := by
  obtain ⟨ε, -, -, hmarker, hother⟩ := heq.value
  have hother := hother hsoft
  rw [hsoft] at hmarker
  obtain ⟨hmarkerKind, hotherKind⟩ := heq.fits.pivotable_of_soft hsoft
  -- the two coefficients are opposite, and not zero
  have hsum : e.row.coefficient e.tag.other = -e.row.coefficient e.tag.marker := by
    rw [hother, hmarker, otherUnit_eq_neg]
    ring
  rcases lt_or_gt_of_ne heq.marker_ne_zero with hneg | hpos
  · exact Encoding.exists_subject (.inl rfl) hmarkerKind hneg
  · exact Encoding.exists_subject (.inr rfl) hotherKind (by rw [hsum]; exact neg_neg_of_pos hpos)

/-! ## 2. Recording -/

variable {u : Solver ℚ}

/-- **The equation of an encoded constraint**, as any later state of the solver reads it. -/
theorem Equation.value_eq_zero_iff (heq : s.Equation c e) (hu : e.solver.Grows u)
    {σ : Assignment} (hσ : s.tableau.Solves σ) :
    e.row.value σ = 0 ↔ u.Equates c.form ⟨e.tag, c.priority⟩ σ := by
  obtain ⟨ε, hε, hval, -⟩ := heq.value
  have hne : ε ≠ 0 := by
    rcases hε with rfl | rfl <;> norm_num
  rw [hval u hu σ hσ, mul_eq_zero, or_iff_right hne]
  rfl

/-- The equations of older constraints are read as before. -/
theorem Records.equates_iff (h : s.Records forms) (hgrows : s.Grows u) {id : ConstraintId}
    {r : ConstraintRecord} (hr : s.constraints.get? id = some r) (σ : Assignment) :
    u.Equates (forms id) r σ ↔ s.Equates (forms id) r σ := by
  unfold Equates
  rw [Expression.valueAt_congr fun t ht htc => ?_]
  obtain ⟨x, hx⟩ := h.covers hr t ht htc
  rw [reading_of_get? hx, reading_of_get? (hgrows.symbols _ _ hx)]

theorem get?_record (u : Solver ℚ) (c : Constraint ℚ) (tag : Tag) (id : ConstraintId) :
    (u.record c tag).solver.constraints.get? id =
      if id = c.id then some ⟨tag, c.priority⟩ else u.constraints.get? id :=
  u.constraints.get?_insert c.id id _

/-- **Recording adds one equation.** -/
theorem Records.satisfies_record (h : s.Records forms) (heq : s.Encoded c e)
    (hu : e.solver.Grows u) (hnew : s.constraints.get? c.id = none)
    (hform : forms c.id = c.form) (σ : Assignment) :
    (u.record c e.tag).solver.Satisfies forms σ ↔
      s.Satisfies forms σ ∧ u.Equates c.form ⟨e.tag, c.priority⟩ σ := by
  have hgrows := heq.grows.trans hu
  constructor
  · intro hσ
    refine ⟨fun id r hr => ?_, ?_⟩
    · rw [← h.equates_iff hgrows hr]
      refine hσ id r ?_
      rw [get?_record, if_neg, hgrows.constraints, hr]
      rintro rfl
      rw [hnew] at hr
      cases hr
    · rw [← hform]
      exact hσ c.id _ (by rw [get?_record, if_pos rfl])
  · rintro ⟨hσ, hc⟩ id r hr
    rw [get?_record] at hr
    split at hr
    · rename_i hid
      cases hr
      rw [hid, hform]
      exact hc
    · rw [hgrows.constraints] at hr
      exact (h.equates_iff hgrows hr σ).mpr (hσ id r hr)

/-- **Recording adds one price.** -/
theorem cost_record (hcons : u.constraints = s.constraints) (tag : Tag)
    (hnew : s.constraints.get? c.id = none) (σ : Assignment) :
    (u.record c tag).solver.cost σ =
      s.cost σ + ConstraintRecord.penalty ⟨tag, c.priority⟩ σ := by
  show ((u.constraints.insert c.id _).entries.map _).sum = _
  rw [hcons, Registry.sum_insert hnew]
  rfl

/-- The registries fit together after recording. -/
theorem Records.record (h : s.Records forms) (heq : s.Equation c e) (hu : e.solver.Grows u)
    (hform : forms c.id = c.form) (hprice : 0 ≤ c.priority.value) :
    (u.record c e.tag).solver.Records forms := by
  have hgrows := heq.grows.trans hu
  have hget : ∀ {id r}, (u.record c e.tag).solver.constraints.get? id = some r →
      (id = c.id ∧ r = ⟨e.tag, c.priority⟩) ∨ s.constraints.get? id = some r := by
    intro id r hr
    rw [get?_record] at hr
    split at hr
    · rename_i hid
      cases hr
      exact .inl ⟨hid, rfl⟩
    · rw [hgrows.constraints] at hr
      exact .inr hr
  have hnew : ∀ {id r}, s.constraints.get? id = some r → ∀ x, r.tag.Has x → ¬ e.tag.Has x :=
    fun hr x hx hx' => (h.known hr x hx).ne_of_lt (heq.fresh x hx').1 rfl
  refine ⟨fun {id r} hr => ?_, fun {id r} hr x hx => ?_, fun {id r} hr => ?_,
    fun {id₁ r₁ id₂ r₂} h₁ h₂ x hx₁ hx₂ => ?_, fun {id r} hr t ht htc => ?_, fun {id r} hr => ?_⟩
  · rcases hget hr with ⟨rfl, rfl⟩ | hr
    · rw [hform]
      exact heq.fits
    · exact h.fits hr
  · rcases hget hr with ⟨rfl, rfl⟩ | hr
    · exact (heq.fresh x hx).2.mono hu.counter
    · exact (h.known hr x hx).mono hgrows.counter
  · rcases hget hr with ⟨rfl, rfl⟩ | hr
    · exact heq.marker_ne_other
    · exact h.apart hr
  · rcases hget h₁ with ⟨rfl, rfl⟩ | h₁
    · rcases hget h₂ with ⟨rfl, -⟩ | h₂
      · rfl
      · exact absurd hx₁ (hnew h₂ x hx₂)
    · rcases hget h₂ with ⟨rfl, rfl⟩ | h₂
      · exact absurd hx₂ (hnew h₁ x hx₁)
      · exact h.disjoint h₁ h₂ x hx₁ hx₂
  · rcases hget hr with ⟨rfl, rfl⟩ | hr
    · rw [hform] at ht
      obtain ⟨x, hx⟩ := heq.covers t ht htc
      exact ⟨x, hu.symbols _ _ hx⟩
    · obtain ⟨x, hx⟩ := h.covers hr t ht htc
      exact ⟨x, hgrows.symbols _ _ hx⟩
  · rcases hget hr with ⟨rfl, rfl⟩ | hr
    · exact hprice
    · exact h.priced hr

/-! ## 3. Placing -/

/-- **The row is in the tableau**: it presents the new equation and the new price, and is no worse
than it was. -/
structure Placed (forms : ConstraintId → Form) (s : Solver ℚ) (c : Constraint ℚ) (e : Encoding ℚ)
    (u : Solver ℚ) : Prop where
  grows : e.solver.Grows u
  symbols : u.symbols = e.solver.symbols
  presents : u.tableau.Presents (fun σ => s.Satisfies forms σ ∧ e.row.value σ = 0)
    (fun σ => s.cost σ + ConstraintRecord.penalty ⟨e.tag, c.priority⟩ σ)
  numbered : u.tableau.Over u.Knows
  feasible : s.tableau.Feasible → u.tableau.Feasible
  pure : s.tableau.DummyPure → u.tableau.DummyPure

/-- **The row is refused**: the constraint is required, the tableau is as it was, and either no
proper assignment satisfies the system and the row, or phase one was cut short. -/
structure Refused (forms : ConstraintId → Form) (s : Solver ℚ) (c : Constraint ℚ) (e : Encoding ℚ)
    (error : SolverError) (u : Solver ℚ) : Prop where
  grows : e.solver.Grows u
  symbols : u.symbols = e.solver.symbols
  tableau : u.tableau = s.tableau
  required : c.priority.isRequired = true
  reason : error = .iterationLimit s.config.maxIterations ∨
    error = .unsatisfiableConstraint c.id ∧ (s.tableau.Feasible → s.tableau.DummyPure →
      ∀ σ : Assignment, σ.Proper → ¬ (s.Satisfies forms σ ∧ e.row.value σ = 0))

/-- A new symbol is in no row. -/
theorem Sound.absent (h : s.Sound forms) {x : Symbol} (hx : s.counter < x.id) {b : Symbol}
    {row : Row ℚ} (hb : s.tableau.rows.get? b = some row) : ¬ row.Mentions x :=
  fun hmen => (h.numbered.rows hb hmen).ne_of_lt hx rfl

/-- **Placing a row under a symbol of its own.** -/
theorem Sound.placeBasic (h : s.Sound forms) (heq : s.Equation c e) {x : Symbol}
    (hmen : e.row.Mentions x)
    (hx : x.isExternal ∨ e.row.ExternalFree ∧ s.counter < x.id ∧
      0 ≤ -e.row.constant / e.row.coefficient x)
    (hdum : x.isDummy → e.row.constant = 0 ∧ ∀ y, e.row.Mentions y → y.isDummy) :
    (e.placeBasic x).outcome = .ok () ∧ s.Placed forms c e (e.placeBasic x).solver := by
  obtain ⟨solved, hsolved⟩ := Row.exists_solveFor? hmen
  have hc := heq.reduced.coefficient_ne_zero hmen
  have hconst := Row.constant_solveFor? hsolved hc
  have hmen' : ∀ {y}, solved.Mentions y → y ≠ x ∧ e.row.Mentions y :=
    (Row.mentions_solveFor? hsolved).mp
  have hfree : e.solver.tableau.Free e.row := heq.free_row
  have hrest : x.isRestricted → e.row.ExternalFree ∧ s.counter < x.id ∧
      0 ≤ -e.row.constant / e.row.coefficient x := by
    intro hres
    rcases hx with hext | hx
    · exact absurd hres (Symbol.not_isRestricted_of_isExternal hext)
    · exact hx
  have hpres := heq.presents h.presents
  have habs : x.isExternal ∨ ∀ b old, e.solver.tableau.rows.get? b = some old →
      ¬ old.Mentions x := by
    rcases hx with hext | ⟨-, hlt, -⟩
    · exact .inl hext
    · refine .inr fun b old hb => ?_
      rw [heq.rows] at hb
      exact h.absent hlt hb
  simp only [Encoding.placeBasic, hsolved]
  refine ⟨rfl, .of_le (le_refl _) _, rfl, hpres.enter (hfree x hmen) hfree
    heq.reduced hsolved (hx.imp_right And.left),
    heq.numbered.enter (heq.known x hmen) fun hy => heq.known _ (hmen' hy).2, fun hfeas => ?_,
    fun hpure => ?_⟩
  · refine (hfeas.of_rows heq.rows).enter_of_absent (fun hres => ?_) fun b old hb hres hold => ?_
    · rw [hconst]
      exact (hrest hres).2.2
    · rcases habs with hext | habs
      · exact (hpres.externalFree.rows hb hres).not_mentions hext hold
      · exact habs b old hb hold
  · cases hd : x.isDummy with
    | false => exact (hpure.of_rows heq.rows).enter hd
    | true =>
      obtain ⟨hzero, hall⟩ := hdum hd
      refine (hpure.of_rows heq.rows).enter_pure ?_ (fun y hy => hall y (hmen' hy).2) ?_
      · rw [hconst, hzero]
        simp
      · rcases habs with hext | habs
        · rw [Symbol.isDummy_of_isExternal hext] at hd
          cases hd
        · exact habs

/-- A new slack symbol and a row without external symbols make phase one possible. -/
theorem Equation.insertable (heq : s.Equation c e)
    (hext : e.row.ExternalFree) :
    e.solver.tableau.Insertable ⟨e.solver.counter + 1, .slack⟩ e.row where
  slack := rfl
  nonbasic := nonbasic_of_lt heq.numbered (Nat.lt_succ_self _)
  absent _ _ hb hmen := (heq.numbered.rows hb hmen).ne_of_lt (Nat.lt_succ_self _) rfl
  unpriced hmen := (heq.numbered.objective hmen).ne_of_lt (Nat.lt_succ_self _) rfl
  own hmen := (heq.known _ hmen).ne_of_lt (Nat.lt_succ_self _) rfl
  free := heq.free_row
  reduced := heq.reduced
  externalFree := hext

/-- The artificial symbol has no price. -/
theorem Sound.cost_update_artificial (h : s.Sound forms) (heq : s.Equation c e) (σ : Assignment)
    (q : ℚ) :
    s.cost (Function.update σ ⟨e.solver.counter + 1, .slack⟩ q) +
        ConstraintRecord.penalty ⟨e.tag, c.priority⟩
          (Function.update σ ⟨e.solver.counter + 1, .slack⟩ q) =
      s.cost σ + ConstraintRecord.penalty ⟨e.tag, c.priority⟩ σ := by
  have hp : (⟨e.solver.counter + 1, .slack⟩ : Symbol) ≠ .placeholder := fun h => by cases h
  rw [s.cost_update (fun id r hr hx => ?_) hp, ConstraintRecord.penalty_update (fun hx => ?_) hp]
  · exact (heq.fresh _ hx).2.ne_of_lt (Nat.lt_succ_self _) rfl
  · exact ((h.records.known hr _ hx).mono heq.grows.counter).ne_of_lt (Nat.lt_succ_self _) rfl

/-- **Placing a row through phase one.** -/
theorem Sound.placeArtificial (h : s.Sound forms) (heq : s.Equation c e)
    (hreq : c.priority.isRequired = true) (hext : e.row.ExternalFree)
    (hmove : ∃ y, e.row.Mentions y ∧ y.isDummy = false) :
    ((e.placeArtificial c.id).outcome = .ok () ∧
        s.Placed forms c e (e.placeArtificial c.id).solver) ∨
      ∃ error, (e.placeArtificial c.id).outcome = .error (.refused error) ∧
        s.Refused forms c e error (e.placeArtificial c.id).solver := by
  have hins := heq.insertable hext
  have hpres := heq.presents h.presents
  have hover : (e.solver.tableau.phaseOne e.solver.config.maxIterations
      ⟨e.solver.counter + 1, .slack⟩ e.row).tableau.Over
        ({ e.solver with counter := e.solver.counter + 1 } : Solver ℚ).Knows := by
    refine (heq.numbered.mono fun x hx => hx.mono (Nat.le_succ _)).phaseOne ?_
      (fun x hx => (heq.known x hx).mono (Nat.le_succ _)) _
    exact ⟨Nat.succ_pos _, le_refl _, fun h => by cases h⟩
  have hback : (⟨e.solver.tableau.rows, e.solver.tableau.objective, none,
      e.solver.tableau.infeasible⟩ : Tableau ℚ) = s.tableau := by
    rw [heq.unpaid hreq]
    have hart := h.presents.noArtificial
    cases htab : s.tableau
    rw [htab] at hart
    cases hart
    rfl
  rcases hpres.phaseOne hins (h.cost_update_artificial heq) e.solver.config.maxIterations with
    ⟨hout, hnew, hfeas, hpure⟩ | ⟨hout, hwhy⟩ | hout
  · refine .inl ?_
    unfold Encoding.placeArtificial
    dsimp only [newSymbol]
    rw [hout]
    exact ⟨rfl, .of_le (Nat.le_succ _) _, rfl, hnew, hover,
      fun ht => hfeas (ht.of_rows heq.rows) heq.nonneg, fun ht => hpure (ht.of_rows heq.rows)⟩
  · refine .inr ⟨.unsatisfiableConstraint c.id, ?_⟩
    unfold Encoding.placeArtificial
    dsimp only [newSymbol]
    rw [hout]
    refine ⟨rfl, .of_le (Nat.le_succ _) _, rfl, hback, hreq, .inr ⟨rfl, fun ht hpure => ?_⟩⟩
    exact hwhy (ht.of_rows heq.rows) heq.nonneg (hpure.of_rows heq.rows)
      (heq.numbered.mono fun x hx => hx.2.2) hmove fun y hy => (heq.known y hy).2.2
  · refine .inr ⟨.iterationLimit e.solver.config.maxIterations, ?_⟩
    unfold Encoding.placeArtificial
    dsimp only [newSymbol]
    rw [hout]
    refine ⟨rfl, .of_le (Nat.le_succ _) _, rfl, hback, hreq, .inl ?_⟩
    rw [heq.grows.config]

/-- **The row is placed or refused.** -/
theorem Sound.place (h : s.Sound forms) (heq : s.Equation c e) :
    ((e.place c.id).outcome = .ok () ∧ s.Placed forms c e (e.place c.id).solver) ∨
      ∃ error, (e.place c.id).outcome = .error (.refused error) ∧
        s.Refused forms c e error (e.place c.id).solver := by
  unfold Encoding.place Encoding.placement
  cases hsub : e.subject? with
  | some x =>
    have hx := of_subject? hsub
    refine .inl (h.placeBasic heq (mentions_of_subject? hsub) ?_ fun hdum => ?_)
    · refine hx.imp_right fun ⟨hext, htag, _, hneg⟩ => ⟨hext, (heq.fresh x htag).1, ?_⟩
      exact div_nonneg_of_nonpos (neg_nonpos.mpr heq.nonneg) hneg.le
    · have hnot : x.isDummy = false := by
        rcases hx with hx | ⟨-, -, hx, -⟩
        · exact Symbol.isDummy_of_isExternal hx
        · exact Symbol.isDummy_of_isPivotable hx
      rw [hnot] at hdum
      cases hdum
  | none =>
    have hext := externalFree_of_subject?_eq_none hsub
    have hreq : c.priority.isRequired = true := by
      cases hsoft : c.priority.isRequired with
      | true => rfl
      | false =>
        obtain ⟨x, hx⟩ := heq.exists_subject hsoft
        rw [hsub] at hx
        cases hx
    dsimp only
    cases hall : e.row.allDummies with
    | true =>
      have hdum : ∀ y, e.row.Mentions y → y.isDummy := fun y hy =>
        List.all_eq_true.mp hall y (Row.mem_keys_iff.mpr hy)
      rw [if_pos rfl]
      cases hzero : nearZero e.row.constant with
      | true =>
        have hz : e.row.constant = 0 := of_decide_eq_true hzero
        refine .inl (h.placeBasic heq (Row.mentions_of_coefficient_ne_zero heq.marker_ne_zero)
          (.inr ⟨hext, ?_, ?_⟩) fun _ => ⟨hz, hdum⟩)
        · exact (heq.fresh _ heq.fits.has_marker).1
        · rw [hz]
          simp
      | false =>
        have hz : e.row.constant ≠ 0 := of_decide_eq_false hzero
        refine .inr ⟨.unsatisfiableConstraint c.id, rfl, Grows.refl _,
          rfl, heq.unpaid hreq, hreq, .inr ⟨rfl, fun _ _ σ hσ hS => hz ?_⟩⟩
        rw [← hS.2, ← Row.value_zero]
        exact Row.value_congr fun y hy => (hσ.dummy y (hdum y hy)).symm
    | false =>
      rw [if_neg (by simp)]
      refine h.placeArtificial heq hreq hext ?_
      by_contra hnone
      have hdum : e.row.allDummies = true := List.all_eq_true.mpr fun y hy => by
        cases hd : y.isDummy with
        | true => rfl
        | false => exact absurd ⟨y, Row.mem_keys_iff.mp hy, hd⟩ hnone
      rw [hall] at hdum
      cases hdum

/-! ## 4. The call -/

/-- More symbols change nothing of what the live constraints mean. -/
theorem Sound.of_grows (h : s.Sound forms) (hgrows : s.Grows u) (hnames : u.Names)
    (htab : u.tableau = s.tableau) : u.Sound forms where
  presents := by
    rw [htab]
    refine h.presents.congr (fun σ => ?_) fun σ => ?_
    · unfold Satisfies
      rw [hgrows.constraints]
      exact forall_congr' fun id => forall_congr' fun r => imp_congr_right fun hr =>
        (h.records.equates_iff hgrows hr σ).symm
    · rw [cost, cost, hgrows.constraints]
  numbered := by
    rw [htab]
    exact h.numbered.mono fun x hx => hx.mono hgrows.counter
  names := hnames
  records := by
    have hget : ∀ {id r}, u.constraints.get? id = some r → s.constraints.get? id = some r := by
      intro id r hr
      rwa [hgrows.constraints] at hr
    refine ⟨fun hr => h.records.fits (hget hr), fun hr x hx =>
      (h.records.known (hget hr) x hx).mono hgrows.counter, fun hr => h.records.apart (hget hr),
      fun h₁ h₂ => h.records.disjoint (hget h₁) (hget h₂), fun hr t ht htc => ?_,
      fun hr => h.records.priced (hget hr)⟩
    obtain ⟨x, hx⟩ := h.records.covers (hget hr) t ht htc
    exact ⟨x, hgrows.symbols _ _ hx⟩

/-- **The constraint is live**, before the objective is minimized. -/
structure Inserted (forms : ConstraintId → Form) (s : Solver ℚ) (c : Constraint ℚ) (e : Encoding ℚ)
    (u : Solver ℚ) : Prop where
  sound : u.Sound forms
  config : u.config = s.config
  edits : u.edits = s.edits
  constraints : u.constraints = s.constraints.insert c.id ⟨e.tag, c.priority⟩
  symbols : ∀ v x, s.symbols.get? v = some x → u.symbols.get? v = some x
  feasible : s.tableau.Feasible → u.tableau.Feasible
  pure : s.tableau.DummyPure → u.tableau.DummyPure

theorem Sound.inserted (h : s.Sound forms) (heq : s.Equation c e) (hu : s.Placed forms c e u)
    (hnew : s.constraints.get? c.id = none) (hform : forms c.id = c.form)
    (hprice : 0 ≤ c.priority.value) : s.Inserted forms c e (u.record c e.tag).solver where
  sound := by
    refine ⟨hu.presents.congr (fun σ => ?_) fun σ => ?_, hu.numbered,
      heq.names.mono hu.symbols hu.grows.counter, h.records.record heq hu.grows hform hprice⟩
    · rw [h.records.satisfies_record heq.toEncoded hu.grows hnew hform]
      refine and_congr_right fun hσ => ?_
      exact heq.value_eq_zero_iff hu.grows ((h.presents.solves σ).mpr hσ)
    · exact (cost_record (hu.grows.constraints.trans heq.grows.constraints) e.tag hnew σ).symm
  config := hu.grows.config.trans heq.grows.config
  edits := hu.grows.edits.trans heq.grows.edits
  constraints := congrArg (·.insert c.id ⟨e.tag, c.priority⟩)
    (hu.grows.constraints.trans heq.grows.constraints)
  symbols := (heq.grows.trans hu.grows).symbols
  feasible := hu.feasible
  pure := hu.pure

/-- **Everything that adding a constraint can do.** -/
theorem Sound.add_cases (h : s.Sound forms) (hform : forms c.id = c.form) :
    (s.has c = true ∧ s.add c = .refused s (.duplicateConstraint c.id)) ∨
    (s.constraints.get? c.id = none ∧ c.priority.value < 0 ∧
      s.add c = .refused s (.negativePriority c.id)) ∨
    (s.constraints.get? c.id = none ∧ 0 ≤ c.priority.value ∧ s.Equation c (s.encode c) ∧
      ((∃ error, (s.add c).outcome = .error (.refused error) ∧
          s.Refused forms c (s.encode c) error (s.add c).solver) ∨
        ∃ u, s.Inserted forms c (s.encode c) u ∧ (s.add c).solver = u.optimize.solver ∧
          (s.add c).outcome = u.optimize.outcome)) := by
  unfold Solver.add
  cases hhas : s.has c with
  | true => exact .inl ⟨rfl, rfl⟩
  | false =>
    have hnew : s.constraints.get? c.id = none := by
      simpa [Solver.has, Registry.contains] using hhas
    rw [if_neg (by simp)]
    refine .inr ?_
    cases hneg : c.priority.isNegative with
    | true => exact .inl ⟨hnew, of_decide_eq_true hneg, rfl⟩
    | false =>
      have hprice : 0 ≤ c.priority.value := not_lt.mp (of_decide_eq_false hneg)
      have heq := equation_encode h.names h.presents.toCanonical h.numbered c
      rw [if_neg (by simp)]
      dsimp only
      generalize s.encode c = e at heq ⊢
      refine .inr ⟨hnew, hprice, heq, ?_⟩
      rcases h.place heq with ⟨hout, hplaced⟩ | ⟨error, hout, hrefused⟩
      · refine .inr ⟨((e.place c.id).solver.record c e.tag).solver,
          h.inserted heq hplaced hnew hform hprice, ?_, ?_⟩ <;>
          rw [Reply.andThen_of_ok hout, Reply.andThen_of_ok rfl] <;> rfl
      · refine .inl ⟨error, ?_, ?_⟩ <;>
          rw [Reply.andThen_of_error hout, Reply.andThen_of_error hout]
        · exact hout
        · exact hrefused

/-- **Adding a constraint keeps the solver sound**, however it ends. -/
theorem Sound.add (h : s.Sound forms) (hform : forms c.id = c.form) :
    (s.add c).solver.Sound forms := by
  rcases h.add_cases hform with ⟨-, heq⟩ | ⟨-, -, heq⟩ |
    ⟨-, -, henc, ⟨error, -, hu⟩ | ⟨u, hu, hsol, -⟩⟩
  · rw [heq]
    exact h
  · rw [heq]
    exact h
  · exact h.of_grows (henc.grows.trans hu.grows) (henc.names.mono hu.symbols hu.grows.counter)
      hu.tableau
  · rw [hsol]
    exact hu.sound.optimize.1

/-- **Adding leaves the edits and the other constraints alone**, and no row of the tableau becomes
infeasible, however it ends. -/
theorem Sound.add_frame (h : s.Sound forms) (hform : forms c.id = c.form) :
    (s.add c).solver.edits = s.edits ∧
      (∀ id, id ≠ c.id → (s.add c).solver.constraints.get? id = s.constraints.get? id) ∧
      (s.tableau.Feasible → (s.add c).solver.tableau.Feasible) ∧
      (s.tableau.DummyPure → (s.add c).solver.tableau.DummyPure) := by
  rcases h.add_cases hform with ⟨-, heq⟩ | ⟨-, -, heq⟩ |
    ⟨-, -, henc, ⟨error, -, hu⟩ | ⟨u, hu, hsol, -⟩⟩
  · rw [heq]
    exact ⟨rfl, fun _ _ => rfl, id, id⟩
  · rw [heq]
    exact ⟨rfl, fun _ _ => rfl, id, id⟩
  · have hgrows := henc.grows.trans hu.grows
    rw [hu.tableau]
    exact ⟨hgrows.edits, fun id _ => by rw [hgrows.constraints], id, id⟩
  · obtain ⟨-, hfeas, hpure, -⟩ := hu.sound.optimize
    rw [hsol]
    refine ⟨hu.edits, fun id hid => ?_, hfeas ∘ hu.feasible, hpure ∘ hu.pure⟩
    show u.constraints.get? id = _
    rw [hu.constraints, Registry.get?_insert, if_neg hid]

/-- **How adding ends**: the constraint is live and the objective minimized, or the limit was hit,
or there was a refusal that left the constraints and the tableau as they were. -/
theorem Sound.add_outcome (h : s.Sound forms) (hform : forms c.id = c.form) :
    ((s.add c).outcome = .ok () ∧ (s.add c).solver.tableau.Settled ∧
        ∃ tag, (s.add c).solver.constraints.get? c.id = some ⟨tag, c.priority⟩) ∨
      (s.add c).outcome = .error (.refused (.iterationLimit s.config.maxIterations)) ∨
      ∃ error, (s.add c).outcome = .error (.refused error) ∧
        (s.add c).solver.tableau = s.tableau ∧
        (s.add c).solver.constraints = s.constraints := by
  rcases h.add_cases hform with ⟨-, heq⟩ | ⟨-, -, heq⟩ |
    ⟨-, -, henc, ⟨error, hout, hu⟩ | ⟨u, hu, hsol, hout⟩⟩
  · rw [heq]
    exact .inr (.inr ⟨_, rfl, rfl, rfl⟩)
  · rw [heq]
    exact .inr (.inr ⟨_, rfl, rfl, rfl⟩)
  · exact .inr (.inr ⟨error, hout, hu.tableau, (henc.grows.trans hu.grows).constraints⟩)
  · rw [hsol, hout]
    rcases hu.sound.optimize.2.2.2 with ⟨hok, hset⟩ | hlimit
    · refine .inl ⟨hok, hset, (s.encode c).tag, ?_⟩
      show u.constraints.get? c.id = _
      rw [hu.constraints, Registry.get?_insert, if_pos rfl]
    · rw [hu.config] at hlimit
      exact .inr (.inl hlimit)

end Solver

end IncrementalSimplex
