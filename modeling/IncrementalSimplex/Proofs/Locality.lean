/-
# A call moves only what is tied to it

Two variables are TIED if both count in one constraint that is live, or in the constraint that is
being added (`Solver.Tied`).  A call touches the variables of its constraint, or its edit variable,
and what is connected to them by ties (`Solver.Touches`); every other variable keeps its value
(`Reached.value_eq_of_not_touches`).

A variable counts in a constraint if its terms do not cancel there.  That is the finest reading: a
variable whose coefficients add up to zero ties nothing, although its terms are written down.

**Rows cut like constraints do.**  What the call touches is closed under ties, so no live constraint
has variables on both sides.  The solutions of the tableau are those of the constraints, hence two of
them can be MIXED: take one on the touched side and the other on the rest.  A row that had a cell
on the other side would forbid that, since its free symbols may be set at will
(`Regular.separated_of_mixing`).  In the same way the row of a new constraint is over the touched side
(`Separated.within_of_agreement`).  So the symbols of that side are a region, and the call is confined
to it (`Separation`) as long as nothing is left to do elsewhere.  That is so because the calls before
ended in order: no restricted row is negative and no cost is (`Reached.calm`).
-/
import Mathlib.Algebra.BigOperators.Ring.Finset
import IncrementalSimplex.Proofs.Linearization
import IncrementalSimplex.Proofs.Redundancy
import IncrementalSimplex.Proofs.Separation

namespace IncrementalSimplex

/-! ## 1. Which variables count -/

namespace Expression

/-- The coefficient of a variable, all its terms together. -/
def coefficientOf (e : Expression ℚ) (v : Variable) : ℚ :=
  (e.terms.map fun t => if t.var = v then t.coefficient else 0).sum

/-- A variable that counts has a term with a coefficient other than zero. -/
theorem exists_term_of_coefficientOf_ne_zero {e : Expression ℚ} {v : Variable}
    (h : e.coefficientOf v ≠ 0) : ∃ t ∈ e.terms, t.var = v ∧ t.coefficient ≠ 0 := by
  by_contra hnone
  push Not at hnone
  refine h (List.sum_eq_zero fun q hq => ?_)
  obtain ⟨t, ht, rfl⟩ := List.mem_map.mp hq
  split
  · exact hnone t ht ‹_›
  · rfl

/-- Terms can be collected by variable. -/
theorem sum_terms (δ : Variable → ℚ) (ts : List (Term ℚ)) (vs : Finset Variable)
    (h : ∀ t ∈ ts, t.var ∈ vs) :
    (ts.map fun t => t.coefficient * δ t.var).sum =
      ∑ v ∈ vs, (ts.map fun t => if t.var = v then t.coefficient else 0).sum * δ v := by
  induction ts with
  | nil => simp
  | cons t ts ih =>
    have hone : ∑ v ∈ vs, (if t.var = v then t.coefficient else 0) * δ v =
        t.coefficient * δ t.var := by
      simp [ite_mul, h t List.mem_cons_self]
    simp only [List.map_cons, List.sum_cons, add_mul, Finset.sum_add_distrib, hone]
    rw [ih fun u hu => h u (List.mem_cons_of_mem t hu)]

/-- **The value of an expression depends on the variables that count**, and on no others. -/
theorem valueAt_congr_of_counts {e : Expression ℚ} {ρ τ : Variable → ℚ}
    (h : ∀ v, e.coefficientOf v ≠ 0 → ρ v = τ v) : e.valueAt ρ = e.valueAt τ := by
  have hmem : ∀ t ∈ e.terms, t.var ∈ (e.terms.map (·.var)).toFinset := fun t ht =>
    List.mem_toFinset.mpr (List.mem_map_of_mem ht)
  unfold valueAt
  rw [foldl_valueAt, foldl_valueAt, sum_terms ρ e.terms _ hmem, sum_terms τ e.terms _ hmem]
  congr 1
  refine Finset.sum_congr rfl fun v _ => ?_
  by_cases hv : e.coefficientOf v = 0
  · rw [coefficientOf] at hv
    rw [hv, zero_mul, zero_mul]
  · rw [h v hv]

end Expression

/-- The variable counts in the form. -/
def Form.Counts (f : Form) (v : Variable) : Prop := f.expression.coefficientOf v ≠ 0

/-- In the form of an edit its variable counts, and no other. -/
theorem Form.counts_edit {v w : Variable} {q : ℚ} : (Form.edit v q).Counts w ↔ w = v := by
  simp [Form.Counts, Form.edit, Expression.coefficientOf, Term.ofVariable, eq_comm]

/-! ## 2. Ties -/

/-- **What a call is about**: the variables of its constraints, or the variable under edit. -/
def Call.Concerns (v : Variable) : Call ℚ → Prop
  | .add c | .remove c => c.form.Counts v
  | .addAll cs | .removeAll cs => ∃ c ∈ cs, c.form.Counts v
  | .edit _ w _ | .unedit w | .suggest w _ => v = w
  | .reset => True

namespace Solver

variable {forms : ConstraintId → Form} {s u : Solver ℚ}

/-- **Two variables are tied** if they count in one live constraint, or in the one being added. -/
inductive Tied (forms : ConstraintId → Form) (s : Solver ℚ) (c : Call ℚ) :
    Variable → Variable → Prop
  | live {id : ConstraintId} {r : ConstraintRecord} {v w : Variable}
      (hr : s.constraints.get? id = some r) (hv : (forms id).Counts v) (hw : (forms id).Counts w) :
      Tied forms s c v w
  | added {d : Constraint ℚ} {v w : Variable} (hc : c = .add d) (hv : d.form.Counts v)
      (hw : d.form.Counts w) : Tied forms s c v w

/-- **What a call touches**: what it is about, and what is connected to that by ties. -/
def Touches (forms : ConstraintId → Form) (s : Solver ℚ) (c : Call ℚ) (v : Variable) : Prop :=
  ∃ w, c.Concerns w ∧ Relation.ReflTransGen (s.Tied forms c) w v

theorem Touches.of_concerns {c : Call ℚ} {v : Variable} (h : c.Concerns v) :
    s.Touches forms c v := ⟨v, h, .refl⟩

theorem Touches.tied {c : Call ℚ} {v w : Variable} (h : s.Touches forms c v)
    (htie : s.Tied forms c v w) : s.Touches forms c w := by
  obtain ⟨x, hx, hrun⟩ := h
  exact ⟨x, hx, hrun.tail htie⟩

/-- **No constraint crosses**: of a live constraint in `L` all variables are in `K`, of any other
none is. -/
def Uncrossed (forms : ConstraintId → Form) (s : Solver ℚ) (K : Variable → Prop)
    (L : ConstraintId → Prop) : Prop :=
  ∀ id r, s.constraints.get? id = some r → ∀ v, (forms id).Counts v → (K v ↔ L id)

/-- **What a call touches is not crossed**, together with the constraints that it reaches and any
whose variables it is about. -/
theorem uncrossed_touches (forms : ConstraintId → Form) (s : Solver ℚ) (c : Call ℚ)
    {P : ConstraintId → Prop} (hP : ∀ id r, s.constraints.get? id = some r → P id →
      ∀ v, (forms id).Counts v → c.Concerns v) :
    s.Uncrossed forms (s.Touches forms c) fun id =>
      P id ∨ ∃ v, (forms id).Counts v ∧ s.Touches forms c v := by
  intro id r hr v hv
  constructor
  · exact fun htouch => .inr ⟨v, hv, htouch⟩
  · rintro (hid | ⟨w, hw, htouch⟩)
    · exact .of_concerns (hP id r hr hid v hv)
    · exact htouch.tied (.live hr hw hv)

/-! ## 3. The symbols of a side -/

/-- **The region of some variables and constraints**: the names of the variables, taken from `u`,
the tags of the constraints, and whatever restricted symbol is yet to come. -/
def region (s : Solver ℚ) (K : Variable → Prop) (L : ConstraintId → Prop) (u : Solver ℚ)
    (x : Symbol) : Prop :=
  (∃ v, K v ∧ u.symbols.get? v = some x) ∨
    (∃ id r, L id ∧ s.constraints.get? id = some r ∧ r.tag.Has x) ∨
    (x.isRestricted ∧ s.counter < x.id)

variable {K : Variable → Prop} {L : ConstraintId → Prop}

/-- A name is in the region just if its variable is among those given. -/
theorem Records.region_name (h : s.Records forms) (hu : u.Names) {v : Variable} {x : Symbol}
    (hx : u.symbols.get? v = some x) : s.region K L u x ↔ K v := by
  have hext := Symbol.not_isRestricted_of_isExternal (hu.known v x hx).2
  constructor
  · rintro (⟨w, hw, hxw⟩ | ⟨id, r, -, hr, hhas⟩ | ⟨hres, -⟩)
    · exact hu.inj v w x hx hxw ▸ hw
    · exact absurd ((h.fits hr).restricted hhas) hext
    · exact absurd hres hext
  · exact fun hv => .inl ⟨v, hv, hx⟩

/-- A symbol of a tag is in the region just if its constraint is among those given. -/
theorem Records.region_tag (h : s.Records forms) (hu : u.Names) {id : ConstraintId}
    {r : ConstraintRecord} (hr : s.constraints.get? id = some r) {x : Symbol} (hx : r.tag.Has x) :
    s.region K L u x ↔ L id := by
  have hres := (h.fits hr).restricted hx
  constructor
  · rintro (⟨w, -, hxw⟩ | ⟨id', r', hid', hr', hhas⟩ | ⟨-, hlt⟩)
    · exact absurd hres (Symbol.not_isRestricted_of_isExternal (hu.known w x hxw).2)
    · exact h.disjoint hr hr' x hx hhas ▸ hid'
    · exact absurd (h.known hr x hx).2.1 (not_le.mpr hlt)
  · exact fun hid => .inr (.inl ⟨id, r, hid, hr, hx⟩)

end Solver

/-! ## 4. Mixing solutions -/

theorem ConstraintRecord.Fits.tagPart_congr {r : ConstraintRecord} {rel : Relation} (h : r.Fits rel)
    {σ τ : Assignment} (hστ : ∀ x, r.tag.Has x → σ x = τ x) :
    r.tagPart rel σ = r.tagPart rel τ := by
  have hmarker := hστ _ h.has_marker
  unfold ConstraintRecord.tagPart
  cases hreq : r.priority.isRequired with
  | true => simp [hmarker]
  | false => simp [hmarker, hστ _ (h.has_other hreq)]

namespace Solver

variable {forms : ConstraintId → Form} {s u : Solver ℚ} {σ τ : Assignment}

/-- An equation reads the names of the variables that count in it, and its tag. -/
theorem equates_congr {f : Form} {r : ConstraintRecord} (hfits : r.Fits f.relation)
    (hnames : ∀ v x, f.Counts v → s.symbols.get? v = some x → σ x = τ x)
    (htag : ∀ x, r.tag.Has x → σ x = τ x) : s.Equates f r σ ↔ s.Equates f r τ := by
  have hvalue : f.expression.valueAt (s.reading σ) = f.expression.valueAt (s.reading τ) := by
    refine Expression.valueAt_congr_of_counts fun v hv => ?_
    unfold reading
    cases hx : s.symbols.get? v with
    | none => rfl
    | some x => exact hnames v x hv hx
  unfold Equates
  rw [hvalue, hfits.tagPart_congr htag]

/-- **Two solutions can be mixed** along a border that no constraint crosses. -/
theorem Sound.exists_mixed (h : s.Sound forms) {K : Variable → Prop} {L : ConstraintId → Prop}
    (hcut : s.Uncrossed forms K L) (hgrows : s.Grows u) (hu : u.Names) (hσ : s.tableau.Solves σ)
    (hτ : s.tableau.Solves τ) : ∃ ρ : Assignment, s.tableau.Solves ρ ∧
      (∀ x, s.region K L u x → ρ x = σ x) ∧ ∀ x, ¬ s.region K L u x → ρ x = τ x := by
  classical
  refine ⟨fun x => if s.region K L u x then σ x else τ x, ?_, fun x hx => if_pos hx,
    fun x hx => if_neg hx⟩
  refine (h.presents.solves _).mpr fun id r hr => ?_
  have hname : ∀ v x, (forms id).Counts v → s.symbols.get? v = some x →
      (s.region K L u x ↔ L id) := fun v x hv hx =>
    (h.records.region_name hu (hgrows.symbols v x hx)).trans (hcut id r hr v hv)
  have htag : ∀ x, r.tag.Has x → (s.region K L u x ↔ L id) := fun x hx =>
    h.records.region_tag hu hr hx
  by_cases hid : L id
  · refine (equates_congr (h.records.fits hr) (fun v x hv hx => ?_) fun x hx => ?_).mpr
      ((h.presents.solves σ).mp hσ id r hr)
    · exact if_pos ((hname v x hv hx).mpr hid)
    · exact if_pos ((htag x hx).mpr hid)
  · refine (equates_congr (h.records.fits hr) (fun v x hv hx => ?_) fun x hx => ?_).mpr
      ((h.presents.solves τ).mp hτ id r hr)
    · exact if_neg fun hmem => hid ((hname v x hv hx).mp hmem)
    · exact if_neg fun hmem => hid ((htag x hx).mp hmem)

end Solver

namespace Tableau

variable {t : Tableau ℚ} {S : Symbol → Prop}

/-- **A tableau whose solutions can be mixed is separated.**  Raise one free symbol by one: a row
with a cell for it moves, and mixing with the point says that only its own side can. -/
theorem Regular.separated_of_mixing (h : t.Regular)
    (hmix : ∀ σ τ, t.Solves σ → t.Solves τ → ∃ ρ : Assignment, t.Solves ρ ∧
      (∀ x, S x → ρ x = σ x) ∧ ∀ x, ¬ S x → ρ x = τ x) : t.Separated S := by
  intro b row hrow x hx
  have hc := (h.reduced hrow).coefficient_ne_zero hx
  set up : Assignment := Function.update (fun _ => 0) x 1
  have hup : row.value up = row.constant + row.coefficient x := by
    rw [Row.value_update, Row.value_zero, sub_zero, mul_one]
  have hrest : ∀ y, y ≠ x → up y = 0 := fun y hyx => Function.update_of_ne hyx _ _
  obtain ⟨ρ, hρ, hin, hout⟩ := hmix (t.extend up) t.point (h.solves_extend _) h.solves_point
  by_cases hxS : S x
  · -- off the region `ρ` is at the point, and `x` is raised
    refine iff_of_true hxS (by_contra fun hb => hc ?_)
    have hfree : ∀ y, t.Nonbasic y → ρ y = up y := by
      intro y hy
      by_cases hyS : S y
      · rw [hin y hyS, extend_nonbasic hy]
      · have hyx : y ≠ x := fun heq => hyS (heq ▸ hxS)
        rw [hout y hyS, point_nonbasic hy, hrest y hyx]
    have hval := hρ b row hrow
    rw [hout b hb, point_basic hrow, Row.value_congr fun y hy => hfree y (h.rows hrow hy), hup]
      at hval
    linarith
  · -- in the region `b` is raised, and `x` is at zero
    refine iff_of_false hxS fun hb => hc ?_
    have hfree : ∀ y, t.Nonbasic y → ρ y = 0 := by
      intro y hy
      by_cases hyS : S y
      · have hyx : y ≠ x := fun heq => hxS (heq ▸ hyS)
        rw [hin y hyS, extend_nonbasic hy, hrest y hyx]
      · rw [hout y hyS, point_nonbasic hy]
    have hval := hρ b row hrow
    rw [hin b hb, extend_basic hrow, hup, Row.value_congr fun y hy => hfree y (h.rows hrow hy),
      Row.value_zero] at hval
    linarith

/-- **A row whose value depends on one side is over that side.** -/
theorem Separated.within_of_agreement (h : t.Separated S) (hcan : t.Canonical) {row : Row ℚ}
    (hfree : t.Free row) (hred : row.Reduced) (hval : ∀ σ τ, t.Solves σ → t.Solves τ →
      (∀ x, S x → σ x = τ x) → row.value σ = row.value τ) : row.Within S := by
  intro x hx
  by_contra hout
  have hagree : ∀ y, S y → t.extend (Function.update (fun _ => 0) x 1) y = t.point y := by
    intro y hy
    cases hrow : t.rows.get? y with
    | none =>
      have hyx : y ≠ x := fun heq => hout (heq ▸ hy)
      rw [extend_nonbasic hrow, point_nonbasic hrow, Function.update_of_ne hyx]
    | some other =>
      have habs : ¬ other.Mentions x := fun hmen => hout ((h y other hrow x hmen).mpr hy)
      rw [extend_basic hrow, point_basic hrow, Row.value_update, Row.value_zero,
        Row.coefficient_of_not_mentions habs, zero_mul, add_zero]
  have heq := hval _ _ (hcan.solves_extend _) hcan.solves_point hagree
  rw [hfree.value_extend, hfree.value_point, Row.value_update, Row.value_zero] at heq
  exact hred.coefficient_ne_zero hx (by linarith)

/-- With feasible rows and no negative cost there is nothing to do anywhere. -/
theorem Feasible.calmOutside (h : t.Feasible) (hset : t.Settled) (S : Symbol → Prop) :
    t.CalmOutside S where
  cost x _ hx := not_lt.mpr (hset x hx)
  constant b row _ hres hrow := not_lt.mpr (h b row hrow hres)

end Tableau

/-! ## 5. Calls on one side -/

namespace Solver

open Tableau (Confined)

variable {forms : ConstraintId → Form} {s u : Solver ℚ} {K : Variable → Prop}
  {L : ConstraintId → Prop}

/-- **The tableau is separated** where no constraint crosses. -/
theorem Sound.confined (h : s.Sound forms) (hcut : s.Uncrossed forms K L) (hgrows : s.Grows u)
    (hu : u.Names) : Confined (s.region K L u) s.tableau s.tableau :=
  .refl (h.presents.toRegular.separated_of_mixing fun _ _ => h.exists_mixed hcut hgrows hu)
    h.presents.noArtificial

/-- **A change in the region leaves the other variables alone.**  New names are young, so their
symbols had no row before. -/
theorem Sound.value_eq_of_confined (h : s.Sound forms) {w : Solver ℚ} (hu : u.Names)
    (hconf : Confined (s.region K L u) s.tableau w.tableau)
    (hold : ∀ v x, s.symbols.get? v = some x → w.symbols.get? v = some x)
    (hnew : ∀ v x, w.symbols.get? v = some x →
      u.symbols.get? v = some x ∧ (s.symbols.get? v = some x ∨ s.counter < x.id))
    {v : Variable} (hv : ¬ K v) : w.value v = s.value v := by
  have hrows : ∀ x, w.symbols.get? v = some x → w.symbolValue x = s.symbolValue x := by
    intro x hx
    have hout : ¬ s.region K L u x := fun hmem =>
      hv ((h.records.region_name hu (hnew v x hx).1).mp hmem)
    rw [symbolValue, hconf.rows x hout, symbolValue]
  unfold value
  cases hx : s.symbols.get? v with
  | some x =>
    rw [hold v x hx]
    exact hrows x (hold v x hx)
  | none =>
    cases hy : w.symbols.get? v with
    | none => rfl
    | some y =>
      have hyoung : s.counter < y.id := by
        rcases (hnew v y hy).2 with hy' | hlt
        · rw [hx] at hy'
          cases hy'
        · exact hlt
      have hnon : s.tableau.rows.get? y = none := nonbasic_of_lt h.numbered hyoung
      dsimp only
      rw [hrows y hy, symbolValue, hnon]

/-- **Adding a constraint** over `K` leaves the other variables alone. -/
theorem Sound.value_add (h : s.Sound forms) (hfeas : s.tableau.Feasible)
    (hset : s.tableau.Settled) {c : Constraint ℚ} (hcut : s.Uncrossed forms K L)
    (hc : ∀ v, c.form.Counts v → K v) {v : Variable} (hv : ¬ K v) :
    (s.add c).solver.value v = s.value v := by
  have heq := equation_encode h.names h.presents.toCanonical h.numbered c
  set e := s.encode c with he
  have hnew : ∀ x : Symbol, x.isRestricted → s.counter < x.id → s.region K L e.solver x :=
    fun x hres hlt => .inr (.inr ⟨hres, hlt⟩)
  have htag : ∀ x, e.tag.Has x → s.region K L e.solver x := fun x hx =>
    hnew x (heq.fits.restricted hx) (heq.fresh x hx).1
  have hbase := h.confined hcut heq.grows heq.names
  have hrow : e.row.Within (s.region K L e.solver) := by
    refine hbase.separated.within_of_agreement h.presents.toCanonical heq.free heq.reduced
      fun σ τ hσ hτ hagree => ?_
    obtain ⟨ε, -, hval, -⟩ := heq.value
    have hread : c.expression.valueAt (e.solver.reading σ) =
        c.expression.valueAt (e.solver.reading τ) := by
      refine Expression.valueAt_congr_of_counts fun w hw => ?_
      unfold reading
      cases hx : e.solver.symbols.get? w with
      | none => rfl
      | some x => exact hagree x (.inl ⟨w, hc w hw, hx⟩)
    rw [hval _ (.refl _) σ hσ, hval _ (.refl _) τ hτ, hread,
      heq.fits.tagPart_congr fun x hx => hagree x (htag x hx)]
  have hart : s.region K L e.solver ⟨e.solver.counter + 1, .slack⟩ :=
    hnew _ rfl (Nat.lt_succ_of_le heq.grows.counter)
  have hconf := confined_add hbase (hfeas.calmOutside hset _)
    (confined_encode hbase h.names h.presents.toCanonical h.numbered htag) hrow
    (htag _ heq.fits.has_marker) hart
  refine h.value_eq_of_confined heq.names hconf (fun w x hx => ?_) (fun w x hx => ?_) hv
  · rcases s.symbols_add c with hsame | hsame
    · rwa [hsame]
    · rw [hsame]
      exact heq.grows.symbols w x hx
  · rcases s.symbols_add c with hsame | hsame
    · rw [hsame] at hx
      exact ⟨heq.grows.symbols w x hx, .inl hx⟩
    · rw [hsame] at hx
      exact ⟨hx, heq.grows.young w x hx⟩

/-- **Removing a constraint** of `L` leaves the other variables alone. -/
theorem Sound.value_remove (h : s.Sound forms) (hfeas : s.tableau.Feasible)
    (hset : s.tableau.Settled) {c : Constraint ℚ} (hcut : s.Uncrossed forms K L) (hc : L c.id)
    {v : Variable} (hv : ¬ K v) : (s.remove c).solver.value v = s.value v := by
  have hconf := confined_remove (c := c) (h.confined hcut (.refl s) h.names)
    (hfeas.calmOutside hset _) fun r hr => by
      have htag : ∀ x, r.tag.Has x → s.region K L s x := fun x hx =>
        .inr (.inl ⟨c.id, r, hc, hr, hx⟩)
      refine ⟨htag _ (h.records.fits hr).has_marker, fun herr => htag _ ⟨?_, .inr rfl⟩⟩
      intro heq
      rw [heq] at herr
      cases herr
  have hsymbols := s.symbols_remove c
  refine h.value_eq_of_confined h.names hconf (fun w x hx => ?_) (fun w x hx => ?_) hv
  · rwa [hsymbols]
  · rw [hsymbols] at hx
    exact ⟨hx, .inl hx⟩

variable {book : ConstraintId → Origin}

/-- **Suggesting a value** for an edit of `L` leaves the other variables alone. -/
theorem Faithful.value_suggest (h : s.Faithful book) (hfeas : s.tableau.Feasible)
    (hset : s.tableau.Settled) {w : Variable} {x : ℚ} (hcut : s.Uncrossed (s.forms book) K L)
    (hedit : ∀ e, s.edits.get? w = some e → L e.constraint.id) {v : Variable} (hv : ¬ K v) :
    (s.suggest w x).solver.value v = s.value v := by
  have hconf := confined_suggest (v := w) (x := x) (h.sound.confined hcut (.refl s) h.sound.names)
    (hfeas.calmOutside hset _) fun e he => by
      obtain ⟨-, r, hr, htag, hsoft⟩ := h.tracks.live w e he
      have hfits := h.sound.records.fits hr
      have hmem : ∀ y, r.tag.Has y → s.region K L s y := fun y hy =>
        .inr (.inl ⟨_, r, hedit e he, hr, hy⟩)
      rw [← htag]
      refine ⟨hmem _ hfits.has_marker, hmem _ (hfits.has_other hsoft), ?_⟩
      rw [htag]
      exact (h.shift he x).1.sound.presents.queueRestricted
  have hsymbols : (s.suggest w x).solver.symbols = s.symbols := by
    unfold Solver.suggest
    cases s.edits.get? w with
    | none => rfl
    | some e => rfl
  refine h.sound.value_eq_of_confined h.sound.names hconf (fun w x hx => ?_) (fun w x hx => ?_) hv
  · rwa [hsymbols]
  · rw [hsymbols] at hx
    exact ⟨hx, .inl hx⟩

/-- **Ending an edit** of `L` leaves the other variables alone. -/
theorem Faithful.value_removeEdit (h : s.Faithful book) (hfeas : s.tableau.Feasible)
    (hset : s.tableau.Settled) {w : Variable} (hcut : s.Uncrossed (s.forms book) K L)
    (hedit : ∀ e, s.edits.get? w = some e → L e.constraint.id) {v : Variable} (hv : ¬ K v) :
    (s.removeEdit w).solver.value v = s.value v := by
  cases he : s.edits.get? w with
  | none =>
    rw [removeEdit_eq he]
    rfl
  | some e =>
    have hs : (s.unedited w).Sound (s.forms book) := h.sound.withEdits _
    rw [(removeEdit_of_edit he).1]
    exact hs.value_remove hfeas hset hcut (hedit e he) hv

/-- **Beginning an edit** of a variable of `K` leaves the other variables alone, unless its
constraint is recorded and then dropped, which takes a limit or a fault. -/
theorem Faithful.value_addEdit (h : s.Faithful book) (hfeas : s.tableau.Feasible)
    (hset : s.tableau.Settled) {id : ConstraintId} {w : Variable} (hb : book id = .edit w)
    (hnew : s.constraints.get? id = none) (p : Priority) (hlimit : ¬ (s.addEdit id w p).HitLimit)
    (hcut : s.Uncrossed (s.forms book) K L) (hw : K w) {v : Variable} (hv : ¬ K v) :
    (s.addEdit id w p).solver.value v = s.value v := by
  rcases h.addEdit_of_not_hitLimit hb hnew p hlimit with hsol | ⟨c, hid, hform, -, edits, hsol⟩
  · rw [hsol]
  · have hcounts : ∀ v, c.form.Counts v → K v := by
      intro v hcv
      rw [← hform, hid, Solver.forms, hb, Origin.form, Form.counts_edit] at hcv
      exact hcv ▸ hw
    rw [hsol]
    exact h.sound.value_add hfeas hset hcut hcounts hv

end Solver

/-! ## 6. Any call -/

/-- The call adds or removes several constraints. -/
def Call.isBatch {α : Type} : Call α → Bool
  | .addAll _ | .removeAll _ => true
  | _ => false

/-- **A call in order**: no batch, and ended neither by the limit on pivots nor by an internal
fault.  Other refusals are in order. -/
def Orderly (s : Solver ℚ) (c : Call ℚ) : Prop :=
  c.isBatch = false ∧ ¬ (s.perform c).HitLimit ∧
    ∀ fault, (s.perform c).outcome ≠ .error (.refused (.internal fault))

namespace Solver

variable {book : ConstraintId → Origin} {forms : ConstraintId → Form} {s : Solver ℚ}

/-- Adding leaves no negative cost, unless it is cut short. -/
theorem Sound.settled_add (h : s.Sound forms) {c : Constraint ℚ} (hform : forms c.id = c.form)
    (hset : s.tableau.Settled) (hlimit : ¬ (s.add c).HitLimit) :
    (s.add c).solver.tableau.Settled := by
  rcases h.add_outcome hform with ⟨-, hset', -⟩ | hout | ⟨error, -, htab, -⟩
  · exact hset'
  · exact absurd ⟨_, hout⟩ hlimit
  · rwa [htab]

/-- Nor does removing. -/
theorem Sound.settled_remove (h : s.Sound forms) {c : Constraint ℚ} (hset : s.tableau.Settled)
    (hlimit : ¬ (s.remove c).HitLimit) : (s.remove c).solver.tableau.Settled := by
  rcases h.remove_outcome c with ⟨hsol, -⟩ | ⟨-, hset'⟩ | hout
  · rwa [hsol]
  · exact hset'
  · exact absurd ⟨_, hout⟩ hlimit

theorem Faithful.settled_addEdit (h : s.Faithful book) {id : ConstraintId} {v : Variable}
    (hb : book id = .edit v) (hnew : s.constraints.get? id = none) (p : Priority)
    (hset : s.tableau.Settled) (hlimit : ¬ (s.addEdit id v p).HitLimit) :
    (s.addEdit id v p).solver.tableau.Settled := by
  rcases h.addEdit_of_not_hitLimit hb hnew p hlimit with hsol | ⟨c, -, hform, hadd, edits, hsol⟩
  · rwa [hsol]
  · rw [hsol]
    exact h.sound.settled_add hform hset hadd

theorem Faithful.settled_removeEdit (h : s.Faithful book) {v : Variable}
    (hset : s.tableau.Settled) (hlimit : ¬ (s.removeEdit v).HitLimit) :
    (s.removeEdit v).solver.tableau.Settled := by
  cases he : s.edits.get? v with
  | none =>
    rw [removeEdit_eq he]
    exact hset
  | some e =>
    have hs : (s.unedited v).Sound (s.forms book) := h.sound.withEdits _
    obtain ⟨hsol, hout⟩ := removeEdit_of_edit he
    rw [hsol]
    exact hs.settled_remove hset fun ⟨n, hn⟩ => hlimit ⟨n, hout.trans hn⟩

/-- **A call in order leaves the rows feasible and no negative cost.** -/
theorem Faithful.calm_perform (h : s.Faithful book) (hfeas : s.tableau.Feasible)
    (hset : s.tableau.Settled) {c : Call ℚ} (hc : c.Lawful book s) (horder : Orderly s c) :
    (s.perform c).solver.tableau.Feasible ∧ (s.perform c).solver.tableau.Settled := by
  obtain ⟨hbatch, hlimit, hfault⟩ := horder
  cases c with
  | add c =>
    have hform := s.forms_written hc
    exact ⟨(h.sound.add_frame hform).2.2.1 hfeas, h.sound.settled_add hform hset hlimit⟩
  | remove c =>
    exact ⟨(h.sound.remove_frame c).2.2.2.1 hfeas, h.sound.settled_remove hset hlimit⟩
  | addAll cs => cases hbatch
  | removeAll cs => cases hbatch
  | edit id v p =>
    exact ⟨h.feasible_addEdit hc.1 p hfeas, h.settled_addEdit hc.1 hc.2 p hset hlimit⟩
  | unedit v => exact ⟨h.feasible_removeEdit v hfeas, h.settled_removeEdit hset hlimit⟩
  | suggest v x =>
    obtain ⟨-, -, -, -, hset', hout⟩ := h.suggest v x
    rcases hout with ⟨-, hfeas'⟩ | hlim | ⟨hstuck, -⟩
    · exact ⟨hfeas' hfeas, hset' hset⟩
    · exact absurd ⟨_, hlim⟩ hlimit
    · exact absurd hstuck (hfault _)
  | reset => exact ⟨Tableau.atRest_empty.feasible, Tableau.atRest_empty.settled⟩

/-- **A call in order leaves alone what it does not touch.** -/
theorem Faithful.value_untouched (h : s.Faithful book) (hfeas : s.tableau.Feasible)
    (hset : s.tableau.Settled) {c : Call ℚ} (hc : c.Lawful book s) (horder : Orderly s c)
    {v : Variable} (hv : ¬ s.Touches (s.forms book) c v) :
    (s.perform c).solver.value v = s.value v := by
  obtain ⟨hbatch, hlimit, -⟩ := horder
  have hedit : ∀ w, c.Concerns w → ∀ e, s.edits.get? w = some e →
      ∃ v, (s.forms book e.constraint.id).Counts v ∧ s.Touches (s.forms book) c v := by
    intro w hw e he
    rw [h.tracks.forms_edit he]
    exact ⟨w, Form.counts_edit.mpr rfl, .of_concerns hw⟩
  have hcut := uncrossed_touches (s.forms book) s c (P := fun _ => False)
    fun _ _ _ hfalse => hfalse.elim
  cases c with
  | add c =>
    exact h.sound.value_add hfeas hset hcut (fun w hw => .of_concerns hw) hv
  | remove c =>
    have hcut := uncrossed_touches (s.forms book) s (.remove c) (P := (· = c.id))
      fun id r _ hid w hw => by
        rw [hid, s.forms_written hc] at hw
        exact hw
    exact h.sound.value_remove hfeas hset hcut (.inl rfl) hv
  | addAll cs => cases hbatch
  | removeAll cs => cases hbatch
  | edit id w p =>
    exact h.value_addEdit hfeas hset hc.1 hc.2 p hlimit hcut (.of_concerns rfl) hv
  | unedit w =>
    exact h.value_removeEdit hfeas hset hcut (fun e he => .inr (hedit w rfl e he)) hv
  | suggest w x =>
    exact h.value_suggest hfeas hset hcut (fun e he => .inr (hedit w rfl e he)) hv
  | reset => exact absurd (.of_concerns trivial) hv

end Solver

namespace Reached

variable {book : ConstraintId → Origin} {s : Solver ℚ}

/-- **After a course of calls in order there is nothing left to do.** -/
theorem calm (h : Reached book Orderly s τ) : s.tableau.Feasible ∧ s.tableau.Settled := by
  induction h with
  | new config => exact ⟨Tableau.atRest_empty.feasible, Tableau.atRest_empty.settled⟩
  | call c hreached lawful allowed ih =>
    exact hreached.faithful.1.calm_perform ih.1 ih.2 lawful allowed

/-- **Locality.**  After any course of calls in order, a call in order changes the value of no
variable but those of its constraint, or its edit variable, and what is connected to them by
ties. -/
theorem value_eq_of_not_touches (h : Reached book Orderly s τ) {c : Call ℚ} (hc : c.Lawful book s)
    (horder : Orderly s c) {v : Variable}
    (hv : ¬ s.Touches (fun id => (book id).form τ) c v) :
    (s.perform c).solver.value v = s.value v := by
  obtain ⟨hfeas, hset⟩ := h.calm
  rw [← h.forms_eq] at hv
  exact h.faithful.1.value_untouched hfeas hset hc horder hv

end Reached

/-! Two variables that were tied by `v == w`, with `w >= 3`; then the tie is removed. -/

/-- `v == w`. -/
def pairEqual : Constraint ℚ :=
  ⟨⟨0⟩, ⟨[.ofVariable ⟨0⟩, (Term.ofVariable ⟨1⟩).scale (-1)], 0⟩, .equal, .required⟩

/-- `w >= 3`. -/
def secondThree : Constraint ℚ := ⟨⟨1⟩, ⟨[.ofVariable ⟨1⟩], -3⟩, .atLeast, .required⟩

/-- `v >= 10`. -/
def firstTen : Constraint ℚ := ⟨⟨2⟩, ⟨[.ofVariable ⟨0⟩], -10⟩, .atLeast, .required⟩

def pairBook (id : ConstraintId) : Origin :=
  if id = ⟨0⟩ then .written pairEqual.form
  else if id = ⟨1⟩ then .written secondThree.form
  else .written firstTen.form

def joined : Solver ℚ := ((Solver.new : Solver ℚ).perform (.add pairEqual)).solver

def joinedThree : Solver ℚ := (joined.perform (.add secondThree)).solver

def parted : Solver ℚ := (joinedThree.perform (.remove pairEqual)).solver

/-- A call that succeeds is in order, unless it is a batch. -/
theorem Orderly.of_ok {s : Solver ℚ} {c : Call ℚ} (hbatch : c.isBatch = false)
    (hok : (s.perform c).outcome = .ok ()) : Orderly s c := by
  refine ⟨hbatch, ?_, fun fault hfault => ?_⟩
  · rintro ⟨n, hn⟩
    rw [hok] at hn
    cases hn
  · rw [hok] at hfault
    cases hfault

theorem reached_parted : Reached pairBook Orderly parted fun _ => 0 :=
  .call _ (.call _ (.call _ (.new {}) rfl (.of_ok rfl (by decide +kernel))) rfl
    (.of_ok rfl (by decide +kernel))) rfl (.of_ok rfl (by decide +kernel))

/-- Nothing ties `v` and `w` any more: of what is live, only `w` counts. -/
theorem parted_not_touches :
    ¬ parted.Touches (fun id => (pairBook id).form fun _ => 0) (.add firstTen) ⟨1⟩ := by
  have hten : ∀ v, firstTen.form.Counts v → v = ⟨0⟩ := by
    intro v hv
    obtain ⟨t, ht, rfl, -⟩ := Expression.exists_term_of_coefficientOf_ne_zero hv
    cases List.mem_singleton.mp ht
    rfl
  rintro ⟨w, hw, hrun⟩
  have hstays : ∀ v, Relation.ReflTransGen
      (parted.Tied (fun id => (pairBook id).form fun _ => 0) (.add firstTen)) w v → v = ⟨0⟩ := by
    intro v hv
    induction hv with
    | refl => exact hten w hw
    | tail _ htie ih =>
      cases htie with
      | added hc _ hv =>
        cases hc
        exact hten _ hv
      | @live id r _ _ hr hv _ =>
        have hlive : ∀ e ∈ parted.constraints.entries, e.1 = ⟨1⟩ := by decide +kernel
        have hid : id = ⟨1⟩ := hlive _ (Registry.mem_entries_iff.mpr hr)
        subst hid
        subst ih
        exact absurd (show secondThree.expression.coefficientOf ⟨0⟩ = 0 by decide +kernel) hv
  have := hstays ⟨1⟩ hrun
  cases this

/-- **Adding `v >= 10` leaves `w` at three** once the tie is gone; with the tie both go to ten. -/
theorem parted_value_add :
    Reached pairBook Orderly parted (fun _ => 0) ∧ Orderly parted (.add firstTen) ∧
      ¬ parted.Touches (fun id => (pairBook id).form fun _ => 0) (.add firstTen) ⟨1⟩ ∧
      (parted.perform (.add firstTen)).solver.value ⟨1⟩ = parted.value ⟨1⟩ ∧
      parted.value ⟨1⟩ = 3 ∧ (parted.perform (.add firstTen)).solver.value ⟨0⟩ = 10 ∧
      (joinedThree.perform (.add firstTen)).solver.value ⟨1⟩ = 10 := by
  have horder : Orderly parted (.add firstTen) := .of_ok rfl (by decide +kernel)
  exact ⟨reached_parted, horder, parted_not_touches,
    reached_parted.value_eq_of_not_touches (c := .add firstTen) rfl horder parted_not_touches,
    by decide +kernel, by decide +kernel, by decide +kernel⟩

end IncrementalSimplex
