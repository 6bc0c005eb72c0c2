/-
# Why a primal pass ends

A primal pass has a budget of pivots, so it ends in any case.  In the exact reading it ends for a
better reason.  From a canonical tableau with feasible rows it never comes back to a BASIS, a set of
basic symbols, that it has been at (`basis_ne_of_run`).  Over the symbols of the tableau there are
only so many sets of that size, and with a budget of as many pivots the limit is never reported
(`Canonical.minimize_ne_limit`).

**Nothing decreases.**  A pivot on a row at zero moves no symbol, and the objective stays what it
was; any number of such pivots may follow each other.  What keeps them from going round in a circle
is the order of the symbols, in two places: the symbol that enters is the FIRST with a negative
cost, and of the rows that reach zero together the one of the FIRST symbol leaves.

**The argument**, for a run that is back at the basis where it started (`Cycle`):

* A canonical tableau has one solution with the free symbols at zero, so the run ends with the
  solution it began with.  The objective never rises on the way, so it does not fall either, and
  then no symbol moves at all (`Cycle.point_eq`).
* A symbol that is basic here and free there enters in some round and leaves in another
  (`Cycle.exists_entering`, `Cycle.exists_leaving`), so it is no dummy and it is restricted.  Let `m`
  be the last such symbol.  It enters at `a`, and at `b` it leaves, when an earlier `e` enters.
* Raise `e` at `b`.  The objective falls, also as it is written at `a`; so a symbol `x` of that
  objective contributes to the fall.  It cannot be `e`, or any symbol before `m`, that has a negative
  cost at `a`, since `m` was the first.  It cannot be `m`, whose cost is negative and which falls.
  And it cannot be a symbol before `m` that falls: its row at `b` is at zero as that of `m` is, and
  it would have left in place of `m`.

External symbols and dummies play no part in this.  The first cannot leave and the second cannot
enter, and the argument never asks for more.
-/
import Mathlib.Data.Finset.Max
import Mathlib.Data.Finset.Powerset
import IncrementalSimplex.Proofs.PhaseOne

namespace IncrementalSimplex

/-! ## 1. Where a value falls -/

theorem SymbolMap.combination_le {σ τ : Assignment} : ∀ {l : List (Symbol × ℚ)},
    (∀ e ∈ l, 0 ≤ e.2 * (τ e.1 - σ e.1)) → combination σ l ≤ combination τ l
  | [], _ => le_refl _
  | e :: l, h => by
    have htail := combination_le fun f hf => h f (List.mem_cons_of_mem e hf)
    have hhead := h e List.mem_cons_self
    rw [mul_sub] at hhead
    rw [combination_cons, combination_cons]
    linarith

/-- **A value that falls, falls along one of the symbols of the row.** -/
theorem Row.exists_falling {r : Row ℚ} {σ τ : Assignment} (h : r.value τ < r.value σ) :
    ∃ x, r.Mentions x ∧ r.coefficient x * (τ x - σ x) < 0 := by
  by_contra hnone
  have hle : r.value σ ≤ r.value τ := by
    refine add_le_add (le_refl _) (SymbolMap.combination_le fun e he => ?_)
    have hget := SymbolMap.mem_entries_iff.mp he
    by_contra hneg
    rw [← coefficient_of_get? hget] at hneg
    exact hnone ⟨e.1, mentions_iff.mpr ⟨e.2, hget⟩, not_le.mp hneg⟩
  exact absurd h (not_lt.mpr hle)

namespace Tableau

/-! ## 2. One round -/

/-- **A solution with the free symbols at zero is the point.** -/
theorem Canonical.eq_point {t : Tableau ℚ} (h : t.Canonical) {σ : Assignment} (hσ : t.Solves σ)
    (hzero : ∀ x, t.Nonbasic x → σ x = 0) : σ = t.point := by
  funext x
  cases hrow : t.rows.get? x with
  | none => rw [hzero x hrow, point_nonbasic hrow]
  | some row =>
    have hval : row.value σ = row.value fun _ => 0 :=
      Row.value_congr fun y hy => hzero y (h.rows hrow hy)
    rw [hσ x row hrow, hval, Row.value_zero, point_basic hrow]

/-- An equivalent tableau has the same objectives, and they have the same values. -/
theorem Equivalent.objectiveOf? {t u : Tableau ℚ} (h : t.Equivalent u) (ht : t.Canonical)
    {goal : Goal} {objective : Row ℚ} (hobj : t.objectiveOf? goal = some objective) :
    ∃ new, u.objectiveOf? goal = some new ∧
      ∀ σ, t.Solves σ → new.value σ = objective.value σ := by
  cases goal with
  | main =>
    cases hobj
    exact ⟨u.objective, rfl, h.objective⟩
  | artificial =>
    have hart : t.artificial = some objective := hobj
    have hval := h.artificial
    simp only [hart, Option.map_some] at hval
    obtain ⟨new, hnew, -⟩ := Option.map_eq_some_iff.mp (hval _ ht.solves_point)
    refine ⟨new, hnew, fun σ hσ => ?_⟩
    have hσval := hval σ hσ
    rw [hnew] at hσval
    exact Option.some.inj hσval

/-- A round of the primal pass with its two symbols. -/
structure Round {α : Type} [Scalar α] (goal : Goal) (e l : Symbol) (t u : Tableau α) : Prop where
  enters : ∃ objective, t.objectiveOf? goal = some objective ∧ entering? objective = some e
  leaves : t.leaving? e = some l
  pivot : t.pivot ⟨e, l⟩ = .ok u

section Any

variable {α : Type} [Scalar α] {goal : Goal} {e l : Symbol} {t u : Tableau α}

theorem PrimalStep.exists_round (h : PrimalStep goal t u) : ∃ e l, Round goal e l t u := by
  obtain ⟨hobj, he, hl, hu⟩ := h
  exact ⟨_, _, ⟨_, hobj, he⟩, hl, hu⟩

theorem Round.step (h : Round goal e l t u) : PrimalStep goal t u := by
  obtain ⟨⟨_, hobj, he⟩, hl, hu⟩ := h
  exact .pivot hobj he hl hu

/-- The symbol that enters is no dummy. -/
theorem Round.not_dummy (h : Round goal e l t u) : e.isDummy = false := by
  obtain ⟨_, -, he⟩ := h.enters
  exact (of_entering? he).2.1

/-- The symbol that leaves is restricted. -/
theorem Round.restricted (h : Round goal e l t u) : l.isRestricted := by
  obtain ⟨-, -, hl, -⟩ := of_leaving? h.leaves
  exact hl

theorem Round.nonbasic_entering (h : Round goal e l t u) (ht : t.Canonical) : t.Nonbasic e := by
  obtain ⟨_, hobj, he⟩ := h.enters
  exact ht.objectiveOf? hobj _ (of_entering? he).1

/-- **What is free after a round**: the symbol that left, and what was free, but not the symbol that
entered. -/
theorem Round.nonbasic_iff (h : Round goal e l t u) {x : Symbol} :
    u.Nonbasic x ↔ x ≠ e ∧ (x = l ∨ t.Nonbasic x) := by
  obtain ⟨row, solved, -, -, rfl⟩ := pivot_cases h.pivot
  rw [nonbasic_enter]
  refine and_congr_right fun _ => ⟨fun hx => ?_, ?_⟩
  · by_cases hxl : x = l
    · exact .inl hxl
    · rw [Nonbasic, get?_dropRow, if_neg hxl] at hx
      exact .inr hx
  · rintro (rfl | hx)
    · exact nonbasic_dropRow_self _ _
    · exact nonbasic_dropRow hx

/-- A symbol that a round makes basic is the one that enters. -/
theorem Round.eq_entering (h : Round goal e l t u) {x : Symbol} (ht : t.Nonbasic x)
    (hu : ¬ u.Nonbasic x) : x = e := by
  by_contra hne
  exact hu (h.nonbasic_iff.mpr ⟨hne, .inr ht⟩)

/-- A symbol that a round makes free is the one that leaves. -/
theorem Round.eq_leaving (h : Round goal e l t u) {x : Symbol} (ht : ¬ t.Nonbasic x)
    (hu : u.Nonbasic x) : x = l := by
  rcases (h.nonbasic_iff.mp hu).2 with rfl | hx
  · rfl
  · exact absurd hx ht

end Any

/-- What a primal pass should start from, and what each of its rounds keeps: canonical form, and
restricted rows that are not negative. -/
structure Poised (t : Tableau ℚ) : Prop extends t.Canonical where
  feasible : t.Feasible

theorem Poised.step {goal : Goal} {t u : Tableau ℚ} (h : t.Poised) (hs : PrimalStep goal t u) :
    u.Poised := ⟨hs.canonical h.toCanonical, hs.feasible h.toCanonical h.feasible⟩

/-- A run keeps the system and the objectives. -/
theorem Poised.run {goal : Goal} {t u : Tableau ℚ} (h : t.Poised) (hrun : PrimalRun goal t u) :
    u.Poised ∧ t.Equivalent u := by
  refine keeps (P := fun u => u.Poised ∧ t.Equivalent u) (fun v w ⟨hv, hequiv⟩ hs => ?_) hrun
    ⟨h, .refl t⟩
  exact ⟨hv.step hs, hequiv.trans (PrimalStep.equivalent hv.toCanonical hs)⟩

/-- **A round moves the entering symbol up**, by a ratio that may be zero, and the basic symbols
along with it. -/
theorem Round.point_eq {goal : Goal} {e l : Symbol} {t u : Tableau ℚ} (h : Round goal e l t u)
    (ht : t.Poised) :
    ∃ θ, 0 ≤ θ ∧ u.point = t.extend (Function.update (fun _ => 0) e θ) := by
  obtain ⟨row, hrow, hres, hneg⟩ := of_leaving? h.leaves
  have he := h.nonbasic_entering ht.toCanonical
  refine ⟨-row.constant / row.coefficient e,
    div_nonneg_of_nonpos (neg_nonpos.mpr (ht.feasible l row hrow hres)) hneg.le, ?_⟩
  refine (Canonical.eq_point (ht.step h.step).toCanonical ?_ fun x hx => ?_).symm
  · exact ((PrimalStep.equivalent ht.toCanonical h.step).solves _).mpr
      (ht.toCanonical.solves_extend _)
  · obtain ⟨hxe, hx⟩ := h.nonbasic_iff.mp hx
    rcases hx with rfl | hx
    · rw [extend_basic hrow, Row.value_update, Row.value_zero, sub_zero,
        mul_div_cancel₀ _ hneg.ne, add_neg_cancel]
    · rw [extend_nonbasic hx, Function.update_of_ne hxe]

/-- **A round does not raise the objective**, and if it does not lower it either, nothing moves. -/
theorem Round.value_le {goal : Goal} {e l : Symbol} {t u : Tableau ℚ} (h : Round goal e l t u)
    (ht : t.Poised) {objective : Row ℚ} (hobj : t.objectiveOf? goal = some objective) :
    objective.value u.point ≤ objective.value t.point ∧
      (objective.value u.point = objective.value t.point → u.point = t.point) := by
  obtain ⟨θ, hθ, hpoint⟩ := h.point_eq ht
  obtain ⟨objective', hobj', he⟩ := h.enters
  cases hobj.symm.trans hobj'
  have hneg := (of_entering? he).2.2
  have hval : objective.value u.point = objective.value t.point + objective.coefficient e * θ := by
    have hfree := ht.toCanonical.objectiveOf? hobj
    rw [hpoint, hfree.value_extend, Row.value_update, hfree.value_point, Row.value_zero, sub_zero]
  refine ⟨?_, fun heq => ?_⟩
  · have := mul_nonpos_of_nonpos_of_nonneg hneg.le hθ
    linarith
  · have hprod : objective.coefficient e * θ = 0 := by linarith
    have hzero : θ = 0 := (mul_eq_zero.mp hprod).resolve_left (ne_of_lt hneg)
    rw [hpoint, hzero, Function.update_eq_self_iff.mpr rfl, point]

/-! ## 3. Cycles -/

/-- **A run that is back at the basis where it started.** -/
structure Cycle (goal : Goal) (s f : Tableau ℚ) : Prop where
  poised : s.Poised
  run : Relation.TransGen (PrimalStep goal) s f
  closed : ∀ x, f.Nonbasic x ↔ s.Nonbasic x

/-- A tableau on the way. -/
structure OnWay (goal : Goal) (s f v : Tableau ℚ) : Prop where
  since : PrimalRun goal s v
  till : PrimalRun goal v f

variable {goal : Goal} {s f v : Tableau ℚ}

/-- Along a run the objective that it starts with never rises, and where it has not fallen nothing
has moved. -/
theorem Poised.value_le_of_run (hs : s.Poised) {objective : Row ℚ}
    (hobj : s.objectiveOf? goal = some objective) (hv : PrimalRun goal s v) {w : Tableau ℚ}
    (hw : PrimalRun goal v w) :
    objective.value w.point ≤ objective.value v.point ∧
      (objective.value w.point = objective.value v.point → w.point = v.point) := by
  induction hw with
  | refl => exact ⟨le_refl _, fun _ => rfl⟩
  | @tail w w' hrun hstep ih =>
    obtain ⟨hle, hstays⟩ := ih
    obtain ⟨e, l, hround⟩ := hstep.exists_round
    obtain ⟨hw, hequiv⟩ := hs.run (hv.trans hrun)
    obtain ⟨new, hnew, hsame⟩ := hequiv.objectiveOf? hs.toCanonical hobj
    obtain ⟨hle', hstays'⟩ := hround.value_le hw hnew
    -- both points solve the first tableau, so its own objective has the same values there
    have hsolves : s.Solves w.point := (hequiv.solves _).mp hw.toCanonical.solves_point
    have hsolves' : s.Solves w'.point := by
      obtain ⟨hw', hequiv'⟩ := hs.run ((hv.trans hrun).tail hstep)
      exact (hequiv'.solves _).mp hw'.toCanonical.solves_point
    rw [hsame _ hsolves, hsame _ hsolves'] at hle' hstays'
    refine ⟨hle'.trans hle, fun heq => ?_⟩
    exact (hstays' (le_antisymm hle' (heq ▸ hle))).trans (hstays (le_antisymm hle (heq ▸ hle')))

namespace Cycle

theorem refl_run (h : Cycle goal s f) : PrimalRun goal s f := h.run.to_reflTransGen

/-- A cycle has an objective, since it makes a round. -/
theorem exists_objective (h : Cycle goal s f) :
    ∃ objective, s.objectiveOf? goal = some objective := by
  obtain ⟨v, hstep, -⟩ := Relation.TransGen.head'_iff.mp h.run
  obtain ⟨hobj, -, -, -⟩ := hstep
  exact ⟨_, hobj⟩

/-- **On a cycle nothing moves.** -/
theorem point_eq (h : Cycle goal s f) (hv : OnWay goal s f v) : v.point = s.point := by
  have hends : f.point = s.point := by
    obtain ⟨hf, hequiv⟩ := h.poised.run h.refl_run
    exact h.poised.toCanonical.eq_point ((hequiv.solves _).mp hf.toCanonical.solves_point)
      fun x hx => point_nonbasic ((h.closed x).mpr hx)
  obtain ⟨objective, hobj⟩ := h.exists_objective
  obtain ⟨hle, hstays⟩ := h.poised.value_le_of_run hobj .refl hv.since
  have hle' := (h.poised.value_le_of_run hobj hv.since hv.till).1
  rw [hends] at hle'
  exact hstays (le_antisymm hle hle')

end Cycle

/-- Where a property is lost on a run, some round loses it. -/
theorem exists_losing_step {P : Tableau ℚ → Prop} {w : Tableau ℚ} (hrun : PrimalRun goal v w)
    (hv : P v) (hw : ¬ P w) :
    ∃ a b, PrimalRun goal v a ∧ PrimalStep goal a b ∧ PrimalRun goal b w ∧ P a ∧ ¬ P b := by
  induction hrun with
  | refl => exact absurd hv hw
  | @tail b c hrun hstep ih =>
    by_cases hb : P b
    · exact ⟨b, c, hrun, hstep, .refl, hb, hw⟩
    · obtain ⟨a, a', ha, hs, ha', hPa, hPa'⟩ := ih hb
      exact ⟨a, a', ha, hs, ha'.tail hstep, hPa, hPa'⟩

/-- **What holds somewhere on the way and fails elsewhere, some round loses**, if the two ends agree:
it does so before it fails, or else after it held. -/
theorem OnWay.exists_losing_step {P : Tableau ℚ → Prop} (hends : P f ↔ P s) {w : Tableau ℚ}
    (hv : OnWay goal s f v) (hPv : P v) (hw : OnWay goal s f w) (hPw : ¬ P w) :
    ∃ a b, OnWay goal s f a ∧ OnWay goal s f b ∧ PrimalStep goal a b ∧ P a ∧ ¬ P b := by
  by_cases hs : P s
  · obtain ⟨a, b, ha, hstep, hb, hPa, hPb⟩ := Tableau.exists_losing_step hw.since hs hPw
    have htill := hb.trans hw.till
    exact ⟨a, b, ⟨ha, .head hstep htill⟩, ⟨ha.tail hstep, htill⟩, hstep, hPa, hPb⟩
  · have hf : ¬ P f := fun hf => hs (hends.mp hf)
    obtain ⟨a, b, ha, hstep, hb, hPa, hPb⟩ := Tableau.exists_losing_step hv.till hPv hf
    have hsince := hv.since.trans ha
    exact ⟨a, b, ⟨hsince, .head hstep hb⟩, ⟨hsince.tail hstep, hb⟩, hstep, hPa, hPb⟩

/-- **A symbol that is free in one tableau on the way and basic in another.** -/
def Fickle (goal : Goal) (s f : Tableau ℚ) (x : Symbol) : Prop :=
  (∃ v, OnWay goal s f v ∧ v.Nonbasic x) ∧ ∃ w, OnWay goal s f w ∧ ¬ w.Nonbasic x

namespace Cycle

/-- A fickle symbol enters somewhere, where it stops being free ... -/
theorem exists_entering (h : Cycle goal s f) {x : Symbol} (hx : Fickle goal s f x) :
    ∃ a b l, OnWay goal s f a ∧ OnWay goal s f b ∧ Round goal x l a b := by
  obtain ⟨⟨v, hv, hvx⟩, w, hw, hwx⟩ := hx
  obtain ⟨a, b, ha, hb, hstep, hax, hbx⟩ :=
    hv.exists_losing_step (P := fun t => t.Nonbasic x) (h.closed x) hvx hw hwx
  obtain ⟨e, l, hround⟩ := hstep.exists_round
  cases hround.eq_entering hax hbx
  exact ⟨a, b, l, ha, hb, hround⟩

/-- ... and leaves somewhere, where it stops being basic. -/
theorem exists_leaving (h : Cycle goal s f) {x : Symbol} (hx : Fickle goal s f x) :
    ∃ a b e, OnWay goal s f a ∧ OnWay goal s f b ∧ Round goal e x a b := by
  obtain ⟨⟨v, hv, hvx⟩, w, hw, hwx⟩ := hx
  obtain ⟨a, b, ha, hb, hstep, hax, hbx⟩ :=
    hw.exists_losing_step (P := fun t => ¬ t.Nonbasic x) (not_congr (h.closed x)) hwx hv
      (not_not.mpr hvx)
  obtain ⟨e, l, hround⟩ := hstep.exists_round
  cases hround.eq_leaving hax (not_not.mp hbx)
  exact ⟨a, b, e, ha, hb, hround⟩

/-- What enters on the way is fickle. -/
theorem fickle_entering (h : Cycle goal s f) {e l : Symbol} {a b : Tableau ℚ}
    (ha : OnWay goal s f a) (hb : OnWay goal s f b) (hround : Round goal e l a b) :
    Fickle goal s f e := by
  have hfree := hround.nonbasic_entering (h.poised.run ha.since).1.toCanonical
  exact ⟨⟨a, ha, hfree⟩, b, hb, fun hbe => (hround.nonbasic_iff.mp hbe).1 rfl⟩

end Cycle

/-! ## 4. The symbols of a tableau, and its basis -/

section Any

variable {α : Type}

/-- The basic symbols. -/
def basis (t : Tableau α) : Finset Symbol := t.rows.keys.toFinset

/-- **All symbols that occur**, as the key of a row or in a cell. -/
def vocabulary (t : Tableau α) : Finset Symbol :=
  (t.rows.keys ++ t.rows.entries.flatMap (fun e => e.2.cells.keys) ++ t.objective.cells.keys ++
    t.artificial.toList.flatMap (fun row => row.cells.keys)).toFinset

theorem mem_basis {t : Tableau α} {x : Symbol} : x ∈ t.basis ↔ ¬ t.Nonbasic x := by
  rw [basis, List.mem_toFinset, SymbolMap.mem_keys_iff, Nonbasic, Option.isSome_iff_ne_none]

theorem over_vocabulary (t : Tableau α) : t.Over (· ∈ t.vocabulary) where
  basic {b row} hb := by
    have : b ∈ t.rows.keys := SymbolMap.mem_keys_iff.mpr (by simp [hb])
    simp [vocabulary, this]
  rows {b row} hb x hx := by
    have hmem : (b, row) ∈ t.rows.entries := SymbolMap.mem_entries_iff.mpr hb
    have : ∃ b row, (b, row) ∈ t.rows.entries ∧ x ∈ row.cells.keys :=
      ⟨b, row, hmem, Row.mem_keys_iff.mpr hx⟩
    simp [vocabulary, this]
  objective hx := by simp [vocabulary, Row.mem_keys_iff.mpr hx]
  artificial ha x hx := by simp [vocabulary, ha, Row.mem_keys_iff.mpr hx]

theorem Over.basis_subset {t : Tableau α} {V : Finset Symbol} (h : t.Over (· ∈ V)) :
    t.basis ⊆ V := by
  intro x hx
  obtain ⟨row, hrow⟩ := Option.ne_none_iff_exists'.mp (mem_basis.mp hx)
  exact h.basic hrow

end Any

/-! ## 5. No cycle -/

namespace Cycle

/-- **There is a last fickle symbol**, since only symbols of the tableau are. -/
theorem exists_last (h : Cycle goal s f) :
    ∃ m, Fickle goal s f m ∧ ∀ x, Fickle goal s f x → x = m ∨ x < m := by
  classical
  have hvoc : ∀ x, Fickle goal s f x → x ∈ s.vocabulary := by
    rintro x ⟨-, w, hw, hwx⟩
    have hover : w.Over (· ∈ s.vocabulary) :=
      keeps (P := Over (· ∈ s.vocabulary)) (fun _ _ ht hs => PrimalStep.over ht hs) hw.since
        s.over_vocabulary
    exact hover.basis_subset (mem_basis.mpr hwx)
  obtain ⟨v, hstep, hrest⟩ := Relation.TransGen.head'_iff.mp h.run
  obtain ⟨e, l, hround⟩ := hstep.exists_round
  have he := h.fickle_entering ⟨.refl, h.refl_run⟩ ⟨.single hstep, hrest⟩ hround
  obtain ⟨m, hm, hmax⟩ := Finset.exists_max_image (s.vocabulary.filter (Fickle goal s f))
    Symbol.rank ⟨e, Finset.mem_filter.mpr ⟨hvoc e he, he⟩⟩
  refine ⟨m, (Finset.mem_filter.mp hm).2, fun x hx => ?_⟩
  by_cases hxm : x = m
  · exact .inl hxm
  · have hle := hmax x (Finset.mem_filter.mpr ⟨hvoc x hx, hx⟩)
    exact .inr (lt_of_le_of_ne hle fun heq => hxm (Symbol.rank_inj heq))

/-- A fickle symbol that is free somewhere on the way is at zero everywhere. -/
theorem constant_eq_zero (h : Cycle goal s f) {a b : Tableau ℚ} (ha : OnWay goal s f a)
    (hb : OnWay goal s f b) {x : Symbol} {row : Row ℚ} (hax : a.Nonbasic x)
    (hbx : b.rows.get? x = some row) : row.constant = 0 := by
  rw [← point_basic hbx, h.point_eq hb, ← h.point_eq ha, point_nonbasic hax]

/-- Raising the symbol that enters at `b` lowers the objective, also as it is written at `a`. -/
theorem value_raised_lt (h : Cycle goal s f) {a b b' : Tableau ℚ} (ha : OnWay goal s f a)
    (hb : OnWay goal s f b) {e l : Symbol} (hround : Round goal e l b b') {costa : Row ℚ}
    (hcosta : a.objectiveOf? goal = some costa) :
    costa.value (b.extend (Function.update (fun _ => 0) e 1)) < costa.value b.point := by
  obtain ⟨-, hequiva⟩ := h.poised.run ha.since
  obtain ⟨hposb, hequivb⟩ := h.poised.run hb.since
  obtain ⟨start, hstart⟩ := h.exists_objective
  obtain ⟨costb, hcostb, hentere⟩ := hround.enters
  obtain ⟨newa, hnewa, hvala⟩ := hequiva.objectiveOf? h.poised.toCanonical hstart
  obtain ⟨newb, hnewb, hvalb⟩ := hequivb.objectiveOf? h.poised.toCanonical hstart
  cases hcosta.symm.trans hnewa
  cases hcostb.symm.trans hnewb
  have hup : s.Solves (b.extend (Function.update (fun _ => 0) e 1)) :=
    (hequivb.solves _).mp (hposb.toCanonical.solves_extend _)
  have hpt : s.Solves b.point := (hequivb.solves _).mp hposb.toCanonical.solves_point
  have hfree := hposb.toCanonical.objectiveOf? hcostb
  have hneg := (of_entering? hentere).2.2
  rw [hvala _ hup, hvala _ hpt, ← hvalb _ hup, ← hvalb _ hpt, hfree.value_extend,
    Row.value_update, hfree.value_point, Row.value_zero, sub_zero, mul_one]
  linarith

/-- **There is no cycle.** -/
theorem elim (h : Cycle goal s f) : False := by
  obtain ⟨m, hm, hlast⟩ := h.exists_last
  obtain ⟨a, a', l, ha, -, henter⟩ := h.exists_entering hm
  obtain ⟨b, b', e, hb, hb', hleave⟩ := h.exists_leaving hm
  have hcana := (h.poised.run ha.since).1.toCanonical
  have hcanb := (h.poised.run hb.since).1.toCanonical
  obtain ⟨rowm, hrowm, -, hnegm⟩ := of_leaving? hleave.leaves
  have ham := henter.nonbasic_entering hcana
  have hbe := hleave.nonbasic_entering hcanb
  obtain ⟨costa, hcosta, henterm⟩ := henter.enters
  -- `e` rises by one at `b`
  set up : Assignment := b.extend (Function.update (fun _ => 0) e 1)
  have hfall : costa.value up < costa.value b.point := h.value_raised_lt ha hb hleave hcosta
  obtain ⟨x, hxa, hx⟩ := Row.exists_falling hfall
  have hax := hcana.objectiveOf? hcosta x hxa
  -- before `m` no cost is negative at `a`
  have hcost : ∀ y, Fickle goal s f y → y < m → 0 ≤ costa.coefficient y := by
    intro y hy hym
    obtain ⟨_, _, _, -, -, hround⟩ := h.exists_entering hy
    exact nonneg_of_lt_entering? henterm hround.not_dummy hym
  cases hbx : b.rows.get? x with
  | none =>
    have hupx : up x = Function.update (fun _ => (0 : ℚ)) e 1 x := extend_nonbasic hbx _
    rw [hupx, point_nonbasic hbx, sub_zero] at hx
    by_cases hxe : x = e
    · subst hxe
      have hfickle := h.fickle_entering hb hb' hleave
      have hlt : x < m := (hlast x hfickle).resolve_left (hbe.ne hrowm)
      rw [Function.update_self, mul_one] at hx
      exact absurd hx (not_lt.mpr (hcost x hfickle hlt))
    · rw [Function.update_of_ne hxe, mul_zero] at hx
      exact lt_irrefl _ hx
  | some row =>
    have hupx : up x = row.constant + row.coefficient e := by
      refine (extend_basic hbx _).trans ?_
      rw [Row.value_update, Row.value_zero, sub_zero, mul_one]
    rw [hupx, point_basic hbx, add_sub_cancel_left] at hx
    have hfickle : Fickle goal s f x := ⟨⟨a, ha, hax⟩, b, hb, not_nonbasic_of_get? hbx⟩
    rcases hlast x hfickle with rfl | hlt
    · -- the cost of `m` is negative and `m` falls
      cases hrowm.symm.trans hbx
      have hnega : costa.coefficient x < 0 := (of_entering? henterm).2.2
      exact absurd hx (not_lt.mpr (mul_pos_of_neg_of_neg hnega hnegm).le)
    · -- `x` falls before `m` and from zero, so it would have left
      have hneg : row.coefficient e < 0 := by
        by_contra hge
        exact absurd hx (not_lt.mpr (mul_nonneg (hcost x hfickle hlt) (not_lt.mp hge)))
      obtain ⟨_, _, _, -, -, hround⟩ := h.exists_leaving hfickle
      have hratio := leaving?_lt hleave.leaves hrowm x row hbx hround.restricted hneg hlt
      rw [h.constant_eq_zero ha hb hax hbx, h.constant_eq_zero ha hb ham hrowm] at hratio
      simp at hratio

end Cycle

/-- **A run never comes back to a basis.** -/
theorem basis_ne_of_run (hs : s.Poised) (hrun : Relation.TransGen (PrimalStep goal) s f) :
    f.basis ≠ s.basis := by
  intro heq
  have hcycle : Cycle goal s f := by
    refine ⟨hs, hrun, fun x => ?_⟩
    rw [← not_iff_not, ← mem_basis, ← mem_basis, heq]
  exact hcycle.elim

/-! ## 6. How many bases there are -/

/-- A round keeps the number of basic symbols. -/
theorem PrimalStep.card_basis {α : Type} [Scalar α] {t u : Tableau α} (ht : t.Canonical)
    (h : PrimalStep goal t u) : u.basis.card = t.basis.card := by
  obtain ⟨e, l, hround⟩ := h.exists_round
  obtain ⟨row, hrow, -⟩ := of_leaving? hround.leaves
  have he : e ∉ t.basis := fun he => mem_basis.mp he (hround.nonbasic_entering ht)
  have hl : l ∈ t.basis := mem_basis.mpr (not_nonbasic_of_get? hrow)
  have heq : u.basis = insert e (t.basis.erase l) := by
    ext x
    rw [mem_basis, hround.nonbasic_iff, Finset.mem_insert, Finset.mem_erase, mem_basis]
    tauto
  rw [heq, Finset.card_insert_of_notMem fun hmem => he (Finset.mem_of_mem_erase hmem),
    Finset.card_erase_of_mem hl]
  have := Finset.card_pos.mpr ⟨l, hl⟩
  omega

/-- How many sets of symbols have the size of the basis. -/
def basisBound (t : Tableau ℚ) : ℕ := t.vocabulary.card.choose t.basis.card

/-- A run stays among these sets. -/
theorem Poised.basis_mem_of_run (hs : s.Poised) (hrun : PrimalRun goal s v) :
    v.basis ∈ s.vocabulary.powersetCard s.basis.card := by
  have hkept : v.Poised ∧ v.Over (· ∈ s.vocabulary) ∧ v.basis.card = s.basis.card := by
    refine keeps (P := fun v => v.Poised ∧ v.Over (· ∈ s.vocabulary) ∧
      v.basis.card = s.basis.card) ?_ hrun ⟨hs, s.over_vocabulary, rfl⟩
    rintro t u ⟨ht, hover, hcard⟩ hstep
    exact ⟨ht.step hstep, hstep.over hover, (hstep.card_basis ht.toCanonical).trans hcard⟩
  exact Finset.mem_powersetCard.mpr ⟨hkept.2.1.basis_subset, hkept.2.2⟩

/-! ## 7. The pass -/

section Any

variable {α : Type} [Scalar α]

/-- **The tableaus that a list of pivots visits**, the first one included. -/
def visited (t : Tableau α) : List Pivot → List (Tableau α)
  | [] => [t]
  | p :: rest =>
    match t.pivot p with
    | .ok u => t :: u.visited rest
    | .error _ => [t]

/-- What the pivots of a primal pass tell of it: they can all be made, each tableau is reached from
those before it, the last one is where the pass ends, and the pass only reports its limit when there
are as many pivots as its budget. -/
structure Traced (goal : Goal) (budget : ℕ) (t : Tableau α) (pass : Pass α Unit) : Prop where
  length : (t.visited pass.pivots).length = pass.pivots.length + 1
  mem : ∀ v ∈ t.visited pass.pivots, PrimalRun goal t v
  pairwise : (t.visited pass.pivots).Pairwise (Relation.TransGen (PrimalStep goal))
  last : (t.visited pass.pivots).getLast?.map (·.rows) = some pass.tableau.rows
  spent : ∀ n, pass.outcome = .error (.refused (.iterationLimit n)) → pass.pivots.length = budget

/-- A pass that makes a round first. -/
theorem Traced.after {goal : Goal} {budget : ℕ} {t u : Tableau α} {pass : Pass α Unit} {p : Pivot}
    (h : Traced goal budget u pass) (hstep : PrimalStep goal t u) (hu : t.pivot p = .ok u) :
    Traced goal (budget + 1) t (pass.after p) := by
  have hvisited : t.visited (pass.after p).pivots = t :: u.visited pass.pivots := by
    simp [Pass.after, visited, hu]
  refine ⟨?_, ?_, ?_, ?_, fun n hn => congrArg (· + 1) (h.spent n hn)⟩
  · rw [hvisited, List.length_cons, h.length]
    rfl
  · rw [hvisited]
    intro v hv
    rcases List.mem_cons.mp hv with rfl | hv
    · exact .refl
    · exact .head hstep (h.mem v hv)
  · rw [hvisited]
    exact List.pairwise_cons.mpr ⟨fun v hv => .head' hstep (h.mem v hv), h.pairwise⟩
  · rw [hvisited, List.getLast?_cons_of_ne_nil, h.last]
    · rfl
    · intro hnil
      have := h.length
      simp [hnil] at this

/-- **Every primal pass is told by its pivots.** -/
theorem traced_minimizeWithin (limit : ℕ) (goal : Goal) : ∀ (budget : ℕ) (t : Tableau α),
    Traced goal budget t (t.minimizeWithin limit goal budget) := by
  have hends : ∀ {budget : ℕ} {t : Tableau α} {pass : Pass α Unit}, pass.pivots = [] →
      t.rows = pass.tableau.rows →
      (∀ n, pass.outcome = .error (.refused (.iterationLimit n)) → budget = 0) →
      Traced goal budget t pass := by
    intro budget t pass hnil hrows hspent
    refine ⟨?_, ?_, ?_, ?_, fun n hn => ?_⟩
    · simp [hnil, visited]
    · intro v hv
      rw [hnil, visited, List.mem_singleton] at hv
      rw [hv]
    · simp [hnil, visited]
    · simp [hnil, visited, hrows]
    · rw [hnil, hspent n hn]
      rfl
  intro budget
  induction budget with
  | zero =>
    intro t
    rcases minimizeWithin_cases limit goal 0 t with ⟨hend, hnil, hspent⟩ | ⟨_, _, _, hbudget, -⟩
    · exact hends hnil hend.rows_eq.symm hspent
    · cases hbudget
  | succ budget ih =>
    intro t
    rcases minimizeWithin_cases limit goal (budget + 1) t with
      ⟨hend, hnil, hspent⟩ | ⟨rest, u, p, hbudget, hstep, hu, heq⟩
    · exact hends hnil hend.rows_eq.symm hspent
    · cases hbudget
      rw [heq]
      exact (ih u).after hstep hu

theorem traced_minimize (limit : ℕ) (goal : Goal) (t : Tableau α) :
    Traced goal limit t (t.minimize limit goal) :=
  traced_minimizeWithin limit goal limit t

end Any

section Passes

variable {t : Tableau ℚ} (ht : t.Canonical) (hfeas : t.Feasible) (goal : Goal) (limit : ℕ)
include ht hfeas

/-- **A pass visits no basis twice.** -/
theorem Canonical.nodup_basis_visited :
    ((t.visited (t.minimize limit goal).pivots).map basis).Nodup := by
  have hpoised : t.Poised := ⟨ht, hfeas⟩
  have htraced := traced_minimize limit goal t
  refine List.pairwise_map.mpr (htraced.pairwise.imp_of_mem fun {v w} hv _ hrun heq => ?_)
  exact basis_ne_of_run (hpoised.run (htraced.mem v hv)).1 hrun heq.symm

/-- **It makes fewer pivots than there are bases.** -/
theorem Canonical.length_pivots_lt : (t.minimize limit goal).pivots.length < t.basisBound := by
  have hpoised : t.Poised := ⟨ht, hfeas⟩
  have htraced := traced_minimize limit goal t
  have hsub : ((t.visited (t.minimize limit goal).pivots).map basis).toFinset ⊆
      t.vocabulary.powersetCard t.basis.card := by
    intro b hb
    obtain ⟨v, hv, rfl⟩ := List.mem_map.mp (List.mem_toFinset.mp hb)
    exact hpoised.basis_mem_of_run (htraced.mem v hv)
  have hcard := Finset.card_le_card hsub
  rw [List.toFinset_card_of_nodup (ht.nodup_basis_visited hfeas goal limit),
    Finset.card_powersetCard, List.length_map, htraced.length] at hcard
  exact hcard

/-- **A limit of as many pivots is never reported.** -/
theorem Canonical.minimize_ne_limit (hlimit : t.basisBound ≤ limit) (n : ℕ) :
    (t.minimize limit goal).outcome ≠ .error (.refused (.iterationLimit n)) := by
  intro hn
  have hspent := (traced_minimize limit goal t).spent n hn
  have hshort := ht.length_pivots_lt hfeas goal limit
  omega

end Passes

/-- **Nor is phase one cut off**, from a limit on that depends on the tableau it starts from alone. -/
theorem Canonical.phaseOne_terminates {t : Tableau ℚ} {art : Symbol} {row : Row ℚ}
    (ht : (t.arm art row).Canonical) (hfeas : (t.arm art row).Feasible) {limit : ℕ}
    (hlimit : (t.arm art row).basisBound ≤ limit) (n : ℕ) :
    (t.phaseOne limit art row).outcome ≠ .error (.refused (.iterationLimit n)) := by
  intro hn
  cases hout : ((t.arm art row).minimize limit .artificial).outcome with
  | error e =>
    rw [(phaseOne_of_error hout).1, Except.error.injEq] at hn
    exact ht.minimize_ne_limit hfeas .artificial limit hlimit n (hout.trans (congrArg _ hn))
  | ok =>
    obtain ⟨-, -, b, hb⟩ := (ht.minimize limit .artificial).disarm.retire rfl art
      ((t.arm art row).minimize limit .artificial).tableau.driven
    rw [(phaseOne_of_ok rfl hout).1, hb] at hn
    cases hn

/-- **A primal pass ends for want of anything to do.**  From a canonical tableau with feasible
restricted rows, with either objective and any limit, it carries out the pivots that it records and
visits no basis twice; so it makes fewer pivots than there are sets of symbols of the size of the
basis, and from that limit on it never reports the limit. -/
theorem Canonical.minimize_terminates {t : Tableau ℚ} (ht : t.Canonical) (hfeas : t.Feasible)
    (goal : Goal) (limit : ℕ) :
    (t.visited (t.minimize limit goal).pivots).length = (t.minimize limit goal).pivots.length + 1 ∧
    (t.visited (t.minimize limit goal).pivots).getLast?.map (·.rows) =
      some (t.minimize limit goal).tableau.rows ∧
    ((t.visited (t.minimize limit goal).pivots).map basis).Nodup ∧
    (t.minimize limit goal).pivots.length < t.basisBound ∧
    (t.basisBound ≤ limit →
      ∀ n, (t.minimize limit goal).outcome ≠ .error (.refused (.iterationLimit n))) := by
  have htraced := traced_minimize limit goal t
  exact ⟨htraced.length, htraced.last, ht.nodup_basis_visited hfeas goal limit,
    ht.length_pivots_lt hfeas goal limit, ht.minimize_ne_limit hfeas goal limit⟩

/-! A tableau on which the pass makes two pivots, and the first of them moves nothing:

    s3 = 0 - e1 + e2        s4 = 2 - e1 - e2        to minimize: -e1

After `e1` entered for `s3` at zero, `e2` enters for `s4`. -/

/-- Two rows, one of which is at zero. -/
def cornered : Tableau ℚ :=
  let e1 : Symbol := ⟨1, .error⟩
  let e2 : Symbol := ⟨2, .error⟩
  let row (c a b : ℚ) : Row ℚ := ((Row.ofConstant c).addCell e1 a).addCell e2 b
  let t := (empty.setRow ⟨3, .slack⟩ (row 0 (-1) 1)).setRow ⟨4, .slack⟩ (row 2 (-1) (-1))
  { t with objective := (Row.ofConstant 0).addCell e1 (-1) }

theorem cornered_terminates :
    cornered.Canonical ∧ cornered.Feasible ∧ cornered.basisBound = 6 ∧
    (cornered.minimize 6 .main).pivots =
      [⟨⟨1, .error⟩, ⟨3, .slack⟩⟩, ⟨⟨2, .error⟩, ⟨4, .slack⟩⟩] ∧
    ((cornered.visited (cornered.minimize 6 .main).pivots).map basis).Nodup ∧
    ∀ n, (cornered.minimize 6 .main).outcome ≠ .error (.refused (.iterationLimit n)) := by
  have hcanonical : cornered.Canonical := by decide +kernel
  have hfeasible : cornered.Feasible := by decide +kernel
  have hbound : cornered.basisBound = 6 := by decide +kernel
  obtain ⟨-, -, hnodup, -, hlimit⟩ := hcanonical.minimize_terminates hfeasible .main 6
  exact ⟨hcanonical, hfeasible, hbound, by decide +kernel, hnodup, hlimit hbound.le⟩

end Tableau

end IncrementalSimplex
