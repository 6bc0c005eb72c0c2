/-
# What a solver means

The solver keeps no expression of a live constraint, only the tag and the priority; the rest is in
the tableau.  To say what the tableau should be, the expressions have to come from outside:  `forms`
assigns to each constraint's number an expression and a relation.  `Solver.Satisfies forms s` is
then the system that the solver stands for, one equation for each live constraint, and `Solver.cost`
is what its tags pay.

**The invariant** is `Solver.Sound forms s`: the tableau presents that system at that cost, over
symbols that the solver has given out, and the registries fit together (`Records`).  It speaks of
the live constraints only, so it does not matter which forms the others are given
(`Sound.congr_forms`).
-/
import Mathlib.Algebra.Order.BigOperators.Group.List
import IncrementalSimplex.Proofs.Encoding

namespace IncrementalSimplex

/-! ## 1. Registries as sums -/

namespace Registry

variable {κ ν : Type} [DecidableEq κ]

/-- **A sum over the entries** gains one term with a new key. -/
theorem sum_insert {r : Registry κ ν} {k : κ} (h : r.get? k = none) (v : ν) (f : κ × ν → ℚ) :
    ((r.insert k v).entries.map f).sum = (r.entries.map f).sum + f (k, v) := by
  rw [entries_insert_of_new h, List.map_append, List.sum_append, List.map_singleton,
    List.sum_singleton]

/-- It loses one with a key that is erased. -/
theorem sum_erase {r : Registry κ ν} {k : κ} {v : ν} (h : r.get? k = some v) (f : κ × ν → ℚ) :
    (r.entries.map f).sum = ((r.erase k).entries.map f).sum + f (k, v) :=
  Entries.sum_filter_ne k f r.nodup h

end Registry

/-! ## 2. Forms, systems and costs -/

/-- What a constraint says, apart from its number and how much it matters. -/
structure Form where
  expression : Expression ℚ
  relation : Relation

/-- The form of a constraint. -/
def Constraint.form (c : Constraint ℚ) : Form := ⟨c.expression, c.relation⟩

namespace Expression

theorem foldl_valueAt_congr {ρ τ : Variable → ℚ} : ∀ (ts : List (Term ℚ)) (acc : ℚ),
    (∀ t ∈ ts, t.coefficient ≠ 0 → ρ t.var = τ t.var) →
      ts.foldl (fun acc t => acc + t.valueAt ρ) acc = ts.foldl (fun acc t => acc + t.valueAt τ) acc
  | [], _, _ => rfl
  | t :: ts, acc, h => by
    have ht : t.valueAt ρ = t.valueAt τ := by
      unfold Term.valueAt
      by_cases hz : t.coefficient = 0
      · rw [hz]
        exact (zero_mul _).trans (zero_mul _).symm
      · rw [h t List.mem_cons_self hz]
    rw [List.foldl_cons, List.foldl_cons, ht]
    exact foldl_valueAt_congr ts _ fun u hu => h u (List.mem_cons_of_mem _ hu)

/-- Only the variables with a coefficient other than zero matter. -/
theorem valueAt_congr {e : Expression ℚ} {ρ τ : Variable → ℚ}
    (h : ∀ t ∈ e.terms, t.coefficient ≠ 0 → ρ t.var = τ t.var) : e.valueAt ρ = e.valueAt τ :=
  foldl_valueAt_congr e.terms e.constant h

end Expression

namespace Solver

/-- **The constraint's equation**: the expression plus what the tag adds is zero. -/
def Equates (s : Solver ℚ) (f : Form) (r : ConstraintRecord) (σ : Assignment) : Prop :=
  f.expression.valueAt (s.reading σ) + r.tagPart f.relation σ = 0

/-- **The system of the live constraints.** -/
def Satisfies (forms : ConstraintId → Form) (s : Solver ℚ) (σ : Assignment) : Prop :=
  ∀ id r, s.constraints.get? id = some r → s.Equates (forms id) r σ

/-- **What the live constraints pay.** -/
def cost (s : Solver ℚ) (σ : Assignment) : ℚ :=
  (s.constraints.entries.map fun e => e.2.penalty σ).sum

/-! ## 3. The invariant -/

/-- **The registries fit together**: each live constraint has a tag of its own that suits its form,
symbols for the variables that count, and a price that is not negative. -/
structure Records (forms : ConstraintId → Form) (s : Solver ℚ) : Prop where
  fits : ∀ {id r}, s.constraints.get? id = some r → r.Fits (forms id).relation
  known : ∀ {id r}, s.constraints.get? id = some r → ∀ x, r.tag.Has x → s.Knows x
  apart : ∀ {id r}, s.constraints.get? id = some r → r.tag.marker ≠ r.tag.other
  disjoint : ∀ {id₁ r₁ id₂ r₂}, s.constraints.get? id₁ = some r₁ →
    s.constraints.get? id₂ = some r₂ → ∀ x, r₁.tag.Has x → r₂.tag.Has x → id₁ = id₂
  covers : ∀ {id r}, s.constraints.get? id = some r → ∀ t ∈ (forms id).expression.terms,
    t.coefficient ≠ 0 → ∃ x, s.symbols.get? t.var = some x
  priced : ∀ {id r}, s.constraints.get? id = some r → 0 ≤ r.priority.value

/-- **The solver means its live constraints.** -/
structure Sound (forms : ConstraintId → Form) (s : Solver ℚ) : Prop where
  presents : s.tableau.Presents (s.Satisfies forms) s.cost
  numbered : s.tableau.Over s.Knows
  names : s.Names
  records : s.Records forms

variable {forms forms' : ConstraintId → Form} {s u : Solver ℚ}

theorem satisfies_congr (h : ∀ id r, s.constraints.get? id = some r → forms' id = forms id)
    (σ : Assignment) : s.Satisfies forms' σ ↔ s.Satisfies forms σ := by
  unfold Satisfies
  refine forall_congr' fun id => forall_congr' fun r => imp_congr_right fun hr => ?_
  rw [h id r hr]

/-- The forms of constraints that are not live do not matter. -/
theorem Sound.congr_forms (h : s.Sound forms)
    (heq : ∀ id r, s.constraints.get? id = some r → forms' id = forms id) : s.Sound forms' where
  presents := h.presents.congr (fun σ => (satisfies_congr heq σ).symm) fun _ => rfl
  numbered := h.numbered
  names := h.names
  records :=
    { fits := fun {id r} hr => by rw [heq id r hr]; exact h.records.fits hr
      known := h.records.known
      apart := h.records.apart
      disjoint := h.records.disjoint
      covers := fun {id r} hr => by rw [heq id r hr]; exact h.records.covers hr
      priced := h.records.priced }

/-- The tableau is no part of the registries. -/
theorem Records.withTableau (h : s.Records forms) (t : Tableau ℚ) :
    ({ s with tableau := t } : Solver ℚ).Records forms :=
  ⟨h.fits, h.known, h.apart, h.disjoint, h.covers, h.priced⟩

/-- Another tableau that presents the same. -/
theorem Sound.withTableau (h : s.Sound forms) {t : Tableau ℚ}
    (ht : t.Presents (s.Satisfies forms) s.cost) (hover : t.Over s.Knows) :
    ({ s with tableau := t } : Solver ℚ).Sound forms :=
  ⟨ht, hover, h.names.mono rfl (le_refl _), h.records.withTableau t⟩

theorem not_live_new (config : SolverConfig) {id : ConstraintId} {r : ConstraintRecord}
    (h : (new config : Solver ℚ).constraints.get? id = some r) : False := by
  cases h

/-- A new solver has nothing to mean. -/
theorem sound_new (forms : ConstraintId → Form) (config : SolverConfig) :
    (new config : Solver ℚ).Sound forms where
  presents := Tableau.presents_empty.congr
    (fun _ => ⟨fun _ _ _ hr => (not_live_new config hr).elim, fun _ => trivial⟩) fun _ => rfl
  numbered := by
    refine ⟨?_, ?_, ?_, ?_⟩
    · intro b row h
      cases h
    · intro b row h
      cases h
    · intro x h
      cases h
    · intro row h
      cases h
  names := by
    refine ⟨?_, ?_⟩
    · intro v x h
      cases h
    · intro v w x h
      cases h
  records :=
    { fits := fun hr => (not_live_new config hr).elim
      known := fun hr => (not_live_new config hr).elim
      apart := fun hr => (not_live_new config hr).elim
      disjoint := fun hr => (not_live_new config hr).elim
      covers := fun hr => (not_live_new config hr).elim
      priced := fun hr => (not_live_new config hr).elim }

/-! ## 4. Costs -/

end Solver

theorem Priority.weight_eq (p : Priority) : (p.weight : ℚ) = (p.value : ℚ) := rfl

theorem Priority.weight_nonneg {p : Priority} (h : 0 ≤ p.value) : 0 ≤ (p.weight : ℚ) := by
  rw [weight_eq]
  exact_mod_cast h

namespace Tableau

theorem errorAt_mono {σ τ : Assignment} (h : ∀ x : Symbol, x.isRestricted → σ x ≤ τ x)
    (x : Symbol) : errorAt σ x ≤ errorAt τ x := by
  unfold errorAt
  split
  · rename_i herr
    exact h x (Symbol.isRestricted_of_isError herr)
  · exact le_refl _

theorem errorAt_update_of_ne {x y : Symbol} (h : y ≠ x) (σ : Assignment) (q : ℚ) :
    errorAt (Function.update σ x q) y = errorAt σ y := by
  unfold errorAt
  rw [Function.update_of_ne h]

end Tableau

namespace ConstraintRecord

variable {r : ConstraintRecord}

/-- Symbols outside the tag do not matter to its equation ... -/
theorem tagPart_update {x : Symbol} (hx : ¬ r.tag.Has x) (hp : x ≠ .placeholder)
    (rel : Relation) (σ : Assignment) (q : ℚ) :
    r.tagPart rel (Function.update σ x q) = r.tagPart rel σ := by
  have hm : r.tag.marker ≠ x := fun heq => hx ⟨hp, .inl heq.symm⟩
  have ho : r.tag.other ≠ x := fun heq => hx ⟨hp, .inr heq.symm⟩
  unfold tagPart
  rw [Function.update_of_ne hm, Function.update_of_ne ho]

/-- ... nor to its price. -/
theorem penalty_update {x : Symbol} (hx : ¬ r.tag.Has x) (hp : x ≠ .placeholder)
    (σ : Assignment) (q : ℚ) : r.penalty (Function.update σ x q) = r.penalty σ := by
  have hm : r.tag.marker ≠ x := fun heq => hx ⟨hp, .inl heq.symm⟩
  have ho : r.tag.other ≠ x := fun heq => hx ⟨hp, .inr heq.symm⟩
  unfold penalty
  rw [Tableau.errorAt_update_of_ne hm, Tableau.errorAt_update_of_ne ho]

theorem penalty_mono (hw : 0 ≤ r.priority.value) {σ τ : Assignment}
    (h : ∀ x : Symbol, x.isRestricted → σ x ≤ τ x) : r.penalty σ ≤ r.penalty τ :=
  mul_le_mul_of_nonneg_left
    (add_le_add (Tableau.errorAt_mono h _) (Tableau.errorAt_mono h _))
    (Priority.weight_nonneg hw)

end ConstraintRecord

namespace Solver

variable {forms forms' : ConstraintId → Form} {s u : Solver ℚ}

/-- **The cost grows with every violation.** -/
theorem Records.monotoneCost (h : s.Records forms) : Tableau.MonotoneCost s.cost := by
  intro σ τ hle
  refine List.sum_le_sum fun e he => ?_
  exact ConstraintRecord.penalty_mono (h.priced (Registry.mem_entries_iff.mp he)) hle

theorem cost_update {x : Symbol} (hx : ∀ id r, s.constraints.get? id = some r → ¬ r.tag.Has x)
    (hp : x ≠ .placeholder) (σ : Assignment) (q : ℚ) :
    s.cost (Function.update σ x q) = s.cost σ := by
  unfold cost
  refine congrArg List.sum (List.map_congr_left fun e he => ?_)
  exact ConstraintRecord.penalty_update (hx e.1 e.2 (Registry.mem_entries_iff.mp he)) hp σ q

/-- Variables are read off external symbols. -/
theorem Names.reading_update (h : s.Names) {x : Symbol} (hx : x.isRestricted) (σ : Assignment)
    (q : ℚ) : s.reading (Function.update σ x q) = s.reading σ := by
  funext v
  unfold reading
  cases hv : s.symbols.get? v with
  | none => rfl
  | some y =>
    have hext := (h.known v y hv).2
    refine Function.update_of_ne ?_ _ _
    rintro rfl
    exact absurd hx (Symbol.not_isRestricted_of_isExternal hext)

/-- A symbol outside the tag does not matter to the equation of a constraint. -/
theorem equates_update (hnames : s.Names) {r : ConstraintRecord} {x : Symbol}
    (hx : ¬ r.tag.Has x) (hres : x.isRestricted) (hp : x ≠ .placeholder) (f : Form)
    (σ : Assignment) (q : ℚ) :
    s.Equates f r (Function.update σ x q) ↔ s.Equates f r σ := by
  unfold Equates
  rw [hnames.reading_update hres, ConstraintRecord.tagPart_update hx hp]

/-! ## 5. Passes over a sound solver -/

/-- **Minimizing keeps what a solver means.**  It succeeds or stops at the limit. -/
theorem Sound.optimize (h : s.Sound forms) :
    s.optimize.solver.Sound forms ∧
      (s.tableau.Feasible → s.optimize.solver.tableau.Feasible) ∧
      (s.tableau.DummyPure → s.optimize.solver.tableau.DummyPure) ∧
      (s.optimize.outcome = .ok () ∧ s.optimize.solver.tableau.Settled ∨
        s.optimize.outcome = .error (.refused (.iterationLimit s.config.maxIterations))) := by
  obtain ⟨hpres, hfeas, hpure, hout⟩ :=
    h.presents.minimize h.records.monotoneCost s.config.maxIterations
  exact ⟨h.withTableau hpres (h.numbered.minimize _ _), hfeas, hpure, hout⟩

/-- **Repairing keeps what a solver means.** -/
theorem Sound.repair (h : s.Sound forms) :
    s.repair.solver.Sound forms ∧
      (s.tableau.DummyPure → s.repair.solver.tableau.DummyPure) ∧
      (s.tableau.Settled → s.repair.solver.tableau.Settled) ∧
      (s.repair.outcome = .ok () ∧ (s.tableau.Queued → s.repair.solver.tableau.Feasible) ∨
        s.repair.outcome = .error (.refused (.iterationLimit s.config.maxIterations)) ∨
        s.repair.outcome = .error (.refused (.internal .dualStuck)) ∧
          ∀ σ : Assignment, σ.Proper → ¬ s.Satisfies forms σ) := by
  obtain ⟨hpres, hpure, hset, hout⟩ := h.presents.repair s.config.maxIterations
  exact ⟨h.withTableau hpres (h.numbered.repair _), hpure, hset, hout⟩

end Solver

end IncrementalSimplex
