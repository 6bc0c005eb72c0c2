/-
# What the objective charges

No call computes the objective from the live constraints.  Encoding adds a cost, every substitution
rewrites the costs, a removal takes a cost back from a cell or from a row, and a failed phase one
puts old costs back.  All the same its cells are at any time what one would compute: the cell of a
free symbol is the sum of what the live soft constraints pay per unit of it
(`Reached.objective_coefficient`).

A constraint pays for its error symbols.  One of them may be the free symbol itself; one that is
basic grows with the free symbol by the coefficient in its row; any other does not move
(`Tableau.slope`).

**Both sides are slopes.**  On the solutions the objective is the cost, up to a constant
(`Presents.objective_value`).  Free symbols may be chosen at will, so let one of them grow by one
and keep the others: the basic symbols follow by their slopes (`extend_succ`), the objective
follows by its cell, and the cost by the sum.
-/
import IncrementalSimplex.Proofs.Calls

namespace IncrementalSimplex

/-! ## 1. Slopes -/

namespace Tableau

/-- **How much a symbol grows with the free symbol `n`**: by its coefficient in the row, if it is
basic. -/
def slope (t : Tableau ℚ) (n e : Symbol) : ℚ :=
  if e = n then 1
  else
    match t.rows.get? e with
    | some row => row.coefficient n
    | none => 0

variable {t : Tableau ℚ} {n : Symbol}

/-- **One more of a free symbol** moves every symbol by its slope. -/
theorem extend_succ (hn : t.Nonbasic n) (σ : Assignment) (e : Symbol) :
    t.extend (Function.update σ n (σ n + 1)) e = t.extend σ e + t.slope n e := by
  cases he : t.rows.get? e with
  | some row =>
    have hne : e ≠ n := fun heq => by
      rw [heq, show t.rows.get? n = none from hn] at he
      cases he
    rw [extend_basic he, extend_basic he, slope, if_neg hne, he]
    linarith [row.coefficient_eq_value_sub σ n]
  | none =>
    rw [extend_nonbasic he, extend_nonbasic he, slope, he]
    by_cases hen : e = n
    · rw [hen, Function.update_self, if_pos rfl]
    · rw [Function.update_of_ne hen, if_neg hen, add_zero]

theorem errorAt_succ (hn : t.Nonbasic n) (σ : Assignment) (e : Symbol) :
    errorAt (t.extend (Function.update σ n (σ n + 1))) e =
      errorAt (t.extend σ) e + if e.isError then t.slope n e else 0 := by
  unfold errorAt
  split
  · exact extend_succ hn σ e
  · rw [add_zero]

end Tableau

/-! ## 2. What a constraint pays -/

/-- The error symbols of a tag. -/
def Tag.errors (tag : Tag) : List Symbol := [tag.marker, tag.other].filter Symbol.isError

namespace ConstraintRecord

/-- **What a constraint pays per unit of the free symbol `n`.** -/
def rate (r : ConstraintRecord) (t : Tableau ℚ) (n : Symbol) : ℚ :=
  r.priority.weight * (r.tag.errors.map (t.slope n)).sum

variable {r : ConstraintRecord} {t : Tableau ℚ} {n : Symbol}

theorem penalty_succ (hn : t.Nonbasic n) (σ : Assignment) :
    r.penalty (t.extend (Function.update σ n (σ n + 1))) =
      r.penalty (t.extend σ) + r.rate t n := by
  have hsum : (r.tag.errors.map (t.slope n)).sum =
      (if r.tag.marker.isError then t.slope n r.tag.marker else 0) +
        if r.tag.other.isError then t.slope n r.tag.other else 0 := by
    unfold Tag.errors
    cases hm : r.tag.marker.isError <;> cases ho : r.tag.other.isError <;> simp [hm, ho]
  rw [penalty, penalty, rate, hsum, Tableau.errorAt_succ hn, Tableau.errorAt_succ hn]
  ring

/-- A required constraint has no error symbol to pay for. -/
theorem Fits.errors_of_required {rel : Relation} (h : r.Fits rel)
    (hreq : r.priority.isRequired = true) : r.tag.errors = [] := by
  have hm := h.marker
  have ho := h.other_of_required hreq
  rw [hreq] at hm
  have hmarker : r.tag.marker.isError = false := by
    rw [Symbol.isError, hm]
    cases rel <;> rfl
  have hother : r.tag.other.isError = false := by
    rw [ho]
    rfl
  simp [Tag.errors, hmarker, hother]

theorem Fits.rate_of_required {rel : Relation} (h : r.Fits rel)
    (hreq : r.priority.isRequired = true) : r.rate t n = 0 := by
  rw [rate, h.errors_of_required hreq]
  exact mul_zero _

end ConstraintRecord

/-! ## 3. The objective -/

namespace Solver

variable {forms : ConstraintId → Form} {s : Solver ℚ} {n : Symbol}

/-- **The cost grows by what the live constraints pay.** -/
theorem cost_succ (hn : s.tableau.Nonbasic n) (σ : Assignment) :
    s.cost (s.tableau.extend (Function.update σ n (σ n + 1))) =
      s.cost (s.tableau.extend σ) + (s.constraints.entries.map (·.2.rate s.tableau n)).sum := by
  unfold cost
  simp only [ConstraintRecord.penalty_succ hn, List.sum_map_add]

/-- The live constraints that may be violated. -/
def softRecords (s : Solver ℚ) : List ConstraintRecord :=
  (s.constraints.entries.map (·.2)).filter fun r => !r.priority.isRequired

/-- Only soft constraints pay. -/
theorem Records.sum_rate (h : s.Records forms) :
    (s.constraints.entries.map (·.2.rate s.tableau n)).sum =
      (s.softRecords.map (·.rate s.tableau n)).sum := by
  have hrequired : ∀ r ∈ s.constraints.entries.map (·.2), r.priority.isRequired = true →
      r.rate s.tableau n = 0 := by
    intro r hr hreq
    obtain ⟨⟨id, r⟩, he, rfl⟩ := List.mem_map.mp hr
    exact (h.fits (Registry.mem_entries_iff.mp he)).rate_of_required hreq
  have hsplit : s.constraints.entries.map (·.2.rate s.tableau n) =
      (s.constraints.entries.map (·.2)).map (·.rate s.tableau n) := by
    rw [List.map_map]
    rfl
  rw [hsplit, softRecords]
  generalize s.constraints.entries.map (·.2) = records at hrequired
  induction records with
  | nil => rfl
  | cons r rest ih =>
    have hrest := ih fun q hq => hrequired q (List.mem_cons_of_mem r hq)
    cases hreq : r.priority.isRequired with
    | true => simp [hreq, hrequired r List.mem_cons_self hreq, hrest]
    | false => simp [hreq, hrest]

/-- **A cell of the objective is what the live soft constraints pay per unit of its symbol.** -/
theorem Sound.objective_coefficient_eq_sum (h : s.Sound forms) (hn : s.tableau.Nonbasic n) :
    s.tableau.objective.coefficient n = (s.softRecords.map (·.rate s.tableau n)).sum := by
  obtain ⟨k, hk⟩ := h.presents.objective_value
  have hcanonical := h.presents.toCanonical
  have hvalue : ∀ σ, s.tableau.objective.value σ = s.cost (s.tableau.extend σ) + k := by
    intro σ
    rw [← Tableau.Free.value_extend (t := s.tableau) fun _ => hcanonical.objective]
    exact hk _ ((h.presents.solves _).mp (hcanonical.solves_extend σ))
  rw [← h.records.sum_rate, s.tableau.objective.coefficient_eq_value_sub (fun _ => 0) n,
    hvalue, hvalue, cost_succ hn]
  ring

end Solver

/-- **The objective is right at any time**: after any call of any course, whatever the calls were
and however they ended, its cell for a free symbol is what the live soft constraints pay per unit
of it. -/
theorem Reached.objective_coefficient {book : ConstraintId → Origin}
    {allow : Solver ℚ → Call ℚ → Prop} {s : Solver ℚ} {τ : Variable → ℚ}
    (h : Reached book allow s τ) {n : Symbol} (hn : s.tableau.Nonbasic n) :
    s.tableau.objective.coefficient n = (s.softRecords.map (·.rate s.tableau n)).sum :=
  h.faithful.1.sound.objective_coefficient_eq_sum hn

/-- **When `v` is pulled below its bound** one error symbol of the edit is basic, and its row is
`1 + s + m`: the other symbol `m` is paid for twice over, once for itself and once through the
row. -/
theorem pulled_charges_twice :
    Reached pulledBook (fun _ _ => True) pulled pulledTarget ∧
      pulled.tableau.Nonbasic ⟨4, .error⟩ ∧
      pulled.tableau.objective.coefficient ⟨4, .error⟩ =
        (pulled.softRecords.map (·.rate pulled.tableau ⟨4, .error⟩)).sum ∧
      pulled.tableau.objective.coefficient ⟨4, .error⟩ = 1000000 * (1 + 1) ∧
      pulled.tableau.objective.coefficient ⟨2, .slack⟩ = 1000000 * (1 + 0) := by
  have h : Reached pulledBook (fun _ _ => True) pulled pulledTarget :=
    reached_pulled trivial trivial trivial
  have hn : pulled.tableau.rows.get? ⟨4, .error⟩ = none := by decide +kernel
  exact ⟨h, hn, h.objective_coefficient hn, by decide +kernel, by decide +kernel⟩

end IncrementalSimplex
