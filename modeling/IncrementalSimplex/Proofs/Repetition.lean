/-
# A suggestion made twice

Suggesting the same value again changes nothing: not the rows, not the objective, not the queue,
not the edits (`Reached.suggest_again`).  The second call still shifts the target and runs the dual
pass, so there are three things to see.

* The shift is by zero, because the first call wrote the value down.  A shift by zero leaves every
  constant as it was, but it looks at the rows once more and queues what is negative.
* So no restricted row may be negative.  After calls in order none is (`Reached.calm`), and a
  suggestion that succeeds leaves none: whatever its shift made negative waited on the queue.
* The dual pass has an empty queue, since a pass that succeeds has worked the queue off.

The reading is exact: the shift must be by zero, and a row plus nothing must be the same row.
-/
import IncrementalSimplex.Proofs.Locality
import IncrementalSimplex.Proofs.Queueing

namespace IncrementalSimplex

/-! ## 1. Shifting by nothing -/

namespace Tableau

variable {t : Tableau ℚ}

theorem shiftRow_zero (m : Symbol) (row : Row ℚ) : shiftRow m 0 row = row := by
  unfold shiftRow Row.addConstant
  dsimp only
  split
  · rw [zero_mul, add_zero]
  · rfl

/-- Storing a restricted row again. -/
theorem Feasible.setRowQueued_self (h : t.Feasible) {x : Symbol} {row : Row ℚ}
    (hrow : t.rows.get? x = some row) (hres : x.isRestricted) : t.setRowQueued x row = t := by
  have hstored : t.setRow x row = t := by
    rw [setRow, SymbolMap.insert_self hrow]
  unfold setRowQueued
  rw [hstored]
  exact if_neg (not_lt.mpr (h x row hrow hres))

/-- **A shift by zero leaves a feasible tableau as it is**, queue included. -/
theorem Feasible.shift_zero (h : t.Feasible) {tag : Tag} (hmarker : tag.marker.isRestricted)
    (hother : tag.other.isRestricted) : t.shift tag 0 = t := by
  unfold shift
  split
  · rename_i row hrow
    have hsame : row.addConstant (-0) = row := by simp [Row.addConstant]
    rw [hsame]
    exact h.setRowQueued_self hrow hmarker
  · split
    · rename_i row hrow
      have hsame : row.addConstant 0 = row := by simp [Row.addConstant]
      rw [hsame]
      exact h.setRowQueued_self hrow hother
    · have hrows : t.rows.map (shiftRow tag.marker 0) = t.rows := by
        refine SymbolMap.ext fun b => ?_
        simp [SymbolMap.get?_map, funext (shiftRow_zero tag.marker)]
      have hnone : shiftedNegative t.rows tag.marker 0 = [] := by
        refine List.eq_nil_iff_forall_not_mem.mpr fun b hb => ?_
        obtain ⟨row, hrow, -, hneg, hres⟩ := mem_shiftedNegative.mp hb
        rw [shiftRow_zero] at hneg
        exact absurd hneg (not_lt.mpr (h b row hrow hres))
      rw [hrows, hnone]
      rfl

/-- **A dual pass over an empty queue** does nothing, whatever its limit. -/
theorem repair_of_drained {α : Type} [Scalar α] {t : Tableau α} (h : t.infeasible = [])
    (limit : Nat) : t.repair limit = .done t () := by
  obtain ⟨rows, objective, artificial, infeasible⟩ := t
  subst h
  rw [repair, repairWithin.eq_def]
  rfl

end Tableau

namespace Solver

variable {book : ConstraintId → Origin} {s : Solver ℚ}

/-! ## 2. Suggesting what is the target -/

/-- The error symbols of an edit are restricted. -/
theorem Faithful.isRestricted_edit (h : s.Faithful book) {v : Variable} {e : Edit ℚ}
    (he : s.edits.get? v = some e) : e.tag.marker.isRestricted ∧ e.tag.other.isRestricted := by
  obtain ⟨-, r, hr, htag, hsoft⟩ := h.tracks.live v e he
  have hfit := h.sound.records.fits hr
  rw [← htag]
  exact ⟨hfit.restricted hfit.has_marker, hfit.restricted (hfit.has_other hsoft)⟩

/-- **Suggesting the target of the moment does nothing**, if no row is negative and none waits. -/
theorem Faithful.suggest_target (h : s.Faithful book) (hfeas : s.tableau.Feasible)
    (hdrained : s.tableau.infeasible = []) {v : Variable} {e : Edit ℚ}
    (he : s.edits.get? v = some e) : s.suggest v e.constant = .done s := by
  obtain ⟨hmarker, hother⟩ := h.isRestricted_edit he
  have hshift : s.tableau.shift e.tag (e.constant - e.constant) = s.tableau := by
    rw [sub_self]
    exact hfeas.shift_zero hmarker hother
  have hedits : s.edits.insert v { e with constant := e.constant } = s.edits :=
    Registry.insert_self he
  rw [Solver.suggest, he]
  simp only [hshift, hedits, repair, Tableau.repair_of_drained hdrained]
  rfl

/-- What a suggestion writes down. -/
theorem get?_edits_suggest {v : Variable} {e : Edit ℚ} (he : s.edits.get? v = some e) (x : ℚ) :
    (s.suggest v x).solver.edits.get? v = some { e with constant := x } := by
  rw [suggest, he]
  exact (s.edits.get?_insert v v _).trans (if_pos rfl)

/-- A suggestion that succeeds leaves an empty queue. -/
theorem infeasible_suggest {v : Variable} {e : Edit ℚ} (he : s.edits.get? v = some e) {x : ℚ}
    (hok : (s.suggest v x).outcome = .ok ()) :
    (s.suggest v x).solver.tableau.infeasible = [] := by
  rw [suggest, he] at hok ⊢
  exact Tableau.infeasible_repair hok

/-- ... and no negative row, if there was none. -/
theorem Faithful.feasible_suggest (h : s.Faithful book) (hfeas : s.tableau.Feasible) {v : Variable}
    {x : ℚ} (hok : (s.suggest v x).outcome = .ok ()) :
    (s.suggest v x).solver.tableau.Feasible := by
  obtain ⟨-, -, -, -, -, ⟨-, hkept⟩ | hlimit | ⟨hstuck, -⟩⟩ := h.suggest v x
  · exact hkept hfeas
  · rw [hok] at hlimit
    cases hlimit
  · rw [hok] at hstuck
    cases hstuck

end Solver

/-- **A suggestion that succeeded may be repeated**: after any course of calls in order, making it
again succeeds, reports nothing and leaves the whole state as it is. -/
theorem Reached.suggest_again {book : ConstraintId → Origin} {s : Solver ℚ} {τ : Variable → ℚ}
    (h : Reached book Orderly s τ) {v : Variable} {x : ℚ} (hok : (s.suggest v x).outcome = .ok ()) :
    (s.suggest v x).solver.suggest v x = .done (s.suggest v x).solver := by
  have hfaithful := h.faithful.1
  cases he : s.edits.get? v with
  | none =>
    have hidle : s.suggest v x = .done s := by rw [Solver.suggest, he]
    rw [hidle]
    exact hidle
  | some e =>
    exact (hfaithful.suggest v x).1.suggest_target (hfaithful.feasible_suggest h.calm.1 hok)
      (Solver.infeasible_suggest he hok) (Solver.get?_edits_suggest he x)

/-- **After `v` was pulled to one against `v >= 2`**, pulling it there again changes nothing; the
first time the state did change. -/
theorem pulled_suggest_again :
    Reached pulledBook Orderly pulledEdited (fun _ => 0) ∧
      (pulledEdited.suggest ⟨0⟩ 1).outcome = .ok () ∧
      pulled.suggest ⟨0⟩ 1 = .done pulled ∧
      pulled.tableau.rows.entries.map (·.2.constant) ≠
        pulledEdited.tableau.rows.entries.map (·.2.constant) := by
  have hreached : Reached pulledBook Orderly pulledEdited fun _ => 0 :=
    .call _ (.call _ (.new {}) rfl (.of_ok rfl (by decide +kernel)))
      ⟨rfl, by decide +kernel⟩ (.of_ok rfl (by decide +kernel))
  have hok : (pulledEdited.suggest ⟨0⟩ 1).outcome = .ok () := by decide +kernel
  exact ⟨hreached, hok, hreached.suggest_again hok, by decide +kernel⟩

end IncrementalSimplex
