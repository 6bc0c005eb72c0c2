/-
# Removing a constraint

Removing takes three things away that belong together: the entry on the list, the prices of the tag
and, with the marker, the equation.  The expulsion of the marker projects it away; that this leaves
the equations of the OTHER constraints and nothing else rests on two facts about the tag
(`satisfies_erase`): no other constraint has the marker, so their equations do not change with it;
and in the constraint's own equation the marker has the coefficient one or minus one, so for every
value of the other symbols some value of the marker satisfies it.  In particular the second symbol
of the tag is free of any condition afterwards.
-/
import IncrementalSimplex.Proofs.Expulsion
import IncrementalSimplex.Proofs.Meaning

namespace IncrementalSimplex

/-! ## 1. The symbols of a removal -/

namespace Tableau

section Any

variable {α : Type} [Scalar α]

theorem Over.uncharge {P : Symbol → Prop} {t : Tableau α} (h : t.Over P) {x : Symbol} (w : α)
    (hx : x.isError → P x) : (t.uncharge x w).Over P := by
  unfold Tableau.uncharge
  split
  · rename_i herr
    refine ⟨h.basic, h.rows, fun {y} hy => ?_, h.artificial⟩
    revert hy
    dsimp only
    split
    · rename_i row hrow
      intro hy
      rcases Row.mentions_addRow hy with hy | hy
      · exact h.objective hy
      · exact h.rows hrow hy
    · intro hy
      rcases Row.mentions_addCell hy with rfl | hy
      · exact hx herr
      · exact h.objective hy
  · exact h

theorem Canonical.uncharge {t : Tableau α} (h : t.Canonical) (x : Symbol) (w : α) :
    (t.uncharge x w).Canonical := by
  unfold Tableau.uncharge
  split
  · refine ⟨h.rows, fun {y} hy => ?_, h.artificial⟩
    revert hy
    dsimp only
    split
    · rename_i row hrow
      intro hy
      rcases Row.mentions_addRow hy with hy | hy
      · exact h.objective hy
      · exact h.rows hrow hy
    · rename_i hx
      intro hy
      rcases Row.mentions_addCell hy with rfl | hy
      · exact hx
      · exact h.objective hy
  · exact h

theorem artificial_uncharge (t : Tableau α) (x : Symbol) (w : α) :
    (t.uncharge x w).artificial = t.artificial := by
  unfold Tableau.uncharge
  split <;> rfl

theorem Over.expel {P : Symbol → Prop} {t u : Tableau α} (h : t.Over P) {m : Symbol}
    (hu : t.expel m = .ok u) : u.Over P := by
  rcases expel_cases hu with ⟨-, -, rfl⟩ | ⟨-, -, rfl⟩ | ⟨-, l, row, solved, -, hrow, hsolved, rfl⟩
  · exact h.dropRow m
  · exact h
  · refine (h.dropRow l).substitute fun hx => ?_
    rcases (Row.mentions_exchange? hsolved hx).2 with rfl | hx
    · exact h.basic hrow
    · exact h.rows hrow hx

theorem Canonical.expel {t u : Tableau α} (h : t.Canonical) {m : Symbol}
    (hu : t.expel m = .ok u) : u.Canonical := by
  rcases expel_cases hu with ⟨-, -, rfl⟩ | ⟨-, -, rfl⟩ | ⟨-, l, row, solved, -, hrow, hsolved, rfl⟩
  · exact h.dropRow m
  · exact h
  · exact (h.dropRow l).substitute m (h.free_exchange hrow hsolved)

theorem artificial_expel {t u : Tableau α} (ht : t.artificial = none) {m : Symbol}
    (hu : t.expel m = .ok u) : u.artificial = none := by
  rcases expel_cases hu with ⟨-, -, rfl⟩ | ⟨-, -, rfl⟩ | ⟨-, l, row, solved, -, -, -, rfl⟩
  · exact ht
  · exact ht
  · exact Option.map_eq_none_iff.mpr ht

end Any

/-- The rows alone decide whether an expulsion is clean. -/
theorem ExpelsCleanly.of_rows {t u : Tableau ℚ} {m : Symbol} (h : t.ExpelsCleanly m)
    (hrows : u.rows = t.rows) : u.ExpelsCleanly m := by
  intro l hm hl
  rw [hrows] at hm ⊢
  refine h l hm ?_
  unfold leavingForMarker? at hl ⊢
  rwa [hrows] at hl

end Tableau

/-! ## 2. The equation that goes -/

namespace ConstraintRecord

variable {r : ConstraintRecord}

/-- The marker has the coefficient one or minus one in its equation. -/
theorem exists_tagPart_eq (h : r.tag.marker ≠ r.tag.other) (rel : Relation) (σ : Assignment)
    (a : ℚ) : ∃ q, a + r.tagPart rel (Function.update σ r.tag.marker q) = 0 := by
  have ho : ∀ q, Function.update σ r.tag.marker q r.tag.other = σ r.tag.other := fun q =>
    Function.update_of_ne h.symm q σ
  cases rel with
  | atMost =>
    refine ⟨-a + (if r.priority.isRequired then 0 else σ r.tag.other), ?_⟩
    rw [tagPart, ho, Function.update_self]
    ring
  | atLeast =>
    refine ⟨a + (if r.priority.isRequired then 0 else σ r.tag.other), ?_⟩
    rw [tagPart, ho, Function.update_self]
    ring
  | equal =>
    cases hreq : r.priority.isRequired with
    | true =>
      refine ⟨-a, ?_⟩
      rw [tagPart, hreq, if_pos rfl, Function.update_self]
      ring
    | false =>
      refine ⟨a + σ r.tag.other, ?_⟩
      rw [tagPart, hreq, if_neg (by simp), ho, Function.update_self]
      ring

end ConstraintRecord

namespace Solver

variable {forms : ConstraintId → Form} {s u : Solver ℚ} {id : ConstraintId} {r : ConstraintRecord}

/-- The solver without an entry on its list. -/
def unlisted (s : Solver ℚ) (id : ConstraintId) : Solver ℚ :=
  { s with constraints := s.constraints.erase id }

theorem get?_of_unlisted {j : ConstraintId} {q : ConstraintRecord}
    (h : (s.unlisted id).constraints.get? j = some q) :
    j ≠ id ∧ s.constraints.get? j = some q := by
  rw [show (s.unlisted id).constraints.get? j =
    if j = id then none else s.constraints.get? j from s.constraints.get?_erase id j] at h
  split at h
  · cases h
  · rename_i hne
    exact ⟨hne, h⟩

theorem Records.unlisted (h : s.Records forms) (id : ConstraintId) :
    (s.unlisted id).Records forms where
  fits hr := h.fits (get?_of_unlisted hr).2
  known hr := h.known (get?_of_unlisted hr).2
  apart hr := h.apart (get?_of_unlisted hr).2
  disjoint h₁ h₂ := h.disjoint (get?_of_unlisted h₁).2 (get?_of_unlisted h₂).2
  covers hr := h.covers (get?_of_unlisted hr).2
  priced hr := h.priced (get?_of_unlisted hr).2

/-- The marker of an entry that goes is in no other tag. -/
theorem Records.not_has_marker (h : s.Records forms) (hr : s.constraints.get? id = some r)
    {j : ConstraintId} {q : ConstraintRecord}
    (hq : (s.unlisted id).constraints.get? j = some q) : ¬ q.tag.Has r.tag.marker := by
  intro hhas
  obtain ⟨hne, hq⟩ := get?_of_unlisted hq
  exact hne (h.disjoint hq hr _ hhas (h.fits hr).has_marker)

/-- **Projecting the marker away leaves the other equations.** -/
theorem Sound.satisfies_erase (h : s.Sound forms) (hr : s.constraints.get? id = some r)
    (σ : Assignment) :
    (∃ q, s.Satisfies forms (Function.update σ r.tag.marker q)) ↔
      (s.unlisted id).Satisfies forms σ := by
  have hfit := h.records.fits hr
  have hother : ∀ {j q}, (s.unlisted id).constraints.get? j = some q → ∀ a,
      s.Equates (forms j) q (Function.update σ r.tag.marker a) ↔ s.Equates (forms j) q σ :=
    fun hq a => equates_update h.names (h.records.not_has_marker hr hq) hfit.marker_restricted
      hfit.marker_ne_placeholder _ σ a
  constructor
  · rintro ⟨a, ha⟩ j q hq
    exact (hother hq a).mp (ha j q (get?_of_unlisted hq).2)
  · intro hσ
    obtain ⟨a, ha⟩ := ConstraintRecord.exists_tagPart_eq (h.records.apart hr)
      (forms id).relation σ ((forms id).expression.valueAt (s.reading σ))
    refine ⟨a, fun j q hq => ?_⟩
    by_cases hj : j = id
    · subst hj
      rw [hr] at hq
      cases hq
      rw [Equates, h.names.reading_update hfit.marker_restricted]
      exact ha
    · have hq' : (s.unlisted id).constraints.get? j = some q :=
        (s.constraints.get?_erase id j).trans (by rw [if_neg hj, hq])
      exact (hother hq' a).mpr (hσ j q hq')

/-- The price that goes with the entry. -/
theorem cost_unlisted (hr : s.constraints.get? id = some r) (σ : Assignment) :
    (s.unlisted id).cost σ = s.cost σ - r.penalty σ := by
  have h := Registry.sum_erase hr fun e => e.2.penalty σ
  show ((s.constraints.erase id).entries.map _).sum = (s.constraints.entries.map _).sum - _
  rw [h]
  ring

/-! ## 3. The call -/

/-- The tableau of the solver once the prices of a tag are taken back. -/
def refunded (s : Solver ℚ) (r : ConstraintRecord) : Tableau ℚ :=
  (s.tableau.uncharge r.tag.marker r.priority.weight).uncharge r.tag.other r.priority.weight

theorem refunded_rows (s : Solver ℚ) (r : ConstraintRecord) :
    (s.refunded r).rows = s.tableau.rows :=
  (Tableau.uncharge_rows _ _ _).trans (Tableau.uncharge_rows _ _ _)

theorem Sound.over_refunded (h : s.Sound forms) (hr : s.constraints.get? id = some r) :
    (s.refunded r).Over s.Knows := by
  have hknown : ∀ x, (x = r.tag.marker ∨ x = r.tag.other) → x.isError → s.Knows x := by
    intro x hx herr
    refine h.records.known hr x ⟨?_, hx⟩
    rintro rfl
    cases herr
  exact (h.numbered.uncharge _ (hknown _ (.inl rfl))).uncharge _ (hknown _ (.inr rfl))

theorem Sound.presents_refunded (h : s.Sound forms) (hr : s.constraints.get? id = some r) :
    (s.refunded r).Presents (s.Satisfies forms) (s.unlisted id).cost := by
  refine ((h.presents.uncharge r.tag.marker r.priority.weight).uncharge r.tag.other
    r.priority.weight).congr (fun _ => Iff.rfl) fun σ => ?_
  rw [cost_unlisted hr, ConstraintRecord.penalty]
  ring

/-- **The constraint is out of the tableau**, before the objective is minimized. -/
structure Cleared (forms : ConstraintId → Form) (s : Solver ℚ) (id : ConstraintId)
    (r : ConstraintRecord) (u : Solver ℚ) : Prop where
  sound : u.Sound forms
  config : u.config = s.config
  edits : u.edits = s.edits
  symbols : u.symbols = s.symbols
  constraints : u.constraints = s.constraints.erase id
  expelled : (s.refunded r).expel r.tag.marker = .ok u.tableau
  feasible : s.tableau.Feasible → u.tableau.Feasible
  pure : s.tableau.DummyPure → s.tableau.ExpelsCleanly r.tag.marker → u.tableau.DummyPure

/-- **Clearing a constraint succeeds.** -/
theorem Sound.clear (h : s.Sound forms) (hr : s.constraints.get? id = some r) :
    ((s.unlisted id).clear r).outcome = .ok () ∧
      s.Cleared forms id r ((s.unlisted id).clear r).solver := by
  have hfit := h.records.fits hr
  have hcost : ∀ σ q, (s.unlisted id).cost (Function.update σ r.tag.marker q) =
      (s.unlisted id).cost σ := fun σ q =>
    cost_update (fun j p hp => h.records.not_has_marker hr hp) hfit.marker_ne_placeholder σ q
  obtain ⟨t, hok⟩ := (s.refunded r).exists_expel r.tag.marker
  obtain ⟨hpres, hfeas⟩ := (h.presents_refunded hr).expel
    (h.records.unlisted id).monotoneCost hcost hok
  have hexpel : (((s.unlisted id).tableau.uncharge r.tag.marker r.priority.weight).uncharge
      r.tag.other r.priority.weight).expel r.tag.marker = .ok t := hok
  unfold Solver.clear
  dsimp only
  rw [hexpel]
  refine ⟨rfl, ⟨hpres.congr (h.satisfies_erase hr) fun _ => rfl, (h.over_refunded hr).expel hok,
    h.names.mono rfl (le_refl _), ?_⟩, rfl, rfl, rfl, rfl, hok, fun hf => ?_, fun hp hclean => ?_⟩
  · exact (h.records.unlisted id).withTableau t
  · exact hfeas (hf.of_rows (s.refunded_rows r))
  · exact (hp.of_rows (s.refunded_rows r)).expel (hclean.of_rows (s.refunded_rows r)) hok

/-- **Everything that removing a constraint can do.** -/
theorem Sound.remove_cases (h : s.Sound forms) (c : Constraint ℚ) :
    (s.constraints.get? c.id = none ∧ s.remove c = .refused s (.unknownConstraint c.id)) ∨
    ∃ r u, s.constraints.get? c.id = some r ∧ s.Cleared forms c.id r u ∧
      (s.remove c).solver = u.optimize.solver ∧ (s.remove c).outcome = u.optimize.outcome := by
  unfold Solver.remove
  cases hr : s.constraints.get? c.id with
  | none => exact .inl ⟨rfl, rfl⟩
  | some r =>
    obtain ⟨hout, hcleared⟩ := h.clear hr
    refine .inr ⟨r, ((s.unlisted c.id).clear r).solver, rfl, hcleared, ?_, ?_⟩ <;>
      dsimp only <;>
      rw [show Solver.clear { s with constraints := s.constraints.erase c.id } r =
          (s.unlisted c.id).clear r from rfl, Reply.andThen_of_ok hout, Reply.andThen_of_ok rfl] <;>
      rfl

/-- **Removing a constraint keeps the solver sound**, however it ends. -/
theorem Sound.remove (h : s.Sound forms) (c : Constraint ℚ) : (s.remove c).solver.Sound forms := by
  rcases h.remove_cases c with ⟨-, heq⟩ | ⟨r, u, -, hu, hsol, -⟩
  · rw [heq]
    exact h
  · rw [hsol]
    exact hu.sound.optimize.1

/-- **Removing leaves the edits and the other constraints alone**, the constraint is not live
afterwards, and no row of the tableau becomes infeasible. -/
theorem Sound.remove_frame (h : s.Sound forms) (c : Constraint ℚ) :
    (s.remove c).solver.edits = s.edits ∧ (s.remove c).solver.constraints.get? c.id = none ∧
      (∀ id, id ≠ c.id → (s.remove c).solver.constraints.get? id = s.constraints.get? id) ∧
      (s.tableau.Feasible → (s.remove c).solver.tableau.Feasible) ∧
      (s.tableau.DummyPure → (∀ r, s.constraints.get? c.id = some r →
        s.tableau.ExpelsCleanly r.tag.marker) → (s.remove c).solver.tableau.DummyPure) := by
  rcases h.remove_cases c with ⟨hnone, heq⟩ | ⟨r, u, hr, hu, hsol, -⟩
  · rw [heq]
    exact ⟨rfl, hnone, fun _ _ => rfl, id, fun hpure _ => hpure⟩
  · obtain ⟨-, hfeas, hpure, -⟩ := hu.sound.optimize
    rw [hsol]
    refine ⟨hu.edits, ?_, fun id hid => ?_, hfeas ∘ hu.feasible,
      fun hp hclean => hpure (hu.pure hp (hclean r hr))⟩
    · show u.constraints.get? c.id = none
      rw [hu.constraints, Registry.get?_erase, if_pos rfl]
    · show u.constraints.get? id = _
      rw [hu.constraints, Registry.get?_erase, if_neg hid]

/-- The live constraints after a removal. -/
theorem Sound.get?_remove (h : s.Sound forms) (c : Constraint ℚ) {id : ConstraintId}
    {q : ConstraintRecord} : (s.remove c).solver.constraints.get? id = some q ↔
      id ≠ c.id ∧ s.constraints.get? id = some q := by
  obtain ⟨-, hgone, hcons, -⟩ := h.remove_frame c
  constructor
  · intro hq
    have hid : id ≠ c.id := by
      rintro rfl
      rw [hgone] at hq
      cases hq
    exact ⟨hid, (hcons id hid).symm.trans hq⟩
  · exact fun ⟨hid, hq⟩ => (hcons id hid).trans hq

/-- **How removing ends**: the constraint was not live, or the objective is minimized, or the limit
was hit. -/
theorem Sound.remove_outcome (h : s.Sound forms) (c : Constraint ℚ) :
    ((s.remove c).solver = s ∧
        (s.remove c).outcome = .error (.refused (.unknownConstraint c.id))) ∨
      ((s.remove c).outcome = .ok () ∧ (s.remove c).solver.tableau.Settled) ∨
      (s.remove c).outcome = .error (.refused (.iterationLimit s.config.maxIterations)) := by
  rcases h.remove_cases c with ⟨-, heq⟩ | ⟨r, u, -, hu, hsol, hout⟩
  · rw [heq]
    exact .inl ⟨rfl, rfl⟩
  · rw [hsol, hout]
    rcases hu.sound.optimize.2.2.2 with ⟨hok, hset⟩ | hlimit
    · exact .inr (.inl ⟨hok, hset⟩)
    · rw [hu.config] at hlimit
      exact .inr (.inr hlimit)

end Solver

end IncrementalSimplex
