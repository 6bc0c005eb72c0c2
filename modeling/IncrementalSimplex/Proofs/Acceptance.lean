/-
# What is never turned down

A soft constraint may be broken at a price, so there is room for it beside any others.  The solver
does not find this out by trying: of the two symbols of a soft tag one has a coefficient below zero,
so the row can be solved for it at once, and phase one, which is where a constraint is turned down,
is not entered.

This holds in every state that calls lead to, however they ended, and for an arithmetic of which
next to nothing is known.  The constant of the row may be a NaN, and then neither side of the
equation counts as the one to be read; the cells of the tag are the same on both, up to the sign.
All that is asked is that one and minus one are stored (`Scalar.StoredUnits`) and that minus one is
below zero, however it came about (`Scalar.LawfulSigns`).

**Why the row has these cells.**  The symbols of the tag are new, so no row that is put in place of a
variable has them, and nothing is added to their cells or taken from them.  That no row has a symbol
whose number was not given out is what the ledger of `Integrity` says.

**What phase one may rely on.**  It puts the tableau back when it fails, and it puts back the one
from after the encoding.  That tableau holds no cost of the constraint that was turned down
(`Ledger.unpaid_of_not_basic`), because only a required constraint comes this far, and encoding one
charges nothing.
-/
import IncrementalSimplex.Proofs.Outcomes

namespace IncrementalSimplex

variable {α : Type} [Scalar α]

/-- An error of a pass does not turn a constraint down. -/
theorem SolverError.FromPass.ne_unsatisfiable {e : SolverError} (h : e.FromPass)
    (id : ConstraintId) : e ≠ .unsatisfiableConstraint id := by
  rcases h with ⟨limit, rfl⟩ | ⟨fault, rfl⟩ <;> exact nofun

namespace Solver

variable {s : Solver α} {P : Symbol → Prop} {c : Constraint α}

/-! ## 1. Placing -/

section Placing

variable [Scalar.StoredUnits α] [Scalar.LawfulSigns α]

/-- **A soft constraint is placed under its subject.** -/
theorem Ledger.placement_of_soft (h : s.Ledger P) (hsoft : c.priority.isRequired = false) :
    ∃ x, (s.encode c).subject? = some x ∧ (s.encode c).placement = .basic x := by
  obtain ⟨x, hx, -⟩ := h.exists_subject_encode hsoft
  refine ⟨x, hx, ?_⟩
  rw [Encoding.placement, hx]

/-- **What goes through phase one, or nowhere, is required and charged nothing.** -/
theorem Ledger.unpaid_of_not_basic (h : s.Ledger P)
    (hplacement : ∀ x, (s.encode c).placement ≠ .basic x) :
    c.priority.isRequired = true ∧ (s.encode c).solver.tableau = s.tableau := by
  have hreq : c.priority.isRequired = true := by
    cases hsoft : c.priority.isRequired with
    | true => rfl
    | false =>
      obtain ⟨x, -, hx⟩ := h.placement_of_soft hsoft
      exact absurd hx (hplacement x)
  exact ⟨hreq, (encoded_encode h.names h.tableau.canonical h.over_knows c).unpaid hreq⟩

end Placing

/-- A new tag is in no cell of the objective. -/
theorem Ledger.not_mentions_objective (h : s.Ledger P) {x : Symbol}
    (hx : (s.encode c).tag.Has x) : ¬ s.tableau.objective.Mentions x := by
  have henc := encoded_encode h.names h.tableau.canonical h.over_knows c
  exact fun hmen => (h.over_knows.objective hmen).ne_of_lt (henc.fresh x hx).1 rfl

/-! ## 2. Adding -/

/-- **A constraint that is placed is listed**, and the call ends as the last minimization does. -/
theorem add_of_place (hnew : s.has c = false) (hneg : c.priority.isNegative = false)
    (hplace : ((s.encode c).place c.id).outcome = .ok ()) :
    (s.add c).solver.constraints.get? c.id = some ⟨(s.encode c).tag, c.priority⟩ ∧
      ∀ e, (s.add c).outcome = .error (.refused e) → e.FromPass := by
  unfold Solver.add
  rw [hnew, hneg, if_neg Bool.false_ne_true, if_neg Bool.false_ne_true]
  dsimp only
  rw [Reply.andThen_of_ok hplace, Reply.andThen_of_ok rfl]
  refine ⟨?_, fun e he => refused_optimize he⟩
  exact (Registry.get?_insert _ _ _ _).trans (if_pos rfl)

/-- **A soft constraint is listed**, and only a pass can make the call fail. -/
theorem Ledger.add_of_soft [Scalar.StoredUnits α] [Scalar.LawfulSigns α] (h : s.Ledger P)
    (hnew : s.has c = false) (hnonneg : 0 ≤ c.priority.value)
    (hsoft : c.priority.isRequired = false) :
    (s.add c).solver.constraints.get? c.id = some ⟨(s.encode c).tag, c.priority⟩ ∧
      ∀ e, (s.add c).outcome = .error (.refused e) → e.FromPass :=
  add_of_place hnew (decide_eq_false (not_lt.mpr hnonneg)) (h.place_of_soft hsoft c.id)

/-! ## 3. Beginning an edit -/

/-- An edit that is given up answers with the reason. -/
theorem eq_of_abandonEdit {v : Variable} {e reason : SolverError}
    (h : (s.abandonEdit c v reason).outcome = .error (.refused e)) : e = reason := by
  unfold abandonEdit at h
  split at h
  · dsimp only at h
    split at h
    · cases h
      rfl
    · cases h
      rfl
    · rename_i x hx
      rw [hx] at h
      cases h
  · cases h
    rfl

/-- **Why an edit is refused**: for its variable, its priority or its number, or by a pass. -/
theorem Ledger.reason_addEdit [Scalar.StoredUnits α] [Scalar.LawfulSigns α] (h : s.Ledger P)
    {id : ConstraintId} {v : Variable} {p : Priority} {e : SolverError}
    (hout : (s.addEdit id v p).outcome = .error (.refused e)) :
    e = .duplicateEditVariable v ∨ e = .badEditPriority p ∨ e = .duplicateConstraint id ∨
      e.FromPass := by
  unfold addEdit at hout
  cases hrefuse : s.editRefusal? v p with
  | some reason =>
    rw [hrefuse] at hout
    cases hout
    unfold editRefusal? at hrefuse
    split at hrefuse
    · cases hrefuse
      exact .inl rfl
    · split at hrefuse
      · cases hrefuse
        exact .inr (.inl rfl)
      · cases hrefuse
  | none =>
    obtain ⟨-, hnonneg, hsoft⟩ := editRefusal?_eq_none hrefuse
    rw [hrefuse] at hout
    dsimp only at hout
    cases hhas : s.has (editConstraint id v p : Constraint α) with
    | true =>
      have hadd : (s.add (editConstraint id v p)).outcome =
          .error (.refused (.duplicateConstraint id)) := by
        rw [Solver.add, if_pos hhas]
        rfl
      rw [hadd] at hout
      exact .inr (.inr (.inl (eq_of_abandonEdit hout)))
    | false =>
      obtain ⟨hlisted, hpass⟩ := h.add_of_soft (c := editConstraint id v p) hhas hnonneg hsoft
      split at hout
      · rw [Reply.outcome_after, Solver.recordEdit, hlisted] at hout
        cases hout
      · rename_i reason hreason
        exact .inr (.inr (.inr (eq_of_abandonEdit hout ▸ hpass reason hreason)))
      · rename_i x hx
        rw [hx] at hout
        cases hout

end Solver

/-! ## 4. Any state -/

/-- **No soft constraint and no edit is ever turned down**, in any state that calls lead to.  A soft
constraint that is not live finds its subject without phase one and is listed, however the
minimization after it ends; and when phase one does run, the objective holds no cost of the
constraint that is being added. -/
theorem Attained.soft_never_rejected [Scalar.StoredUnits α] [Scalar.LawfulSigns α] {s : Solver α}
    (h : Attained s) :
    (∀ c : Constraint α, s.has c = false → 0 ≤ c.priority.value →
      c.priority.value < Priority.required.value →
        (∃ x, (s.encode c).subject? = some x ∧ (s.encode c).placement = .basic x ∧
          ((s.encode c).place c.id).outcome = .ok ()) ∧
        (∀ id, (s.add c).outcome ≠ .error (.refused (.unsatisfiableConstraint id))) ∧
        (s.add c).solver.constraints.get? c.id = some ⟨(s.encode c).tag, c.priority⟩) ∧
    (∀ id v p turned,
      (s.addEdit id v p).outcome ≠ .error (.refused (.unsatisfiableConstraint turned))) ∧
    ∀ c : Constraint α, (s.encode c).placement = .artificial →
      c.priority.isRequired = true ∧
        (s.encode c).solver.tableau.objective = s.tableau.objective ∧
        ∀ x, (s.encode c).tag.Has x → ¬ (s.encode c).solver.tableau.objective.Mentions x := by
  obtain ⟨P, hP⟩ := h.exists_ledger
  refine ⟨fun c hnew hnonneg hlt => ?_, fun id v p turned hout => ?_, fun c hplacement => ?_⟩
  · have hsoft : c.priority.isRequired = false := decide_eq_false (not_le.mpr hlt)
    obtain ⟨x, hsubject, hbasic⟩ := hP.placement_of_soft hsoft
    obtain ⟨hlisted, hpass⟩ := hP.add_of_soft hnew hnonneg hsoft
    exact ⟨⟨x, hsubject, hbasic, hP.place_of_soft hsoft c.id⟩,
      fun id hout => (hpass _ hout).ne_unsatisfiable id rfl, hlisted⟩
  · rcases hP.reason_addEdit hout with hreason | hreason | hreason | hpass
    · cases hreason
    · cases hreason
    · cases hreason
    · exact hpass.ne_unsatisfiable turned rfl
  · obtain ⟨hreq, htableau⟩ := hP.unpaid_of_not_basic fun x hx => by
      rw [hplacement] at hx
      cases hx
    rw [htableau]
    exact ⟨hreq, rfl, fun x hx => hP.not_mentions_objective hx⟩

/-- `v == 0`, softly, against the bound `v >= 2`. -/
def weakZero (α : Type) [Scalar α] : Constraint α :=
  ⟨⟨7⟩, ⟨[.ofVariable ⟨0⟩], 0⟩, .equal, .weak⟩

/-- Exactly, where `v` is bounded, pulled and has a row of its own: `v == 0` is listed all the same,
and `v <= 1`, which must hold, goes through phase one and is charged nothing.  With a tolerance:
the same beside the bound. -/
theorem weakZero_never_rejected :
    (pulled.has (weakZero ℚ) = false ∧ (pulled.encode (weakZero ℚ)).subject? ≠ none ∧
      (∀ id, (pulled.add (weakZero ℚ)).outcome ≠
        .error (.refused (.unsatisfiableConstraint id))) ∧
      (pulled.add (weakZero ℚ)).solver.constraints.get? ⟨7⟩ =
        some ⟨(pulled.encode (weakZero ℚ)).tag, .weak⟩ ∧
      (∀ turned, (pulled.addEdit ⟨8⟩ ⟨1⟩ .strong).outcome ≠
        .error (.refused (.unsatisfiableConstraint turned))) ∧
      (pulled.encode (atMostOne ℚ)).placement = .artificial ∧
      (pulled.encode (atMostOne ℚ)).solver.tableau.objective = pulled.tableau.objective) ∧
    let s := ((Solver.new : Solver Tolerant).perform (.add tolerantBound)).solver
    s.has (weakZero Tolerant) = false ∧
      (s.add (weakZero Tolerant)).solver.constraints.get? ⟨7⟩ =
        some ⟨(s.encode (weakZero Tolerant)).tag, .weak⟩ := by
  have hpulled : Attained pulled := .call _ (.call _ (.call _ (.new {})))
  obtain ⟨hsoft, hedit, hphase⟩ := hpulled.soft_never_rejected
  have hnew : pulled.has (weakZero ℚ) = false := by decide +kernel
  have hartificial : (pulled.encode (atMostOne ℚ)).placement = .artificial := by decide +kernel
  obtain ⟨⟨x, hx, -⟩, hout, hlisted⟩ := hsoft (weakZero ℚ) hnew (by decide) (by decide)
  refine ⟨⟨hnew, fun hnone => ?_, hout, hlisted, hedit ⟨8⟩ ⟨1⟩ .strong, hartificial,
    (hphase _ hartificial).2.1⟩, ?_⟩
  · rw [hx] at hnone
    cases hnone
  · intro s
    have hattained : Attained s := .call _ (.new {})
    have htolerant : s.has (weakZero Tolerant) = false := by decide +kernel
    exact ⟨htolerant,
      (hattained.soft_never_rejected.1 _ htolerant (by decide) (by decide)).2.2⟩

end IncrementalSimplex
