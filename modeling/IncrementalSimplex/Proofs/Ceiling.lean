/-
# The limit on pivots is only a guard

Two solvers that differ in nothing but their limit take the same course, as long as the one with
the lower limit does not come up against it (`Solver.course_of_le`).  Every call gives the same
answer and reports the same events, and the states are the same but for the limit itself
(`Reply.withLimit`).  No law of the arithmetic is used.

**A pass looks at its budget only when it has run out.**  Until then the same pivot is chosen, so a
pass that is not refused by its limit makes the same pivots within any larger one, and ends in the
same way (`minimizeWithin_of_le`, `repairWithin_of_le`).  The limit itself is read nowhere but in
the refusal.

**No call hides a limit that was hit**, with one exception.  An edit that cannot be begun removes
its constraint again, if that was recorded, and the outcome of this removal is only reported as an
event.  But a constraint that was recorded and is live nonetheless failed in the minimization, so
the edit is refused for a pass that was cut short, and this refusal is the answer
(`addEdit_of_le`).  That is why internal faults are excluded as well as the limit.

**Batches are left out.**  A batch swallows the refusals of its undoing, so its answer does not tell
whether the limit was hit there.
-/
import IncrementalSimplex.Proofs.Locality
import IncrementalSimplex.Proofs.Outcomes
import IncrementalSimplex.Proofs.Queueing
import IncrementalSimplex.Proofs.Replay

namespace IncrementalSimplex

/-! ## 1. Passes -/

/-- **The limit on pivots was not hit.** -/
def Unlimited {β : Type} (o : Except Halt β) : Prop :=
  ∀ n, o ≠ .error (.refused (.iterationLimit n))

variable {α : Type} [Scalar α]

namespace Tableau

/-- **A primal pass that is not cut short is the same within any larger budget.** -/
theorem minimizeWithin_of_le {limit : Nat} {goal : Goal} (limit' : Nat) {budget budget' : Nat}
    (hle : budget ≤ budget') {t : Tableau α}
    (h : Unlimited (t.minimizeWithin limit goal budget).outcome) :
    t.minimizeWithin limit' goal budget' = t.minimizeWithin limit goal budget := by
  induction budget generalizing budget' t with
  | zero =>
    rw [minimizeWithin.eq_def] at h ⊢
    rw [minimizeWithin.eq_def limit goal 0 t]
    cases hobj : (t.objectiveOf? goal).map entering? with
    | none => rfl
    | some entering =>
      cases entering with
      | none => rfl
      | some e =>
        rw [hobj] at h
        exact absurd rfl (h limit)
  | succ budget ih =>
    obtain ⟨rest, rfl⟩ := Nat.exists_eq_add_of_le' (Nat.le_of_add_left_le hle)
    rw [minimizeWithin.eq_def] at h ⊢
    rw [minimizeWithin.eq_def limit goal (budget + 1) t]
    cases hobj : (t.objectiveOf? goal).map entering? with
    | none => rfl
    | some entering =>
      cases entering with
      | none => rfl
      | some e =>
        simp only [hobj] at h ⊢
        cases hl : t.leaving? e with
        | none => rfl
        | some l =>
          simp only [hl] at h ⊢
          cases hu : t.pivot ⟨e, l⟩ with
          | error fault => rfl
          | ok u =>
            simp only [hu] at h ⊢
            rw [ih (Nat.le_of_succ_le_succ hle) h]

/-- **A dual pass that is not cut short is the same within any larger budget.** -/
theorem repairWithin_of_le {limit : Nat} (limit' : Nat) {budget budget' : Nat}
    (hle : budget ≤ budget') {t : Tableau α}
    (h : Unlimited (t.repairWithin limit budget).outcome) :
    t.repairWithin limit' budget' = t.repairWithin limit budget := by
  induction budget generalizing budget' t with
  | zero =>
    rw [repairWithin.eq_def] at h ⊢
    rw [repairWithin.eq_def limit 0 t]
    rcases hnext : nextInfeasible? t.rows t.infeasible with _ | ⟨l, row, rest⟩
    · rfl
    · simp only [hnext] at h ⊢
      cases he : ({ t with infeasible := rest } : Tableau α).dualEntering? row with
      | none => rfl
      | some e =>
        rw [he] at h
        exact absurd rfl (h limit)
  | succ budget ih =>
    obtain ⟨more, rfl⟩ := Nat.exists_eq_add_of_le' (Nat.le_of_add_left_le hle)
    rw [repairWithin.eq_def] at h ⊢
    rw [repairWithin.eq_def limit (budget + 1) t]
    rcases hnext : nextInfeasible? t.rows t.infeasible with _ | ⟨l, row, rest⟩
    · rfl
    · simp only [hnext] at h ⊢
      cases he : ({ t with infeasible := rest } : Tableau α).dualEntering? row with
      | none => rfl
      | some e =>
        simp only [he] at h ⊢
        cases hu : ({ t with infeasible := rest } : Tableau α).pivot ⟨e, l⟩ with
        | error fault => rfl
        | ok u =>
          simp only [hu] at h ⊢
          rw [ih (Nat.le_of_succ_le_succ hle) h]

/-- **Phase one** reads its limit only in its primal pass. -/
theorem phaseOne_of_le {limit limit' : Nat} (hle : limit ≤ limit') {art : Symbol} {row : Row α}
    {t : Tableau α} (h : Unlimited (t.phaseOne limit art row).outcome) :
    t.phaseOne limit' art row = t.phaseOne limit art row := by
  have hpass : Unlimited (minimize limit .artificial
      { t.setRow art row with artificial := some row }).outcome := by
    intro n hn
    refine h n ?_
    unfold phaseOne
    simp only [hn]
  unfold phaseOne
  rw [minimize, minimizeWithin_of_le limit' hle hpass, minimize]

end Tableau

/-! ## 2. The same state under another limit -/

/-- The solver with another limit on pivots. -/
def Solver.withLimit (limit : Nat) (s : Solver α) : Solver α :=
  { s with config := { s.config with maxIterations := limit } }

/-- **The reply with another limit** in the state; answer and events are the same. -/
def Reply.withLimit (limit : Nat) (r : Reply α) : Reply α :=
  { r with solver := r.solver.withLimit limit }

/-- The encoding with another limit in the state. -/
def Encoding.withLimit (limit : Nat) (e : Encoding α) : Encoding α :=
  { e with solver := e.solver.withLimit limit }

variable {limit : Nat}

section Parts

omit [Scalar α]

variable (limit) (s : Solver α)

@[simp] theorem Solver.constraints_withLimit :
    (s.withLimit limit).constraints = s.constraints := rfl

@[simp] theorem Solver.symbols_withLimit : (s.withLimit limit).symbols = s.symbols := rfl

@[simp] theorem Solver.edits_withLimit : (s.withLimit limit).edits = s.edits := rfl

@[simp] theorem Solver.tableau_withLimit : (s.withLimit limit).tableau = s.tableau := rfl

@[simp] theorem Solver.limit_withLimit :
    (s.withLimit limit).config.maxIterations = limit := rfl

@[simp] theorem Solver.newSymbol_withLimit (k : SymbolKind) :
    (s.withLimit limit).newSymbol k = ((s.newSymbol k).1.withLimit limit, (s.newSymbol k).2) := rfl

end Parts

namespace Reply

omit [Scalar α] in
/-- **Calls put together**: the second one only matters if the first one succeeds. -/
theorem andThen_withLimit {r r' : Reply α} {next next' : Solver α → Reply α}
    (h : Unlimited (r.andThen next).outcome)
    (hfirst : Unlimited r.outcome → r' = r.withLimit limit)
    (hnext : Unlimited (next r.solver).outcome →
      next' (r.solver.withLimit limit) = (next r.solver).withLimit limit) :
    r'.andThen next' = (r.andThen next).withLimit limit := by
  cases hout : r.outcome with
  | ok =>
    have hout' : (r.withLimit limit).outcome = .ok () := hout
    rw [andThen_of_ok hout] at h ⊢
    rw [hfirst (hout ▸ nofun), andThen_of_ok hout']
    exact congrArg (after · r.events) (hnext h)
  | error halt =>
    have hout' : (r.withLimit limit).outcome = .error halt := hout
    rw [andThen_of_error hout] at h ⊢
    rw [hfirst h, andThen_of_error hout']

end Reply

namespace Solver

/-! ## 3. Encoding does not read the limit -/

omit [Scalar α] in
theorem symbolOf_withLimit (s : Solver α) (v : Variable) :
    (s.withLimit limit).symbolOf v =
      ((s.symbolOf v).1.withLimit limit, (s.symbolOf v).2) := by
  unfold symbolOf
  rw [symbols_withLimit]
  cases s.symbols.get? v <;> rfl

theorem encodeTerm_withLimit (acc : Solver α × Row α) (t : Term α) :
    encodeTerm (acc.1.withLimit limit, acc.2) t =
      ((encodeTerm acc t).1.withLimit limit, (encodeTerm acc t).2) := by
  unfold encodeTerm
  split
  · rfl
  · simp only [symbolOf_withLimit, tableau_withLimit]
    cases (acc.1.symbolOf t.var).1.tableau.rows.get? (acc.1.symbolOf t.var).2 <;> rfl

theorem encodeTerms_withLimit (s : Solver α) (e : Expression α) :
    (s.withLimit limit).encodeTerms e =
      ((s.encodeTerms e).1.withLimit limit, (s.encodeTerms e).2) := by
  suffices hfold : ∀ (ts : List (Term α)) (acc : Solver α × Row α),
      ts.foldl encodeTerm (acc.1.withLimit limit, acc.2) =
        ((ts.foldl encodeTerm acc).1.withLimit limit, (ts.foldl encodeTerm acc).2) from
    hfold e.terms (s, .ofConstant e.constant)
  intro ts
  induction ts with
  | nil => exact fun _ => rfl
  | cons t ts ih =>
    intro acc
    rw [List.foldl_cons, encodeTerm_withLimit, List.foldl_cons]
    exact ih _

theorem encodeRelation_withLimit (s : Solver α) (row : Row α) (p : Priority) (rel : Relation) :
    (s.withLimit limit).encodeRelation row p rel =
      (s.encodeRelation row p rel).withLimit limit := by
  cases rel <;> simp only [encodeRelation, encodeInequality, encodeEquality] <;> split <;> rfl

theorem encode_withLimit (s : Solver α) (c : Constraint α) :
    (s.withLimit limit).encode c = (s.encode c).withLimit limit := by
  unfold encode
  simp only [encodeTerms_withLimit, encodeRelation_withLimit]
  generalize (s.encodeTerms c.expression).1.encodeRelation _ c.priority c.relation = e
  by_cases hneg : e.row.constant < 0
  · simp [Encoding.withLimit, hneg]
  · simp [Encoding.withLimit, hneg]

/-! ## 4. Adding and removing -/

/-- **Minimizing** within a larger limit. -/
theorem optimize_of_le {s : Solver α} (hle : s.config.maxIterations ≤ limit)
    (h : Unlimited s.optimize.outcome) :
    (s.withLimit limit).optimize = s.optimize.withLimit limit := by
  have hpass := Tableau.minimizeWithin_of_le limit hle h
  change Reply.ofPass (s.withLimit limit) (s.tableau.minimizeWithin limit .main limit) = _
  rw [hpass]
  rfl

/-- **Repairing** within a larger limit. -/
theorem repair_of_le {s : Solver α} (hle : s.config.maxIterations ≤ limit)
    (h : Unlimited s.repair.outcome) :
    (s.withLimit limit).repair = s.repair.withLimit limit := by
  have hpass := Tableau.repairWithin_of_le limit hle h
  change Reply.ofPass (s.withLimit limit) (s.tableau.repairWithin limit limit) = _
  rw [hpass]
  rfl

end Solver

namespace Encoding

/-- **Phase one** within a larger limit. -/
theorem placeArtificial_of_le {e : Encoding α} (hle : e.solver.config.maxIterations ≤ limit)
    {id : ConstraintId} (h : Unlimited (e.placeArtificial id).outcome) :
    (e.withLimit limit).placeArtificial id = (e.placeArtificial id).withLimit limit := by
  have hle' : (e.solver.newSymbol .slack).1.config.maxIterations ≤ limit := hle
  unfold placeArtificial at h ⊢
  simp only [withLimit, Solver.newSymbol_withLimit, Solver.tableau_withLimit,
    Solver.limit_withLimit] at h ⊢
  generalize (e.solver.newSymbol .slack).1 = s at h hle' ⊢
  have hpass : Unlimited (s.tableau.phaseOne s.config.maxIterations
      (e.solver.newSymbol .slack).2 e.row).outcome := by
    intro n hn
    rw [hn] at h
    exact h n rfl
  rw [Tableau.phaseOne_of_le hle' hpass]
  generalize s.tableau.phaseOne _ _ e.row = pass
  cases pass.outcome with
  | ok driven => cases driven <;> rfl
  | error halt => cases halt <;> rfl

/-- **Placing a row** within a larger limit: only phase one makes pivots. -/
theorem place_of_le {e : Encoding α} (hle : e.solver.config.maxIterations ≤ limit)
    {id : ConstraintId} (h : Unlimited (e.place id).outcome) :
    (e.withLimit limit).place id = (e.place id).withLimit limit := by
  have hplacement : (e.withLimit limit).placement = e.placement := rfl
  unfold place at h ⊢
  rw [hplacement]
  cases hp : e.placement with
  | basic x =>
    dsimp only
    unfold placeBasic
    cases hsolved : e.row.solveFor? x <;> simp only [withLimit, hsolved] <;> rfl
  | conflict => rfl
  | artificial =>
    rw [hp] at h
    exact placeArtificial_of_le hle h

end Encoding

namespace Solver

theorem clear_withLimit (s : Solver α) (r : ConstraintRecord) :
    (s.withLimit limit).clear r = (s.clear r).withLimit limit := by
  unfold clear
  dsimp only [tableau_withLimit]
  split <;> rfl

theorem config_clear (s : Solver α) (r : ConstraintRecord) :
    (s.clear r).solver.config = s.config := by
  unfold clear
  dsimp only
  split <;> rfl

section Larger

variable {s : Solver α} (hle : s.config.maxIterations ≤ limit)
include hle

/-- **Adding a constraint** within a larger limit. -/
theorem add_of_le {c : Constraint α} (h : Unlimited (s.add c).outcome) :
    (s.withLimit limit).add c = (s.add c).withLimit limit := by
  have hencode : (s.encode c).solver.config.maxIterations ≤ limit :=
    (congrArg SolverConfig.maxIterations (s.grows_encode c).config).trans_le hle
  obtain ⟨n, t, -, hrest⟩ := (s.encode c).place_rest c.id
  have hplaced : ((s.encode c).place c.id).solver.config.maxIterations ≤ limit := by
    rw [hrest]
    exact hencode
  have hhas : (s.withLimit limit).has c = s.has c := rfl
  unfold add at h ⊢
  rw [hhas, encode_withLimit]
  split
  · rfl
  · rename_i hnew
    rw [if_neg hnew] at h
    split
    · rfl
    · rename_i hprio
      rw [if_neg hprio] at h
      refine Reply.andThen_withLimit h (fun hrecorded => ?_) (optimize_of_le ?_)
      · exact Reply.andThen_withLimit hrecorded (Encoding.place_of_le hencode) fun _ => rfl
      · exact andThen_keeps (P := fun u => u.config.maxIterations ≤ limit) hplaced fun _ => id

/-- **Removing a constraint** within a larger limit: taking its traces out makes no pass. -/
theorem remove_of_le {c : Constraint α} (h : Unlimited (s.remove c).outcome) :
    (s.withLimit limit).remove c = (s.remove c).withLimit limit := by
  unfold remove at h ⊢
  rw [constraints_withLimit]
  cases hr : s.constraints.get? c.id with
  | none => rfl
  | some r =>
    simp only [hr] at h ⊢
    have hclear : clear { s.withLimit limit with constraints := s.constraints.erase c.id } r =
        (clear { s with constraints := s.constraints.erase c.id } r).withLimit limit :=
      clear_withLimit { s with constraints := s.constraints.erase c.id } r
    have hcleared : (clear { s with constraints := s.constraints.erase c.id } r).solver.config =
        s.config := config_clear _ r
    refine Reply.andThen_withLimit h (fun hreported => ?_) (optimize_of_le ?_)
    · exact Reply.andThen_withLimit hreported (fun _ => hclear) fun _ => rfl
    · exact andThen_keeps (P := fun u => u.config.maxIterations ≤ limit)
        ((congrArg SolverConfig.maxIterations hcleared).trans_le hle) fun _ => id

/-! ## 5. Editing -/

/-- **Ending an edit** within a larger limit. -/
theorem removeEdit_of_le {v : Variable} (h : Unlimited (s.removeEdit v).outcome) :
    (s.withLimit limit).removeEdit v = (s.removeEdit v).withLimit limit := by
  unfold removeEdit at h ⊢
  rw [edits_withLimit]
  cases hv : s.edits.get? v with
  | none => rfl
  | some edit =>
    simp only [hv] at h
    have hunlisted : ({ s with edits := s.edits.erase v } : Solver α).config.maxIterations ≤
        limit := hle
    exact Reply.andThen_withLimit h (remove_of_le hunlisted) fun _ => rfl

/-- **Suggesting a value** within a larger limit. -/
theorem suggest_of_le {v : Variable} {x : α} (h : Unlimited (s.suggest v x).outcome) :
    (s.withLimit limit).suggest v x = (s.suggest v x).withLimit limit := by
  unfold suggest at h ⊢
  rw [edits_withLimit]
  cases hv : s.edits.get? v with
  | none => rfl
  | some edit =>
    simp only [hv] at h
    have hshifted : ({ s with
        edits := s.edits.insert v { edit with constant := x }
        tableau := s.tableau.shift edit.tag (x - edit.constant) } :
          Solver α).config.maxIterations ≤ limit := hle
    exact repair_of_le hshifted h

end Larger

end Solver

/-- **The call returns, and no pass of it was cut short**: it succeeds, or it is refused for another
reason. -/
def Uncut (o : Except Halt Unit) : Prop := o = .ok () ∨ ∃ e, o = .error (.refused e) ∧ ¬ e.FromPass

theorem Uncut.unlimited {o : Except Halt Unit} (h : Uncut o) : Unlimited o := by
  rintro n rfl
  obtain hok | ⟨e, he, hpass⟩ := h
  · cases hok
  · cases he
    exact hpass (.inl ⟨n, rfl⟩)

theorem Uncut.unbroken {o : Except Halt Unit} (h : Uncut o) : Unbroken o := by
  obtain rfl | ⟨e, rfl, hpass⟩ := h
  · exact .inl rfl
  · exact .refused fun fault hfault => hpass (.inr ⟨fault, hfault⟩)

namespace Solver

theorem recordEdit_withLimit (s : Solver α) (c : Constraint α) (v : Variable) :
    (s.withLimit limit).recordEdit c v = (s.recordEdit c v).withLimit limit := by
  unfold recordEdit
  rw [constraints_withLimit]
  cases s.constraints.get? c.id <;> rfl

/-- **Dropping an edit that came to nothing** is refused for the reason that was given for it, or
broken off. -/
theorem not_fromPass_of_abandonEdit {s : Solver α} {c : Constraint α} {v : Variable}
    {e : SolverError} (h : Uncut (s.abandonEdit c v e).outcome) : ¬ e.FromPass := by
  have hrefused : Uncut (.error (.refused e)) → ¬ e.FromPass := by
    rintro (hok | ⟨_, he, hpass⟩)
    · cases hok
    · cases he
      exact hpass
  unfold abandonEdit at h
  split at h
  · dsimp only at h
    split at h
    · exact hrefused h
    · exact hrefused h
    · rename_i x hx
      rw [hx] at h
      obtain hok | ⟨_, he, -⟩ := h
      · cases hok
      · cases he
  · exact hrefused h

/-- **Beginning an edit** within a larger limit.  A constraint that was added in vain is live only
after a pass that was cut short, so nothing is removed here. -/
theorem addEdit_of_le {s : Solver α} (hle : s.config.maxIterations ≤ limit) {id : ConstraintId}
    {v : Variable} {p : Priority} (hnew : s.constraints.get? id = none)
    (h : Uncut (s.addEdit id v p).outcome) :
    (s.withLimit limit).addEdit id v p = (s.addEdit id v p).withLimit limit := by
  have hrefusal : (s.withLimit limit).editRefusal? v p = s.editRefusal? v p := rfl
  unfold addEdit at h ⊢
  rw [hrefusal]
  cases hv : s.editRefusal? v p with
  | some e => rfl
  | none =>
    simp only [hv] at h ⊢
    have hconstraints := s.recorded_add (editConstraint id v p)
    have hadd := add_of_le hle (c := editConstraint id v p)
    generalize s.add (editConstraint id v p) = r at h hconstraints hadd ⊢
    obtain ⟨u, outcome, events⟩ := r
    cases outcome with
    | ok =>
      rw [hadd nofun]
      simp only [Reply.withLimit, recordEdit_withLimit]
      rfl
    | error halt =>
      cases halt with
      | absentSymbol x =>
        rw [hadd nofun]
        rfl
      | refused e =>
        have hpass : ¬ e.FromPass := not_fromPass_of_abandonEdit h
        have hgone : u.has (editConstraint id v p) = false := by
          rcases hconstraints with ⟨hsame, -⟩ | ⟨-, -, -, hreason⟩
          · rw [has, hsame]
            exact Registry.contains_eq_false_iff.mpr hnew
          · exact absurd (hreason e rfl) hpass
        have hgone' : (u.withLimit limit).has (editConstraint id v p) = false := hgone
        rw [hadd fun n hn => hpass (by cases hn; exact .inl ⟨n, rfl⟩)]
        simp only [Reply.withLimit, abandonEdit, hgone, hgone']
        rfl

/-! ## 6. Any course of calls -/

theorem config_perform (s : Solver α) (c : Call α) : (s.perform c).solver.config = s.config := by
  have hadd : ∀ (u : Solver α) c, u.config = s.config → (u.add c).solver.config = s.config := by
    intro u c hu
    rcases u.add_rest c with hrest | ⟨n, t, cs, -, hrest⟩
    · rw [hrest, hu]
    · rw [hrest, ← hu]
      exact (u.grows_encode c).config
  have hremove : ∀ (u : Solver α) c, u.config = s.config →
      (u.remove c).solver.config = s.config := by
    intro u c hu
    obtain ⟨t, hrest⟩ := u.remove_rest c
    rw [hrest, hu]
  by_cases hc : c = .reset
  · subst hc
    rfl
  · refine perform_keeps (P := fun u => u.config = s.config) hadd hremove ?_ (fun _ _ hu => hu) ?_
      rfl hc
    · intro u c v hu
      unfold recordEdit
      split <;> exact hu
    · intro u v x hu
      unfold suggest
      split <;> exact hu

end Solver

/-- **An edit brings a number under which nothing is live.** -/
def Call.BringsNew (s : Solver α) : Call α → Prop
  | .edit id _ _ => s.constraints.get? id = none
  | _ => True

namespace Solver

/-- **A call that is not cut short is the same within a larger limit**, batches apart. -/
theorem perform_of_le {s : Solver α} (hle : s.config.maxIterations ≤ limit) {c : Call α}
    (hbatch : c.isBatch = false) (hnew : c.BringsNew s) (h : Uncut (s.perform c).outcome) :
    (s.withLimit limit).perform c = (s.perform c).withLimit limit := by
  cases c with
  | add c => exact add_of_le hle h.unlimited
  | remove c => exact remove_of_le hle h.unlimited
  | addAll cs => cases hbatch
  | removeAll cs => cases hbatch
  | edit id v p => exact addEdit_of_le hle hnew h
  | unedit v => exact removeEdit_of_le hle h.unlimited
  | suggest v x => exact suggest_of_le hle h.unlimited
  | reset => rfl

/-- The edits of a course bring new numbers, each at its turn. -/
def BringsNew (s : Solver α) : List (Call α) → Prop
  | [] => True
  | c :: rest => c.BringsNew s ∧ (s.perform c).solver.BringsNew rest

theorem perform_mem_course (s : Solver α) (c : Call α) (calls : List (Call α)) :
    s.perform c ∈ s.course (c :: calls) := by
  rw [course]
  split
  · exact List.mem_singleton_self _
  · exact List.mem_cons_self

/-- **A course**, by induction on its calls: each leaves the two solvers apart in their limits
only. -/
theorem course_withLimit {s : Solver α} (hle : s.config.maxIterations ≤ limit)
    {calls : List (Call α)} (hbatch : ∀ c ∈ calls, c.isBatch = false) (hnew : s.BringsNew calls)
    (h : ∀ r ∈ s.course calls, Uncut r.outcome) :
    (s.withLimit limit).course calls = (s.course calls).map (·.withLimit limit) := by
  induction calls generalizing s with
  | nil => rfl
  | cons c rest ih =>
    have hc : Uncut (s.perform c).outcome := h _ (s.perform_mem_course c rest)
    have hperform := perform_of_le hle (hbatch c List.mem_cons_self) hnew.1 hc
    have hc' : Unbroken ((s.withLimit limit).perform c).outcome := by
      rw [hperform]
      exact hc.unbroken
    rw [course_cons hc.unbroken] at h ⊢
    rw [course_cons hc', hperform, List.map_cons]
    refine congrArg _ (ih ?_ (fun d hd => hbatch d (List.mem_cons_of_mem c hd)) hnew.2
      fun r hr => h r (List.mem_cons_of_mem _ hr))
    rw [config_perform]
    exact hle

/-- **The limit on pivots is only a guard.**  If no call of a course is cut short under one limit,
every larger limit gives the same answers, the same events and the same states. -/
theorem course_of_le {limit limit' : Nat} (hle : limit ≤ limit') {calls : List (Call α)}
    (hbatch : ∀ c ∈ calls, c.isBatch = false) (hnew : (new ⟨limit⟩ : Solver α).BringsNew calls)
    (h : ∀ r ∈ (new ⟨limit⟩ : Solver α).course calls, Uncut r.outcome) :
    (new ⟨limit'⟩ : Solver α).course calls =
      ((new ⟨limit⟩ : Solver α).course calls).map (·.withLimit limit') :=
  course_withLimit (s := new ⟨limit⟩) hle hbatch hnew h

/-- `v == 5`, weakly, and an edit that pulls `v` to four; then `v <= 2` is required, and the edit
lets go to one.  The repeated constraint is refused. -/
def tug : List (Call ℚ) :=
  [.add weakFive, .add weakFive, .edit ⟨2⟩ ⟨0⟩ .strong, .suggest ⟨0⟩ 4, .add atMostTwo,
    .suggest ⟨0⟩ 1, .unedit ⟨0⟩]

/-- **One pivot for each pass is enough**, and each kind of pass makes one: so any larger limit
leads to the same states.  Without a pivot the course is another. -/
theorem tug_course_of_one :
    (∀ r ∈ (new ⟨1⟩ : Solver ℚ).course tug, Uncut r.outcome) ∧
      (new ⟨7⟩ : Solver ℚ).course tug =
        ((new ⟨1⟩ : Solver ℚ).course tug).map (·.withLimit 7) ∧
      ((new ⟨0⟩ : Solver ℚ).course tug).map (·.outcome) ≠
        ((new ⟨1⟩ : Solver ℚ).course tug).map (·.outcome) := by
  have houtcomes : ∀ r ∈ (new ⟨1⟩ : Solver ℚ).course tug, r.outcome = .ok () ∨
      r.outcome = .error (.refused (.duplicateConstraint ⟨0⟩)) := by decide +kernel
  have huncut : ∀ r ∈ (new ⟨1⟩ : Solver ℚ).course tug, Uncut r.outcome := by
    intro r hr
    refine (houtcomes r hr).imp_right fun hdup => ⟨_, hdup, ?_⟩
    rintro (⟨n, hn⟩ | ⟨fault, hfault⟩)
    · cases hn
    · cases hfault
  have hnew : (new ⟨1⟩ : Solver ℚ).BringsNew tug := by
    refine ⟨trivial, trivial, ?_, trivial, trivial, trivial, trivial, trivial⟩
    unfold Call.BringsNew
    decide +kernel
  exact ⟨huncut, course_of_le (by decide) (by decide) hnew huncut, by decide +kernel⟩

end Solver

end IncrementalSimplex
