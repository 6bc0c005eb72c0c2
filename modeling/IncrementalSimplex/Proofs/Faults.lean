/-
# Faults that do not occur

Of the answers that a call may give, the internal faults are meant never to be given.  In the exact
reading two of them need an argument.

* **The objective is unbounded**: a cost is negative and no row limits the symbol.  What is
  minimized, in the main pass and in phase one alike, is on the solutions a cost that no restricted
  symbol lowers: the prices of the errors, which are not negative because a negative priority is
  refused, or the artificial symbol itself.  This does not depend on how earlier calls ended.  So
  adding, removing and editing are answered without any internal fault (`Faultless`).
* **The dual pass is stuck**: a row is negative and no cell can raise it.  Then the system has no
  proper solution at all.  If every earlier call was quiet it has one: whatever met the required
  constraints before a suggestion still does, as no target is required.

Batches give the answer of the step that stopped them, so what no step answers, no batch answers.
-/
import IncrementalSimplex.Proofs.Optimum

namespace IncrementalSimplex

/-- **Answered without an internal fault**: the call succeeds, or it is refused for a reason of
another kind. -/
def Faultless (o : Except Halt Unit) : Prop :=
  o = .ok () ∨ ∃ e, o = .error (.refused e) ∧ ∀ fault, e ≠ .internal fault

theorem Faultless.ne_fault {o : Except Halt Unit} (h : Faultless o) (fault : InternalFault) :
    o ≠ .error (.refused (.internal fault)) := by
  rintro rfl
  rcases h with h | ⟨e, he, hne⟩
  · cases h
  · cases he
    exact hne fault rfl

namespace Solver

variable {forms : ConstraintId → Form} {book : ConstraintId → Origin} {s : Solver ℚ}
  {c : Constraint ℚ}

/-! ## 1. Single calls -/

theorem Sound.faultless_optimize (h : s.Sound forms) : Faultless s.optimize.outcome := by
  obtain ⟨-, -, -, ⟨hok, -⟩ | hlimit⟩ := h.optimize
  · exact .inl hok
  · exact .inr ⟨_, hlimit, fun _ heq => by cases heq⟩

/-- **Adding** meets no fault: phase one is cut short or refutes the constraint, if it fails. -/
theorem Sound.faultless_add (h : s.Sound forms) (hform : forms c.id = c.form) :
    Faultless (s.add c).outcome := by
  rcases h.add_cases hform with ⟨-, heq⟩ | ⟨-, -, heq⟩ |
    ⟨-, -, -, ⟨error, hout, hrefused⟩ | ⟨u, hu, -, hout⟩⟩
  · rw [heq]
    exact .inr ⟨_, rfl, fun _ heq => by cases heq⟩
  · rw [heq]
    exact .inr ⟨_, rfl, fun _ heq => by cases heq⟩
  · refine .inr ⟨error, hout, ?_⟩
    rcases hrefused.reason with rfl | ⟨rfl, -⟩ <;> exact fun _ heq => by cases heq
  · rw [hout]
    exact hu.sound.faultless_optimize

/-- **Removing** meets no fault. -/
theorem Sound.faultless_remove (h : s.Sound forms) (c : Constraint ℚ) :
    Faultless (s.remove c).outcome := by
  rcases h.remove_outcome c with ⟨-, hout⟩ | ⟨hout, -⟩ | hout
  · exact .inr ⟨_, hout, fun _ heq => by cases heq⟩
  · exact .inl hout
  · exact .inr ⟨_, hout, fun _ heq => by cases heq⟩

theorem ne_internal_of_editRefusal? {v : Variable} {p : Priority} {e : SolverError}
    (h : s.editRefusal? v p = some e) (fault : InternalFault) : e ≠ .internal fault := by
  unfold editRefusal? at h
  split at h
  · cases h
    exact fun heq => by cases heq
  · split at h
    · cases h
      exact fun heq => by cases heq
    · cases h

/-- **Beginning an edit** meets no fault: what it answers is its own refusal or that of adding the
constraint. -/
theorem Faithful.faultless_addEdit (h : s.Faithful book) {id : ConstraintId} {v : Variable}
    (hb : book id = .edit v) (p : Priority) : Faultless (s.addEdit id v p).outcome := by
  rcases h.addEdit_cases hb p with ⟨e, hrefuse, heq⟩ | ⟨c, -, hform, -, hcases⟩
  · rw [heq]
    exact .inr ⟨e, rfl, ne_internal_of_editRefusal? hrefuse⟩
  rcases hcases with ⟨tag, -, -, -, hok, -⟩ | ⟨error, herr, hout, -⟩
  · exact .inl hok
  · have hadd := h.sound.faultless_add hform
    rwa [herr, ← hout] at hadd

/-- **Ending an edit** meets no fault. -/
theorem Faithful.faultless_removeEdit (h : s.Faithful book) (v : Variable) :
    Faultless (s.removeEdit v).outcome := by
  cases he : s.edits.get? v with
  | none =>
    rw [removeEdit_eq he]
    exact .inr ⟨_, rfl, fun _ heq => by cases heq⟩
  | some e =>
    have hs : (s.unedited v).Sound (s.forms book) := h.sound.withEdits _
    rw [(removeEdit_of_edit he).2]
    exact hs.faultless_remove e.constraint

/-! ## 2. Any call -/

/-- **Every lawful call is answered without an internal fault**, but that a suggestion may find the
dual pass stuck. -/
theorem Faithful.faultless_perform (h : s.Faithful book) {c : Call ℚ} (hc : c.Lawful book s) :
    Faultless (s.perform c).outcome ∨
      (s.perform c).outcome = .error (.refused (.internal .dualStuck)) := by
  have hadd : ∀ (u : Solver ℚ) (c : Constraint ℚ), book c.id = .written c.form →
      u.Faithful book → (u.add c).solver.Faithful book ∧ Faultless (u.add c).outcome :=
    fun u c hc hu => ⟨(hu.add hc).1, hu.sound.faultless_add (u.forms_written hc)⟩
  have hremove : ∀ (u : Solver ℚ) (c : Constraint ℚ), book c.id = .written c.form →
      u.Faithful book → (u.remove c).solver.Faithful book ∧ Faultless (u.remove c).outcome :=
    fun u c hc hu => ⟨(hu.remove hc).1, hu.sound.faultless_remove c⟩
  have hnone : ∀ c ∈ ([] : List (Constraint ℚ)), book c.id = .written c.form := by simp
  cases c with
  | add c => exact .inl (hadd s c hc h).2
  | remove c => exact .inl (hremove s c hc h).2
  | addAll cs => exact .inl (batch_outcome (.inl rfl) hadd hremove hc hnone h)
  | removeAll cs => exact .inl (batch_outcome (.inl rfl) hremove hadd hc hnone h)
  | edit id v p => exact .inl (h.faultless_addEdit hc.1 p)
  | unedit v => exact .inl (h.faultless_removeEdit v)
  | suggest v x =>
    obtain ⟨-, -, -, -, -, ⟨hok, -⟩ | hlimit | ⟨hstuck, -⟩⟩ := h.suggest v x
    · exact .inl (.inl hok)
    · exact .inl (.inr ⟨_, hlimit, fun _ heq => by cases heq⟩)
    · exact .inr hstuck
  | reset => exact .inl (.inl rfl)

/-- **At rest a suggestion meets no fault either.** -/
theorem Faithful.faultless_suggest (h : s.Faithful book) (hrest : s.tableau.AtRest) (v : Variable)
    (x : ℚ) : Faultless (s.suggest v x).outcome := by
  obtain ⟨-, -, -, -, -, ⟨hok, -⟩ | hlimit | ⟨-, hnone⟩⟩ := h.suggest v x
  · exact .inl hok
  · exact .inr ⟨_, hlimit, fun _ heq => by cases heq⟩
  · obtain ⟨σ, hproper, hsat⟩ := h.not_stuck hrest v x
    exact absurd hsat (hnone σ hproper)

end Solver

/-! ## 3. Any course -/

namespace Reached

variable {book : ConstraintId → Origin} {s : Solver ℚ} {τ : Variable → ℚ}

/-- **No objective is ever unbounded**, whatever calls were made and however they ended; and **no
suggestion finds the dual pass stuck**, as long as the calls before it were quiet. -/
theorem never_unbounded_nor_stuck :
    (Reached book (fun _ _ => True) s τ → ∀ c : Call ℚ, c.Lawful book s →
      (s.perform c).outcome ≠ .error (.refused (.internal .unboundedObjective))) ∧
    (Reached book Quiet s τ → ∀ v x,
      (s.perform (.suggest v x)).outcome ≠ .error (.refused (.internal .dualStuck))) := by
  refine ⟨fun h c hc => ?_, fun h v x => ?_⟩
  · rcases h.faithful.1.faultless_perform hc with hfaultless | hstuck
    · exact hfaultless.ne_fault _
    · rw [hstuck]
      exact fun heq => by cases heq
  · exact (h.faithful.1.faultless_suggest h.atRest v x).ne_fault _

end Reached

/-- Pulled against its bound, the variable may be pulled anywhere. -/
theorem pulled_never_unbounded_nor_stuck :
    Reached pulledBook (fun _ _ => True) pulled pulledTarget ∧
      Reached pulledBook Quiet pulled pulledTarget ∧
      (pulled.perform (.remove atLeastTwo)).outcome ≠
        .error (.refused (.internal .unboundedObjective)) ∧
      ∀ v x, (pulled.perform (.suggest v x)).outcome ≠ .error (.refused (.internal .dualStuck)) :=
  have h : Reached pulledBook (fun _ _ => True) pulled pulledTarget :=
    reached_pulled trivial trivial trivial
  ⟨h, quiet_pulled, Reached.never_unbounded_nor_stuck.1 h (.remove atLeastTwo) rfl,
    Reached.never_unbounded_nor_stuck.2 quiet_pulled⟩

end IncrementalSimplex
