/-
# Undoing a batch

A batch that is refused undoes the steps that succeeded, latest first.  What the list of live
constraints is afterwards depends on which kind of step is undone.

**Undoing additions is exact.**  A removal takes its constraint off the list before anything can go
wrong, so nothing that was added stays (`constraints_undoAll_remove`).  What may stay is the
constraint that STOPPED the batch: an insertion is recorded before the objective is minimized, and
an insertion that is cut short after that is not among the steps that are undone.  So the list is
the old one, or the old one and that constraint (`addAll_refused`), and the latter does occur
(`addAll_leaves_unsettled`).

**Undoing removals is a fresh insertion,** and an insertion may be refused.  Each constraint is back
with its priority or its refusal is reported.  In the exact reading nothing is refused as long as
the rows of dummies are intact, because the values from before the batch satisfy whatever is put
back (`Reached.removeAll_refused`).  Where a removal has disturbed a dummy, a constraint that was
just removed is rejected (`removeAll_loses_equality`).
-/
import IncrementalSimplex.Proofs.Frames
import IncrementalSimplex.Proofs.Integrity
import IncrementalSimplex.Proofs.Redundancy

namespace IncrementalSimplex

/-- A primal pass is refused for want of pivots or for an internal fault. -/
theorem Tableau.PrimalEnd.refused {α : Type} [Scalar α] {limit : Nat} {goal : Goal}
    {last u : Tableau α} {o : Except Halt Unit} (h : PrimalEnd limit goal last u o)
    {e : SolverError} (ho : o = .error (.refused e)) :
    (∃ limit, e = .iterationLimit limit) ∨ ∃ fault, e = .internal fault := by
  cases h with
  | absent => cases ho
  | minimum => cases ho
  | limit =>
    cases ho
    exact .inl ⟨_, rfl⟩
  | unbounded =>
    cases ho
    exact .inr ⟨_, rfl⟩
  | @fault _ _ _ fault =>
    cases fault with
    | noRow =>
      cases ho
      exact .inr ⟨_, rfl⟩
    | noCell => cases ho

namespace Solver

variable {α : Type} [Scalar α]

/-! ## 1. The list of live constraints -/

section Lists

variable {s : Solver α} {c : Constraint α}

/-- Minimizing is refused for want of pivots or for an internal fault. -/
theorem refused_optimize {e : SolverError} (h : s.optimize.outcome = .error (.refused e)) :
    (∃ limit, e = .iterationLimit limit) ∨ ∃ fault, e = .internal fault := by
  obtain ⟨last, -, hend⟩ := Tableau.minimizeWithin_run s.config.maxIterations .main
    s.config.maxIterations s.tableau
  exact hend.refused h

/-- **What adding does to the list**: nothing, and then it fails; or the constraint is recorded under
the tag of its encoding, and then it can only fail in the minimization. -/
theorem recorded_add (s : Solver α) (c : Constraint α) :
    ((s.add c).solver.constraints = s.constraints ∧ (s.add c).outcome ≠ .ok ()) ∨
    (s.constraints.get? c.id = none ∧
      (s.add c).solver.constraints =
        s.constraints.insert c.id ⟨(s.encode c).tag, c.priority⟩ ∧
      (s.encode c).solver.counter ≤ (s.add c).solver.counter ∧
      ∀ e, (s.add c).outcome = .error (.refused e) →
        (∃ limit, e = .iterationLimit limit) ∨ ∃ fault, e = .internal fault) := by
  unfold Solver.add
  split
  · exact .inl ⟨rfl, fun hok => by cases hok⟩
  rename_i hnot
  split
  · exact .inl ⟨rfl, fun hok => by cases hok⟩
  have hnew : s.constraints.get? c.id = none := by
    simpa [Solver.has, Registry.contains] using hnot
  obtain ⟨n, t, hn, hrest⟩ := (s.encode c).place_rest c.id
  have hplace := (congrArg Solver.constraints hrest).trans (s.grows_encode c).constraints
  dsimp only
  cases hout : ((s.encode c).place c.id).outcome with
  | error halt =>
    rw [Reply.andThen_of_error hout, Reply.andThen_of_error hout]
    exact .inl ⟨hplace, by simp [hout]⟩
  | ok =>
    rw [Reply.andThen_of_ok hout, Reply.andThen_of_ok rfl]
    refine .inr ⟨hnew, ?_, ?_, fun e he => refused_optimize he⟩
    · exact congrArg (·.insert c.id (⟨(s.encode c).tag, c.priority⟩ : ConstraintRecord)) hplace
    · exact hn.trans_eq (congrArg Solver.counter hrest).symm

/-- The list alone, whatever the tag. -/
theorem constraints_add (s : Solver α) (c : Constraint α) :
    ((s.add c).solver.constraints = s.constraints ∧ (s.add c).outcome ≠ .ok ()) ∨
    (s.constraints.get? c.id = none ∧
      (∃ tag, (s.add c).solver.constraints = s.constraints.insert c.id ⟨tag, c.priority⟩) ∧
      ∀ e, (s.add c).outcome = .error (.refused e) →
        (∃ limit, e = .iterationLimit limit) ∨ ∃ fault, e = .internal fault) :=
  (s.recorded_add c).imp_right fun ⟨hnew, hcons, _, hreason⟩ => ⟨hnew, ⟨_, hcons⟩, hreason⟩

/-- **Removing takes the constraint off the list**, whatever else happens. -/
theorem constraints_remove (s : Solver α) (c : Constraint α) :
    (s.remove c).solver.constraints = s.constraints.erase c.id := by
  obtain ⟨t, hrest⟩ := s.remove_rest c
  rw [hrest]

/-- What was not live cannot be removed. -/
theorem exists_of_remove_ok (h : (s.remove c).outcome = .ok ()) :
    ∃ r, s.constraints.get? c.id = some r := by
  cases hr : s.constraints.get? c.id with
  | some r => exact ⟨r, rfl⟩
  | none =>
    rw [Solver.remove, hr] at h
    cases h

end Lists

/-! ## 2. Where a batch stops -/

section Batches

variable {apply undo : Solver α → Constraint α → Reply α} {e : SolverError}

omit [Scalar α] in
/-- **Undoing goes on after each step**, if it does not break off: what is left to undo starts from
the state of the step, and every refusal is reported. -/
theorem ok_of_undoAll_cons {rest : List (Constraint α)} {c : Constraint α} {s : Solver α}
    (h : (undoAll undo (c :: rest) s).outcome = .ok ()) :
    (undoAll undo rest (undo s c).solver).outcome = .ok () ∧
      (undoAll undo (c :: rest) s).solver = (undoAll undo rest (undo s c).solver).solver ∧
      (∀ event ∈ (undoAll undo rest (undo s c).solver).events,
        event ∈ (undoAll undo (c :: rest) s).events) ∧
      ∀ e, (undo s c).outcome = .error (.refused e) →
        .undoFailed c.id e ∈ (undoAll undo (c :: rest) s).events := by
  cases hout : (undo s c).outcome with
  | ok =>
    rw [undoAll_cons_ok hout] at h ⊢
    exact ⟨h, rfl, fun event hevent => List.mem_append_right _ hevent, nofun⟩
  | error halt =>
    cases halt with
    | absentSymbol x =>
      rw [undoAll_cons_absent hout, hout] at h
      cases h
    | refused e =>
      rw [undoAll_cons_refused hout] at h ⊢
      refine ⟨h, rfl, fun event hevent => List.mem_append_right _ hevent, ?_⟩
      rintro _ ⟨⟩
      exact List.mem_append_left _ (List.mem_append_right _ List.mem_cons_self)

omit [Scalar α] in
/-- Undoing never ends with a refusal: a step that is refused is reported, and the next one is
tried. -/
theorem undoAll_ne_refused {cs : List (Constraint α)} {s : Solver α} :
    (undoAll undo cs s).outcome ≠ .error (.refused e) := by
  induction cs generalizing s with
  | nil => exact nofun
  | cons c rest ih =>
    cases hout : (undo s c).outcome with
    | ok =>
      rw [undoAll_cons_ok hout]
      exact ih
    | error halt =>
      cases halt with
      | refused error =>
        rw [undoAll_cons_refused hout]
        exact ih
      | absentSymbol x =>
        rw [undoAll_cons_absent hout, hout]
        exact nofun

omit [Scalar α] in
/-- **A batch that succeeds** carries out its first step and then the rest. -/
theorem ok_of_batch_cons {applied rest : List (Constraint α)} {c : Constraint α} {s : Solver α}
    (h : (batch apply undo applied (c :: rest) s).outcome = .ok ()) :
    (apply s c).outcome = .ok () ∧
      (batch apply undo (c :: applied) rest (apply s c).solver).outcome = .ok () ∧
      (batch apply undo applied (c :: rest) s).solver =
        (batch apply undo (c :: applied) rest (apply s c).solver).solver := by
  cases hout : (apply s c).outcome with
  | ok =>
    rw [batch_cons_ok hout] at h ⊢
    exact ⟨rfl, h, rfl⟩
  | error halt =>
    cases halt with
    | refused error =>
      rw [batch_cons_refused hout, Reply.outcome_after, Reply.andThen] at h
      split at h
      · cases h
      · rename_i hundone
        cases hundone.symm.trans h
    | absentSymbol x =>
      rw [batch_cons_absent hout, hout] at h
      cases h

omit [Scalar α] in
/-- **A batch that is refused**: its first steps succeed, the next one is refused for the reason
given, and the first steps are undone, latest first. -/
theorem batch_refused {applied cs : List (Constraint α)} {s : Solver α}
    (h : (batch apply undo applied cs s).outcome = .error (.refused e)) :
    ∃ pre c post, cs = pre ++ c :: post ∧ (batch apply undo applied pre s).outcome = .ok () ∧
      let stop := apply (batch apply undo applied pre s).solver c
      let undone := undoAll undo (pre.reverse ++ applied) stop.solver
      stop.outcome = .error (.refused e) ∧ undone.outcome = .ok () ∧
        (batch apply undo applied cs s).solver = undone.solver ∧
        ∀ event ∈ undone.events, event ∈ (batch apply undo applied cs s).events := by
  induction cs generalizing applied s with
  | nil => cases h
  | cons c rest ih =>
    cases hout : (apply s c).outcome with
    | ok =>
      rw [batch_cons_ok hout] at h ⊢
      obtain ⟨pre, d, post, rfl, hpre, hstop, hundone, hsolver, hevents⟩ := ih h
      refine ⟨c :: pre, d, post, rfl, ?_⟩
      rw [batch_cons_ok hout]
      simp only [List.reverse_cons, List.append_assoc, List.singleton_append]
      exact ⟨hpre, hstop, hundone, hsolver, fun event hevent =>
        List.mem_append_right _ (hevents event hevent)⟩
    | error halt =>
      cases halt with
      | absentSymbol x =>
        rw [batch_cons_absent hout, hout] at h
        cases h
      | refused error =>
        rw [batch_cons_refused hout] at h ⊢
        cases hundone : (undoAll undo applied (apply s c).solver).outcome with
        | error halt =>
          rw [Reply.andThen_of_error hundone, Reply.outcome_after] at h
          exact absurd h undoAll_ne_refused
        | ok =>
          rw [Reply.andThen_of_ok hundone] at h ⊢
          cases h
          exact ⟨[], c, rest, rfl, rfl, hout, hundone, rfl, fun event hevent =>
            List.mem_append_right _ (List.mem_append_left _ hevent)⟩

end Batches

/-! ## 3. Adding a batch -/

/-- A refused insertion that leaves its constraint on the list. -/
def LeavesRecorded (s : Solver α) (c : Constraint α) : Prop :=
  s.has c = false ∧ (s.add c).solver.has c = true

section Adding

variable {s : Solver α}

/-- **Undoing additions takes them off the list**, also where a removal is refused. -/
theorem constraints_undoAll_remove {cs : List (Constraint α)}
    (h : (undoAll remove cs s).outcome = .ok ()) :
    (undoAll remove cs s).solver.constraints =
      cs.foldl (fun l c => l.erase c.id) s.constraints := by
  induction cs generalizing s with
  | nil => rfl
  | cons c rest ih =>
    obtain ⟨hrest, hsolver, -⟩ := ok_of_undoAll_cons h
    rw [hsolver, ih hrest, constraints_remove, List.foldl_cons]

/-- **Erasing what a batch added, latest first, gives the old list back**, and with it any entry
that came later. -/
theorem foldl_erase_batch_add {applied pre : List (Constraint α)} {undo}
    (h : (batch add undo applied pre s).outcome = .ok ()) :
    let l := (batch add undo applied pre s).solver.constraints
    pre.reverse.foldl (fun l c => l.erase c.id) l = s.constraints ∧
      ∀ k r, l.get? k = none → s.constraints.get? k = none ∧
        pre.reverse.foldl (fun l c => l.erase c.id) (l.insert k r) = s.constraints.insert k r := by
  induction pre generalizing applied s with
  | nil => exact ⟨rfl, fun k r hk => ⟨hk, rfl⟩⟩
  | cons d rest ih =>
    obtain ⟨hd, hrest, hsolver⟩ := ok_of_batch_cons h
    rcases constraints_add s d with ⟨-, hne⟩ | ⟨hnew, ⟨tag, hcons⟩, -⟩
    · exact absurd hd hne
    obtain ⟨hself, hlater⟩ := ih hrest
    rw [hcons] at hself hlater
    simp only [hsolver, List.reverse_cons, List.foldl_append, List.foldl_cons, List.foldl_nil]
    refine ⟨by rw [hself, Registry.erase_insert_self hnew], fun k r hk => ?_⟩
    obtain ⟨hnone, hfold⟩ := hlater k r hk
    rw [Registry.get?_insert] at hnone
    split at hnone
    · cases hnone
    · rename_i hkd
      rw [hfold, Registry.erase_insert_of_ne _ hkd, Registry.erase_insert_self hnew]
      exact ⟨hnone, rfl⟩

/-- **The list after a batch of additions that is refused.**  It is the one before the call, tags,
priorities and order included, unless the insertion that stopped the batch left its constraint
recorded; then that constraint is at its end and nothing else is changed.  Only the minimization
that comes after the recording can stop an insertion so. -/
theorem addAll_refused {cs : List (Constraint α)} {e : SolverError}
    (h : (s.addAll cs).outcome = .error (.refused e)) :
    ∃ pre c post, cs = pre ++ c :: post ∧ (s.addAll pre).outcome = .ok () ∧
      ((s.addAll pre).solver.add c).outcome = .error (.refused e) ∧
      (¬ (s.addAll pre).solver.LeavesRecorded c →
        (s.addAll cs).solver.constraints = s.constraints) ∧
      ((s.addAll pre).solver.LeavesRecorded c →
        s.has c = false ∧
        (∃ tag, (s.addAll cs).solver.constraints =
          s.constraints.insert c.id ⟨tag, c.priority⟩) ∧
        ((∃ limit, e = .iterationLimit limit) ∨ ∃ fault, e = .internal fault)) := by
  obtain ⟨pre, c, post, hcs, hpre, hstop, hundone, hsolver, -⟩ := batch_refused h
  rw [List.append_nil] at hundone hsolver
  obtain ⟨hself, hlater⟩ := foldl_erase_batch_add hpre
  have hlist : (s.addAll cs).solver.constraints = pre.reverse.foldl (fun l c => l.erase c.id)
      ((s.addAll pre).solver.add c).solver.constraints :=
    (congrArg Solver.constraints hsolver).trans (constraints_undoAll_remove hundone)
  refine ⟨pre, c, post, hcs, hpre, hstop, fun hnot => ?_, fun hleft => ?_⟩
  · rcases constraints_add (s.addAll pre).solver c with ⟨hsame, -⟩ | ⟨hnew, ⟨tag, hcons⟩, -⟩
    · rw [hlist, hsame]
      exact hself
    · refine absurd ⟨Registry.contains_eq_false_iff.mpr hnew, ?_⟩ hnot
      rw [has, hcons, Registry.contains, Registry.get?_insert, if_pos rfl]
      rfl
  · rcases constraints_add (s.addAll pre).solver c with ⟨hsame, -⟩ | ⟨hnew, ⟨tag, hcons⟩, hreason⟩
    · have hhas := hleft.2
      rw [has, hsame] at hhas
      cases hhas.symm.trans hleft.1
    · obtain ⟨hnone, hfold⟩ := hlater c.id ⟨tag, c.priority⟩ hnew
      refine ⟨Registry.contains_eq_false_iff.mpr hnone, ⟨tag, ?_⟩, hreason e hstop⟩
      rw [hlist, hcons]
      exact hfold

end Adding

/-! A solver that may not pivot, with `v == 5` at the lowest price. -/

def weakFive : Constraint ℚ := ⟨⟨0⟩, ⟨[.ofVariable ⟨0⟩], -5⟩, .equal, .weak⟩

def unpivoted : Solver ℚ := ((Solver.new ⟨0⟩ : Solver ℚ).perform (.add weakFive)).solver

/-- `v == 3` at a higher price: the minimum moves, and that takes a pivot. -/
def mediumThree : Constraint ℚ := ⟨⟨1⟩, ⟨[.ofVariable ⟨0⟩], -3⟩, .equal, .medium⟩

/-- **The constraint that stopped the batch is live**, although the batch was refused. -/
theorem addAll_leaves_unsettled :
    Attained unpivoted ∧ unpivoted.has mediumThree = false ∧
      (unpivoted.addAll [mediumThree]).outcome = .error (.refused (.iterationLimit 0)) ∧
      (unpivoted.addAll [mediumThree]).solver.has mediumThree = true :=
  ⟨.call _ (.new ⟨0⟩), by decide +kernel, by decide +kernel, by decide +kernel⟩

/-- With a bound before it, the bound is taken off the list again and `v == 3` stays. -/
theorem addAll_bound_refused :
    let bound : Constraint ℚ := ⟨⟨2⟩, ⟨[.ofVariable ⟨0⟩], -2⟩, .atLeast, .required⟩
    (unpivoted.addAll [bound, mediumThree]).outcome = .error (.refused (.iterationLimit 0)) ∧
      ∃ tag, (unpivoted.addAll [bound, mediumThree]).solver.constraints =
        unpivoted.constraints.insert ⟨1⟩ ⟨tag, .medium⟩ := by
  intro bound
  have hout : (unpivoted.addAll [bound, mediumThree]).outcome =
      .error (.refused (.iterationLimit 0)) := by decide +kernel
  have hleft : (unpivoted.addAll [bound]).solver.LeavesRecorded mediumThree := by
    unfold LeavesRecorded
    decide +kernel
  have hbound : (unpivoted.add bound).outcome = .ok () := by decide +kernel
  obtain ⟨pre, c, post, hcs, -, hstop, -, hlist⟩ := addAll_refused hout
  -- the bound itself is added, so it is not what stopped the batch
  rcases pre with - | ⟨d, - | ⟨d', pre⟩⟩
  · cases hcs
    cases hbound.symm.trans hstop
  · cases hcs
    exact ⟨hout, (hlist hleft).2.1⟩
  · simp at hcs

/-! ## 4. Removing a batch: what is live -/

section Removing

variable {s : Solver α}

omit [Scalar α] in
theorem get?_foldl_erase {cs : List (Constraint α)} {l : Registry ConstraintId ConstraintRecord}
    {k : ConstraintId} : (cs.foldl (fun l c => l.erase c.id) l).get? k =
      if k ∈ cs.map (·.id) then none else l.get? k := by
  induction cs generalizing l with
  | nil => simp
  | cons c rest ih =>
    rw [List.foldl_cons, ih, Registry.get?_erase]
    by_cases hk : k = c.id <;> simp [hk]

/-- **What a batch removed** was live, each constraint once, and the rest is live as before. -/
theorem constraints_batch_remove {applied pre : List (Constraint α)} {undo}
    (h : (batch remove undo applied pre s).outcome = .ok ()) :
    (batch remove undo applied pre s).solver.constraints =
        pre.foldl (fun l c => l.erase c.id) s.constraints ∧
      (∀ d ∈ pre, ∃ r, s.constraints.get? d.id = some r) ∧ (pre.map (·.id)).Nodup := by
  induction pre generalizing applied s with
  | nil => exact ⟨rfl, by simp, by simp⟩
  | cons d rest ih =>
    obtain ⟨hd, hrest, hsolver⟩ := ok_of_batch_cons h
    obtain ⟨hlist, hlive, hnodup⟩ := ih hrest
    rw [constraints_remove] at hlist
    have hold : ∀ c ∈ rest, c.id ≠ d.id ∧ ∃ r, s.constraints.get? c.id = some r := by
      intro c hc
      obtain ⟨r, hr⟩ := hlive c hc
      rw [constraints_remove, Registry.get?_erase] at hr
      split at hr
      · cases hr
      · rename_i hne
        exact ⟨hne, r, hr⟩
    refine ⟨hsolver ▸ hlist, fun c hc => ?_, ?_⟩
    · rcases List.mem_cons.mp hc with rfl | hc
      · exact exists_of_remove_ok hd
      · exact (hold c hc).2
    · refine List.nodup_cons.mpr ⟨fun hmem => ?_, hnodup⟩
      obtain ⟨c, hc, hid⟩ := List.mem_map.mp hmem
      exact (hold c hc).1 hid

/-- What is live stays live while removals are undone; what is new comes from the constraints put
back, with their priorities; and each of these is live in the end or reported. -/
theorem undoAll_add_live {ds : List (Constraint α)} (h : (undoAll add ds s).outcome = .ok ()) :
    (∀ j q, s.constraints.get? j = some q →
      (undoAll add ds s).solver.constraints.get? j = some q) ∧
    (∀ j q, (undoAll add ds s).solver.constraints.get? j = some q →
      s.constraints.get? j = some q ∨ ∃ d ∈ ds, d.id = j ∧ q.priority = d.priority) ∧
    ∀ d ∈ ds, (∃ q, (undoAll add ds s).solver.constraints.get? d.id = some q) ∨
      ∃ e, .undoFailed d.id e ∈ (undoAll add ds s).events := by
  induction ds generalizing s with
  | nil => exact ⟨fun _ _ hq => hq, fun _ _ hq => .inl hq, by simp⟩
  | cons c rest ih =>
    obtain ⟨hrest, hsolver, hevents, hreport⟩ := ok_of_undoAll_cons h
    obtain ⟨hkeep, horigin, hback⟩ := ih hrest
    rw [← hsolver] at hkeep horigin
    have hadd := constraints_add s c
    refine ⟨fun j q hq => ?_, fun j q hq => ?_, fun d hd => ?_⟩
    · refine hkeep j q ?_
      rcases hadd with ⟨hsame, -⟩ | ⟨hnew, ⟨tag, hcons⟩, -⟩
      · rw [hsame, hq]
      · rw [hcons, Registry.get?_insert, if_neg, hq]
        rintro rfl
        cases hnew.symm.trans hq
    · rcases horigin j q hq with hold | ⟨d, hd, hid, hpri⟩
      · rcases hadd with ⟨hsame, -⟩ | ⟨-, ⟨tag, hcons⟩, -⟩
        · exact .inl (hsame ▸ hold)
        · rw [hcons, Registry.get?_insert] at hold
          split at hold
          · rename_i hj
            cases hold
            exact .inr ⟨c, List.mem_cons_self, hj.symm, rfl⟩
          · exact .inl hold
      · exact .inr ⟨d, List.mem_cons_of_mem c hd, hid, hpri⟩
    · rcases List.mem_cons.mp hd with rfl | hd
      · cases hout : (s.add d).outcome with
        | ok =>
          rcases hadd with ⟨-, hne⟩ | ⟨-, ⟨tag, hcons⟩, -⟩
          · exact absurd hout hne
          · exact .inl ⟨_, hkeep d.id _ (by rw [hcons, Registry.get?_insert, if_pos rfl])⟩
        | error halt =>
          cases halt with
          | refused e => exact .inr ⟨e, hreport e hout⟩
          | absentSymbol x =>
            rw [undoAll_cons_absent hout, hout] at h
            cases h
      · rw [hsolver]
        rcases hback d hd with hlive | ⟨e, he⟩
        · exact .inl hlive
        · exact .inr ⟨e, hevents _ he⟩

end Removing

/-! ## 5. Removing a batch: what is satisfied -/

variable {forms : ConstraintId → Form} {s : Solver ℚ} {ρ : Variable → ℚ}

/-- **Each removal that is carried out expels its marker cleanly.** -/
def RemovesCleanly (s : Solver ℚ) : List (Constraint ℚ) → Prop
  | [] => True
  | c :: rest => (s.remove c).outcome = .ok () →
    (∀ r, s.constraints.get? c.id = some r → s.tableau.ExpelsCleanly r.tag.marker) ∧
      (s.remove c).solver.RemovesCleanly rest

/-- Where the rows of dummies are intact, a batch without required equalities removes cleanly. -/
theorem Sound.removesCleanly (h : s.Sound forms) (hpure : s.tableau.DummyPure)
    {cs : List (Constraint ℚ)} (hgentle : ∀ c ∈ cs, ∀ r, s.constraints.get? c.id = some r →
      ¬ (r.priority.isRequired = true ∧ (forms c.id).relation = .equal)) :
    s.RemovesCleanly cs := by
  induction cs generalizing s with
  | nil => trivial
  | cons c rest ih =>
    have hclean : ∀ r, s.constraints.get? c.id = some r →
        s.tableau.ExpelsCleanly r.tag.marker := fun r hr =>
      hpure.expelsCleanly (h.records.marker_not_dummy hr (hgentle c List.mem_cons_self r hr))
    refine fun _ => ⟨hclean, ih (h.remove c) ((h.remove_frame c).2.2.2.2 hpure hclean) ?_⟩
    intro d hd r hr
    exact hgentle d (List.mem_cons_of_mem c hd) r ((h.get?_remove c).mp hr).2

/-- **Removing cleanly** keeps the tableau feasible and the rows of dummies intact. -/
theorem Sound.batch_remove (h : s.Sound forms) (hfeas : s.tableau.Feasible)
    (hpure : s.tableau.DummyPure) {applied pre post : List (Constraint ℚ)} {undo}
    (hclean : s.RemovesCleanly (pre ++ post))
    (hok : (batch Solver.remove undo applied pre s).outcome = .ok ()) :
    (batch Solver.remove undo applied pre s).solver.Sound forms ∧
      (batch Solver.remove undo applied pre s).solver.tableau.Feasible ∧
      (batch Solver.remove undo applied pre s).solver.tableau.DummyPure := by
  induction pre generalizing applied s with
  | nil => exact ⟨h, hfeas, hpure⟩
  | cons c rest ih =>
    obtain ⟨hc, hrest, hsolver⟩ := ok_of_batch_cons hok
    obtain ⟨hone, hmore⟩ := hclean hc
    obtain ⟨-, -, -, hkeep, hpure'⟩ := h.remove_frame c
    rw [hsolver]
    exact ih (h.remove c) (hkeep hfeas) (hpure' hpure hone) hmore hrest

/-- **An insertion is recorded**, unless it runs into its limit, where the tableau is feasible, the
rows of dummies are intact, and some values satisfy all that is required and is added. -/
theorem Sound.exists_recorded (h : s.Sound forms) (hfeas : s.tableau.Feasible)
    (hpure : s.tableau.DummyPure) {c : Constraint ℚ} (hc : forms c.id = c.form)
    (hnew : s.constraints.get? c.id = none) (hprice : 0 ≤ c.priority.value)
    (hρ : Admits (s.demands forms) ρ) (hholds : c.priority.isRequired = true → c.form.Holds ρ)
    (hlimit : ∀ limit, (s.add c).outcome ≠ .error (.refused (.iterationLimit limit))) :
    ∃ tag, (s.add c).solver.constraints = s.constraints.insert c.id ⟨tag, c.priority⟩ := by
  rcases h.add_cases hc with ⟨hhas, -⟩ | ⟨-, hneg, -⟩ |
    ⟨-, -, henc, ⟨error, hout, hrefused⟩ | ⟨u, hu, hsol, -⟩⟩
  · rw [has, Registry.contains, hnew] at hhas
    cases hhas
  · exact absurd hprice (not_le.mpr hneg)
  · rcases hrefused.reason with rfl | ⟨-, hnone⟩
    · exact absurd hout (hlimit _)
    · obtain ⟨σ, hproper, hsat⟩ := h.exists_solution hc henc hnew hprice hholds hρ
      exact absurd hsat (hnone hfeas hpure σ hproper)
  · exact ⟨_, (congrArg Solver.constraints hsol).trans hu.constraints⟩

/-- Values that satisfy what is required satisfy it with a constraint more, if they satisfy that. -/
theorem admits_demands_insert {u : Solver ℚ} {c : Constraint ℚ} {tag : Tag}
    (hc : forms c.id = c.form)
    (hcons : u.constraints = s.constraints.insert c.id ⟨tag, c.priority⟩)
    (hρ : Admits (s.demands forms) ρ) (hholds : c.priority.isRequired = true → c.form.Holds ρ) :
    Admits (u.demands forms) ρ := by
  refine admits_demands_iff.mpr fun id r hr hreq => ?_
  rw [hcons, Registry.get?_insert] at hr
  split at hr
  · rename_i hid
    cases hr
    rw [hid, hc]
    exact hholds hreq
  · exact admits_demands_iff.mp hρ id r hr hreq

/-- **Putting constraints back is not refused** where the tableau is feasible, the rows of dummies
are intact, and some values satisfy all that is required and is put back. -/
theorem Sound.undoAll_add (h : s.Sound forms) (hfeas : s.tableau.Feasible)
    (hpure : s.tableau.DummyPure) {ds : List (Constraint ℚ)}
    (hforms : ∀ d ∈ ds, forms d.id = d.form) (hnew : ∀ d ∈ ds, s.constraints.get? d.id = none)
    (hnodup : (ds.map (·.id)).Nodup) (hprice : ∀ d ∈ ds, 0 ≤ d.priority.value)
    (hρ : Admits (s.demands forms) ρ)
    (hds : ∀ d ∈ ds, d.priority.isRequired = true → d.form.Holds ρ)
    (hok : (undoAll Solver.add ds s).outcome = .ok ())
    (hlimit : ∀ j limit, .undoFailed j (.iterationLimit limit) ∉ (undoAll Solver.add ds s).events) :
    ∀ d ∈ ds, ∃ q, (undoAll Solver.add ds s).solver.constraints.get? d.id = some q := by
  induction ds generalizing s with
  | nil => simp
  | cons c rest ih =>
    obtain ⟨hrest, hsolver, hevents, hreport⟩ := ok_of_undoAll_cons hok
    have hc := hforms c List.mem_cons_self
    have hholds := hds c List.mem_cons_self
    obtain ⟨hcrest, hnodup⟩ := List.nodup_cons.mp hnodup
    obtain ⟨tag, hcons⟩ := h.exists_recorded hfeas hpure hc (hnew c List.mem_cons_self)
      (hprice c List.mem_cons_self) hρ hholds fun limit hout => hlimit _ _ (hreport _ hout)
    obtain ⟨-, -, hkeep, hpure'⟩ := h.add_frame hc
    intro d hd
    rw [hsolver]
    rcases List.mem_cons.mp hd with rfl | hd
    · exact ⟨_, (undoAll_add_live hrest).1 d.id _
        (by rw [hcons, Registry.get?_insert, if_pos rfl])⟩
    refine ih (h.add hc) (hkeep hfeas) (hpure' hpure)
      (fun d hd => hforms d (List.mem_cons_of_mem c hd)) (fun d hd => ?_) hnodup
      (fun d hd => hprice d (List.mem_cons_of_mem c hd)) (admits_demands_insert hc hcons hρ hholds)
      (fun d hd => hds d (List.mem_cons_of_mem c hd)) hrest
      (fun j limit hmem => hlimit j limit (hevents _ hmem)) d hd
    rw [hcons, Registry.get?_insert, if_neg, hnew d (List.mem_cons_of_mem c hd)]
    exact fun heq => hcrest (List.mem_map.mpr ⟨d, hd, heq⟩)

/-! ## 6. Between removing and undoing -/

/-- **Where a batch of removals turned back** upon an unknown constraint: `pre` was carried out and
led to `mid`, from where it is undone, latest first. -/
structure TurnedBack (forms : ConstraintId → Form) (s : Solver ℚ) (cs pre : List (Constraint ℚ))
    (mid : Solver ℚ) : Prop where
  sound : mid.Sound forms
  subset : ∀ d ∈ pre, d ∈ cs
  live : ∀ d ∈ pre, ∃ r, s.constraints.get? d.id = some r
  nodup : (pre.map (·.id)).Nodup
  get? : ∀ j, mid.constraints.get? j =
    if j ∈ pre.map (·.id) then none else s.constraints.get? j
  intact : s.tableau.Feasible → s.tableau.DummyPure → s.RemovesCleanly cs →
    mid.tableau.Feasible ∧ mid.tableau.DummyPure
  undone : (undoAll add pre.reverse mid).outcome = .ok ()
  solver : (s.removeAll cs).solver = (undoAll add pre.reverse mid).solver
  events : ∀ event ∈ (undoAll add pre.reverse mid).events, event ∈ (s.removeAll cs).events

theorem Sound.exists_turnedBack (h : s.Sound forms) {cs : List (Constraint ℚ)}
    (hforms : ∀ c ∈ cs, forms c.id = c.form) {id : ConstraintId}
    (hout : (s.removeAll cs).outcome = .error (.refused (.unknownConstraint id))) :
    ∃ pre mid, s.TurnedBack forms cs pre mid := by
  obtain ⟨pre, c, post, rfl, hpre, hstop, hundone, hsolver, hevents⟩ := batch_refused hout
  obtain ⟨hlist, hlive, hnodup⟩ := constraints_batch_remove hpre
  have hsubset : ∀ d ∈ pre, d ∈ pre ++ c :: post := fun d hd => List.mem_append_left _ hd
  have hsound : (batch Solver.remove Solver.add [] pre s).solver.Sound forms :=
    batch_keeps (fun _ d _ hv => hv.remove d) (fun _ _ hd hv => hv.add hd)
      (fun d hd => hforms d (hsubset d hd)) (by simp) h
  -- the unknown constraint changes nothing, so the undoing starts where the removals ended
  have hsame : ((batch Solver.remove Solver.add [] pre s).solver.remove c).solver =
      (batch Solver.remove Solver.add [] pre s).solver := by
    rcases hsound.remove_outcome c with ⟨hsame, -⟩ | ⟨hok, -⟩ | hlimit
    · exact hsame
    · cases hok.symm.trans hstop
    · cases hlimit.symm.trans hstop
  rw [hsame, List.append_nil] at hundone hsolver hevents
  refine ⟨pre, _, hsound, hsubset, hlive, hnodup, fun j => ?_, fun hfeas hpure hclean => ?_,
    hundone, hsolver, hevents⟩
  · rw [hlist, get?_foldl_erase]
  · exact (h.batch_remove hfeas hpure hclean hpre).2

namespace TurnedBack

variable {cs pre : List (Constraint ℚ)} {mid : Solver ℚ}

/-- Nothing is live afterwards that was not live before, with the same priority. -/
theorem exists_old (h : s.TurnedBack forms cs pre mid)
    (hpriority : ∀ c ∈ cs, ∀ r, s.constraints.get? c.id = some r → r.priority = c.priority)
    {j : ConstraintId} {q : ConstraintRecord}
    (hq : (s.removeAll cs).solver.constraints.get? j = some q) :
    ∃ r, s.constraints.get? j = some r ∧ r.priority = q.priority := by
  rw [h.solver] at hq
  rcases (undoAll_add_live h.undone).2.1 j q hq with hold | ⟨d, hd, rfl, hpri⟩
  · rw [h.get?] at hold
    split at hold
    · cases hold
    · exact ⟨q, hold, rfl⟩
  · have hd := List.mem_reverse.mp hd
    obtain ⟨r, hr⟩ := h.live d hd
    exact ⟨r, hr, (hpriority d (h.subset d hd) r hr).trans hpri.symm⟩

/-- What was live and was not removed is live. -/
theorem live_or_removed (h : s.TurnedBack forms cs pre mid) {j : ConstraintId}
    {r : ConstraintRecord} (hr : s.constraints.get? j = some r) :
    (∃ q, (s.removeAll cs).solver.constraints.get? j = some q) ∨
      ∃ d ∈ pre.reverse, d.id = j := by
  by_cases hj : j ∈ pre.map (·.id)
  · obtain ⟨d, hd, hid⟩ := List.mem_map.mp hj
    exact .inr ⟨d, List.mem_reverse.mpr hd, hid⟩
  · have hmid : mid.constraints.get? j = some r := by rw [h.get?, if_neg hj, hr]
    rw [h.solver]
    exact .inl ⟨r, (undoAll_add_live h.undone).1 j r hmid⟩

/-- **What was live is live again or reported.** -/
theorem live_or_reported (h : s.TurnedBack forms cs pre mid) {j : ConstraintId}
    {r : ConstraintRecord} (hr : s.constraints.get? j = some r) :
    (∃ q, (s.removeAll cs).solver.constraints.get? j = some q) ∨
      ∃ e, .undoFailed j e ∈ (s.removeAll cs).events := by
  rcases h.live_or_removed hr with hq | ⟨d, hd, rfl⟩
  · exact .inl hq
  rw [h.solver]
  exact ((undoAll_add_live h.undone).2.2 d hd).imp_right fun ⟨e, he⟩ => ⟨e, h.events _ he⟩

/-- **What was live is live again** if the rows of dummies stayed intact: the values from before the
batch satisfy all that is put back. -/
theorem live_again (h : s.TurnedBack forms cs pre mid) (hs : s.Sound forms)
    (hforms : ∀ c ∈ cs, forms c.id = c.form)
    (hpriority : ∀ c ∈ cs, ∀ r, s.constraints.get? c.id = some r → r.priority = c.priority)
    (hfeas : s.tableau.Feasible) (hpure : s.tableau.DummyPure) (hclean : s.RemovesCleanly cs)
    (hlimit : ∀ j limit, .undoFailed j (.iterationLimit limit) ∉ (s.removeAll cs).events)
    {j : ConstraintId} {r : ConstraintRecord} (hr : s.constraints.get? j = some r) :
    ∃ q, (s.removeAll cs).solver.constraints.get? j = some q := by
  rcases h.live_or_removed hr with hq | ⟨d, hd, rfl⟩
  · exact hq
  have hadmits : Admits (s.demands forms) s.value := by
    rw [s.value_eq_reading]
    exact hs.records.admits hs.satisfies_point
      ⟨fun x => hfeas.point_nonneg, fun x => hpure.point_eq_zero⟩
  obtain ⟨hmidfeas, hmidpure⟩ := h.intact hfeas hpure hclean
  have hpre : ∀ d ∈ pre.reverse, d ∈ pre := fun d => List.mem_reverse.mp
  rw [h.solver]
  refine h.sound.undoAll_add hmidfeas hmidpure
    (fun d hd => hforms d (h.subset d (hpre d hd))) (fun d hd => ?_) ?_ (fun d hd => ?_)
    (ρ := s.value) ?_ (fun d hd hreq => ?_) h.undone
    (fun j limit he => hlimit j limit (h.events _ he)) d hd
  · rw [h.get?, if_pos (List.mem_map.mpr ⟨d, hpre d hd, rfl⟩)]
  · rw [List.map_reverse]
    exact (List.reverse_perm _).nodup_iff.mpr h.nodup
  · obtain ⟨r, hr⟩ := h.live d (hpre d hd)
    rw [← hpriority d (h.subset d (hpre d hd)) r hr]
    exact hs.records.priced hr
  · refine admits_demands_iff.mpr fun i q hq hreq => ?_
    rw [h.get?] at hq
    split at hq
    · cases hq
    · exact admits_demands_iff.mp hadmits i q hq hreq
  · obtain ⟨r, hr⟩ := h.live d (hpre d hd)
    rw [← hpriority d (h.subset d (hpre d hd)) r hr] at hreq
    rw [← hforms d (h.subset d (hpre d hd))]
    exact admits_demands_iff.mp hadmits d.id r hr hreq

end TurnedBack

end Solver

/-! ## 7. Any course -/

namespace Reached

variable {book : ConstraintId → Origin} {s : Solver ℚ} {τ : Variable → ℚ}

/-- **What is live after a batch of removals that comes upon an unknown constraint.**  Nothing new;
and each constraint that was live is so again with its priority, or its refusal was reported.  If
the rows of dummies were intact, the removals were clean and no step of the undoing was cut short,
everything is live again.  Removals are clean where none of them is of a required equality. -/
theorem removeAll_refused (h : Reached book Succeeds s τ) {cs : List (Constraint ℚ)}
    (hbook : ∀ c ∈ cs, book c.id = .written c.form)
    (hpriority : ∀ c ∈ cs, ∀ r, s.constraints.get? c.id = some r → r.priority = c.priority)
    {id : ConstraintId}
    (hout : (s.removeAll cs).outcome = .error (.refused (.unknownConstraint id))) :
    let u := (s.removeAll cs).solver
    (∀ j q, u.constraints.get? j = some q →
      ∃ r, s.constraints.get? j = some r ∧ r.priority = q.priority) ∧
    (∀ j r, s.constraints.get? j = some r →
      (∃ q, u.constraints.get? j = some q ∧ q.priority = r.priority) ∨
        ∃ e, .undoFailed j e ∈ (s.removeAll cs).events) ∧
    (s.tableau.DummyPure → s.RemovesCleanly cs →
      (∀ j limit, .undoFailed j (.iterationLimit limit) ∉ (s.removeAll cs).events) →
        ∀ j r, s.constraints.get? j = some r →
          ∃ q, u.constraints.get? j = some q ∧ q.priority = r.priority) ∧
    (s.tableau.DummyPure → (∀ c ∈ cs, s.has c = true →
      ¬ (c.priority.isRequired = true ∧ c.relation = .equal)) → s.RemovesCleanly cs) := by
  intro u
  have hsound : s.Sound fun id => (book id).form τ := by
    rw [← h.forms_eq]
    exact h.faithful.1.sound
  have hforms : ∀ c ∈ cs, (book c.id).form τ = c.form := by
    intro c hc
    rw [hbook c hc]
    rfl
  obtain ⟨pre, mid, hback⟩ := hsound.exists_turnedBack hforms hout
  have hagain : ∀ j r, s.constraints.get? j = some r → (∃ q, u.constraints.get? j = some q) →
      ∃ q, u.constraints.get? j = some q ∧ q.priority = r.priority := by
    rintro j r hr ⟨q, hq⟩
    obtain ⟨r', hr', hpri⟩ := hback.exists_old hpriority hq
    cases hr.symm.trans hr'
    exact ⟨q, hq, hpri.symm⟩
  refine ⟨fun j q => hback.exists_old hpriority, fun j r hr => ?_,
    fun hpure hclean hlimit j r hr => hagain j r hr
      (hback.live_again hsound hforms hpriority h.feasible hpure hclean hlimit hr),
    fun hpure hgentle => hsound.removesCleanly hpure fun c hc r hr => ?_⟩
  · exact (hback.live_or_reported hr).imp_left (hagain j r hr)
  · rw [hpriority c hc r hr, hforms c hc]
    exact hgentle c hc (Registry.contains_iff.mpr ⟨r, hr⟩)

end Reached

/-- **A constraint that was just removed is rejected.**  Of the two equalities `v == 5` the first is
removed, which moves `v` to two.  Then the batch comes upon a constraint that is not live, and
nothing is cut short in the undoing; but with the dummy of the second equality at three the first
one cannot be put back, and is not live afterwards. -/
theorem removeAll_loses_equality :
    Reached twiceBook Succeeds twice (fun _ => 0) ∧
      twice.constraints.get? ⟨0⟩ = some ⟨{ marker := ⟨2, .dummy⟩ }, (equalFive 0).priority⟩ ∧
      (twice.removeAll [equalFive 0, equalFive 3]).outcome =
        .error (.refused (.unknownConstraint ⟨3⟩)) ∧
      (twice.removeAll [equalFive 0, equalFive 3]).events =
        [.removed ⟨0⟩, .pivoted ⟨⟨4, .slack⟩, ⟨3, .dummy⟩⟩, .rejected ⟨0⟩,
          .undoFailed ⟨0⟩ (.unsatisfiableConstraint ⟨0⟩)] ∧
      (twice.removeAll [equalFive 0, equalFive 3]).solver.has (equalFive 0) = false :=
  ⟨reached_twice, by decide +kernel, by decide +kernel, by decide +kernel, by decide +kernel⟩

theorem twice_dummyPure : twice.tableau.DummyPure := by
  have hquiet : Reached twiceBook Quiet twice fun _ => 0 :=
    .call _ (.call _ (.call _ (.new {}) rfl (quiet_of_ok trivial (by decide +kernel))) rfl
      (quiet_of_ok trivial (by decide +kernel))) rfl (quiet_of_ok trivial (by decide +kernel))
  exact hquiet.atRest.pure

/-- The dummy of the second equality is basic, so its removal is clean; and so is that of the
bound. -/
theorem twice_removesCleanly : twice.RemovesCleanly [equalFive 1, boundTwo, equalFive 3] := by
  have hlive : twice.constraints.get? ⟨1⟩ = some ⟨{ marker := ⟨3, .dummy⟩ }, .required⟩ := by
    decide +kernel
  have hbasic : (twice.tableau.rows.get? ⟨3, .dummy⟩).isSome = true := by decide +kernel
  have hsound := reached_twice.faithful.1.sound
  have hclean : ∀ r, twice.constraints.get? (equalFive 1).id = some r →
      twice.tableau.ExpelsCleanly r.tag.marker := by
    intro r hr l hfree
    cases hlive.symm.trans hr
    rw [hfree] at hbasic
    cases hbasic
  refine fun _ => ⟨hclean, (hsound.remove _).removesCleanly
    ((hsound.remove_frame _).2.2.2.2 twice_dummyPure hclean) ?_⟩
  intro c hc r hr
  rcases List.mem_pair.mp hc with rfl | rfl
  · exact fun hequal => by cases hequal.2
  · have hnone : (twice.remove (equalFive 1)).solver.constraints.get? ⟨3⟩ = none := by
      decide +kernel
    cases hnone.symm.trans hr

/-- The other way round both come back. -/
theorem removeAll_second_restores :
    (twice.removeAll [equalFive 1, boundTwo, equalFive 3]).outcome =
        .error (.refused (.unknownConstraint ⟨3⟩)) ∧
      ∀ j r, twice.constraints.get? j = some r →
        ∃ q, (twice.removeAll [equalFive 1, boundTwo, equalFive 3]).solver.constraints.get? j =
          some q ∧ q.priority = r.priority := by
  have hout : (twice.removeAll [equalFive 1, boundTwo, equalFive 3]).outcome =
      .error (.refused (.unknownConstraint ⟨3⟩)) := by decide +kernel
  have hrequired : ∀ e ∈ twice.constraints.entries, e.2.priority = .required := by decide +kernel
  have hreported : (twice.removeAll [equalFive 1, boundTwo, equalFive 3]).events.all (fun e =>
      match e with
      | .undoFailed _ _ => false
      | _ => true) = true := by decide +kernel
  have hbook : ∀ c ∈ [equalFive 1, boundTwo, equalFive 3],
      twiceBook c.id = .written c.form ∧ c.priority = .required := by
    simp only [List.forall_mem_cons]
    exact ⟨⟨rfl, rfl⟩, ⟨rfl, rfl⟩, ⟨rfl, rfl⟩, by simp⟩
  obtain ⟨-, -, hagain, -⟩ := reached_twice.removeAll_refused (fun c hc => (hbook c hc).1)
    (fun c hc r hr => (hrequired _ (Registry.mem_entries_iff.mpr hr)).trans (hbook c hc).2.symm)
    hout
  refine ⟨hout, hagain twice_dummyPure twice_removesCleanly fun j limit hmem => ?_⟩
  cases List.all_eq_true.mp hreported _ hmem

end IncrementalSimplex
