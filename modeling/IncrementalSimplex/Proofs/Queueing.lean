/-
# Which negative rows wait on the queue

A restricted row that went negative is found by a dual pass only through the entry of its symbol on
the queue.  So one would like every such row to wait there whenever a call returns
(`Tableau.Queued`): then whatever a pass leaves undone a later one can still do.

**Until a suggestion fails there is nothing to wait for.**  Every call keeps the rows feasible,
however it ends, and so does a suggestion that succeeds.  Nothing but the shift of a target makes a
row negative, and the dual pass after it works the queue off.

**A suggestion that fails loses an entry.**  The dual pass takes an entry off before it looks at its
budget and before it knows what may enter, and an error does not put it back
(`Tableau.Presents.dropped_repair`).  So of the negative rows all wait but the last one looked at,
and that one waits only if it was on the queue twice (`Tableau.Dropped.queued_iff`).

**Nothing brings the entry back by itself.**  A call that succeeds and is not vacuous ends with the
queue empty (`Solver.perform_of_ok`), whether or not rows are negative then.  And what does not wait
is not seen by any later dual pass, unless something queues it again.  A pivot does, since it queues
every row that it leaves negative, and so does a shift of a tag that the row depends on: also that of
the same tag, when a second suggestion for the edit moves the target by zero.
-/
import IncrementalSimplex.Proofs.Redundancy

namespace IncrementalSimplex

/-! ## 1. What a success leaves on the queue -/

section Success

variable {α : Type} [Scalar α] {s : Solver α}

/-- A pass to the minimum of the main objective drops the queue. -/
theorem Tableau.infeasible_minimize {t : Tableau α} {limit : Nat}
    (h : (t.minimize limit .main).outcome = .ok ()) :
    (t.minimize limit .main).tableau.infeasible = [] := by
  obtain ⟨last, -, hend⟩ := minimizeWithin_run limit .main limit t
  have hok : (t.minimizeWithin limit .main limit).outcome = .ok () := h
  change (t.minimizeWithin limit .main limit).tableau.infeasible = []
  generalize (t.minimizeWithin limit .main limit).tableau = u at hend ⊢
  rw [hok] at hend
  cases hend with
  | absent hobj => cases hobj
  | minimum => rfl

/-- A dual pass that succeeds has worked the queue off. -/
theorem Tableau.infeasible_repair {t : Tableau α} {limit : Nat}
    (h : (t.repair limit).outcome = .ok ()) : (t.repair limit).tableau.infeasible = [] := by
  obtain ⟨last, -, hend⟩ := repairWithin_run limit limit t
  have hok : (t.repairWithin limit limit).outcome = .ok () := h
  change (t.repairWithin limit limit).tableau.infeasible = []
  generalize (t.repairWithin limit limit).tableau = u at hend ⊢
  rw [hok] at hend
  cases hend with
  | drained => rfl

namespace Solver

omit [Scalar α] in
/-- Only a successful reply is gone on from. -/
theorem ok_of_andThen {r : Reply α} {next : Solver α → Reply α}
    (h : (r.andThen next).outcome = .ok ()) :
    r.outcome = .ok () ∧ (r.andThen next).solver = (next r.solver).solver ∧
      (next r.solver).outcome = .ok () := by
  cases hr : r.outcome with
  | error halt =>
    rw [Reply.andThen_of_error hr, hr] at h
    cases h
  | ok =>
    rw [Reply.andThen_of_ok hr] at h ⊢
    exact ⟨rfl, rfl, h⟩

/-- **An addition that succeeds** placed its row, and then minimized the objective. -/
theorem add_of_ok {c : Constraint α} (h : (s.add c).outcome = .ok ()) :
    let placed := (s.encode c).place c.id
    placed.outcome = .ok () ∧
      (s.add c).solver = (placed.solver.record c (s.encode c).tag).solver.optimize.solver ∧
      (placed.solver.record c (s.encode c).tag).solver.optimize.outcome = .ok () := by
  unfold add at h ⊢
  split at h
  · cases h
  · rename_i hnew
    rw [if_neg hnew]
    split at h
    · cases h
    · rename_i hnonneg
      rw [if_neg hnonneg]
      obtain ⟨hrecorded, hsolver, hok⟩ := ok_of_andThen h
      obtain ⟨hplaced, hrecord, -⟩ := ok_of_andThen hrecorded
      dsimp only at hsolver hok ⊢
      rw [hrecord] at hsolver hok
      exact ⟨hplaced, hsolver, hok⟩

/-- An addition that succeeds leaves an empty queue. -/
theorem infeasible_add {c : Constraint α} (h : (s.add c).outcome = .ok ()) :
    (s.add c).solver.tableau.infeasible = [] := by
  obtain ⟨-, hsolver, hok⟩ := add_of_ok h
  rw [hsolver]
  exact Tableau.infeasible_minimize hok

/-- So does a removal. -/
theorem infeasible_remove {c : Constraint α} (h : (s.remove c).outcome = .ok ()) :
    (s.remove c).solver.tableau.infeasible = [] := by
  unfold remove at h ⊢
  split at h
  · cases h
  · obtain ⟨-, hsolver, hok⟩ := ok_of_andThen h
    rw [hsolver]
    exact Tableau.infeasible_minimize hok

omit [Scalar α] in
/-- A batch that succeeds is empty or ends with a step that did. -/
theorem infeasible_batch {apply undo : Solver α → Constraint α → Reply α}
    (happly : ∀ s c, (apply s c).outcome = .ok () → (apply s c).solver.tableau.infeasible = []) :
    ∀ {cs applied : List (Constraint α)} {s : Solver α},
      (batch apply undo applied cs s).outcome = .ok () →
        (batch apply undo applied cs s).solver = s ∨
          (batch apply undo applied cs s).solver.tableau.infeasible = []
  | [], _, _, _ => .inl rfl
  | c :: cs, applied, s, h => by
    cases hone : (apply s c).outcome with
    | ok =>
      rw [batch_cons_ok hone] at h ⊢
      have hrest : (batch apply undo (c :: applied) cs (apply s c).solver).outcome = .ok () := h
      refine .inr ?_
      rcases infeasible_batch happly hrest with hsame | hnil
      · rw [Reply.solver_after, hsame]
        exact happly s c hone
      · exact hnil
    | error halt =>
      cases halt with
      | refused e =>
        rw [batch_cons_refused hone] at h
        obtain ⟨-, -, hrefused⟩ := ok_of_andThen (r := undoAll undo applied (apply s c).solver) h
        cases hrefused
      | absentSymbol x =>
        rw [batch_cons_absent hone, hone] at h
        cases h

/-- Giving up an edit is not a success. -/
theorem abandonEdit_ne_ok (c : Constraint α) (v : Variable) (e : SolverError) :
    (s.abandonEdit c v e).outcome ≠ .ok () := by
  unfold abandonEdit
  split
  · dsimp only
    split
    · exact nofun
    · exact nofun
    · rename_i x hx
      rw [hx]
      exact nofun
  · exact nofun

/-- An edit is begun by an addition. -/
theorem infeasible_addEdit {id : ConstraintId} {v : Variable} {p : Priority}
    (h : (s.addEdit id v p).outcome = .ok ()) :
    (s.addEdit id v p).solver.tableau.infeasible = [] := by
  unfold addEdit at h ⊢
  split at h
  · cases h
  dsimp only at h ⊢
  cases hadd : (s.add (editConstraint id v p)).outcome with
  | ok =>
    rw [hadd] at h
    dsimp only at h ⊢
    have hnil := infeasible_add hadd
    generalize (s.add (editConstraint id v p)).solver = u at h hnil ⊢
    rw [Reply.outcome_after] at h
    rw [Reply.solver_after]
    unfold recordEdit at h ⊢
    split at h
    · cases h
    · exact hnil
  | error halt =>
    rw [hadd] at h
    cases halt with
    | refused e => exact absurd h (abandonEdit_ne_ok _ v e)
    | absentSymbol x => exact absurd (hadd.symm.trans h) nofun

/-- And it is ended by a removal. -/
theorem infeasible_removeEdit {v : Variable} (h : (s.removeEdit v).outcome = .ok ()) :
    (s.removeEdit v).solver.tableau.infeasible = [] := by
  unfold removeEdit at h ⊢
  split at h
  · cases h
  · obtain ⟨hok, hsolver, -⟩ := ok_of_andThen h
    rw [hsolver]
    exact infeasible_remove hok

/-- **A call that succeeds changes nothing or leaves an empty queue.** -/
theorem perform_of_ok {c : Call α} (h : (s.perform c).outcome = .ok ()) :
    (s.perform c).solver = s ∨ (s.perform c).solver.tableau.infeasible = [] := by
  cases c with
  | add c => exact .inr (infeasible_add h)
  | remove c => exact .inr (infeasible_remove h)
  | addAll cs => exact infeasible_batch (fun _ _ => infeasible_add) h
  | removeAll cs => exact infeasible_batch (fun _ _ => infeasible_remove) h
  | edit id v p => exact .inr (infeasible_addEdit h)
  | unedit v => exact .inr (infeasible_removeEdit h)
  | suggest v x =>
    change (s.suggest v x).outcome = .ok () at h
    change (s.suggest v x).solver = s ∨ (s.suggest v x).solver.tableau.infeasible = []
    unfold suggest at h ⊢
    split at h
    · exact .inl rfl
    · exact .inr (Tableau.infeasible_repair h)
  | reset => exact .inr rfl

end Solver

end Success

/-! ## 2. What a failed dual pass leaves on it -/

/-- The first symbol that waits with a negative row is all that is taken off with one. -/
theorem Tableau.mem_of_nextInfeasible? {α : Type} [Scalar α] {rows : SymbolMap (Row α)} {l : Symbol}
    {row : Row α} {rest : List Symbol} : ∀ {queue : List Symbol},
    nextInfeasible? rows queue = some (l, row, rest) → ∀ {x : Symbol} {r : Row α}, x ∈ queue →
      rows.get? x = some r → r.constant < 0 → x = l ∨ x ∈ rest
  | [], h, _, _, _, _, _ => by cases h
  | s :: queue, h, x, r, hx, hr, hneg => by
    unfold nextInfeasible? at h
    split at h
    · rename_i hnone
      have hne : x ≠ s := by
        rintro rfl
        rw [hnone] at hr
        cases hr
      exact mem_of_nextInfeasible? h (List.mem_of_ne_of_mem hne hx) hr hneg
    · rename_i other hother
      split at h
      · cases h
        exact List.mem_cons.mp hx
      · rename_i hnonneg
        have hne : x ≠ s := by
          rintro rfl
          rw [hother] at hr
          cases hr
          exact hnonneg hneg
        exact mem_of_nextInfeasible? h (List.mem_of_ne_of_mem hne hx) hr hneg

namespace Tableau

variable {S : Assignment → Prop} {c : Assignment → ℚ} {t : Tableau ℚ} {l : Symbol}

/-- **The entry of one row was dropped**: the row of `l` is negative, and of the negative rows all
others wait on the queue. -/
structure Dropped (t : Tableau ℚ) (l : Symbol) : Prop where
  restricted : l.isRestricted
  negative : ∃ row, t.rows.get? l = some row ∧ row.constant < 0
  others : ∀ b row, t.rows.get? b = some row → b.isRestricted → row.constant < 0 → b ≠ l →
    b ∈ t.infeasible

/-- Then all wait if and only if that one still has another entry. -/
theorem Dropped.queued_iff (h : t.Dropped l) : t.Queued ↔ l ∈ t.infeasible := by
  constructor
  · intro hqueued
    obtain ⟨row, hrow, hneg⟩ := h.negative
    exact hqueued l row hrow h.restricted hneg
  · intro hl b row hb hres hneg
    by_cases hbl : b = l
    · rw [hbl]
      exact hl
    · exact h.others b row hb hres hneg hbl

/-- Taking the next entry off drops it. -/
theorem Queued.dropped (h : t.Queued) (hrestricted : t.QueueRestricted) {row : Row ℚ}
    {rest : List Symbol} (hnext : nextInfeasible? t.rows t.infeasible = some (l, row, rest)) :
    ({ t with infeasible := rest } : Tableau ℚ).Dropped l := by
  obtain ⟨hrow, hneg, hl, -⟩ := of_nextInfeasible? hnext
  refine ⟨hrestricted l hl, ⟨row, hrow, hneg⟩, ?_⟩
  intro b old hb hres hold hbl
  exact (mem_of_nextInfeasible? hnext (h b old hb hres hold) hb hold).resolve_left hbl

/-- **A dual pass that fails drops one entry**, that of the row at which it failed. -/
theorem Presents.dropped_repair (h : t.Presents S c) (hqueued : t.Queued) {limit : Nat}
    (hfail : (t.repair limit).outcome ≠ .ok ()) : ∃ l, (t.repair limit).tableau.Dropped l := by
  obtain ⟨last, ⟨hlast, hq⟩, hend⟩ := repair_ends
    (P := fun u => u.Presents S c ∧ u.Queued)
    (fun _ _ ⟨hu, _⟩ hs => ⟨hu.of_equivalent (hs.sound hu.toSound) (hs.equivalent hu.toRegular),
      hs.queued hu.toRegular⟩)
    ⟨h, hqueued⟩ limit
  generalize (t.repair limit).tableau = u at hend ⊢
  generalize (t.repair limit).outcome = o at hend hfail
  cases hend with
  | drained => exact absurd rfl hfail
  | stuck hnext => exact ⟨_, hq.dropped hlast.queueRestricted hnext⟩
  | limit hnext => exact ⟨_, hq.dropped hlast.queueRestricted hnext⟩
  | fault hnext => exact ⟨_, hq.dropped hlast.queueRestricted hnext⟩

end Tableau

/-! ## 3. Any course -/

variable {book : ConstraintId → Origin} {s : Solver ℚ} {τ : Variable → ℚ}

/-- **A suggestion that fails drops one entry.** -/
theorem Solver.Faithful.dropped_suggest (h : s.Faithful book) (hfeas : s.tableau.Feasible)
    {v : Variable} {x : ℚ} (hfail : (s.suggest v x).outcome ≠ .ok ()) :
    ∃ l, (s.suggest v x).solver.tableau.Dropped l := by
  unfold Solver.suggest at hfail ⊢
  split at hfail
  · exact absurd rfl hfail
  · rename_i e he
    obtain ⟨hu, hqueued, -⟩ := h.shift he x
    exact hu.sound.presents.dropped_repair (hqueued hfeas) hfail

namespace Reached

/-- **Which negative rows wait**, along any course of calls with any budget.  As long as suggestions
succeed no row is negative, whatever the other calls did and however they ended.  When one fails,
one entry is dropped; then all negative rows wait just if that symbol was on the queue twice.  And a
call that succeeds and does anything leaves an empty queue, so that all negative rows wait just if
there are none. -/
theorem queued_until_suggestion_fails :
    (Reached book Followed s τ → s.tableau.Feasible ∧ ∀ c : Call ℚ, c.Lawful book s →
      (Followed s c → (s.perform c).solver.tableau.Feasible) ∧
      (¬ Followed s c → ∃ l, (s.perform c).solver.tableau.Dropped l ∧
        ((s.perform c).solver.tableau.Queued ↔ l ∈ (s.perform c).solver.tableau.infeasible))) ∧
    (Reached book (fun _ _ => True) s τ → ∀ c : Call ℚ, c.Lawful book s → Succeeds s c →
      (s.perform c).solver = s ∨ ((s.perform c).solver.tableau.infeasible = [] ∧
        ((s.perform c).solver.tableau.Queued ↔ (s.perform c).solver.tableau.Feasible))) := by
  constructor
  · intro h
    have hfeas : s.tableau.Feasible := by
      induction h with
      | new config => exact Tableau.atRest_empty.feasible
      | call c hreached lawful allowed ih =>
        exact hreached.faithful.1.feasible_perform ih lawful allowed
    refine ⟨hfeas, fun c hc => ⟨h.faithful.1.feasible_perform hfeas hc, fun hnot => ?_⟩⟩
    simp only [Followed, not_forall] at hnot
    obtain ⟨v, x, rfl, hfail⟩ := hnot
    obtain ⟨l, hl⟩ := h.faithful.1.dropped_suggest hfeas hfail
    exact ⟨l, hl, hl.queued_iff⟩
  · intro _ c _ hok
    refine (Solver.perform_of_ok hok).imp_right fun hnil => ⟨hnil, ?_⟩
    exact ⟨fun hqueued => hqueued.feasible hnil, Tableau.Feasible.queued⟩

end Reached

/-! ## 4. A bound and a pull -/

/-- `v <= 2`, required. -/
def atMostTwo : Constraint ℚ := ⟨⟨1⟩, ⟨[.ofVariable ⟨0⟩], -2⟩, .atMost, .required⟩

/-- The book of a course with that constraint and an edit of `v`. -/
def cappedBook (id : ConstraintId) : Origin :=
  if id = ⟨1⟩ then .written atMostTwo.form else .edit ⟨0⟩

/-- With no pivots to spend, `v` is put under edit ... -/
def cappedBegun : Solver ℚ := ((Solver.new ⟨0⟩ : Solver ℚ).perform (.edit ⟨0⟩ ⟨0⟩ .strong)).solver

/-- ... and bounded ... -/
def capped : Solver ℚ := (cappedBegun.perform (.add atMostTwo)).solver

/-- ... and pulled to three, which takes a pivot. -/
def overpulled : Solver ℚ := (capped.perform (.suggest ⟨0⟩ 3)).solver

theorem reached_capped {allow : Solver ℚ → Call ℚ → Prop}
    (hedit : allow (.new ⟨0⟩) (.edit ⟨0⟩ ⟨0⟩ .strong))
    (hadd : allow cappedBegun (.add atMostTwo)) :
    Reached cappedBook allow capped (fun _ => 0) :=
  .call (.add atMostTwo) (.call (.edit ⟨0⟩ ⟨0⟩ .strong) (.new ⟨0⟩) ⟨rfl, rfl⟩ hedit) rfl hadd

/-- **A row is negative and does not wait.**  The suggestion runs into its budget, and the bound is
violated by one with nothing on the queue. -/
theorem suggestion_loses_entry :
    (∃ τ, Reached cappedBook (fun _ _ => True) overpulled τ) ∧
      (capped.perform (.suggest ⟨0⟩ 3)).outcome = .error (.refused (.iterationLimit 0)) ∧
      (overpulled.tableau.rows.get? ⟨4, .slack⟩).map (·.constant) = some (-1) ∧
      overpulled.tableau.infeasible = [] ∧ ¬ overpulled.tableau.Queued := by
  have hrow : (overpulled.tableau.rows.get? ⟨4, .slack⟩).map (·.constant) = some (-1) := by
    decide +kernel
  have hnil : overpulled.tableau.infeasible = [] := by decide +kernel
  refine ⟨⟨_, (reached_capped trivial trivial).call _ trivial trivial⟩, by decide +kernel, hrow,
    hnil, fun hqueued => ?_⟩
  obtain ⟨row, hget, hneg⟩ := Option.map_eq_some_iff.mp hrow
  have hwaits := hqueued _ row hget (by decide) (by rw [hneg]; norm_num)
  rw [hnil] at hwaits
  cases hwaits

/-- Before the pull the rows are feasible; the pull is not followed and drops an entry; and after
the bound was added nothing waits. -/
theorem capped_queued :
    Reached cappedBook Followed capped (fun _ => 0) ∧ capped.tableau.Feasible ∧
      ¬ Followed capped (.suggest ⟨0⟩ 3) ∧ (∃ l, overpulled.tableau.Dropped l) ∧
      Reached cappedBook (fun _ _ => True) cappedBegun (fun _ => 0) ∧
      Succeeds cappedBegun (.add atMostTwo) ∧
      (capped.tableau.Queued ↔ capped.tableau.Feasible) := by
  have hreached : Reached cappedBook Followed capped (fun _ => 0) := reached_capped nofun nofun
  have hnot : ¬ Followed capped (.suggest ⟨0⟩ 3) := fun hfollowed =>
    absurd (hfollowed ⟨0⟩ 3 rfl) (by unfold Succeeds; decide +kernel)
  have hbegun : Reached cappedBook (fun _ _ => True) cappedBegun (fun _ => 0) :=
    .call (.edit ⟨0⟩ ⟨0⟩ .strong) (.new ⟨0⟩) ⟨rfl, rfl⟩ trivial
  have hadded : Succeeds cappedBegun (.add atMostTwo) := by unfold Succeeds; decide +kernel
  obtain ⟨hfeas, hnext⟩ := Reached.queued_until_suggestion_fails.1 hreached
  obtain ⟨l, hl, -⟩ := (hnext (.suggest ⟨0⟩ 3) trivial).2 hnot
  have hafter := Reached.queued_until_suggestion_fails.2 hbegun (.add atMostTwo) rfl hadded
  refine ⟨hreached, hfeas, hnot, ⟨l, hl⟩, hbegun, hadded, ?_⟩
  rcases hafter with hsame | ⟨-, hiff⟩
  · exact ⟨fun _ => hfeas, Tableau.Feasible.queued⟩
  · exact hiff

end IncrementalSimplex
