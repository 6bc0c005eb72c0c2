/-
# Passes as runs of pivots

A pass is a loop with a budget.  Here the loop is taken apart into its steps: `PrimalStep` and
`DualStep` say what one round does when it makes a pivot, and `minimizeWithin_run` and
`repairWithin_run` say that a pass is a run of such steps, ended in one of the ways that
`PrimalEnd` and `DualEnd` list.  The budget does not show in a run; whatever a step keeps, a pass
keeps, however it ends.

**What a step keeps.**  Its shape, whatever the arithmetic; in the exact reading also the system and
the objectives (`PrimalStep.equivalent`), the places of external symbols and dummies, and
feasibility (`PrimalStep.feasible`) or, for the dual step, the settled objective and the queue.

**Two ways to end that do not occur.**  A primal pass is unbounded when its objective has a negative
cost and no row limits the symbol.  If the objective PRICES the restricted symbols (`Prices`), that
is if it grows with each of them, this cannot be: then some restricted row with a price falls
(`leaving?_ne_none`).  A dual pass is stuck when a row is negative and cannot be raised; then no
`Proper` assignment solves the tableau (`dualEntering?_ne_none`).
-/
import Mathlib.Logic.Relation
import IncrementalSimplex.Proofs.Basis

namespace IncrementalSimplex

namespace Tableau

/-! ## 1. Steps and ends -/

section Any

variable {α : Type} [Scalar α]

/-- One round of the primal pass. -/
inductive PrimalStep (goal : Goal) (t u : Tableau α) : Prop
  | pivot {objective : Row α} {e l : Symbol} (hobj : t.objectiveOf? goal = some objective)
      (he : entering? objective = some e) (hl : t.leaving? e = some l)
      (hu : t.pivot ⟨e, l⟩ = .ok u)

/-- How the primal pass ends at a tableau: the tableau that it leaves, and its outcome. -/
inductive PrimalEnd (limit : Nat) (goal : Goal) (last : Tableau α) :
    Tableau α → Except Halt Unit → Prop
  | absent (hobj : last.objectiveOf? goal = none) : PrimalEnd limit goal last last (.ok ())
  | minimum {objective : Row α} (hobj : last.objectiveOf? goal = some objective)
      (he : entering? objective = none) : PrimalEnd limit goal last (last.atMinimum goal) (.ok ())
  | limit : PrimalEnd limit goal last last (.error (.refused (.iterationLimit limit)))
  | unbounded {objective : Row α} {e : Symbol} (hobj : last.objectiveOf? goal = some objective)
      (he : entering? objective = some e) (hl : last.leaving? e = none) :
      PrimalEnd limit goal last last (.error (.refused (.internal .unboundedObjective)))
  | fault {objective : Row α} {e l : Symbol} {f : PivotFault}
      (hobj : last.objectiveOf? goal = some objective) (he : entering? objective = some e)
      (hl : last.leaving? e = some l) (hf : last.pivot ⟨e, l⟩ = .error f) :
      PrimalEnd limit goal last last (.error (f.halt ⟨e, l⟩))

/-- A run of primal rounds. -/
abbrev PrimalRun (goal : Goal) : Tableau α → Tableau α → Prop :=
  Relation.ReflTransGen (PrimalStep goal)

/-- A primal pass ends where it is, and reports its limit only if the budget is spent; or it makes a
round and goes on with one pivot less. -/
theorem minimizeWithin_cases (limit : Nat) (goal : Goal) (budget : Nat) (t : Tableau α) :
    (PrimalEnd limit goal t (t.minimizeWithin limit goal budget).tableau
        (t.minimizeWithin limit goal budget).outcome ∧
      (t.minimizeWithin limit goal budget).pivots = [] ∧
      ∀ n, (t.minimizeWithin limit goal budget).outcome = .error (.refused (.iterationLimit n)) →
        budget = 0) ∨
      ∃ rest u p, budget = rest + 1 ∧ PrimalStep goal t u ∧ t.pivot p = .ok u ∧
        t.minimizeWithin limit goal budget = (u.minimizeWithin limit goal rest).after p := by
  rw [minimizeWithin.eq_def limit goal budget t]
  cases hobj : t.objectiveOf? goal with
  | none => exact .inl ⟨.absent hobj, rfl, fun _ ho => by cases ho⟩
  | some objective =>
    cases he : entering? objective with
    | none =>
      simp only [Option.map_some, he]
      exact .inl ⟨.minimum hobj he, rfl, fun _ ho => by cases ho⟩
    | some e =>
      simp only [Option.map_some, he]
      cases budget with
      | zero => exact .inl ⟨.limit, rfl, fun _ _ => rfl⟩
      | succ rest =>
        cases hl : t.leaving? e with
        | none => exact .inl ⟨.unbounded hobj he hl, rfl, fun _ ho => by cases ho⟩
        | some l =>
          cases hu : t.pivot ⟨e, l⟩ with
          | error f =>
            simp only [hu]
            exact .inl ⟨.fault hobj he hl hu, rfl, fun _ ho => by cases f <;> cases ho⟩
          | ok u =>
            simp only [hu]
            exact .inr ⟨rest, u, ⟨e, l⟩, rfl, .pivot hobj he hl hu, hu, rfl⟩

/-- **The primal pass is a run of primal rounds**, ended in one of the ways listed. -/
theorem minimizeWithin_run (limit : Nat) (goal : Goal) : ∀ (budget : Nat) (t : Tableau α),
    ∃ last, PrimalRun goal t last ∧ PrimalEnd limit goal last
      (t.minimizeWithin limit goal budget).tableau
      (t.minimizeWithin limit goal budget).outcome := by
  intro budget
  induction budget with
  | zero =>
    intro t
    rcases minimizeWithin_cases limit goal 0 t with ⟨hend, -⟩ | ⟨rest, u, p, hbudget, -⟩
    · exact ⟨t, .refl, hend⟩
    · cases hbudget
  | succ budget ih =>
    intro t
    rcases minimizeWithin_cases limit goal (budget + 1) t with
      ⟨hend, -⟩ | ⟨rest, u, p, hbudget, hs, -, heq⟩
    · exact ⟨t, .refl, hend⟩
    · cases hbudget
      obtain ⟨last, hrun, hend⟩ := ih u
      rw [heq]
      exact ⟨last, .head hs hrun, hend⟩

/-- One round of the dual pass that makes a pivot; stale entries above it are taken off too. -/
inductive DualStep (t u : Tableau α) : Prop
  | pivot {e l : Symbol} {row : Row α} {rest : List Symbol}
      (hnext : nextInfeasible? t.rows t.infeasible = some (l, row, rest))
      (he : t.dualEntering? row = some e)
      (hu : { t with infeasible := rest }.pivot ⟨e, l⟩ = .ok u)

/-- The parts of a dual round by name. -/
theorem DualStep.parts {t u : Tableau α} (h : DualStep t u) :
    ∃ e l row rest, nextInfeasible? t.rows t.infeasible = some (l, row, rest) ∧
      t.dualEntering? row = some e ∧ { t with infeasible := rest }.pivot ⟨e, l⟩ = .ok u := by
  obtain ⟨hnext, he, hu⟩ := h
  exact ⟨_, _, _, _, hnext, he, hu⟩

/-- How the dual pass ends at a tableau. -/
inductive DualEnd (limit : Nat) (last : Tableau α) : Tableau α → Except Halt Unit → Prop
  | drained (hnext : nextInfeasible? last.rows last.infeasible = none) :
      DualEnd limit last { last with infeasible := [] } (.ok ())
  | stuck {l : Symbol} {row : Row α} {rest : List Symbol}
      (hnext : nextInfeasible? last.rows last.infeasible = some (l, row, rest))
      (he : last.dualEntering? row = none) :
      DualEnd limit last { last with infeasible := rest }
        (.error (.refused (.internal .dualStuck)))
  | limit {l : Symbol} {row : Row α} {rest : List Symbol}
      (hnext : nextInfeasible? last.rows last.infeasible = some (l, row, rest)) :
      DualEnd limit last { last with infeasible := rest }
        (.error (.refused (.iterationLimit limit)))
  | fault {e l : Symbol} {row : Row α} {rest : List Symbol} {f : PivotFault}
      (hnext : nextInfeasible? last.rows last.infeasible = some (l, row, rest))
      (he : last.dualEntering? row = some e)
      (hf : { last with infeasible := rest }.pivot ⟨e, l⟩ = .error f) :
      DualEnd limit last { last with infeasible := rest } (.error (f.halt ⟨e, l⟩))

/-- A run of dual rounds. -/
abbrev DualRun : Tableau α → Tableau α → Prop := Relation.ReflTransGen DualStep

/-- A dual pass ends where it is, or makes a round and goes on with one pivot less. -/
theorem repairWithin_cases (limit : Nat) (budget : Nat) (t : Tableau α) :
    DualEnd limit t (t.repairWithin limit budget).tableau (t.repairWithin limit budget).outcome ∨
      ∃ rest u p n, budget = rest + 1 ∧ DualStep t u ∧
        t.repairWithin limit budget = ((u.repairWithin limit rest).after p).popping n := by
  rw [repairWithin.eq_def limit budget t]
  rcases hnext : nextInfeasible? t.rows t.infeasible with _ | ⟨l, row, rest⟩
  · exact .inl (.drained hnext)
  · have hsame : ({ t with infeasible := rest } : Tableau α).dualEntering? row =
        t.dualEntering? row := rfl
    cases he : t.dualEntering? row with
    | none =>
      simp only [hsame, he]
      exact .inl (.stuck hnext he)
    | some e =>
      simp only [hsame, he]
      cases budget with
      | zero => exact .inl (.limit hnext)
      | succ budget =>
        cases hu : ({ t with infeasible := rest } : Tableau α).pivot ⟨e, l⟩ with
        | error f => exact .inl (.fault hnext he hu)
        | ok u => exact .inr ⟨budget, u, ⟨e, l⟩, _, rfl, .pivot hnext he hu, rfl⟩

/-- **The dual pass is a run of dual rounds**, ended in one of the ways listed. -/
theorem repairWithin_run (limit : Nat) : ∀ (budget : Nat) (t : Tableau α),
    ∃ last, DualRun t last ∧ DualEnd limit last
      (t.repairWithin limit budget).tableau (t.repairWithin limit budget).outcome := by
  intro budget
  induction budget with
  | zero =>
    intro t
    rcases repairWithin_cases limit 0 t with hend | ⟨rest, u, p, n, hbudget, -⟩
    · exact ⟨t, .refl, hend⟩
    · cases hbudget
  | succ budget ih =>
    intro t
    rcases repairWithin_cases limit (budget + 1) t with hend | ⟨rest, u, p, n, hbudget, hs, heq⟩
    · exact ⟨t, .refl, hend⟩
    · cases hbudget
      obtain ⟨last, hrun, hend⟩ := ih u
      rw [heq]
      exact ⟨last, .head hs hrun, hend⟩

omit [Scalar α] in
/-- **What one step keeps, a run keeps.** -/
theorem keeps {Step : Tableau α → Tableau α → Prop} {P : Tableau α → Prop}
    (hstep : ∀ t u, P t → Step t u → P u) {t u : Tableau α}
    (hrun : Relation.ReflTransGen Step t u) (ht : P t) : P u := by
  induction hrun with
  | refl => exact ht
  | tail _ hs ih => exact hstep _ _ ih hs

/-- **What every primal round keeps holds where the pass ends.** -/
theorem minimize_ends {goal : Goal} {P : Tableau α → Prop}
    (hstep : ∀ t u, P t → PrimalStep goal t u → P u) {t : Tableau α} (ht : P t) (limit : Nat) :
    ∃ last, P last ∧
      PrimalEnd limit goal last (t.minimize limit goal).tableau
        (t.minimize limit goal).outcome := by
  obtain ⟨last, hrun, hend⟩ := minimizeWithin_run limit goal limit t
  exact ⟨last, keeps hstep hrun ht, hend⟩

/-- **What every dual round keeps holds where the pass ends.** -/
theorem repair_ends {P : Tableau α → Prop} (hstep : ∀ t u, P t → DualStep t u → P u)
    {t : Tableau α} (ht : P t) (limit : Nat) :
    ∃ last, P last ∧ DualEnd limit last (t.repair limit).tableau (t.repair limit).outcome := by
  obtain ⟨last, hrun, hend⟩ := repairWithin_run limit limit t
  exact ⟨last, keeps hstep hrun ht, hend⟩

/-- The symbol taken off the queue has a negative row, and was on it; what is left was too. -/
theorem of_nextInfeasible? {rows : SymbolMap (Row α)} {l : Symbol} {row : Row α}
    {rest : List Symbol} : ∀ {queue : List Symbol},
    nextInfeasible? rows queue = some (l, row, rest) →
      rows.get? l = some row ∧ row.constant < 0 ∧ l ∈ queue ∧ ∀ x ∈ rest, x ∈ queue
  | [], h => by cases h
  | s :: queue, h => by
    have hrec : nextInfeasible? rows queue = some (l, row, rest) →
        rows.get? l = some row ∧ row.constant < 0 ∧ l ∈ s :: queue ∧
          ∀ x ∈ rest, x ∈ s :: queue := by
      intro h
      obtain ⟨hrow, hneg, hl, hrest⟩ := of_nextInfeasible? h
      exact ⟨hrow, hneg, List.mem_cons_of_mem _ hl, fun x hx => List.mem_cons_of_mem _ (hrest x hx)⟩
    unfold nextInfeasible? at h
    split at h
    · exact hrec h
    · rename_i other hother
      split at h
      · rename_i hneg
        cases h
        exact ⟨hother, hneg, List.mem_cons_self, fun x hx => List.mem_cons_of_mem _ hx⟩
      · exact hrec h

/-- A drained queue held no symbol with a negative row. -/
theorem not_neg_of_nextInfeasible?_eq_none {rows : SymbolMap (Row α)} :
    ∀ {queue : List Symbol}, nextInfeasible? rows queue = none →
      ∀ x ∈ queue, ∀ row, rows.get? x = some row → ¬ row.constant < 0
  | [], _, x, hx, _, _ => by cases hx
  | s :: queue, h, x, hx, row, hrow => by
    unfold nextInfeasible? at h
    rcases List.mem_cons.mp hx with rfl | hx
    · rw [hrow] at h
      simp only at h
      split at h
      · cases h
      · assumption
    · split at h
      · exact not_neg_of_nextInfeasible?_eq_none h x hx row hrow
      · split at h
        · cases h
        · exact not_neg_of_nextInfeasible?_eq_none h x hx row hrow

/-- A primal pass leaves its last tableau, at most without the queue. -/
theorem PrimalEnd.tableau_eq {limit : Nat} {goal : Goal} {last u : Tableau α}
    {o : Except Halt Unit} (h : PrimalEnd limit goal last u o) :
    u = last ∨ u = { last with infeasible := [] } := by
  cases h with
  | minimum =>
    cases goal with
    | main => exact .inr rfl
    | artificial => exact .inl rfl
  | absent => exact .inl rfl
  | limit => exact .inl rfl
  | unbounded => exact .inl rfl
  | fault => exact .inl rfl

theorem PrimalEnd.rows_eq {limit : Nat} {goal : Goal} {last u : Tableau α} {o : Except Halt Unit}
    (h : PrimalEnd limit goal last u o) : u.rows = last.rows := by
  rcases h.tableau_eq with heq | heq <;> rw [heq]

/-- A pass that finds nothing to improve leaves the rows as they are. -/
theorem rows_minimize_of_entering?_eq_none {t : Tableau α} (h : entering? t.objective = none)
    (limit : Nat) : (t.minimize limit .main).tableau.rows = t.rows := by
  have hstays : ∀ u v, u = t → PrimalStep .main u v → v = t := by
    intro u v hu hs
    subst hu
    obtain ⟨hobj, he, -, -⟩ := hs
    cases hobj
    rw [h] at he
    cases he
  obtain ⟨last, hlast, hend⟩ := minimize_ends (P := fun u => u = t) hstays rfl limit
  subst hlast
  exact hend.rows_eq

/-- The artificial pass leaves its last tableau as it is. -/
theorem PrimalEnd.tableau_eq_of_artificial {limit : Nat} {last u : Tableau α}
    {o : Except Halt Unit} (h : PrimalEnd limit .artificial last u o) : u = last := by
  cases h <;> rfl

/-- A dual pass leaves its last tableau with less on the queue. -/
theorem DualEnd.tableau_eq {limit : Nat} {last u : Tableau α} {o : Except Halt Unit}
    (h : DualEnd limit last u o) :
    ∃ queue, (∀ x ∈ queue, x ∈ last.infeasible) ∧ u = { last with infeasible := queue } := by
  cases h with
  | drained => exact ⟨[], by simp, rfl⟩
  | stuck hnext => exact ⟨_, (of_nextInfeasible? hnext).2.2.2, rfl⟩
  | limit hnext => exact ⟨_, (of_nextInfeasible? hnext).2.2.2, rfl⟩
  | fault hnext => exact ⟨_, (of_nextInfeasible? hnext).2.2.2, rfl⟩

/-! ## 2. The shape under a step -/

omit [Scalar α] in
theorem Canonical.objectiveOf? {t : Tableau α} (h : t.Canonical) {goal : Goal} {objective : Row α}
    (hobj : t.objectiveOf? goal = some objective) : t.Free objective := by
  cases goal with
  | main =>
    cases hobj
    exact fun _ => h.objective
  | artificial => exact fun _ => h.artificial hobj

omit [Scalar α] in
theorem Over.objectiveOf? {P : Symbol → Prop} {t : Tableau α} (h : t.Over P) {goal : Goal}
    {objective : Row α} (hobj : t.objectiveOf? goal = some objective) {x : Symbol}
    (hx : objective.Mentions x) : P x := by
  cases goal with
  | main =>
    cases hobj
    exact h.objective hx
  | artificial => exact h.artificial hobj hx

omit [Scalar α] in
theorem Canonical.withQueue {t : Tableau α} (h : t.Canonical) (queue : List Symbol) :
    ({ t with infeasible := queue } : Tableau α).Canonical := ⟨h.rows, h.objective, h.artificial⟩

omit [Scalar α] in
theorem Over.withQueue {P : Symbol → Prop} {t : Tableau α} (h : t.Over P) (queue : List Symbol) :
    ({ t with infeasible := queue } : Tableau α).Over P :=
  ⟨h.basic, h.rows, h.objective, h.artificial⟩

theorem PrimalStep.canonical {goal : Goal} {t u : Tableau α} (ht : t.Canonical)
    (h : PrimalStep goal t u) : u.Canonical := by
  obtain ⟨-, -, -, hu⟩ := h
  exact ht.pivot hu

theorem PrimalStep.over {goal : Goal} {P : Symbol → Prop} {t u : Tableau α} (ht : t.Over P)
    (h : PrimalStep goal t u) : u.Over P := by
  obtain ⟨hobj, he, -, hu⟩ := h
  exact ht.pivot (ht.objectiveOf? hobj (of_entering? he).1) hu

/-- A restricted row leaves, so no external symbol comes into another one. -/
theorem PrimalStep.externalFree {goal : Goal} {t u : Tableau α} (ht : t.ExternalFree)
    (h : PrimalStep goal t u) : u.ExternalFree := by
  obtain ⟨-, -, hl, hu⟩ := h
  obtain ⟨-, -, hres, -⟩ := of_leaving? hl
  exact ht.pivot hres hu

theorem DualStep.canonical {t u : Tableau α} (ht : t.Canonical) (h : DualStep t u) :
    u.Canonical := by
  obtain ⟨-, -, hu⟩ := h
  exact (ht.withQueue _).pivot hu

theorem DualStep.over {P : Symbol → Prop} {t u : Tableau α} (ht : t.Over P) (h : DualStep t u) :
    u.Over P := by
  obtain ⟨hnext, he, hu⟩ := h
  have hrow := (of_nextInfeasible? hnext).1
  exact (ht.withQueue _).pivot (ht.rows hrow (of_dualEntering? he).1) hu

theorem Over.minimize {P : Symbol → Prop} {t : Tableau α} (h : t.Over P) (limit : Nat)
    (goal : Goal) : (t.minimize limit goal).tableau.Over P := by
  obtain ⟨last, hlast, hend⟩ := minimize_ends (P := Over P)
    (fun u v hu (hs : PrimalStep goal u v) => hs.over hu) h limit
  rcases hend.tableau_eq with heq | heq
  · rw [heq]
    exact hlast
  · rw [heq]
    exact hlast.withQueue []

theorem Over.repair {P : Symbol → Prop} {t : Tableau α} (h : t.Over P) (limit : Nat) :
    (t.repair limit).tableau.Over P := by
  obtain ⟨last, hlast, hend⟩ := repair_ends (P := Over P) (fun _ _ hu hs => DualStep.over hu hs) h
    limit
  obtain ⟨queue, -, heq⟩ := hend.tableau_eq
  rw [heq]
  exact hlast.withQueue queue

theorem Canonical.minimize {t : Tableau α} (h : t.Canonical) (limit : Nat) (goal : Goal) :
    (t.minimize limit goal).tableau.Canonical := by
  obtain ⟨last, hlast, hend⟩ := minimize_ends (P := Canonical)
    (fun u v hu (hs : PrimalStep goal u v) => hs.canonical hu) h limit
  rcases hend.tableau_eq with heq | heq
  · rw [heq]
    exact hlast
  · rw [heq]
    exact hlast.withQueue []

theorem Canonical.repair {t : Tableau α} (h : t.Canonical) (limit : Nat) :
    (t.repair limit).tableau.Canonical := by
  obtain ⟨last, hlast, hend⟩ := repair_ends (P := Canonical)
    (fun _ _ hu hs => DualStep.canonical hu hs) h limit
  obtain ⟨queue, -, heq⟩ := hend.tableau_eq
  rw [heq]
  exact hlast.withQueue queue

theorem artificial_minimize {t : Tableau α} (h : t.artificial = none) (limit : Nat)
    (goal : Goal) : (t.minimize limit goal).tableau.artificial = none := by
  have hstep : ∀ u v : Tableau α, u.artificial = none → PrimalStep goal u v →
      v.artificial = none := by
    rintro u v hu ⟨-, -, -, hv⟩
    exact artificial_pivot hu hv
  obtain ⟨last, hlast, hend⟩ := minimize_ends (P := fun u => u.artificial = none) hstep h limit
  rcases hend.tableau_eq with heq | heq <;> rw [heq] <;> exact hlast

theorem artificial_repair {t : Tableau α} (h : t.artificial = none) (limit : Nat) :
    (t.repair limit).tableau.artificial = none := by
  have hstep : ∀ u v : Tableau α, u.artificial = none → DualStep u v → v.artificial = none := by
    intro u v hu hs
    obtain ⟨e, l, row, rest, -, -, hv⟩ := hs.parts
    exact artificial_pivot (t := { u with infeasible := rest }) hu hv
  obtain ⟨last, hlast, hend⟩ := repair_ends (P := fun u => u.artificial = none) hstep h limit
  obtain ⟨queue, -, heq⟩ := hend.tableau_eq
  rw [heq]
  exact hlast

/-- **A primal pass ends in one of three ways**, because a chosen pivot can be carried out. -/
theorem PrimalEnd.cases_outcome [Scalar.LawfulUnits α] {limit : Nat} {goal : Goal}
    {last u : Tableau α} {o : Except Halt Unit} (h : PrimalEnd limit goal last u o)
    (hlast : last.Canonical) :
    (o = .ok () ∧ ∀ objective, last.objectiveOf? goal = some objective →
      entering? objective = none) ∨
    o = .error (.refused (.iterationLimit limit)) ∨
    (o = .error (.refused (.internal .unboundedObjective)) ∧ ∃ objective e,
      last.objectiveOf? goal = some objective ∧ entering? objective = some e ∧
        last.leaving? e = none) := by
  cases h with
  | absent hobj =>
    refine .inl ⟨rfl, fun objective hsome => ?_⟩
    rw [hobj] at hsome
    cases hsome
  | minimum hobj he =>
    refine .inl ⟨rfl, fun objective hsome => ?_⟩
    rw [hobj] at hsome
    cases hsome
    exact he
  | limit => exact .inr (.inl rfl)
  | unbounded hobj he hl => exact .inr (.inr ⟨rfl, _, _, hobj, he, hl⟩)
  | fault hobj he hl hf =>
    obtain ⟨u, hu⟩ := exists_pivot_of_leaving? (hlast.objectiveOf? hobj _ (of_entering? he).1) hl
    rw [hu] at hf
    cases hf

/-- **A dual pass ends in one of three ways.** -/
theorem DualEnd.cases_outcome {limit : Nat} {last u : Tableau α} {o : Except Halt Unit}
    (h : DualEnd limit last u o) (hlast : last.Canonical) :
    (o = .ok () ∧ nextInfeasible? last.rows last.infeasible = none ∧
      u = { last with infeasible := [] }) ∨
    o = .error (.refused (.iterationLimit limit)) ∨
    (o = .error (.refused (.internal .dualStuck)) ∧ ∃ l row rest,
      nextInfeasible? last.rows last.infeasible = some (l, row, rest) ∧
        last.dualEntering? row = none) := by
  cases h with
  | drained hnext => exact .inl ⟨rfl, hnext, rfl⟩
  | stuck hnext he => exact .inr (.inr ⟨rfl, _, _, _, hnext, he⟩)
  | limit => exact .inr (.inl rfl)
  | fault hnext he hf =>
    rename_i e l row rest f
    have hrow := (of_nextInfeasible? hnext).1
    have hmen := (of_dualEntering? he).1
    obtain ⟨u, hu⟩ := exists_pivot (t := { last with infeasible := rest })
      ((hlast.rows hrow hmen).ne hrow) hrow hmen
    rw [hu] at hf
    cases hf

/-- Only restricted symbols wait on the queue. -/
def QueueRestricted (t : Tableau α) : Prop := ∀ x ∈ t.infeasible, x.isRestricted

theorem QueueRestricted.enter {t : Tableau α} (h : t.QueueRestricted) (s : Symbol) (row : Row α) :
    (t.enter s row).QueueRestricted := by
  intro x hx
  rcases List.mem_append.mp hx with hx | hx
  · obtain ⟨⟨b, r⟩, hmem, rfl⟩ := List.mem_map.mp (List.mem_reverse.mp hx)
    exact (Bool.and_eq_true_iff.mp (List.mem_filter.mp hmem).2).1
  · exact h x hx

theorem QueueRestricted.pivot {t u : Tableau α} (h : t.QueueRestricted) {e l : Symbol}
    (hu : t.pivot ⟨e, l⟩ = .ok u) : u.QueueRestricted := by
  obtain ⟨row, solved, -, -, rfl⟩ := pivot_cases hu
  exact QueueRestricted.enter (t := t.dropRow l) h e solved

theorem DualStep.queueRestricted {t u : Tableau α} (ht : t.QueueRestricted) (h : DualStep t u) :
    u.QueueRestricted := by
  obtain ⟨hnext, -, hu⟩ := h
  refine QueueRestricted.pivot (t := { t with infeasible := _ }) (fun x hx => ?_) hu
  exact ht x ((of_nextInfeasible? hnext).2.2.2 x hx)

end Any

/-! ## 3. What a step keeps in the exact reading -/

theorem Regular.withQueue {t : Tableau ℚ} (h : t.Regular) (queue : List Symbol) :
    ({ t with infeasible := queue } : Tableau ℚ).Regular :=
  ⟨h.toCanonical.withQueue queue, h.reduced, h.objective_reduced, h.artificial_reduced⟩

theorem ExternalFree.withQueue {t : Tableau ℚ} (h : t.ExternalFree) (queue : List Symbol) :
    ({ t with infeasible := queue } : Tableau ℚ).ExternalFree :=
  ⟨h.rows, h.objective, h.artificial⟩

/-- The queue is no part of the system. -/
theorem equivalent_withQueue (t : Tableau ℚ) (queue : List Symbol) :
    t.Equivalent { t with infeasible := queue } :=
  ⟨fun _ => Iff.rfl, fun _ _ => rfl, fun _ _ => rfl⟩

/-- **A sound tableau**: regular, external symbols in external rows only, and nothing but restricted
symbols on the queue.  Every tableau at rest is sound, whatever calls were made. -/
structure Sound (t : Tableau ℚ) : Prop extends t.Regular where
  externalFree : t.ExternalFree
  queueRestricted : t.QueueRestricted

theorem Sound.withQueue {t : Tableau ℚ} (h : t.Sound) {queue : List Symbol}
    (hqueue : ∀ x ∈ queue, x.isRestricted) :
    ({ t with infeasible := queue } : Tableau ℚ).Sound :=
  ⟨h.toRegular.withQueue queue, h.externalFree.withQueue queue, hqueue⟩

/-- A pivot on a restricted row keeps a tableau sound. -/
theorem Sound.pivot {t u : Tableau ℚ} (h : t.Sound) {e l : Symbol} (hl : l.isRestricted)
    (hu : t.pivot ⟨e, l⟩ = .ok u) : u.Sound :=
  ⟨h.toRegular.pivot hu, h.externalFree.pivot hl hu, h.queueRestricted.pivot hu⟩

theorem PrimalStep.sound {goal : Goal} {t u : Tableau ℚ} (ht : t.Sound)
    (h : PrimalStep goal t u) : u.Sound := by
  obtain ⟨-, -, hl, hu⟩ := h
  obtain ⟨row, -, hres, -⟩ := of_leaving? hl
  exact ht.pivot hres hu

theorem PrimalStep.equivalent {goal : Goal} {t u : Tableau ℚ} (ht : t.Canonical)
    (h : PrimalStep goal t u) : t.Equivalent u := by
  obtain ⟨hobj, he, hl, hu⟩ := h
  obtain ⟨row, hrow, -, hneg⟩ := of_leaving? hl
  exact pivot_equivalent (ht.objectiveOf? hobj _ (of_entering? he).1) hrow hneg.ne hu

/-- **A primal step keeps feasibility.** -/
theorem PrimalStep.feasible {goal : Goal} {t u : Tableau ℚ} (ht : t.Canonical)
    (hfeas : t.Feasible) (h : PrimalStep goal t u) : u.Feasible := by
  obtain ⟨hobj, he, hl, hu⟩ := h
  obtain ⟨row, hrow, hres, hneg⟩ := of_leaving? hl
  exact hfeas.primal (ht.objectiveOf? hobj _ (of_entering? he).1) hrow hres hneg
    (leaving?_le hl hrow) hu

theorem PrimalStep.dummyPure {goal : Goal} {t u : Tableau ℚ} (hpure : t.DummyPure)
    (h : PrimalStep goal t u) : u.DummyPure := by
  obtain ⟨-, he, -, hu⟩ := h
  exact hpure.pivot (of_entering? he).2.1 hu

theorem DualStep.sound {t u : Tableau ℚ} (ht : t.Sound) (h : DualStep t u) : u.Sound := by
  obtain ⟨hnext, -, hu⟩ := h
  obtain ⟨-, -, hl, hrest⟩ := of_nextInfeasible? hnext
  exact (ht.withQueue fun x hx => ht.queueRestricted x (hrest x hx)).pivot
    (ht.queueRestricted _ hl) hu

theorem DualStep.equivalent {t u : Tableau ℚ} (ht : t.Regular) (h : DualStep t u) :
    t.Equivalent u := by
  obtain ⟨e, l, row, rest, hnext, he, hu⟩ := h.parts
  have hrow := (of_nextInfeasible? hnext).1
  exact (t.equivalent_withQueue rest).trans
    ((ht.withQueue rest).pivot_equivalent (ht.rows hrow (of_dualEntering? he).1) hu)

theorem DualStep.dummyPure {t u : Tableau ℚ} (hpure : t.DummyPure) (h : DualStep t u) :
    u.DummyPure := by
  obtain ⟨e, l, row, rest, -, he, hu⟩ := h.parts
  exact DummyPure.pivot (t := { t with infeasible := rest }) hpure (of_dualEntering? he).2.1 hu

/-- **A dual step keeps the objective settled.** -/
theorem DualStep.settled {t u : Tableau ℚ} (ht : t.Regular) (hset : t.Settled)
    (h : DualStep t u) : u.Settled := by
  obtain ⟨e, l, row, rest, hnext, he, hu⟩ := h.parts
  have hrow := (of_nextInfeasible? hnext).1
  exact Settled.dual (t := { t with infeasible := rest }) hset (ht.withQueue rest)
    (ht.rows hrow (of_dualEntering? he).1) hrow he hu

/-- **A dual step queues whatever is infeasible after it.**  The symbol that enters does so at a
positive value. -/
theorem DualStep.queued {t u : Tableau ℚ} (ht : t.Regular) (h : DualStep t u) : u.Queued := by
  obtain ⟨e, l, row, rest, hnext, he, hu⟩ := h.parts
  obtain ⟨hrow, hneg, -, -⟩ := of_nextInfeasible? hnext
  obtain ⟨hmen, -, hpos⟩ := of_dualEntering? he
  obtain ⟨row', solved, hrow', hel, hc, hsolved, rfl⟩ :=
    (ht.withQueue rest).pivot_row (ht.rows hrow hmen) hu
  have heq : row' = row := Option.some.inj (hrow'.symm.trans hrow)
  subst heq
  refine queued_enter ?_
  rw [Row.constant_exchange? hel hsolved hc]
  exact div_nonneg (neg_nonneg.mpr hneg.le) hpos.le

/-- A drained queue leaves a feasible tableau. -/
theorem Queued.feasible_of_drained {t : Tableau ℚ} (h : t.Queued)
    (hnext : nextInfeasible? t.rows t.infeasible = none) : t.Feasible := by
  intro b row hb hres
  by_contra hneg
  have hlt : row.constant < 0 := not_le.mp hneg
  exact not_neg_of_nextInfeasible?_eq_none hnext b (h b row hb hres hlt) row hb hlt

/-! ## 4. Prices: why a primal pass is not unbounded -/

/-- On the solutions an objective is a cost, up to a constant.  The constant is not known: a shift
of an edit's target changes it, and no call looks at it. -/
def Prices (t : Tableau ℚ) (goal : Goal) (cost : Assignment → ℚ) : Prop :=
  ∃ k, ∀ objective, t.objectiveOf? goal = some objective →
    ∀ σ, t.Solves σ → objective.value σ = cost σ + k

/-- A cost that grows with each restricted symbol. -/
def MonotoneCost (cost : Assignment → ℚ) : Prop :=
  ∀ σ τ : Assignment, (∀ x : Symbol, x.isRestricted → σ x ≤ τ x) → cost σ ≤ cost τ

theorem Equivalent.prices {t u : Tableau ℚ} (h : t.Equivalent u) {goal : Goal}
    {cost : Assignment → ℚ} (hp : t.Prices goal cost) : u.Prices goal cost := by
  obtain ⟨k, hk⟩ := hp
  refine ⟨k, fun objective hobj σ hσ => ?_⟩
  have hσt : t.Solves σ := (h.solves σ).mp hσ
  cases goal with
  | main =>
    cases hobj
    rw [h.objective σ hσt]
    exact hk _ rfl σ hσt
  | artificial =>
    have hart := h.artificial σ hσt
    rw [show u.artificial = some objective from hobj, Option.map_some] at hart
    obtain ⟨old, hold, heq⟩ := Option.map_eq_some_iff.mp hart.symm
    rw [← heq]
    exact hk old hold σ hσt

/-- **A priced objective is bounded below.**  Were there no restricted row that falls with the
entering symbol, raising the symbol would lower no restricted one, and yet the cost. -/
theorem leaving?_ne_none {t : Tableau ℚ} (ht : t.Canonical) {goal : Goal}
    {cost : Assignment → ℚ} (hp : t.Prices goal cost) (hmono : MonotoneCost cost)
    {objective : Row ℚ} {e : Symbol} (hobj : t.objectiveOf? goal = some objective)
    (he : entering? objective = some e) : t.leaving? e ≠ none := by
  intro hnone
  obtain ⟨k, hk⟩ := hp
  obtain ⟨-, -, hneg⟩ := of_entering? he
  set up : Assignment := Function.update (fun _ => 0) e 1
  have hrise : cost (t.extend fun _ => 0) ≤ cost (t.extend up) := by
    refine hmono _ _ fun x hx => ?_
    cases hrow : t.rows.get? x with
    | some row =>
      rw [extend_basic hrow, extend_basic hrow, Row.value_update]
      have := nonneg_of_leaving?_eq_none hnone hrow hx
      simpa using this
    | none =>
      rw [extend_nonbasic hrow, extend_nonbasic hrow]
      by_cases hxe : x = e
      · subst hxe
        simp [up]
      · simp [up, hxe]
  have h0 := hk objective hobj _ (ht.solves_extend fun _ => 0)
  have h1 := hk objective hobj _ (ht.solves_extend up)
  have hfree := ht.objectiveOf? hobj
  rw [hfree.value_extend] at h0 h1
  rw [Row.value_update] at h1
  have hlt : objective.coefficient e < 0 := hneg
  simp only [sub_zero, mul_one] at h1
  linarith

/-! ## 5. Proper assignments: why a dual pass is not stuck -/

end Tableau

/-- **An assignment that the constraints allow**: restricted symbols are at least zero, and dummies
are zero. -/
structure Assignment.Proper (σ : Assignment) : Prop where
  nonneg : ∀ x : Symbol, x.isRestricted → 0 ≤ σ x
  dummy : ∀ x : Symbol, x.isDummy → σ x = 0

namespace Row

theorem combination_nonneg {σ : Assignment} : ∀ {l : List (Symbol × ℚ)},
    (∀ e ∈ l, 0 ≤ e.2 * σ e.1) → 0 ≤ SymbolMap.combination σ l
  | [], _ => le_refl _
  | e :: l, h => by
    rw [SymbolMap.combination_cons]
    have := combination_nonneg fun f hf => h f (List.mem_cons_of_mem e hf)
    exact add_nonneg (h e List.mem_cons_self) this

/-- **Without negative costs, the constant is the least value at proper assignments.** -/
theorem constant_le_value {r : Row ℚ} (hfree : r.ExternalFree)
    (hcost : ∀ x : Symbol, x.isDummy = false → 0 ≤ r.coefficient x) {σ : Assignment}
    (hσ : σ.Proper) : r.constant ≤ r.value σ := by
  have hsum : 0 ≤ SymbolMap.combination σ r.cells.entries := by
    refine combination_nonneg fun e he => ?_
    have hget := SymbolMap.mem_entries_iff.mp he
    have hmen : r.Mentions e.1 := mentions_iff.mpr ⟨e.2, hget⟩
    cases hd : e.1.isDummy with
    | true => rw [hσ.dummy e.1 hd, mul_zero]
    | false =>
      have hc := hcost e.1 hd
      rw [coefficient_of_get? hget] at hc
      exact mul_nonneg hc (hσ.nonneg e.1 (hfree e.1 hmen))
  unfold value
  linarith

end Row

namespace Tableau

/-- **A negative row can be raised** if some proper assignment solves the tableau. -/
theorem dualEntering?_ne_none {t : Tableau ℚ} (ht : t.Sound) {σ : Assignment} (hσ : σ.Proper)
    (hsol : t.Solves σ) {l : Symbol} {row : Row ℚ} (hrow : t.rows.get? l = some row)
    (hres : l.isRestricted) (hneg : row.constant < 0) : t.dualEntering? row ≠ none := by
  intro hnone
  have hle : row.negate.constant ≤ row.negate.value σ := by
    refine Row.constant_le_value (fun x hx => ?_) (fun x hx => ?_) hσ
    · exact ht.externalFree.rows hrow hres x (Row.mentions_negate.mp hx)
    · rw [Row.coefficient_negate]
      exact neg_nonneg.mpr (nonpos_of_dualEntering?_eq_none hnone hx)
  rw [Row.value_negate, ← hsol l row hrow] at hle
  have hl := hσ.nonneg l hres
  have : -row.constant ≤ -σ l := hle
  linarith

end Tableau

end IncrementalSimplex
