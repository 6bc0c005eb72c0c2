/-
# The dual pass drains its queue

The dual pass is a loop over a stack.  Each of its ROUNDS takes one entry off: a stale one is
discarded, and for any other a pivot is made, which puts every row that is negative afterwards on the
stack again.  So the queue can grow while it is drained, and the rounds that only discard are not
counted against the limit.

**What is left to do** (`Draining.potential`) is the length of the queue plus, for each pivot that
may still be made, as many entries as there are rows.  A round that discards takes one entry off, and
a pivot trades its own share for what it queues: the leaving row is taken out before the negative
ones are looked for, so fewer than all rows are queued, and the new row is not queued at all
(`length_infeasible_pivot`).  Either way something is gone (`DualRound.potential_lt`), and so the
loop makes at most as many rounds as the potential is at the beginning (`Rounds.spent`).

The number of rows is the same throughout.  It is here that the canonical form is needed, and for
nothing else: the entering symbol is a cell of a row and therefore has no row of its own that would
be overwritten (`size_rows_pivot`).

No law of arithmetic is used.  Whether a number is negative is asked in a round and never concluded,
so the numbers may be anything, NaN and the infinities included.

`repair` runs through the stale entries in one go and is a recursion on the number of pivots left.
That it is the loop said here is `repairWithin_rounds`.
-/
import IncrementalSimplex.Proofs.Passes

namespace IncrementalSimplex

namespace Tableau

variable {α : Type} [Scalar α]

/-! ## 1. The rounds of the loop -/

/-- Where the loop is: the tableau with its queue, and how many pivots were made. -/
structure Draining (α : Type) where
  tableau : Tableau α
  made : Nat

/-- **One round**: an entry is taken off the queue. -/
inductive DualRound (limit : Nat) : Draining α → Draining α → Prop
  /-- Its row is gone, or not negative. -/
  | discard {t : Tableau α} {s : Symbol} {rest : List Symbol} {n : Nat}
      (hqueue : t.infeasible = s :: rest)
      (hstale : ∀ row, t.rows.get? s = some row → ¬ row.constant < 0) :
      DualRound limit ⟨t, n⟩ ⟨{ t with infeasible := rest }, n⟩
  /-- Its row is negative, and is exchanged. -/
  | exchange {t u : Tableau α} {e l : Symbol} {row : Row α} {rest : List Symbol} {n : Nat}
      (hqueue : t.infeasible = l :: rest) (hrow : t.rows.get? l = some row)
      (hneg : row.constant < 0) (he : t.dualEntering? row = some e) (hn : n < limit)
      (hu : { t with infeasible := rest }.pivot ⟨e, l⟩ = .ok u) :
      DualRound limit ⟨t, n⟩ ⟨u, n + 1⟩

/-- So many rounds in a row. -/
inductive Rounds (limit : Nat) : Nat → Draining α → Draining α → Prop
  | refl (x : Draining α) : Rounds limit 0 x x
  | head {m : Nat} {x y z : Draining α} (h : DualRound limit x y) (hs : Rounds limit m y z) :
      Rounds limit (m + 1) x z

/-- **How the loop ends**: the number of entries taken off in the end, the tableau that is left, and
the outcome. -/
inductive DualStop (limit : Nat) : Draining α → Nat → Tableau α → Except Halt Unit → Prop
  | drained {t : Tableau α} {n : Nat} (hqueue : t.infeasible = []) :
      DualStop limit ⟨t, n⟩ 0 t (.ok ())
  | stuck {t : Tableau α} {l : Symbol} {row : Row α} {rest : List Symbol} {n : Nat}
      (hqueue : t.infeasible = l :: rest) (hrow : t.rows.get? l = some row)
      (hneg : row.constant < 0) (he : t.dualEntering? row = none) :
      DualStop limit ⟨t, n⟩ 1 { t with infeasible := rest }
        (.error (.refused (.internal .dualStuck)))
  | limit {t : Tableau α} {e l : Symbol} {row : Row α} {rest : List Symbol} {n : Nat}
      (hqueue : t.infeasible = l :: rest) (hrow : t.rows.get? l = some row)
      (hneg : row.constant < 0) (he : t.dualEntering? row = some e) (hn : n = limit) :
      DualStop limit ⟨t, n⟩ 1 { t with infeasible := rest }
        (.error (.refused (.iterationLimit limit)))
  | fault {t : Tableau α} {e l : Symbol} {row : Row α} {rest : List Symbol} {n : Nat}
      {f : PivotFault} (hqueue : t.infeasible = l :: rest) (hrow : t.rows.get? l = some row)
      (hneg : row.constant < 0) (he : t.dualEntering? row = some e) (hn : n < limit)
      (hf : { t with infeasible := rest }.pivot ⟨e, l⟩ = .error f) :
      DualStop limit ⟨t, n⟩ 1 { t with infeasible := rest } (.error (f.halt ⟨e, l⟩))

theorem Rounds.trans {limit m k : Nat} {x y z : Draining α} (h : Rounds limit m x y)
    (hs : Rounds limit k y z) : Rounds limit (k + m) x z := by
  induction h with
  | refl => exact hs
  | head h _ ih => exact .head h (ih hs)

/-! ## 2. The pass is that loop -/

theorem nextInfeasible?_cons_of_stale {rows : SymbolMap (Row α)} {s : Symbol}
    (h : ∀ row, rows.get? s = some row → ¬ row.constant < 0) (queue : List Symbol) :
    nextInfeasible? rows (s :: queue) = nextInfeasible? rows queue := by
  rw [nextInfeasible?]
  split
  · rfl
  · rename_i row hrow
    rw [if_neg (h row hrow)]

theorem nextInfeasible?_cons_of_neg {rows : SymbolMap (Row α)} {s : Symbol} {row : Row α}
    (hrow : rows.get? s = some row) (hneg : row.constant < 0) (queue : List Symbol) :
    nextInfeasible? rows (s :: queue) = some (s, row, queue) := by
  rw [nextInfeasible?, hrow]
  exact if_pos hneg

/-- A queue without a negative row is discarded entry by entry. -/
theorem rounds_of_nextInfeasible?_eq_none (limit n : Nat) : ∀ {queue : List Symbol} {t : Tableau α},
    t.infeasible = queue → nextInfeasible? t.rows queue = none →
      Rounds limit queue.length ⟨t, n⟩ ⟨{ t with infeasible := [] }, n⟩
  | [], t, hqueue, _ => by
    rw [show ({ t with infeasible := [] } : Tableau α) = t from by rw [← hqueue]]
    exact .refl _
  | s :: queue, t, hqueue, hnext => by
    by_cases hstale : ∀ row, t.rows.get? s = some row → ¬ row.constant < 0
    · rw [nextInfeasible?_cons_of_stale hstale] at hnext
      exact .head (.discard hqueue hstale)
        (rounds_of_nextInfeasible?_eq_none limit n (t := { t with infeasible := queue }) rfl hnext)
    · obtain ⟨row, hrow, hneg⟩ : ∃ row, t.rows.get? s = some row ∧ row.constant < 0 := by
        simpa using hstale
      rw [nextInfeasible?_cons_of_neg hrow hneg] at hnext
      cases hnext

/-- The stale entries above a negative row are discarded one by one. -/
theorem rounds_to_nextInfeasible? (limit n : Nat) {l : Symbol} {row : Row α} {rest : List Symbol} :
    ∀ {queue : List Symbol} {t : Tableau α}, t.infeasible = queue →
      nextInfeasible? t.rows queue = some (l, row, rest) →
      ∃ m, queue.length = m + (rest.length + 1) ∧
        Rounds limit m ⟨t, n⟩ ⟨{ t with infeasible := l :: rest }, n⟩
  | [], _, _, hnext => by cases hnext
  | s :: queue, t, hqueue, hnext => by
    by_cases hstale : ∀ row, t.rows.get? s = some row → ¬ row.constant < 0
    · rw [nextInfeasible?_cons_of_stale hstale] at hnext
      obtain ⟨m, hlength, hrounds⟩ :=
        rounds_to_nextInfeasible? limit n (t := { t with infeasible := queue }) rfl hnext
      refine ⟨m + 1, ?_, .head (.discard hqueue hstale) hrounds⟩
      rw [List.length_cons, hlength]
      omega
    · obtain ⟨other, hother, hneg⟩ : ∃ row, t.rows.get? s = some row ∧ row.constant < 0 := by
        simpa using hstale
      rw [nextInfeasible?_cons_of_neg hother hneg] at hnext
      cases hnext
      refine ⟨0, by simp, ?_⟩
      rw [← hqueue]
      exact .refl _

/-- **The dual pass is the loop**: it makes rounds until the loop ends, and counts the entries that
were taken off.  The budget is what the pivots made so far leave of the limit. -/
theorem repairWithin_rounds (limit budget n : Nat) (hn : n + budget = limit) (t : Tableau α) :
    ∃ m k last, Rounds limit m ⟨t, n⟩ last ∧
      DualStop limit last k (t.repairWithin limit budget).tableau
        (t.repairWithin limit budget).outcome ∧
      last.made = n + (t.repairWithin limit budget).pivots.length ∧
      (t.repairWithin limit budget).popped = m + k := by
  rw [repairWithin.eq_def limit budget t]
  rcases hnext : nextInfeasible? t.rows t.infeasible with _ | ⟨l, row, rest⟩
  · exact ⟨_, 0, _, rounds_of_nextInfeasible?_eq_none limit n rfl hnext, .drained rfl, rfl, rfl⟩
  · obtain ⟨hrow, hneg, -⟩ := of_nextInfeasible? hnext
    obtain ⟨m, hlength, hrounds⟩ := rounds_to_nextInfeasible? limit n rfl hnext
    have hpopped : t.infeasible.length - rest.length = m + 1 := by omega
    have hsame : ({ t with infeasible := rest } : Tableau α).dualEntering? row =
        t.dualEntering? row := rfl
    cases he : t.dualEntering? row with
    | none =>
      simp only [hsame, he]
      exact ⟨m, 1, _, hrounds, .stuck rfl hrow hneg he, rfl, hpopped⟩
    | some e =>
      simp only [hsame, he]
      cases budget with
      | zero => exact ⟨m, 1, _, hrounds, .limit rfl hrow hneg he hn, rfl, hpopped⟩
      | succ budget =>
        have hlt : n < limit := by omega
        cases hu : ({ t with infeasible := rest } : Tableau α).pivot ⟨e, l⟩ with
        | error f => exact ⟨m, 1, _, hrounds, .fault rfl hrow hneg he hlt hu, rfl, hpopped⟩
        | ok u =>
          obtain ⟨j, k, last, hrest, hstop, hmade, hcount⟩ :=
            repairWithin_rounds limit budget (n + 1) (by omega) u
          refine ⟨j + 1 + m, k, last,
            hrounds.trans (.head (.exchange rfl hrow hneg he hlt hu) hrest), hstop, ?_, ?_⟩
          · show last.made = n + ((u.repairWithin limit budget).pivots.length + 1)
            omega
          · show t.infeasible.length - rest.length + (u.repairWithin limit budget).popped = _
            omega

/-! ## 3. What a pivot does to the sizes -/

/-- **A pivot keeps the number of rows**, if the entering symbol has none of its own. -/
theorem size_rows_pivot {t u : Tableau α} {e l : Symbol} (he : t.Nonbasic e)
    (hu : t.pivot ⟨e, l⟩ = .ok u) : u.rows.size = t.rows.size := by
  obtain ⟨row, solved, hrow, -, rfl⟩ := pivot_cases hu
  have hfree : ((t.dropRow l).substitute e solved).Nonbasic e :=
    nonbasic_substitute.mpr (nonbasic_dropRow he)
  calc ((t.dropRow l).enter e solved).rows.size
      = ((t.dropRow l).substitute e solved).rows.size + 1 := SymbolMap.size_insert hfree
    _ = (t.dropRow l).rows.size + 1 := congrArg (· + 1) (SymbolMap.size_map _ _)
    _ = t.rows.size := SymbolMap.size_erase hrow

theorem length_negativeRows_le (rows : SymbolMap (Row α)) :
    (negativeRows rows).length ≤ rows.size := by
  rw [negativeRows, List.length_map]
  exact List.length_filter_le _ _

/-- **A pivot queues fewer symbols than there are rows.** -/
theorem length_infeasible_pivot {t u : Tableau α} {e l : Symbol} (hu : t.pivot ⟨e, l⟩ = .ok u) :
    u.infeasible.length + 1 ≤ t.infeasible.length + t.rows.size := by
  obtain ⟨row, solved, hrow, -, rfl⟩ := pivot_cases hu
  have hdropped : (t.dropRow l).rows.size + 1 = t.rows.size := SymbolMap.size_erase hrow
  have hqueued := length_negativeRows_le ((t.dropRow l).rows.map (·.substitute e solved))
  rw [SymbolMap.size_map] at hqueued
  show ((negativeRows _).reverse ++ t.infeasible).length + 1 ≤ _
  rw [List.length_append, List.length_reverse]
  omega

/-! ## 4. What a round does -/

/-- A round keeps the canonical form and the number of rows, and makes no pivot over the limit. -/
theorem DualRound.keeps {limit : Nat} {x y : Draining α} (h : DualRound limit x y)
    (hx : x.tableau.Canonical) :
    y.tableau.Canonical ∧ y.tableau.rows.size = x.tableau.rows.size ∧
      (x.made ≤ limit → y.made ≤ limit) := by
  cases h with
  | discard => exact ⟨hx.withQueue _, rfl, id⟩
  | @exchange t u e l row rest n _ hrow _ he hn hu =>
    have hfree : ({ t with infeasible := rest } : Tableau α).Nonbasic e :=
      hx.rows hrow (of_dualEntering? he).1
    have hsize : u.rows.size = t.rows.size :=
      size_rows_pivot (t := { t with infeasible := rest }) hfree hu
    exact ⟨(hx.withQueue rest).pivot hu, hsize, fun _ => hn⟩

/-- **What is left to do**: the queue, and for each pivot still allowed a queue of all rows. -/
def Draining.potential (limit : Nat) (x : Draining α) : Nat :=
  x.tableau.infeasible.length + (limit - x.made) * x.tableau.rows.size

/-- **Every round does some of it.** -/
theorem DualRound.potential_lt {limit : Nat} {x y : Draining α} (h : DualRound limit x y)
    (hx : x.tableau.Canonical) : y.potential limit < x.potential limit := by
  obtain ⟨-, hsize, -⟩ := h.keeps hx
  unfold Draining.potential
  rw [hsize]
  cases h with
  | @discard t s rest n hqueue _ =>
    dsimp only
    rw [hqueue, List.length_cons]
    omega
  | @exchange t u e l row rest n hqueue _ _ _ hn hu =>
    have hgrown := length_infeasible_pivot hu
    have hleft : limit - n = limit - (n + 1) + 1 := by omega
    dsimp only at hgrown ⊢
    rw [hqueue, List.length_cons, hleft, Nat.succ_mul]
    omega

/-- **So many rounds, so much done.** -/
theorem Rounds.spent {limit m : Nat} {x y : Draining α} (h : Rounds limit m x y)
    (hx : x.tableau.Canonical) :
    m + y.potential limit ≤ x.potential limit ∧ y.tableau.Canonical ∧
      y.tableau.rows.size = x.tableau.rows.size ∧ (x.made ≤ limit → y.made ≤ limit) := by
  induction h with
  | refl => exact ⟨(Nat.zero_add _).le, hx, rfl, id⟩
  | head hround _ ih =>
    have hlt := hround.potential_lt hx
    obtain ⟨hy, hsize, hmade⟩ := hround.keeps hx
    obtain ⟨hle, hz, hsizes, hmades⟩ := ih hy
    exact ⟨by omega, hz, hsizes.trans hsize, hmades ∘ hmade⟩

/-- An end takes off no more than is there, keeps the rows, and is a success with an empty queue or a
failure that is reported as such. -/
theorem DualStop.spec {limit k : Nat} {x : Draining α} {u : Tableau α} {o : Except Halt Unit}
    (h : DualStop limit x k u o) (hx : x.tableau.Canonical) :
    k ≤ x.potential limit ∧ u.rows = x.tableau.rows ∧
      ((o = .ok () ∧ u.infeasible = []) ∨ o = .error (.refused (.iterationLimit limit)) ∨
        o = .error (.refused (.internal .dualStuck))) := by
  have hone : ∀ {t : Tableau α} {l : Symbol} {rest : List Symbol} {n : Nat},
      t.infeasible = l :: rest → 1 ≤ Draining.potential limit ⟨t, n⟩ := by
    intro t l rest n hqueue
    rw [Draining.potential, hqueue, List.length_cons]
    omega
  cases h with
  | drained hqueue => exact ⟨Nat.zero_le _, rfl, .inl ⟨rfl, hqueue⟩⟩
  | stuck hqueue => exact ⟨hone hqueue, rfl, .inr (.inr rfl)⟩
  | limit hqueue => exact ⟨hone hqueue, rfl, .inr (.inl rfl)⟩
  | @fault t e l row rest n f _ hrow _ he _ hf =>
    have hmen := (of_dualEntering? he).1
    obtain ⟨u, hu⟩ := exists_pivot (t := { t with infeasible := rest })
      ((hx.rows hrow hmen).ne hrow) hrow hmen
    rw [hu] at hf
    cases hf

/-! ## 5. The pass -/

/-- **The dual pass ends, within its bounds.**  Whatever the arithmetic, whatever is on the queue,
and for every limit: no run of the loop has more rounds than there are entries on the queue and, for
each pivot allowed, rows in the tableau.  The pass is such a run to its end.  It makes at most as many
pivots as the limit allows, takes at most that many entries off, keeps the number of rows, and
succeeds with an empty queue or fails in one of the two ways that it reports. -/
theorem Canonical.repair_drains {t : Tableau α} (ht : t.Canonical) (limit : Nat) :
    (∀ m x, Rounds limit m ⟨t, 0⟩ x → m ≤ t.infeasible.length + limit * t.rows.size) ∧
      (∃ m k last, Rounds limit m ⟨t, 0⟩ last ∧
        DualStop limit last k (t.repair limit).tableau (t.repair limit).outcome ∧
        (t.repair limit).pivots.length = last.made ∧ (t.repair limit).popped = m + k) ∧
      (t.repair limit).pivots.length ≤ limit ∧
      (t.repair limit).popped ≤ t.infeasible.length + limit * t.rows.size ∧
      (t.repair limit).tableau.rows.size = t.rows.size ∧
      (((t.repair limit).outcome = .ok () ∧ (t.repair limit).tableau.infeasible = []) ∨
        (t.repair limit).outcome = .error (.refused (.iterationLimit limit)) ∨
        (t.repair limit).outcome = .error (.refused (.internal .dualStuck))) := by
  have hstart : ∀ {m x}, Rounds limit m ⟨t, 0⟩ x →
      m + x.potential limit ≤ t.infeasible.length + limit * t.rows.size := by
    intro m x h
    exact (h.spent ht).1
  obtain ⟨m, k, last, hrounds, hstop, hmade, hpopped⟩ :=
    repairWithin_rounds limit limit 0 (Nat.zero_add _) t
  rw [Nat.zero_add] at hmade
  obtain ⟨-, hlast, hsize, hbudget⟩ := hrounds.spent ht
  obtain ⟨hk, hrows, hout⟩ := hstop.spec hlast
  have hbound := hstart hrounds
  refine ⟨fun j x h => (Nat.le_add_right _ _).trans (hstart h),
    ⟨m, k, last, hrounds, hstop, hmade.symm, hpopped⟩, hmade ▸ hbudget (Nat.zero_le _), ?_, ?_, hout⟩
  · show (t.repairWithin limit limit).popped ≤ _
    omega
  · show (t.repairWithin limit limit).tableau.rows.size = _
    rw [hrows, hsize]

/-- Two rows below zero that pull at each other, and a queue with one of them twice, a symbol that
has no row and one whose row is not negative. -/
def backlog : Tableau ℚ :=
  let e1 : Symbol := ⟨1, .error⟩
  let e2 : Symbol := ⟨2, .error⟩
  let row (c a b : ℚ) : Row ℚ := ((Row.ofConstant c).addCell e1 a).addCell e2 b
  let t := ((empty.setRow ⟨3, .slack⟩ (row (-1) 1 (-1))).setRow ⟨4, .slack⟩ (row (-2) (-1) 2)).setRow
    ⟨5, .slack⟩ (row 0 1 1)
  { t with
    objective := ((Row.ofConstant 0).addCell e1 1).addCell e2 1
    infeasible := [⟨9, .slack⟩, ⟨3, .slack⟩, ⟨5, .slack⟩, ⟨3, .slack⟩] }

theorem backlog_drains :
    backlog.Canonical ∧ backlog.infeasible.length + 8 * backlog.rows.size = 28 ∧
      (backlog.repair 8).pivots.length ≤ 8 ∧ (backlog.repair 8).popped ≤ 28 ∧
      (backlog.repair 8).pivots.length = 2 ∧ (backlog.repair 8).popped = 5 ∧
      (backlog.repair 8).tableau.rows.size = 3 ∧ (backlog.repair 8).tableau.infeasible = [] := by
  have hcanonical : backlog.Canonical := by decide +kernel
  obtain ⟨-, -, hpivots, hpopped, hsize, -⟩ := hcanonical.repair_drains 8
  exact ⟨hcanonical, by decide +kernel, hpivots, hpopped, by decide +kernel, by decide +kernel,
    hsize, by decide +kernel⟩

end Tableau

end IncrementalSimplex
