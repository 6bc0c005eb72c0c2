/-
# What a flush shows of a rejected constraint

A flush writes the value of every variable that has a symbol.  A rejected constraint leaves the rows
as they were, so the variables that had symbols before are written as before.  But encoding gives
symbols to the variables that it meets for the first time, and no rejection takes these back
(`Solver.Restored`).  From then on a flush writes to them too: it writes ZERO, because their symbols
are in no row.

**The flush after the rejection is the flush before it, and then zeros** for the newcomers, in order
(`Ledger.flush?_of_restored`).  If one of them has a slot with a value of its own the value is lost,
and if its param has a context an update is reported that nobody asked for
(`rejection_overwrites_slot`).

**Which constraints do this.**  Only those with a variable that the solver has not met, and such a
variable must have cancelled out of the row: a row with a symbol of a variable is never rejected.
In the exact reading its coefficients sum to zero (`Attained.coefficientOf_rejected`), so the
constraint does not even depend on it.
-/
import IncrementalSimplex.Proofs.Locality
import IncrementalSimplex.Proofs.WriteBack

namespace IncrementalSimplex

/-! ## 1. Writing to slots -/

section Write

variable {α γ : Type} [Scalar α] {ι : Type} {n : Nat}

/-- Write zeros, in order. -/
def Flush.blank (f : Flush α γ) (vs : List Variable) : Option (Flush α γ) :=
  vs.foldlM (fun f v => f.write v 0) f

/-- Every slot below `n` belongs to a param with a context, so that each write to it shows. -/
def Space.Watched (n : Nat) (space : Space α γ) : Prop :=
  ∀ v : Variable, v.index < n → ∃ context, space.reportedAs? v = some context

/-- The space of `n` such slots. -/
def Space.watchful (n : Nat) : Space α Unit :=
  ⟨List.replicate n { value := 0, owned := true, context := some () }⟩

omit [Scalar α] in
/-- What is reported has a slot. -/
theorem Space.slot_of_reportedAs? {space : Space α γ} {v : Variable} {context : γ}
    (h : space.reportedAs? v = some context) : (space.slot? v).isSome := by
  rw [reportedAs?_eq] at h
  obtain ⟨slot, hslot, -⟩ := Option.bind_eq_some_iff.mp h
  exact Option.isSome_of_eq_some hslot

theorem Space.watched_watchful (n : Nat) : (watchful n : Space α Unit).Watched n := by
  intro v hv
  refine ⟨(), ?_⟩
  have hslot : (watchful n : Space α Unit).slot? v =
      some { value := 0, owned := true, context := some () } :=
    List.getElem?_replicate_of_lt hv
  unfold reportedAs? owner? context?
  simp [hslot, Option.filter]

/-- **A write to a watched slot succeeds and reports one update.** -/
theorem Flush.write_of_watched {f : Flush α γ} (h : f.space.Watched n) {v : Variable}
    (hv : v.index < n) (x : α) :
    ∃ g, f.write v x = some g ∧ g.space.Watched n ∧
      g.updates.length = f.updates.length + 1 := by
  obtain ⟨context, hcontext⟩ := h v hv
  refine ⟨_, Flush.write_eq (Space.slot_of_reportedAs? hcontext) x, fun w hw => ?_, ?_⟩
  · rw [f.space.reportedAs?_modify v w x]
    exact h w hw
  · rw [hcontext]
    exact List.length_append

/-- **So each write of a list shows.** -/
theorem Flush.foldlM_write_of_watched (var : ι → Variable) (val : ι → α) (l : List ι)
    {f : Flush α γ} (h : f.space.Watched n) (hl : ∀ i ∈ l, (var i).index < n) :
    ∃ g, l.foldlM (fun f i => f.write (var i) (val i)) f = some g ∧ g.space.Watched n ∧
      g.updates.length = f.updates.length + l.length := by
  induction l generalizing f with
  | nil => exact ⟨f, rfl, h, rfl⟩
  | cons i l ih =>
    obtain ⟨g, hwrite, hwatched, hlength⟩ :=
      Flush.write_of_watched h (hl i List.mem_cons_self) (val i)
    obtain ⟨k, hfold, hk, hlength'⟩ := ih hwatched fun j hj => hl j (List.mem_cons_of_mem i hj)
    refine ⟨k, ?_, hk, ?_⟩
    · rw [List.foldlM_cons, hwrite]
      exact hfold
    · rw [hlength', hlength, List.length_cons]
      omega

end Write

namespace Solver

variable {α : Type} [Scalar α] {γ : Type} {P : Symbol → Prop} {s u : Solver α} {c : Constraint α}

/-! ## 2. The flush after a rejection -/

/-- Naming variables whose symbols are free is writing zeros. -/
theorem foldlM_naming {n : Nat} (hfree : ∀ x : Symbol, n < x.id → u.tableau.Nonbasic x) :
    ∀ (vs : List Variable) (f : Flush α γ),
      (naming n vs).foldlM (fun f (v, x) => f.write v (u.symbolValue x)) f = f.blank vs := by
  intro vs
  induction vs generalizing n with
  | nil => exact fun _ => rfl
  | cons v vs ih =>
    intro f
    have hzero : u.symbolValue ⟨n + 1, .external⟩ = 0 := by
      unfold symbolValue
      rw [hfree _ (Nat.lt_succ_self n)]
    rw [naming, List.foldlM_cons, Flush.blank, List.foldlM_cons]
    dsimp only
    rw [hzero]
    exact congrArg _ (funext fun g => ih (fun x hx => hfree x (Nat.lt_of_succ_lt hx)) g)

/-- **The flush of a restored solver**: what was written before, and zeros for the newcomers. -/
theorem Ledger.flush?_of_restored (h : s.Ledger P) (hu : s.Restored c u) (space : Space α γ) :
    u.flush? space = (s.flush? space).bind
      (Flush.blank · (newcomers s.symbols.keys c.expression.terms)) := by
  have htab := hu.tableau
  have hfree : ∀ x : Symbol, s.counter < x.id → u.tableau.Nonbasic x := by
    rw [htab]
    exact fun x hx => nonbasic_of_lt h.over_knows hx
  have hvalue : ∀ x, u.symbolValue x = s.symbolValue x := fun x => by
    rw [symbolValue, symbolValue, htab]
  unfold flush?
  rw [hu.symbols, List.foldlM_append]
  simp only [foldlM_naming hfree]
  simp only [hvalue]
  rfl

/-! ## 3. When nothing shows -/

/-- Without newcomers the variables that count were met before. -/
theorem newcomers_eq_nil_iff {met : List Variable} (ts : List (Term α)) :
    newcomers met ts = [] ↔ ∀ t ∈ ts, nearZero t.coefficient = false → t.var ∈ met := by
  induction ts with
  | nil => simp [newcomers]
  | cons t ts ih =>
    rw [newcomers, List.forall_mem_cons]
    split
    · rename_i hold
      rw [ih]
      have hmet : nearZero t.coefficient = false → t.var ∈ met := fun hcounts =>
        hold.resolve_left (by simp [hcounts])
      exact ⟨fun hall => ⟨hmet, hall⟩, And.right⟩
    · rename_i hnew
      obtain ⟨hcounts, hnot⟩ := not_or.mp hnew
      refine ⟨fun hnil => absurd hnil (List.cons_ne_nil _ _), fun hmet => ?_⟩
      exact absurd (hmet.1 (Bool.eq_false_iff.mpr hcounts)) hnot

theorem newcomers_eq_nil_iff_met (s : Solver α) (e : Expression α) :
    newcomers s.symbols.keys e.terms = [] ↔ s.Met e := by
  rw [newcomers_eq_nil_iff]
  refine forall₂_congr fun t _ => imp_congr_right fun _ => ?_
  rw [Registry.mem_keys_iff, Option.isSome_iff_exists]

/-- Finitely many variables lie below some index. -/
theorem exists_index_bound (vs : List Variable) : ∃ n, ∀ v ∈ vs, v.index < n := by
  induction vs with
  | nil => exact ⟨0, nofun⟩
  | cons v vs ih =>
    obtain ⟨n, hn⟩ := ih
    refine ⟨max n (v.index + 1), fun w hw => ?_⟩
    rcases List.mem_cons.mp hw with rfl | hw
    · omega
    · have := hn w hw
      omega

/-- **Every newcomer shows**: in a space that watches all slots there is one more update for each. -/
theorem Ledger.newcomers_eq_nil (h : s.Ledger P) (hu : s.Restored c u)
    (hsame : ∀ space : Space α Unit, u.flush? space = s.flush? space) :
    newcomers s.symbols.keys c.expression.terms = [] := by
  have hflush := h.flush?_of_restored hu (γ := Unit)
  generalize newcomers s.symbols.keys c.expression.terms = vs at hflush ⊢
  obtain ⟨n, hn⟩ := exists_index_bound (s.symbols.keys ++ vs)
  obtain ⟨f, hf, hwatched, -⟩ := Flush.foldlM_write_of_watched
    (fun e : Variable × Symbol => e.1) (fun e => s.symbolValue e.2) s.symbols.entries
    (f := ⟨.watchful n, []⟩) (Space.watched_watchful n) fun e he =>
      hn e.1 (List.mem_append_left vs (List.mem_map.mpr ⟨e, he, rfl⟩))
  obtain ⟨g, hg, -, hlength⟩ := Flush.foldlM_write_of_watched id (fun _ => (0 : α)) vs hwatched
    fun v hv => hn v (List.mem_append_right _ hv)
  have hbefore : s.flush? (.watchful n) = some f := hf
  have hafter := hflush (.watchful n)
  rw [hsame, hbefore] at hafter
  have hfg : some f = some g := hafter.trans hg
  cases hfg
  exact List.length_eq_zero_iff.mp (by omega)

end Solver

/-! ## 4. Why a newcomer must cancel -/

/-- **The slope of an expression in a variable** is the coefficient of the variable. -/
theorem Expression.valueAt_add_update (e : Expression ℚ) (ρ : Variable → ℚ) (v : Variable) (q : ℚ) :
    e.valueAt (Function.update ρ v (ρ v + q)) = e.valueAt ρ + e.coefficientOf v * q := by
  suffices hterms : ∀ ts : List (Term ℚ),
      (ts.map fun t => t.coefficient * Function.update ρ v (ρ v + q) t.var).sum =
        (ts.map fun t => t.coefficient * ρ t.var).sum +
          (ts.map fun t => if t.var = v then t.coefficient else 0).sum * q by
    unfold valueAt
    rw [foldl_valueAt, foldl_valueAt, hterms, ← add_assoc]
    rfl
  intro ts
  induction ts with
  | nil => simp
  | cons t ts ih =>
    simp only [List.map_cons, List.sum_cons, ih]
    by_cases htv : t.var = v
    · rw [htv, Function.update_self, if_pos rfl]
      ring
    · rw [Function.update_of_ne htv, if_neg htv]
      ring

namespace Solver

/-- The symbol of one variable is read by that variable alone. -/
theorem Names.reading_update_of_get? {s : Solver ℚ} (h : s.Names) {v : Variable} {x : Symbol}
    (hv : s.symbols.get? v = some x) (σ : Assignment) (q : ℚ) :
    s.reading (Function.update σ x q) = Function.update (s.reading σ) v q := by
  funext w
  by_cases hwv : w = v
  · subst hwv
    rw [reading_of_get? hv, Function.update_self, Function.update_self]
  · rw [Function.update_of_ne hwv]
    unfold reading
    cases hw : s.symbols.get? w with
    | none => rfl
    | some y =>
      refine Function.update_of_ne ?_ _ _
      rintro rfl
      exact hwv (h.inj w v y hw hv)

/-- **A row without symbols of variables depends on no newcomer.**  The symbol of a newcomer is new,
so it may be raised by one: the row does not see that, hence the constraint does not. -/
theorem Ledger.coefficientOf_eq_zero {P : Symbol → Prop} {s : Solver ℚ} (h : s.Ledger P)
    {c : Constraint ℚ} (hfree : (s.encode c).row.ExternalFree) {v : Variable}
    (hv : s.symbols.get? v = none) : c.expression.coefficientOf v = 0 := by
  have hcan := h.tableau.canonical
  have hequation := equation_encode h.names hcan h.over_knows c
  cases hnamed : (s.encode c).solver.symbols.get? v with
  | none =>
    by_contra hcounts
    obtain ⟨t, ht, rfl, hcoefficient⟩ := Expression.exists_term_of_coefficientOf_ne_zero hcounts
    obtain ⟨x, hx⟩ := hequation.covers t ht hcoefficient
    rw [hnamed] at hx
    cases hx
  | some x =>
    have hext := (hequation.names.known v x hnamed).2
    have hyoung : s.counter < x.id := (hequation.grows.young v x hnamed).resolve_left fun hold => by
      rw [hv] at hold
      cases hold
    -- two solutions that differ in the new symbol alone
    have hlow := hcan.solves_point
    have hhigh : s.tableau.Solves
        (Function.update s.tableau.point x (s.tableau.point x + 1)) := by
      refine (Tableau.solves_update_of_absent (nonbasic_of_lt h.over_knows hyoung) ?_ _ _).mpr hlow
      intro b row hb hmen
      exact (h.over_knows.rows hb hmen).ne_of_lt hyoung rfl
    have htag : ¬ (s.encode c).tag.Has x := fun hhas =>
      Symbol.not_isRestricted_of_isExternal hext (hequation.fits.restricted hhas)
    have hplace : x ≠ .placeholder := by
      rintro rfl
      exact Nat.not_lt_zero _ hyoung
    obtain ⟨ε, hε, hvalue, -⟩ := hequation.value
    have hread : (s.encode c).solver.reading
        (Function.update s.tableau.point x (s.tableau.point x + 1)) =
        Function.update ((s.encode c).solver.reading s.tableau.point) v
          ((s.encode c).solver.reading s.tableau.point v + 1) := by
      rw [hequation.names.reading_update_of_get? hnamed, reading_of_get? hnamed]
    have hraised := hvalue _ (.refl _) _ hhigh
    rw [Row.value_update_of_not_mentions (hfree.not_mentions hext), hvalue _ (.refl _) _ hlow,
      ConstraintRecord.tagPart_update htag hplace, hread, Expression.valueAt_add_update] at hraised
    have hnonzero : ε ≠ 0 := by
      rcases hε with rfl | rfl <;> norm_num
    exact mul_left_cancel₀ hnonzero (by linarith)

end Solver

/-! ## 5. What a flush shows -/

section Shown

variable {α : Type} [Scalar α] {P : Symbol → Prop} {s : Solver α} {c : Constraint α}

/-- A newcomer was not met before. -/
theorem Solver.not_mem_of_mem_newcomers {v : Variable} : ∀ {ts : List (Term α)}
    {met : List Variable}, v ∈ newcomers met ts → v ∉ met
  | [], _, h => by cases h
  | t :: ts, met, h => by
    rw [newcomers] at h
    split at h
    · exact not_mem_of_mem_newcomers h
    · rename_i hnot
      rcases List.mem_cons.mp h with rfl | h
      · exact (not_or.mp hnot).2
      · exact fun hmem => not_mem_of_mem_newcomers h (List.mem_append_left _ hmem)

/-- Every variable of a naming is named. -/
theorem Solver.exists_mem_naming {v : Variable} {vs : List Variable} (n : Nat) (h : v ∈ vs) :
    ∃ x, (v, x) ∈ naming n vs := by
  rw [← keys_naming n vs] at h
  obtain ⟨⟨w, x⟩, hx, rfl⟩ := List.mem_map.mp h
  exact ⟨x, hx⟩

/-- An unsatisfiable constraint leaves the solver restored, and its row had no symbol of a
variable. -/
theorem Solver.Ledger.restored_of_unsatisfiable [Scalar.LawfulUnits α] [Scalar.LawfulSigns α]
    (h : s.Ledger P) {id : ConstraintId}
    (hout : (s.add c).outcome = .error (.refused (.unsatisfiableConstraint id))) :
    s.Restored c (s.add c).solver ∧ (s.encode c).row.ExternalFree := by
  have hend := h.add_ends c
  rw [hout] at hend
  cases hend with
  | unsatisfiable hnew hfree hrestored => exact ⟨hrestored, hfree⟩
  | unplaced he hnew hfree hrestored => exact ⟨hrestored, hfree⟩
  | unsettled he => rcases he with ⟨n, he⟩ | ⟨fault, he⟩ <;> cases he

/-- **What a flush shows of an unsatisfiable constraint**, in any state, whatever the arithmetic and
whatever the slots and their owners.  It makes the writes that it made before and then writes zero to
the variables that the constraint brought in: these had no symbol, and the one that they have now is
not in its row.  So a flush does what it did before, for all spaces, if and only if the constraint
brought in no variable. -/
theorem Attained.flush_rejected [Scalar.LawfulUnits α] [Scalar.LawfulSigns α] (h : Attained s)
    {id : ConstraintId}
    (hout : (s.add c).outcome = .error (.refused (.unsatisfiableConstraint id))) :
    (∀ {γ : Type} (space : Space α γ), (s.add c).solver.flush? space =
      (s.flush? space).bind (Flush.blank · (Solver.newcomers s.symbols.keys c.expression.terms))) ∧
    (∀ v ∈ Solver.newcomers s.symbols.keys c.expression.terms, s.symbols.get? v = none ∧
      ∃ x, (s.add c).solver.symbols.get? v = some x ∧ ¬ (s.encode c).row.Mentions x) ∧
    ((∀ {γ : Type} (space : Space α γ), (s.add c).solver.flush? space = s.flush? space) ↔
      s.Met c.expression) := by
  obtain ⟨P, hP⟩ := h.exists_ledger
  obtain ⟨hrestored, hfree⟩ := hP.restored_of_unsatisfiable hout
  have hflush : ∀ {γ : Type} (space : Space α γ), (s.add c).solver.flush? space =
      (s.flush? space).bind (Flush.blank · (Solver.newcomers s.symbols.keys c.expression.terms)) :=
    fun space => hP.flush?_of_restored hrestored space
  refine ⟨hflush, fun v hv => ?_, ?_, ?_⟩
  · obtain ⟨x, hx⟩ := Solver.exists_mem_naming s.counter hv
    have hext := (Solver.of_mem_naming hx).2
    refine ⟨?_, x, ?_, hfree.not_mentions hext⟩
    · have hnot := Solver.not_mem_of_mem_newcomers hv
      rwa [Registry.mem_keys_iff, Option.not_isSome_iff_eq_none] at hnot
    · rw [← Registry.mem_entries_iff, hrestored.symbols]
      exact List.mem_append_right _ hx
  · intro hsame
    rw [← Solver.newcomers_eq_nil_iff_met]
    exact hP.newcomers_eq_nil hrestored hsame
  · intro hmet γ space
    rw [hflush, (Solver.newcomers_eq_nil_iff_met s c.expression).mpr hmet]
    exact Option.bind_fun_some (s.flush? space)

end Shown

/-- **In the exact reading such a constraint does not depend on what it brought in.** -/
theorem Attained.coefficientOf_rejected {s : Solver ℚ} (h : Attained s) {c : Constraint ℚ}
    {id : ConstraintId}
    (hout : (s.add c).outcome = .error (.refused (.unsatisfiableConstraint id))) {v : Variable}
    (hv : s.symbols.get? v = none) : c.expression.coefficientOf v = 0 := by
  obtain ⟨P, hP⟩ := h.exists_ledger
  exact hP.coefficientOf_eq_zero (hP.restored_of_unsatisfiable hout).2 hv

/-- The bound `v - v >= 1`. -/
def cancelledOne : Constraint ℚ :=
  ⟨⟨0⟩, ⟨[⟨⟨0⟩, 1⟩, ⟨⟨0⟩, -1⟩], -1⟩, .atLeast, .required⟩

/-- A space with one param, which has the value seven and a context. -/
def sevenSpace : Space ℚ Unit := ⟨[{ value := 7, owned := true, context := some () }]⟩

/-- **A rejected constraint overwrites a slot.**  In a new solver `v - v >= 1` is turned down.
Before the call a flush leaves the seven alone, and after it the same flush writes a zero and
reports it. -/
theorem rejection_overwrites_slot :
    Attained (Solver.new : Solver ℚ) ∧
      ((Solver.new : Solver ℚ).add cancelledOne).outcome =
        .error (.refused (.unsatisfiableConstraint ⟨0⟩)) ∧
      ((Solver.new : Solver ℚ).flush? sevenSpace).map
        (fun f => (f.space.value? ⟨0⟩, f.updates.map (·.value))) = some (some 7, []) ∧
      (((Solver.new : Solver ℚ).add cancelledOne).solver.flush? sevenSpace).map
        (fun f => (f.space.value? ⟨0⟩, f.updates.map (·.value))) = some (some 0, [0]) :=
  ⟨.new {}, by decide +kernel, by decide +kernel, by decide +kernel⟩

/-- The variable is the only one that is written to, and the constraint does not depend on it. -/
theorem cancelledOne_flush :
    ((Solver.new : Solver ℚ).add cancelledOne).outcome =
        .error (.refused (.unsatisfiableConstraint ⟨0⟩)) ∧
      Solver.newcomers (Solver.new : Solver ℚ).symbols.keys cancelledOne.expression.terms = [⟨0⟩] ∧
      (∀ space : Space ℚ Unit, ((Solver.new : Solver ℚ).add cancelledOne).solver.flush? space =
        ((Solver.new : Solver ℚ).flush? space).bind (Flush.blank · [⟨0⟩])) ∧
      ¬ (Solver.new : Solver ℚ).Met cancelledOne.expression ∧
      cancelledOne.expression.coefficientOf ⟨0⟩ = 0 := by
  have hout : ((Solver.new : Solver ℚ).add cancelledOne).outcome =
      .error (.refused (.unsatisfiableConstraint ⟨0⟩)) := by decide +kernel
  have hone : Solver.newcomers (Solver.new : Solver ℚ).symbols.keys
      cancelledOne.expression.terms = [⟨0⟩] := by decide +kernel
  obtain ⟨hflush, -, -⟩ := (Attained.new {}).flush_rejected hout
  rw [hone] at hflush
  refine ⟨hout, hone, hflush, ?_, (Attained.new {}).coefficientOf_rejected hout rfl⟩
  rw [← Solver.newcomers_eq_nil_iff_met, hone]
  exact List.cons_ne_nil _ _

end IncrementalSimplex
