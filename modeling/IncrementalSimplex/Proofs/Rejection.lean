/-
# A rejected insertion leaves no trace

An insertion that is refused, and whose constraint is not live afterwards, may have gone through
phase one: pivots were made, and taken back by putting the tableau back.  One thing is not taken
back: the numbers given out for the symbols of the tag and for the artificial symbol.  If all
variables of the constraint were met before, this is all (`Ledger.add_refused`).

So the solver afterwards is the solver before with a gap in its numbering, and from then on the two
give out different numbers.  No later call can tell (`Attained.course_renumber`), and neither can a
caller who reads values, asks what is live or flushes: **the rejected insertion is invisible**
(`Attained.rejected_add_invisible`).

**Why only required constraints are refused.**  The errors of a soft constraint are charged to the
objective when it is encoded, and a rejection does not take that back.  But a soft constraint never
comes to phase one: of its two symbols one has a coefficient below zero, so it can be solved for
(`Ledger.exists_subject_encode`).  This is where the signs of `1` and `-1` matter
(`Scalar.LawfulSigns`), and nothing else is asked of the arithmetic but the laws of `Integrity`.
-/
import IncrementalSimplex.Proofs.Replay

namespace IncrementalSimplex

/-- **What every reading gets right about the signs of one and minus one**, as they are stored in a
new cell and as a cell is negated. -/
class Scalar.LawfulSigns (α : Type) [Scalar α] : Prop where
  neg_one_lt_zero : (0 + -1 : α) < 0
  neg_of_one_lt_zero : -(0 + 1 : α) < 0

instance : Scalar.LawfulSigns ℚ where
  neg_one_lt_zero := by norm_num
  neg_of_one_lt_zero := by norm_num

instance : Scalar.LawfulSigns Tolerant where
  neg_one_lt_zero := by decide +kernel
  neg_of_one_lt_zero := by decide +kernel

variable {α : Type} [Scalar α]

/-! ## 1. A soft constraint has a place -/

section Subject

/-- The two symbols of a soft constraint have opposite units. -/
theorem Relation.opposed_units (rel : Relation) :
    (rel.markerUnit false = (1 : α) ∧ rel.otherUnit = (-1 : α)) ∨
      (rel.markerUnit false = (-1 : α) ∧ rel.otherUnit = (1 : α)) := by
  cases rel with
  | equal => exact .inr ⟨rfl, rfl⟩
  | atMost => exact .inl ⟨rfl, rfl⟩
  | atLeast => exact .inr ⟨rfl, rfl⟩

theorem Relation.nearZero_otherUnit [Scalar.StoredUnits α] (rel : Relation) :
    nearZero (0 + rel.otherUnit : α) = false := by
  rcases rel.opposed_units (α := α) with ⟨-, hunit⟩ | ⟨-, hunit⟩
  · rw [hunit]
    exact Scalar.StoredUnits.nearZero_neg_one
  · rw [hunit]
    exact Scalar.StoredUnits.nearZero_one

namespace Solver

variable {s : Solver α} {P : Symbol → Prop}

/-- **The cells of a soft tag**: two symbols with opposite units. -/
theorem cells_encodeRelation_of_soft [Scalar.StoredUnits α] {row : Row α}
    (hknown : ∀ x, row.Mentions x → s.Knows x) {p : Priority} (rel : Relation)
    (hsoft : p.isRequired = false) {e : Encoding α} (he : s.encodeRelation row p rel = e) :
    e.row.cells.get? e.tag.marker = some (0 + rel.markerUnit false) ∧
      e.row.cells.get? e.tag.other = some (0 + rel.otherUnit) := by
  rw [encodeRelation_of_soft s row rel hsoft] at he
  subst he
  have hmarker : ¬ row.Mentions ⟨s.counter + 1, rel.markerKind false⟩ := fun hx =>
    (hknown _ hx).ne_of_lt (Nat.lt_succ_self _) rfl
  have hother : ¬ row.Mentions ⟨s.counter + 2, .error⟩ := fun hx =>
    (hknown _ hx).ne_of_lt (Nat.lt_add_of_pos_right (by decide)) rfl
  have hne : (⟨s.counter + 1, rel.markerKind false⟩ : Symbol) ≠ ⟨s.counter + 2, .error⟩ :=
    fun heq => Nat.ne_of_lt (Nat.lt_succ_self _) (congrArg Symbol.id heq)
  constructor
  · rw [Row.get?_addCell_of_ne _ _ hne]
    exact Row.get?_addCell_self_of_absent hmarker (rel.nearZero_markerUnit false)
  · refine Row.get?_addCell_self_of_absent ?_ rel.nearZero_otherUnit
    rwa [Row.mentions_addCell_of_ne hne.symm]

/-- **The cells of a soft tag in the encoded row**, on either side of the equation. -/
theorem Ledger.cells_encode_of_soft [Scalar.StoredUnits α] (h : s.Ledger P) {c : Constraint α}
    (hsoft : c.priority.isRequired = false) :
    ∃ side : α → α, (side = id ∨ side = Neg.neg) ∧
      (s.encode c).row.cells.get? (s.encode c).tag.marker =
        some (side (0 + c.relation.markerUnit false)) ∧
      (s.encode c).row.cells.get? (s.encode c).tag.other =
        some (side (0 + c.relation.otherUnit)) := by
  have hterms := terms_encodeTerms h.names h.tableau.canonical h.over_knows c.expression
  unfold Solver.encode
  dsimp only
  generalize s.encodeTerms c.expression = acc at hterms ⊢
  obtain ⟨hmarker, hother⟩ := cells_encodeRelation_of_soft hterms.known c.relation hsoft rfl
  split
  · refine ⟨Neg.neg, .inr rfl, ?_, ?_⟩
    · rw [Row.get?_negate, hmarker]
      rfl
    · rw [Row.get?_negate, hother]
      rfl
  · exact ⟨id, .inl rfl, hmarker, hother⟩

/-- **A soft constraint has a subject**, which is in its row: read from either side, the equation has
one of its two symbols with a coefficient below zero. -/
theorem Ledger.exists_subject_encode [Scalar.StoredUnits α] [Scalar.LawfulSigns α]
    (h : s.Ledger P) {c : Constraint α} (hsoft : c.priority.isRequired = false) :
    ∃ x, (s.encode c).subject? = some x ∧ (s.encode c).row.Mentions x := by
  have hfits := (encoded_encode h.names h.tableau.canonical h.over_knows c).fits
  obtain ⟨side, hside, hmarker, hother⟩ := h.cells_encode_of_soft hsoft
  generalize s.encode c = e at hfits hmarker hother ⊢
  obtain ⟨hmarkerKind, hotherKind⟩ := hfits.pivotable_of_soft hsoft
  have hexists : ∃ x, e.subject? = some x := by
    have hplus := Scalar.LawfulSigns.neg_of_one_lt_zero (α := α)
    have hminus := Scalar.LawfulSigns.neg_one_lt_zero (α := α)
    have hcell : ∀ {x} {q : α}, e.row.cells.get? x = some q → e.row.coefficient x = q := by
      intro x q hx
      rw [Row.coefficient, hx]
      rfl
    -- which of the two it is depends on the relation and on the side that is read
    rcases c.relation.opposed_units (α := α) with ⟨hunit, hagainst⟩ | ⟨hunit, hagainst⟩ <;>
      rw [hunit] at hmarker <;> rw [hagainst] at hother <;> rcases hside with rfl | rfl
    · exact Encoding.exists_subject (.inr rfl) hotherKind ((hcell hother).symm ▸ hminus)
    · exact Encoding.exists_subject (.inl rfl) hmarkerKind ((hcell hmarker).symm ▸ hplus)
    · exact Encoding.exists_subject (.inl rfl) hmarkerKind ((hcell hmarker).symm ▸ hminus)
    · exact Encoding.exists_subject (.inr rfl) hotherKind ((hcell hother).symm ▸ hplus)
  obtain ⟨x, hx⟩ := hexists
  refine ⟨x, hx, Encoding.mentions_of_subject?_of_tag (fun y hy => ?_) hx⟩
  obtain ⟨-, rfl | rfl⟩ := hy
  · exact Row.mentions_iff.mpr ⟨_, hmarker⟩
  · exact Row.mentions_iff.mpr ⟨_, hother⟩

end Solver

end Subject

/-! ## 2. What is left of a refused insertion -/

section Refused

/-- **A refused placement gives out numbers**, and puts the tableau back. -/
theorem Encoding.place_refused {e : Encoding α} {id : ConstraintId} {err : SolverError}
    (hart : e.solver.tableau.artificial = none)
    (h : (e.place id).outcome = .error (.refused err)) :
    ∃ k, (e.place id).solver = { e.solver with counter := e.solver.counter + k } := by
  have hback : ({ e.solver.tableau with artificial := none } : Tableau α) = e.solver.tableau := by
    rw [← hart]
  unfold place at h ⊢
  split
  · rename_i x hx
    rw [hx] at h
    dsimp only at h
    unfold placeBasic at h
    split at h <;> cases h
  · exact ⟨0, rfl⟩
  · rename_i hx
    rw [hx] at h
    dsimp only at h
    unfold placeArtificial at h ⊢
    dsimp only [Solver.newSymbol, Solver.restore] at h ⊢
    rw [hback]
    split
    · rename_i hout
      rw [hout] at h
      cases h
    · exact ⟨1, rfl⟩
    · exact ⟨1, rfl⟩
    · rename_i hout
      rw [hout] at h
      cases h

namespace Solver

variable {s : Solver α} {P : Symbol → Prop} {c : Constraint α}

/-- **The variables that count were met before.** -/
def Met (s : Solver α) (e : Expression α) : Prop :=
  ∀ t ∈ e.terms, nearZero t.coefficient = false → ∃ x, s.symbols.get? t.var = some x

/-- The terms of such an expression give out nothing. -/
theorem encodeTerms_of_met {e : Expression α} (h : s.Met e) : (s.encodeTerms e).1 = s := by
  suffices hfold : ∀ (ts : List (Term α)) (row : Row α),
      (∀ t ∈ ts, nearZero t.coefficient = false → ∃ x, s.symbols.get? t.var = some x) →
        (ts.foldl encodeTerm (s, row)).1 = s from hfold e.terms _ h
  intro ts
  induction ts with
  | nil => exact fun _ _ => rfl
  | cons t ts ih =>
    intro row hmet
    have hterm : ∃ row', encodeTerm (s, row) t = (s, row') := by
      unfold encodeTerm
      cases hzero : nearZero t.coefficient with
      | true => exact ⟨row, rfl⟩
      | false =>
        obtain ⟨x, hx⟩ := hmet t List.mem_cons_self hzero
        simp only [symbolOf, hx, Bool.false_eq_true, if_false]
        cases s.tableau.rows.get? x <;> exact ⟨_, rfl⟩
    obtain ⟨row', hrow⟩ := hterm
    rw [List.foldl_cons, hrow]
    exact ih row' fun u hu => hmet u (List.mem_cons_of_mem t hu)

/-- Encoding a required constraint over such variables gives out one number. -/
theorem encode_of_met (h : s.Met c.expression) (hreq : c.priority.isRequired = true) :
    (s.encode c).solver = { s with counter := s.counter + 1 } := by
  have hterms := encodeTerms_of_met h
  unfold Solver.encode
  dsimp only
  generalize s.encodeTerms c.expression = acc at hterms ⊢
  rw [encodeRelation_of_required acc.1 acc.2 c.relation hreq, ← hterms]
  split <;> rfl

/-- A soft constraint is placed. -/
theorem Ledger.place_of_soft [Scalar.StoredUnits α] [Scalar.LawfulSigns α] (h : s.Ledger P)
    (hsoft : c.priority.isRequired = false) (id : ConstraintId) :
    ((s.encode c).place id).outcome = .ok () := by
  obtain ⟨x, hx, hmen⟩ := h.exists_subject_encode hsoft
  obtain ⟨solved, hsolved⟩ := Row.exists_solveFor? hmen
  have hplacement : (s.encode c).placement = .basic x := by
    rw [Encoding.placement, hx]
  rw [Encoding.place, hplacement]
  simp only [Encoding.placeBasic, hsolved]
  rfl

variable [Scalar.LawfulUnits α] [Scalar.LawfulSigns α]

/-- **An insertion whose constraint is not live afterwards was refused and gave out numbers**, and
did nothing else, if the variables were met before. -/
theorem Ledger.add_refused (h : s.Ledger P) (hmet : s.Met c.expression)
    (habsent : (s.add c).solver.has c = false) :
    (∃ e, (s.add c).outcome = .error (.refused e)) ∧
      ∃ k, (s.add c).solver = { s with counter := s.counter + k } := by
  obtain ⟨-, hunbroken, hlisted⟩ := h.add c
  obtain hok | ⟨err, herr, -⟩ := hunbroken
  · obtain ⟨r, hr⟩ := hlisted hok
    rw [has, Registry.contains, hr] at habsent
    cases habsent
  refine ⟨⟨err, herr⟩, ?_⟩
  unfold Solver.add at habsent herr ⊢
  split
  · exact ⟨0, rfl⟩
  rename_i hnew
  split
  · exact ⟨0, rfl⟩
  rename_i hnonneg
  rw [if_neg hnew, if_neg hnonneg] at habsent herr
  dsimp only at habsent herr ⊢
  cases hout : ((s.encode c).place c.id).outcome with
  | ok =>
    -- recorded, and minimizing does not take it off the list
    rw [Reply.andThen_of_ok hout, Reply.andThen_of_ok rfl] at habsent
    have hhas : ∀ (u : Solver α) (tag : Tag), (u.record c tag).solver.has c = true := fun u tag => by
      simp [has, Solver.record, Registry.contains, Registry.get?_insert]
    exact absurd ((hhas _ _).symm.trans habsent) (by decide)
  | error halt =>
    rw [Reply.andThen_of_error hout, Reply.andThen_of_error hout] at herr ⊢
    cases hreq : c.priority.isRequired with
    | false =>
      rw [h.place_of_soft hreq c.id] at hout
      cases hout
    | true =>
      have hencode := encode_of_met hmet hreq
      have hart : (s.encode c).solver.tableau.artificial = none := by
        rw [hencode]
        exact h.tableau.noArtificial
      obtain ⟨k, hk⟩ := Encoding.place_refused hart herr
      rw [hk, hencode]
      exact ⟨1 + k, by rw [Nat.add_assoc]⟩

end Solver

end Refused

/-! ## 3. Below the gap -/

section Below

variable {g : Gap}

omit [Scalar α] in
theorem Tableau.renumber_eq_self {t : Tableau α} (hover : t.Over (·.id ≤ g.start))
    (hqueue : t.QueueOver (·.id ≤ g.start)) (hart : t.artificial = none) : t.renumber g = t := by
  have hrows : renumberRows g t.rows = t.rows := by
    have hmap : t.rows.map (·.renumber g) = t.rows := by
      refine SymbolMap.ext fun b => ?_
      rw [SymbolMap.get?_map]
      cases hrow : t.rows.get? b with
      | none => rfl
      | some row =>
        exact congrArg some (Row.renumber_eq_self fun x hx => hover.rows hrow hx)
    rw [renumberRows, hmap]
    exact SymbolMap.renumber_eq_self fun b row hrow => hover.basic hrow
  have hlist : t.infeasible.map (·.renumber g) = t.infeasible :=
    (List.map_congr_left fun x hx => Symbol.renumber_of_le (hqueue x hx)).trans (List.map_id _)
  have hnone : t.artificial.map (·.renumber g) = t.artificial := by
    rw [hart]
    rfl
  rw [renumber, hrows, hlist, hnone, Row.renumber_eq_self fun x hx => hover.objective hx]

theorem Tag.renumber_eq_self {tag : Tag} (h : ∀ x, tag.Has x → x.id ≤ g.start) :
    tag.renumber g = tag := by
  have hsymbol : ∀ x, x = tag.marker ∨ x = tag.other → x.renumber g = x := by
    intro x hx
    by_cases hplace : x = .placeholder
    · rw [hplace, Symbol.renumber_placeholder]
    · exact Symbol.renumber_of_le (h x ⟨hplace, hx⟩)
  rw [renumber, hsymbol _ (.inl rfl), hsymbol _ (.inr rfl)]

omit [Scalar α] in
/-- **All that a solver holds has a number given out before**, so a gap above them moves nothing but
the counter. -/
theorem Solver.Ledger.renumber_eq {P : Symbol → Prop} {s : Solver α} (h : s.Ledger P) (k : Nat) :
    s.renumber ⟨s.counter, k⟩ = { s with counter := s.counter + k } := by
  have hbelow : ∀ x, P x → x.id ≤ s.counter := fun x hx => (h.known x hx).2.1
  have hconstraints : s.constraints.map (·.renumber ⟨s.counter, k⟩) = s.constraints :=
    Registry.map_eq_self fun id r hr => by
      rw [ConstraintRecord.renumber,
        Tag.renumber_eq_self fun x hx => hbelow x (h.tagged id r hr x hx)]
  have hsymbols : s.symbols.map (·.renumber ⟨s.counter, k⟩) = s.symbols :=
    Registry.map_eq_self fun v x hx => Symbol.renumber_of_le (hbelow x (h.named v x hx))
  have hedits : s.edits.map (·.renumber ⟨s.counter, k⟩) = s.edits :=
    Registry.map_eq_self fun v e he => by
      rw [Edit.renumber, Tag.renumber_eq_self fun x hx => hbelow x (h.edited v e he x hx)]
  have htableau : s.tableau.renumber ⟨s.counter, k⟩ = s.tableau :=
    Tableau.renumber_eq_self (h.tableau.symbols.mono hbelow)
      (fun x hx => hbelow x (h.tableau.queue x hx)) h.tableau.noArtificial
  rw [renumber, hconstraints, hsymbols, hedits, htableau]

end Below

/-! ## 4. The rejected insertion -/

/-- **A rejected insertion is invisible to the rest of the run.**  If the constraint is over
variables met before and is not live after the call, the call was refused.  Then a caller cannot tell
the solver from what it was, and any course of calls gets the same answers and leads through solvers
that cannot be told apart either. -/
theorem Attained.rejected_add_invisible [Scalar.LawfulUnits α] [Scalar.LawfulSigns α]
    {s : Solver α} (h : Attained s) {c : Constraint α} (hmet : s.Met c.expression)
    (habsent : (s.add c).solver.has c = false) :
    (∃ e, (s.add c).outcome = .error (.refused e)) ∧
      s.Indistinguishable (s.add c).solver ∧
      ∀ calls : List (Call α),
        List.Forall₂ Reply.Alike (s.course calls) ((s.add c).solver.course calls) := by
  obtain ⟨P, hP⟩ := h.exists_ledger
  obtain ⟨herror, k, hk⟩ := hP.add_refused hmet habsent
  refine ⟨herror, ?_⟩
  rw [hk, ← hP.renumber_eq k]
  exact ⟨s.indistinguishable_renumber, h.course_renumber (le_refl s.counter)⟩

/-- The bound `v <= 1`. -/
def atMostOne (α : Type) [Scalar α] : Constraint α :=
  ⟨⟨2⟩, ⟨[.ofVariable ⟨0⟩], Scalar.ofInt (-1)⟩, .atMost, .required⟩

/-- Exactly, and with a tolerance: where `v >= 2` is required, phase one turns `v <= 1` down.  Two
numbers are gone, and nothing else can be seen of it. -/
theorem atMostOne_invisible :
    (Attained pulled ∧ pulled.Met (atMostOne ℚ).expression ∧
      (pulled.add (atMostOne ℚ)).solver.has (atMostOne ℚ) = false ∧
      (pulled.add (atMostOne ℚ)).solver.counter = pulled.counter + 2 ∧
      pulled.Indistinguishable (pulled.add (atMostOne ℚ)).solver ∧
      ∀ calls, List.Forall₂ Reply.Alike (pulled.course calls)
        ((pulled.add (atMostOne ℚ)).solver.course calls)) ∧
      let s := ((Solver.new : Solver Tolerant).perform (.add tolerantBound)).solver
      let c := atMostOne Tolerant
      Attained s ∧ s.Met c.expression ∧ (s.add c).solver.has c = false ∧
        (s.add c).solver.counter = s.counter + 2 ∧ s.Indistinguishable (s.add c).solver ∧
        ∀ calls, List.Forall₂ Reply.Alike (s.course calls) ((s.add c).solver.course calls) := by
  refine ⟨?_, ?_⟩
  · have hpulled : Attained pulled := .call _ (.call _ (.call _ (.new {})))
    have hmet : pulled.Met (atMostOne ℚ).expression := by
      intro t ht _
      cases List.mem_singleton.mp ht
      exact ⟨⟨1, .external⟩, by decide +kernel⟩
    have habsent : (pulled.add (atMostOne ℚ)).solver.has (atMostOne ℚ) = false := by
      decide +kernel
    exact ⟨hpulled, hmet, habsent, by decide +kernel,
      (hpulled.rejected_add_invisible hmet habsent).2⟩
  · intro s c
    have hattained : Attained s := .call _ (.new {})
    have hmet : s.Met c.expression := by
      intro t ht _
      cases List.mem_singleton.mp ht
      exact ⟨⟨1, .external⟩, by decide +kernel⟩
    have habsent : (s.add c).solver.has c = false := by decide +kernel
    exact ⟨hattained, hmet, habsent, by decide +kernel,
      (hattained.rejected_add_invisible hmet habsent).2⟩

end IncrementalSimplex
