/-
# The same calls under other numbers

The calls of a solver commute with new numbers, as the passes do (`Renumbering`).  Only the symbols
that a call creates need a word: they are numbered from the counter, so the counter has to move up
by the width of the gap, and the gap must lie below it (`newSymbol_renumber`).  From there on both
solvers give out numbers in step.

What a caller sees of a solver has no numbers of symbols in it: the values, the answers of the
calls, what is live and what a flush writes (`Indistinguishable`).  So a course of calls cannot tell
the two solvers apart (`course_renumber`).

A reset forgets everything but the configuration and starts numbering from zero, which is below the
gap; but it leaves the same solver in both courses.
-/
import IncrementalSimplex.Proofs.Frames
import IncrementalSimplex.Proofs.Integrity
import IncrementalSimplex.Proofs.Renumbering
import IncrementalSimplex.Solver.Flush

namespace IncrementalSimplex

/-! ## 1. The state under new numbers -/

variable {g : Gap}

def ConstraintRecord.renumber (g : Gap) (r : ConstraintRecord) : ConstraintRecord :=
  { r with tag := r.tag.renumber g }

def Edit.renumber {α : Type} (g : Gap) (e : Edit α) : Edit α := { e with tag := e.tag.renumber g }

/-- The pivots of an event are renumbered; other events name no symbol. -/
def Event.renumber (g : Gap) : Event → Event
  | .pivoted p => .pivoted (p.renumber g)
  | e => e

namespace Solver

variable {α : Type}

/-- **The solver under new numbers**, the counter included. -/
def renumber (g : Gap) (s : Solver α) : Solver α where
  config := s.config
  counter := s.counter + g.width
  constraints := s.constraints.map (·.renumber g)
  symbols := s.symbols.map (·.renumber g)
  edits := s.edits.map (·.renumber g)
  tableau := s.tableau.renumber g

section Parts

variable (s : Solver α)

@[simp] theorem config_renumber : (s.renumber g).config = s.config := rfl

@[simp] theorem constraints_renumber :
    (s.renumber g).constraints = s.constraints.map (·.renumber g) := rfl

@[simp] theorem symbols_renumber : (s.renumber g).symbols = s.symbols.map (·.renumber g) := rfl

@[simp] theorem edits_renumber : (s.renumber g).edits = s.edits.map (·.renumber g) := rfl

@[simp] theorem tableau_renumber : (s.renumber g).tableau = s.tableau.renumber g := rfl

end Parts

/-- **The next symbol**, if the gap is below the counter. -/
theorem newSymbol_renumber {s : Solver α} (h : g.start ≤ s.counter) (k : SymbolKind) :
    (s.renumber g).newSymbol k = ((s.newSymbol k).1.renumber g, (s.newSymbol k).2.renumber g) := by
  have hnumber : g.number (s.counter + 1) = s.counter + g.width + 1 := by
    rw [Gap.number_of_lt (Nat.lt_succ_of_le h)]
    omega
  simp [newSymbol, renumber, Symbol.renumber, hnumber, Nat.add_right_comm]

variable [Scalar α]

omit [Scalar α] in
/-- The symbol of a variable. -/
theorem symbolOf_renumber {s : Solver α} (h : g.start ≤ s.counter) (v : Variable) :
    (s.renumber g).symbolOf v = ((s.symbolOf v).1.renumber g, (s.symbolOf v).2.renumber g) := by
  unfold symbolOf
  rw [symbols_renumber, Registry.get?_map]
  cases s.symbols.get? v with
  | some x => rfl
  | none =>
    simp only [Option.map_none, newSymbol_renumber h, symbols_renumber, Registry.insert_map]
    rfl

end Solver

/-! ## 2. Encoding -/

/-- The encoding under new numbers. -/
def Encoding.renumber {α : Type} (g : Gap) (e : Encoding α) : Encoding α :=
  ⟨e.solver.renumber g, e.row.renumber g, e.tag.renumber g⟩

variable {α : Type} [Scalar α]

namespace Solver

theorem encodeTerm_renumber {acc : Solver α × Row α} (h : g.start ≤ acc.1.counter) (t : Term α) :
    encodeTerm (acc.1.renumber g, acc.2.renumber g) t =
      ((encodeTerm acc t).1.renumber g, (encodeTerm acc t).2.renumber g) := by
  unfold encodeTerm
  split
  · rfl
  · simp only [symbolOf_renumber h, tableau_renumber, Tableau.rows_renumber,
      Tableau.get?_renumberRows]
    cases (acc.1.symbolOf t.var).1.tableau.rows.get? (acc.1.symbolOf t.var).2 with
    | some basic => simp
    | none => simp

/-- **The terms**, one after the other: each leaves the counter above the gap. -/
theorem encodeTerms_renumber {s : Solver α} (h : g.start ≤ s.counter) (e : Expression α) :
    (s.renumber g).encodeTerms e =
      ((s.encodeTerms e).1.renumber g, (s.encodeTerms e).2.renumber g) := by
  suffices hfold : ∀ (ts : List (Term α)) (acc : Solver α × Row α), g.start ≤ acc.1.counter →
      ts.foldl encodeTerm (acc.1.renumber g, acc.2.renumber g) =
        ((ts.foldl encodeTerm acc).1.renumber g, (ts.foldl encodeTerm acc).2.renumber g) from
    hfold e.terms (s, .ofConstant e.constant) h
  intro ts
  induction ts with
  | nil => exact fun _ _ => rfl
  | cons t ts ih =>
    intro acc hacc
    rw [List.foldl_cons, encodeTerm_renumber hacc, List.foldl_cons]
    exact ih _ (hacc.trans (grows_encodeTerm acc t).counter)

@[simp] theorem charge_renumber (s : Solver α) (x : Symbol) (p : Priority) :
    (s.renumber g).charge (x.renumber g) p = (s.charge x p).renumber g := by
  simp [charge, renumber, Tableau.renumber]

theorem encodeInequality_renumber {s : Solver α} (h : g.start ≤ s.counter) (row : Row α)
    (unit against : α) (p : Priority) :
    (s.renumber g).encodeInequality (row.renumber g) unit against p =
      (s.encodeInequality row unit against p).renumber g := by
  have hnext : g.start ≤ (s.newSymbol .slack).1.counter := h.trans (Nat.le_succ _)
  unfold encodeInequality
  simp only [newSymbol_renumber h, newSymbol_renumber hnext, Row.addCell_renumber, charge_renumber]
  split
  · simp [Encoding.renumber, Tag.renumber]
  · rfl

theorem encodeEquality_renumber {s : Solver α} (h : g.start ≤ s.counter) (row : Row α)
    (p : Priority) : (s.renumber g).encodeEquality (row.renumber g) p =
      (s.encodeEquality row p).renumber g := by
  have hnext : g.start ≤ (s.newSymbol .error).1.counter := h.trans (Nat.le_succ _)
  unfold encodeEquality
  simp only [newSymbol_renumber h, newSymbol_renumber hnext, Row.addCell_renumber, charge_renumber]
  split
  · simp [Encoding.renumber, Tag.renumber]
  · rfl

/-- **Encoding** under new numbers. -/
theorem encode_renumber {s : Solver α} (h : g.start ≤ s.counter) (c : Constraint α) :
    (s.renumber g).encode c = (s.encode c).renumber g := by
  have hterms := h.trans (s.grows_encodeTerms c.expression).counter
  have hrelation : ∀ rel, ((s.encodeTerms c.expression).1.renumber g).encodeRelation
      ((s.encodeTerms c.expression).2.renumber g) c.priority rel =
        ((s.encodeTerms c.expression).1.encodeRelation (s.encodeTerms c.expression).2 c.priority
          rel).renumber g := by
    intro rel
    cases rel with
    | equal => exact encodeEquality_renumber hterms _ _
    | atMost => exact encodeInequality_renumber hterms _ _ _ _
    | atLeast => exact encodeInequality_renumber hterms _ _ _ _
  unfold encode
  simp only [encodeTerms_renumber h, hrelation]
  generalize (s.encodeTerms c.expression).1.encodeRelation _ c.priority c.relation = e
  simp only [Encoding.renumber, Row.constant_renumber]
  by_cases hneg : e.row.constant < 0
  · simp [hneg]
  · simp [hneg]

end Solver

/-! ## 3. Adding -/

namespace Encoding

/-- The placement with the renumbered subject. -/
def Placement.renumber (g : Gap) : Placement → Placement
  | .basic x => .basic (x.renumber g)
  | p => p

theorem subject?_renumber (e : Encoding α) :
    (e.renumber g).subject? = e.subject?.map (·.renumber g) := by
  have hfind : [e.tag.marker.renumber g, e.tag.other.renumber g].find?
      (fun x => x.isPivotable && decide ((e.row.renumber g).coefficient x < 0)) =
        ([e.tag.marker, e.tag.other].find?
          fun x => x.isPivotable && decide (e.row.coefficient x < 0)).map (·.renumber g) :=
    Row.find?_renumber (fun x => by simp only [Symbol.isPivotable_renumber,
      Row.coefficient_renumber]) [e.tag.marker, e.tag.other]
  change (e.row.renumber g).firstExternal?.or
    ([e.tag.marker.renumber g, e.tag.other.renumber g].find?
      fun x => x.isPivotable && decide ((e.row.renumber g).coefficient x < 0)) = _
  rw [Row.firstExternal?_renumber, hfind, subject?]
  cases e.row.firstExternal? <;> rfl

theorem placement_renumber (e : Encoding α) :
    (e.renumber g).placement = e.placement.renumber g := by
  unfold placement
  rw [subject?_renumber]
  cases e.subject? with
  | some x => rfl
  | none =>
    change (if (e.row.renumber g).allDummies then
      (if nearZero e.row.constant then .basic (e.tag.marker.renumber g) else .conflict)
      else .artificial) = Placement.renumber g _
    rw [Row.allDummies_renumber]
    cases e.row.allDummies with
    | false => rfl
    | true => cases nearZero e.row.constant <;> rfl

end Encoding

/-- The reply under new numbers. -/
def Reply.renumber {α : Type} (g : Gap) (r : Reply α) : Reply α where
  solver := r.solver.renumber g
  outcome := r.outcome.mapError (·.renumber g)
  events := r.events.map (·.renumber g)

namespace Reply

variable {α : Type}

@[simp] theorem after_renumber (r : Reply α) (earlier : List Event) :
    (r.renumber g).after (earlier.map (·.renumber g)) = (r.after earlier).renumber g := by
  simp [after, renumber]

theorem ofPass_renumber (s : Solver α) (pass : Pass α Unit) :
    ofPass (s.renumber g) (pass.renumber g) = (ofPass s pass).renumber g := by
  simp [ofPass, renumber, Pass.renumber, Solver.renumber, Function.comp_def, Event.renumber]

theorem outcome_renumber_of_ok {r : Reply α} (h : r.outcome = .ok ()) :
    (r.renumber g).outcome = .ok () := by
  rw [renumber, h]
  rfl

theorem outcome_renumber_of_error {r : Reply α} {halt : Halt} (h : r.outcome = .error halt) :
    (r.renumber g).outcome = .error (halt.renumber g) := by
  rw [renumber, h]
  rfl

/-- Calls put together: the second one on the renumbered state of the first. -/
theorem andThen_renumber {r : Reply α} {next next' : Solver α → Reply α}
    (h : next' (r.solver.renumber g) = (next r.solver).renumber g) :
    (r.renumber g).andThen next' = (r.andThen next).renumber g := by
  cases hout : r.outcome with
  | ok =>
    rw [andThen_of_ok hout, andThen_of_ok (outcome_renumber_of_ok hout), ← after_renumber, ← h]
    rfl
  | error halt =>
    rw [andThen_of_error hout, andThen_of_error (outcome_renumber_of_error hout)]

end Reply

theorem Solver.optimize_renumber (s : Solver α) :
    (s.renumber g).optimize = s.optimize.renumber g := by
  rw [optimize, tableau_renumber, config_renumber, Tableau.minimize_renumber]
  exact Reply.ofPass_renumber s _

theorem Solver.repair_renumber (s : Solver α) :
    (s.renumber g).repair = s.repair.renumber g := by
  rw [repair, tableau_renumber, config_renumber, Tableau.repair_renumber]
  exact Reply.ofPass_renumber s _

namespace Encoding

theorem placeBasic_renumber (e : Encoding α) (x : Symbol) :
    (e.renumber g).placeBasic (x.renumber g) = (e.placeBasic x).renumber g := by
  unfold placeBasic
  simp only [renumber, Row.solveFor?_renumber]
  cases e.row.solveFor? x with
  | none => rfl
  | some row =>
    simp only [Option.map_some, Solver.tableau_renumber, Tableau.enter_renumber]
    rfl

/-- **Phase one** inserts the row, or fails to, in both. -/
theorem placeArtificial_renumber {e : Encoding α} (h : g.start ≤ e.solver.counter)
    (id : ConstraintId) :
    (e.renumber g).placeArtificial id = (e.placeArtificial id).renumber g := by
  unfold placeArtificial
  simp only [renumber, Solver.newSymbol_renumber h, Solver.tableau_renumber,
    Solver.config_renumber, Tableau.phaseOne_renumber]
  generalize (e.solver.newSymbol .slack).1.tableau.phaseOne _ _ e.row = pass
  generalize (e.solver.newSymbol .slack).1 = s
  have hpivots : (pass.renumber g).pivots.map Event.pivoted =
      (pass.pivots.map Event.pivoted).map (·.renumber g) := by
    simp [Pass.renumber, Function.comp_def, Event.renumber]
  rw [hpivots]
  cases hout : pass.outcome with
  | ok driven =>
    simp only [Pass.renumber, hout, Except.mapError]
    cases driven with
    | true => rfl
    | false => exact Reply.after_renumber ((s.restore e.solver.tableau).reject id) _
  | error halt =>
    simp only [Pass.renumber, hout, Except.mapError]
    cases halt with
    | refused err => exact Reply.after_renumber (.refused (s.restore e.solver.tableau) err) _
    | absentSymbol x => rfl

theorem place_renumber {e : Encoding α} (h : g.start ≤ e.solver.counter) (id : ConstraintId) :
    (e.renumber g).place id = (e.place id).renumber g := by
  unfold place
  rw [placement_renumber]
  cases e.placement with
  | basic x => exact e.placeBasic_renumber x
  | artificial => exact placeArtificial_renumber h id
  | conflict => rfl

end Encoding

namespace Solver

omit [Scalar α] in
@[simp] theorem has_renumber (s : Solver α) (c : Constraint α) :
    (s.renumber g).has c = s.has c := Registry.contains_map _ _ _

omit [Scalar α] in
theorem record_renumber (s : Solver α) (c : Constraint α) (tag : Tag) :
    (s.renumber g).record c (tag.renumber g) = (s.record c tag).renumber g := by
  have hinsert : (s.constraints.map (·.renumber g)).insert c.id ⟨tag.renumber g, c.priority⟩ =
      (s.constraints.insert c.id ⟨tag, c.priority⟩).map (·.renumber g) :=
    Registry.insert_map (ConstraintRecord.renumber g) s.constraints c.id ⟨tag, c.priority⟩
  simp only [record, constraints_renumber, hinsert]
  rfl

/-- **Adding a constraint** under new numbers. -/
theorem add_renumber {s : Solver α} (h : g.start ≤ s.counter) (c : Constraint α) :
    (s.renumber g).add c = (s.add c).renumber g := by
  have hencode := h.trans (s.grows_encode c).counter
  unfold add
  rw [has_renumber]
  split
  · rfl
  · split
    · rfl
    · rw [encode_renumber h]
      generalize s.encode c = e at hencode ⊢
      have hrecorded : ((e.place c.id).renumber g).andThen (·.record c (e.tag.renumber g)) =
          ((e.place c.id).andThen (·.record c e.tag)).renumber g :=
        Reply.andThen_renumber (record_renumber _ c e.tag)
      dsimp only
      rw [Encoding.place_renumber hencode, Encoding.renumber, hrecorded]
      exact Reply.andThen_renumber (optimize_renumber _)

end Solver

/-! ## 4. Removing -/

namespace Tableau

@[simp] theorem uncharge_renumber (t : Tableau α) (x : Symbol) (w : α) :
    (t.renumber g).uncharge (x.renumber g) w = (t.uncharge x w).renumber g := by
  unfold uncharge
  rw [Symbol.isError_renumber]
  split
  · simp only [rows_renumber, get?_renumberRows, objective_renumber]
    cases t.rows.get? x with
    | some row => simp [renumber]
    | none => simp [renumber]
  · rfl

/-- **Taking the marker out**, from the row that makes room for it in both. -/
theorem expel_renumber (t : Tableau α) (m : Symbol) :
    (t.renumber g).expel (m.renumber g) =
      ((t.expel m).map (·.renumber g)).mapError (·.renumber g) := by
  unfold expel
  simp only [rows_renumber, get?_renumberRows, leavingForMarker?_renumber]
  cases t.rows.get? m with
  | some row => simp [Except.map, Except.mapError]
  | none =>
    cases t.leavingForMarker? m with
    | none => rfl
    | some l =>
      simp only [Option.map_none, Option.map_some, get?_renumberRows]
      cases t.rows.get? l with
      | none => rfl
      | some row =>
        simp only [Option.map_some, Row.exchange?_renumber]
        cases row.exchange? l m with
        | none => rfl
        | some solved => simp [Except.map, Except.mapError]

end Tableau

namespace Solver

theorem clear_renumber (s : Solver α) (r : ConstraintRecord) :
    (s.renumber g).clear (r.renumber g) = (s.clear r).renumber g := by
  unfold clear
  simp only [tableau_renumber, ConstraintRecord.renumber, Tag.renumber,
    Tableau.uncharge_renumber, Tableau.expel_renumber]
  cases ((s.tableau.uncharge r.tag.marker r.priority.weight).uncharge r.tag.other
    r.priority.weight).expel r.tag.marker <;> rfl

/-- **Removing a constraint** under new numbers. -/
theorem remove_renumber (s : Solver α) (c : Constraint α) :
    (s.renumber g).remove c = (s.remove c).renumber g := by
  unfold remove
  rw [constraints_renumber, Registry.get?_map]
  cases s.constraints.get? c.id with
  | none => rfl
  | some r =>
    have hunlisted : ({ s.renumber g with constraints :=
        (s.constraints.map (·.renumber g)).erase c.id } : Solver α) =
          ({ s with constraints := s.constraints.erase c.id } : Solver α).renumber g := by
      rw [Registry.erase_map]
      rfl
    simp only [Option.map_some, hunlisted, clear_renumber]
    generalize clear { s with constraints := s.constraints.erase c.id } r = cleared
    have hreported : (cleared.renumber g).andThen
        (fun s => (Reply.done s).reporting (.removed c.id)) =
          (cleared.andThen fun s => (Reply.done s).reporting (.removed c.id)).renumber g :=
      Reply.andThen_renumber rfl
    rw [hreported]
    exact Reply.andThen_renumber (optimize_renumber _)

end Solver

/-! ## 5. Editing -/

namespace Tableau

theorem shiftRow_renumber (m : Symbol) (δ : α) (row : Row α) :
    shiftRow (m.renumber g) δ (row.renumber g) = (shiftRow m δ row).renumber g := by
  simp only [shiftRow, Row.coefficient_renumber]
  split <;> rfl

theorem shiftedNegative_renumber (rows : SymbolMap (Row α)) (m : Symbol) (δ : α) :
    shiftedNegative (renumberRows g rows) (m.renumber g) δ =
      (shiftedNegative rows m δ).map (·.renumber g) := by
  rw [shiftedNegative, shiftedNegative, entries_renumberRows, List.filter_map, List.map_map,
    List.map_map]
  simp [Function.comp_def, shiftRow_renumber]

/-- **Shifting a target** moves the same rows. -/
theorem shift_renumber (t : Tableau α) (tag : Tag) (δ : α) :
    (t.renumber g).shift (tag.renumber g) δ = (t.shift tag δ).renumber g := by
  unfold shift
  simp only [Tag.renumber, rows_renumber, get?_renumberRows]
  cases t.rows.get? tag.marker with
  | some row => simp
  | none =>
    cases t.rows.get? tag.other with
    | some row => simp
    | none =>
      simp only [Option.map_none, shiftedNegative_renumber, infeasible_renumber,
        map_renumberRows t.rows (fun row => shiftRow_renumber tag.marker δ row)]
      simp [renumber]

end Tableau

namespace Solver

omit [Scalar α] in
@[simp] theorem hasEdit_renumber (s : Solver α) (v : Variable) :
    (s.renumber g).hasEdit v = s.hasEdit v := Registry.contains_map _ _ _

theorem abandonEdit_renumber (s : Solver α) (c : Constraint α) (v : Variable) (e : SolverError) :
    (s.renumber g).abandonEdit c v e = (s.abandonEdit c v e).renumber g := by
  unfold abandonEdit
  rw [has_renumber, remove_renumber]
  split
  · generalize s.remove c = r
    obtain ⟨u, outcome, events⟩ := r
    cases outcome with
    | ok => rfl
    | error halt =>
      cases halt with
      | refused dropping => simp [Reply.renumber, Except.mapError, Halt.renumber, Event.renumber]
      | absentSymbol x => rfl
  · rfl

theorem recordEdit_renumber (s : Solver α) (c : Constraint α) (v : Variable) :
    (s.renumber g).recordEdit c v = (s.recordEdit c v).renumber g := by
  unfold recordEdit
  rw [constraints_renumber, Registry.get?_map]
  cases s.constraints.get? c.id with
  | none => rfl
  | some r =>
    have hinsert : (s.edits.map (·.renumber g)).insert v ⟨r.tag.renumber g, c, 0⟩ =
        (s.edits.insert v ⟨r.tag, c, 0⟩).map (·.renumber g) :=
      Registry.insert_map (Edit.renumber g) s.edits v ⟨r.tag, c, 0⟩
    simp only [Option.map_some, edits_renumber, ConstraintRecord.renumber, hinsert]
    rfl

/-- **Beginning an edit** under new numbers. -/
theorem addEdit_renumber {s : Solver α} (h : g.start ≤ s.counter) (id : ConstraintId)
    (v : Variable) (p : Priority) :
    (s.renumber g).addEdit id v p = (s.addEdit id v p).renumber g := by
  have hrefusal : (s.renumber g).editRefusal? v p = s.editRefusal? v p := by
    simp [editRefusal?]
  unfold addEdit
  rw [hrefusal]
  cases s.editRefusal? v p with
  | some e => rfl
  | none =>
    dsimp only
    rw [add_renumber h]
    obtain ⟨u, outcome, events⟩ := s.add (editConstraint id v p)
    cases outcome with
    | ok =>
      change ((u.renumber g).recordEdit (editConstraint id v p) v).after
        (events.map (·.renumber g)) = _
      rw [recordEdit_renumber, Reply.after_renumber]
    | error halt =>
      cases halt with
      | refused e =>
        change ((u.renumber g).abandonEdit (editConstraint id v p) v e).after
          (events.map (·.renumber g)) = _
        rw [abandonEdit_renumber, Reply.after_renumber]
      | absentSymbol x => rfl

/-- **Ending an edit** under new numbers. -/
theorem removeEdit_renumber (s : Solver α) (v : Variable) :
    (s.renumber g).removeEdit v = (s.removeEdit v).renumber g := by
  unfold removeEdit
  rw [edits_renumber, Registry.get?_map]
  cases s.edits.get? v with
  | none => rfl
  | some edit =>
    have herased : ({ s.renumber g with edits := (s.edits.map (·.renumber g)).erase v } :
        Solver α) = ({ s with edits := s.edits.erase v } : Solver α).renumber g := by
      rw [Registry.erase_map]
      rfl
    simp only [Option.map_some, herased, remove_renumber]
    exact Reply.andThen_renumber rfl

/-- **Suggesting a value** under new numbers. -/
theorem suggest_renumber (s : Solver α) (v : Variable) (x : α) :
    (s.renumber g).suggest v x = (s.suggest v x).renumber g := by
  unfold suggest
  rw [edits_renumber, Registry.get?_map]
  cases s.edits.get? v with
  | none => rfl
  | some edit =>
    have hinsert : (s.edits.map (·.renumber g)).insert v
        ⟨edit.tag.renumber g, edit.constraint, x⟩ =
          (s.edits.insert v ⟨edit.tag, edit.constraint, x⟩).map (·.renumber g) :=
      Registry.insert_map (Edit.renumber g) s.edits v ⟨edit.tag, edit.constraint, x⟩
    change Solver.repair { s.renumber g with
      edits := (s.edits.map (·.renumber g)).insert v ⟨edit.tag.renumber g, edit.constraint, x⟩
      tableau := (s.tableau.renumber g).shift (edit.tag.renumber g) (x - edit.constant) } = _
    rw [hinsert, Tableau.shift_renumber]
    exact repair_renumber { s with
      edits := s.edits.insert v ⟨edit.tag, edit.constraint, x⟩
      tableau := s.tableau.shift edit.tag (x - edit.constant) }

end Solver

/-! ## 6. Any call -/

namespace Solver

/-- **A step to which numbers do not matter**: it commutes with new ones, and takes none back. -/
structure Commutes (g : Gap) (step : Solver α → Constraint α → Reply α) : Prop where
  reply : ∀ {s}, g.start ≤ s.counter → ∀ c, step (s.renumber g) c = (step s c).renumber g
  counter : ∀ s c, s.counter ≤ (step s c).solver.counter

theorem commutes_add : Commutes g (add : Solver α → Constraint α → Reply α) :=
  ⟨fun h c => add_renumber h c, counter_add⟩

theorem commutes_remove : Commutes g (remove : Solver α → Constraint α → Reply α) :=
  ⟨fun {s} _ c => s.remove_renumber c, fun s c => (s.counter_remove c).ge⟩

section Batches

variable {apply undo : Solver α → Constraint α → Reply α} {s : Solver α}

omit [Scalar α]

/-- **Undoing**, by induction on what is left to undo. -/
theorem Commutes.undoAll_renumber (hundo : Commutes g undo) (h : g.start ≤ s.counter)
    (cs : List (Constraint α)) :
    undoAll undo cs (s.renumber g) = (undoAll undo cs s).renumber g := by
  induction cs generalizing s with
  | nil => rfl
  | cons c rest ih =>
    have hreply := hundo.reply h c
    have hrest := ih (h.trans (hundo.counter s c))
    cases hout : (undo s c).outcome with
    | ok =>
      rw [undoAll_cons_ok hout, undoAll_cons_ok (hreply ▸ Reply.outcome_renumber_of_ok hout),
        hreply, ← Reply.after_renumber, ← hrest]
      rfl
    | error halt =>
      have hout' := hreply ▸ Reply.outcome_renumber_of_error hout
      cases halt with
      | refused e =>
        rw [undoAll_cons_refused hout, undoAll_cons_refused hout', hreply,
          ← Reply.after_renumber, ← hrest, List.map_append]
        rfl
      | absentSymbol x => rw [undoAll_cons_absent hout, undoAll_cons_absent hout', hreply]

/-- **A batch**, by induction on the steps to come. -/
theorem Commutes.batch_renumber (happly : Commutes g apply) (hundo : Commutes g undo)
    (h : g.start ≤ s.counter) (applied cs : List (Constraint α)) :
    batch apply undo applied cs (s.renumber g) = (batch apply undo applied cs s).renumber g := by
  induction cs generalizing s applied with
  | nil => rfl
  | cons c rest ih =>
    have hreply := happly.reply h c
    have hnext := h.trans (happly.counter s c)
    cases hout : (apply s c).outcome with
    | ok =>
      rw [batch_cons_ok hout, batch_cons_ok (hreply ▸ Reply.outcome_renumber_of_ok hout),
        hreply, ← Reply.after_renumber, ← ih hnext]
      rfl
    | error halt =>
      have hout' := hreply ▸ Reply.outcome_renumber_of_error hout
      cases halt with
      | refused e =>
        have hundone : (undoAll undo applied ((apply s c).solver.renumber g)).andThen
            (.refused · e) = ((undoAll undo applied (apply s c).solver).andThen
              (.refused · e)).renumber g := by
          rw [hundo.undoAll_renumber hnext]
          exact Reply.andThen_renumber rfl
        rw [batch_cons_refused hout, batch_cons_refused hout', hreply, ← Reply.after_renumber,
          ← hundone]
        rfl
      | absentSymbol x => rw [batch_cons_absent hout, batch_cons_absent hout', hreply]

end Batches

/-- **Every call commutes with new numbers**, except for a reset, which begins to count anew. -/
theorem perform_renumber {s : Solver α} (h : g.start ≤ s.counter) {c : Call α} (hc : c ≠ .reset) :
    (s.renumber g).perform c = (s.perform c).renumber g := by
  cases c with
  | add c => exact add_renumber h c
  | remove c => exact s.remove_renumber c
  | addAll cs => exact commutes_add.batch_renumber commutes_remove h [] cs
  | removeAll cs => exact commutes_remove.batch_renumber commutes_add h [] cs
  | edit id v p => exact addEdit_renumber h id v p
  | unedit v => exact s.removeEdit_renumber v
  | suggest v x => exact s.suggest_renumber v x
  | reset => exact absurd rfl hc

/-! ## 7. What a caller sees -/

/-- **Nothing that a caller can read tells the two solvers apart.** -/
structure Indistinguishable (s u : Solver α) : Prop where
  config : u.config = s.config
  value : ∀ v, u.value v = s.value v
  flush : ∀ {γ : Type} (space : Space α γ), u.flush? space = s.flush? space
  has : ∀ c, u.has c = s.has c
  hasEdit : ∀ v, u.hasEdit v = s.hasEdit v

theorem Indistinguishable.refl (s : Solver α) : s.Indistinguishable s :=
  ⟨rfl, fun _ => rfl, fun _ => rfl, fun _ => rfl, fun _ => rfl⟩

@[simp] theorem symbolValue_renumber (s : Solver α) (x : Symbol) :
    (s.renumber g).symbolValue (x.renumber g) = s.symbolValue x := by
  unfold symbolValue
  rw [tableau_renumber, Tableau.rows_renumber, Tableau.get?_renumberRows]
  cases s.tableau.rows.get? x <;> rfl

theorem indistinguishable_renumber (s : Solver α) : s.Indistinguishable (s.renumber g) where
  config := rfl
  value v := by
    unfold value
    rw [symbols_renumber, Registry.get?_map]
    cases s.symbols.get? v with
    | none => rfl
    | some x => exact s.symbolValue_renumber x
  flush space := by
    unfold flush?
    rw [symbols_renumber, Registry.map, List.foldlM_map]
    simp only [symbolValue_renumber]
  has := s.has_renumber
  hasEdit := s.hasEdit_renumber

end Solver

/-- **The same answer**, and solvers that a caller cannot tell apart. -/
structure Reply.Alike (r r' : Reply α) : Prop where
  outcome : r'.outcome = r.outcome
  solver : r.solver.Indistinguishable r'.solver

theorem Reply.Alike.refl (r : Reply α) : r.Alike r := ⟨rfl, .refl _⟩

/-- A refusal names no symbol. -/
theorem Unbroken.renumber {o : Except Halt Unit} (h : Unbroken o) :
    o.mapError (·.renumber g) = o := by
  obtain rfl | ⟨e, rfl, -⟩ := h <;> rfl

/-- A course goes on after a call that is not broken off. -/
theorem Solver.course_cons {s : Solver α} {c : Call α} (h : Unbroken (s.perform c).outcome)
    (calls : List (Call α)) :
    s.course (c :: calls) = s.perform c :: (s.perform c).solver.course calls := by
  rw [course]
  obtain hok | ⟨e, herror, -⟩ := h
  · simp only [hok]
  · simp only [herror]

/-- **No course of calls tells a solver from the same solver under other numbers.** -/
theorem Attained.course_renumber [Scalar.LawfulUnits α] {s : Solver α} (h : Attained s)
    (hg : g.start ≤ s.counter) (calls : List (Call α)) :
    List.Forall₂ Reply.Alike (s.course calls) ((s.renumber g).course calls) := by
  induction calls generalizing s with
  | nil => exact .nil
  | cons c calls ih =>
    obtain ⟨P, hP⟩ := h.exists_ledger
    have hunbroken := (hP.perform c).2
    rw [Solver.course_cons hunbroken]
    by_cases hc : c = .reset
    · subst hc
      exact List.forall₂_same.mpr fun r _ => .refl r
    · have hperform := Solver.perform_renumber hg hc
      have houtcome : ((s.renumber g).perform c).outcome = (s.perform c).outcome := by
        rw [hperform]
        exact hunbroken.renumber
      rw [Solver.course_cons (houtcome ▸ hunbroken), hperform]
      exact .cons ⟨hperform ▸ houtcome, Solver.indistinguishable_renumber _⟩
        (ih (.call c h) (hg.trans (s.counter_perform hc)))

end IncrementalSimplex
