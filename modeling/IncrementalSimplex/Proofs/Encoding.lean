/-
# What encoding a constraint brings in

Encoding adds to a solver and changes nothing that is there: it gives external symbols to variables
met for the first time, it creates the symbols of the tag, and it charges errors to the objective.
`Solver.Grows` is the first part, and it is what a rejected insertion leaves behind.

**The symbols of a tag are new.**  Their numbers lie above the old counter and up to the new one
(`Tagged.fresh`), and everything in the old tableau is numbered up to the old counter
(`Solver.Knows`).  So a new symbol occurs nowhere.

In the exact reading the encoded row is the constraint's equation, up to its sign
(`value_encode`): on the solutions of the tableau it has the value of the expression plus what the
tag adds.  `ConstraintRecord.tagPart` is that addition, by relation and by whether the constraint is
required.
-/
import IncrementalSimplex.Solver.Encoding
import IncrementalSimplex.Proofs.Presentation

namespace IncrementalSimplex

/-! ## 1. The symbols of a tag -/

/-- A symbol of the tag; the placeholder is none. -/
def Tag.Has (tag : Tag) (x : Symbol) : Prop :=
  x ≠ .placeholder ∧ (x = tag.marker ∨ x = tag.other)

/-- The kind of the marker of a relation. -/
def Relation.markerKind (rel : Relation) (required : Bool) : SymbolKind :=
  match rel, required with
  | .equal, true => .dummy
  | .equal, false => .error
  | _, _ => .slack

section Units

variable {α : Type} [Scalar α]

/-- The coefficient of the marker in the encoded row. -/
def Relation.markerUnit (rel : Relation) (required : Bool) : α :=
  match rel, required with
  | .equal, false => -1
  | .atLeast, _ => -1
  | _, _ => 1

/-- A marker's coefficient is one or minus one, so it does not pass for zero. -/
theorem Relation.nearZero_markerUnit [Scalar.StoredUnits α] (rel : Relation) (required : Bool) :
    nearZero (0 + rel.markerUnit required : α) = false := by
  cases rel <;> cases required <;>
    first
      | exact Scalar.StoredUnits.nearZero_one
      | exact Scalar.StoredUnits.nearZero_neg_one

/-- The coefficient of the other symbol of a soft constraint. -/
def Relation.otherUnit (rel : Relation) : α :=
  match rel with
  | .atMost => -1
  | _ => 1

end Units

/-- **The tag suits the relation and the priority**: an inequality has a slack, a required equality
a dummy, and what is soft has an error to pay with, a soft equality two. -/
structure ConstraintRecord.Fits (r : ConstraintRecord) (rel : Relation) : Prop where
  marker : r.tag.marker.kind = rel.markerKind r.priority.isRequired
  other : if r.priority.isRequired then r.tag.other = .placeholder else r.tag.other.kind = .error

namespace ConstraintRecord.Fits

variable {r : ConstraintRecord} {rel : Relation}

theorem marker_restricted (h : r.Fits rel) : r.tag.marker.isRestricted := by
  have hm := h.marker
  cases rel <;> cases hreq : r.priority.isRequired <;>
    simp [Symbol.isRestricted, Symbol.isExternal, hm, hreq, Relation.markerKind]

theorem marker_ne_placeholder (h : r.Fits rel) : r.tag.marker ≠ .placeholder := by
  intro heq
  have hm := h.marker
  rw [heq] at hm
  cases rel <;> cases hreq : r.priority.isRequired <;> rw [hreq] at hm <;> cases hm

theorem other_of_required (h : r.Fits rel) (hreq : r.priority.isRequired = true) :
    r.tag.other = .placeholder := by
  have := h.other
  rwa [if_pos hreq] at this

theorem other_of_soft (h : r.Fits rel) (hsoft : r.priority.isRequired = false) :
    r.tag.other.kind = .error := by
  have := h.other
  rwa [if_neg (by simp [hsoft])] at this

/-- Either symbol of a soft tag can be solved for. -/
theorem pivotable_of_soft (h : r.Fits rel) (hsoft : r.priority.isRequired = false) :
    r.tag.marker.isPivotable ∧ r.tag.other.isPivotable := by
  have hmarker := h.marker
  rw [hsoft] at hmarker
  rw [Symbol.isPivotable, Symbol.isPivotable, hmarker, h.other_of_soft hsoft]
  cases rel <;> exact ⟨rfl, rfl⟩

/-- Every symbol of a tag is restricted. -/
theorem restricted (h : r.Fits rel) {x : Symbol} (hx : r.tag.Has x) : x.isRestricted := by
  obtain ⟨hne, rfl | rfl⟩ := hx
  · exact h.marker_restricted
  · cases hreq : r.priority.isRequired with
    | true => exact absurd (h.other_of_required hreq) hne
    | false => simp [Symbol.isRestricted, Symbol.isExternal, h.other_of_soft hreq]

theorem has_marker (h : r.Fits rel) : r.tag.Has r.tag.marker :=
  ⟨h.marker_ne_placeholder, .inl rfl⟩

theorem has_other (h : r.Fits rel) (hsoft : r.priority.isRequired = false) :
    r.tag.Has r.tag.other := by
  refine ⟨?_, .inr rfl⟩
  intro heq
  have hk := h.other_of_soft hsoft
  rw [heq] at hk
  cases hk

/-- The marker of a required equality is a dummy ... -/
theorem marker_isDummy (h : r.Fits rel) (hrel : rel = .equal)
    (hreq : r.priority.isRequired = true) : r.tag.marker.isDummy := by
  have hk := h.marker
  rw [hrel, hreq] at hk
  rw [Symbol.isDummy, hk]
  rfl

/-- ... and no other tag has one. -/
theorem of_isDummy (h : r.Fits rel) {x : Symbol} (hhas : r.tag.Has x) (hx : x.isDummy) :
    rel = .equal ∧ r.priority.isRequired = true := by
  have hk : x.kind = .dummy := by simpa [Symbol.isDummy] using hx
  have hm := h.marker
  cases hreq : r.priority.isRequired with
  | true =>
    rw [hreq] at hm
    obtain ⟨hne, rfl | rfl⟩ := hhas
    · rw [hk] at hm
      cases rel with
      | equal => exact ⟨rfl, rfl⟩
      | atMost => cases hm
      | atLeast => cases hm
    · exact absurd (h.other_of_required hreq) hne
  | false =>
    rw [hreq] at hm
    obtain ⟨-, rfl | rfl⟩ := hhas
    · rw [hk] at hm
      cases rel <;> cases hm
    · rw [h.other_of_soft hreq] at hk
      cases hk

theorem not_isDummy_of_soft (h : r.Fits rel) (hsoft : r.priority.isRequired = false) {x : Symbol}
    (hhas : r.tag.Has x) : x.isDummy = false := by
  cases hx : x.isDummy with
  | false => rfl
  | true =>
    have hreq := (h.of_isDummy hhas hx).2
    rw [hsoft] at hreq
    cases hreq

end ConstraintRecord.Fits

/-! ## 2. Growing -/

namespace Solver

section Any

variable {α : Type}

/-- **The solver has a symbol**: its number has been given out. -/
def Knows (s : Solver α) (x : Symbol) : Prop :=
  1 ≤ x.id ∧ x.id ≤ s.counter ∧ x.kind ≠ .placeholder

/-- **Every variable that was met has an external symbol of its own.** -/
structure Names (s : Solver α) : Prop where
  known : ∀ v x, s.symbols.get? v = some x → s.Knows x ∧ x.isExternal
  inj : ∀ v w x, s.symbols.get? v = some x → s.symbols.get? w = some x → v = w

/-- **More symbols, and nothing else new** but perhaps in the tableau.  A symbol that a variable has
gained has a number that was not given out before. -/
structure Grows (s u : Solver α) : Prop where
  config : u.config = s.config
  constraints : u.constraints = s.constraints
  edits : u.edits = s.edits
  counter : s.counter ≤ u.counter
  symbols : ∀ v x, s.symbols.get? v = some x → u.symbols.get? v = some x
  young : ∀ v x, u.symbols.get? v = some x → s.symbols.get? v = some x ∨ s.counter < x.id

theorem Grows.refl (s : Solver α) : s.Grows s :=
  ⟨rfl, rfl, rfl, le_refl _, fun _ _ h => h, fun _ _ => .inl⟩

theorem Grows.trans {s u v : Solver α} (hsu : s.Grows u) (huv : u.Grows v) : s.Grows v where
  config := huv.config.trans hsu.config
  constraints := huv.constraints.trans hsu.constraints
  edits := huv.edits.trans hsu.edits
  counter := hsu.counter.trans huv.counter
  symbols w x h := huv.symbols w x (hsu.symbols w x h)
  young w x h := by
    rcases huv.young w x h with h | h
    · exact hsu.young w x h
    · exact .inr (hsu.counter.trans_lt h)

theorem Grows.of_le {s : Solver α} {n : Nat} (h : s.counter ≤ n) (t : Tableau α) :
    s.Grows { s with counter := n, tableau := t } :=
  ⟨rfl, rfl, rfl, h, fun _ _ hx => hx, fun _ _ => .inl⟩

theorem Knows.mono {s u : Solver α} {x : Symbol} (h : s.Knows x) (hle : s.counter ≤ u.counter) :
    u.Knows x := ⟨h.1, h.2.1.trans hle, h.2.2⟩

/-- A known symbol is older than a new one. -/
theorem Knows.ne_of_lt {s : Solver α} {x y : Symbol} (h : s.Knows x) (hy : s.counter < y.id) :
    x ≠ y := by
  rintro rfl
  exact absurd h.2.1 (Nat.not_le.mpr hy)

/-- More numbers do not take a name away. -/
theorem Names.mono {s u : Solver α} (h : s.Names) (hsym : u.symbols = s.symbols)
    (hle : s.counter ≤ u.counter) : u.Names where
  known v x hx := by
    rw [hsym] at hx
    exact ⟨(h.known v x hx).1.mono hle, (h.known v x hx).2⟩
  inj v w x hv hw := by
    rw [hsym] at hv hw
    exact h.inj v w x hv hw

theorem grows_symbolOf (s : Solver α) (v : Variable) : s.Grows (s.symbolOf v).1 := by
  unfold symbolOf
  cases hv : s.symbols.get? v with
  | some x => exact .refl s
  | none =>
    have hget : ∀ w, (s.symbols.insert v ⟨s.counter + 1, .external⟩).get? w =
        if w = v then some ⟨s.counter + 1, .external⟩ else s.symbols.get? w :=
      fun w => s.symbols.get?_insert v w _
    refine ⟨rfl, rfl, rfl, Nat.le_succ _, fun w x hw => ?_, fun w x hw => ?_⟩
    · refine (hget w).trans ?_
      rw [if_neg ?_, hw]
      rintro rfl
      rw [hv] at hw
      cases hw
    · have hw := (hget w).symm.trans hw
      split at hw
      · cases hw
        exact .inr (Nat.lt_succ_self _)
      · exact .inl hw

/-- **Asking for the symbol of a variable** gives it one, a new one if it had none. -/
theorem symbolOf_spec {s : Solver α} (h : s.Names) (v : Variable) :
    s.Grows (s.symbolOf v).1 ∧ (s.symbolOf v).1.tableau = s.tableau ∧ (s.symbolOf v).1.Names ∧
      (s.symbolOf v).1.symbols.get? v = some (s.symbolOf v).2 := by
  refine ⟨s.grows_symbolOf v, ?_⟩
  unfold symbolOf
  cases hv : s.symbols.get? v with
  | some x => exact ⟨rfl, h, hv⟩
  | none =>
    have hget : ∀ w, (s.symbols.insert v ⟨s.counter + 1, .external⟩).get? w =
        if w = v then some ⟨s.counter + 1, .external⟩ else s.symbols.get? w :=
      fun w => s.symbols.get?_insert v w _
    dsimp only [newSymbol]
    have hnew : ∀ w x, s.symbols.get? w = some x → x ≠ ⟨s.counter + 1, .external⟩ := fun w x hw =>
      (h.known w x hw).1.ne_of_lt (Nat.lt_succ_self s.counter)
    refine ⟨rfl, ⟨fun w x hw => ?_, fun w z x hw hz => ?_⟩, (hget v).trans (if_pos rfl)⟩
    · rw [hget] at hw
      split at hw
      · cases hw
        exact ⟨⟨Nat.succ_pos _, le_refl _, by simp⟩, rfl⟩
      · exact ⟨(h.known w x hw).1.mono (Nat.le_succ _), (h.known w x hw).2⟩
    · rw [hget] at hw
      rw [hget] at hz
      split at hw
      · rename_i hwv
        split at hz
        · rename_i hzv
          rw [hwv, hzv]
        · cases hw
          exact absurd rfl (hnew z _ hz)
      · split at hz
        · cases hz
          exact absurd rfl (hnew w _ hw)
        · exact h.inj w z x hw hz

end Any

/-! ## 3. Terms -/

section Any

variable {α : Type} [Scalar α]

/-- **A row under construction**: over known symbols that are free in the tableau, which has not
changed.  They come from its rows or from variables. -/
structure Terms (s : Solver α) (acc : Solver α × Row α) : Prop where
  grows : s.Grows acc.1
  tableau : acc.1.tableau = s.tableau
  names : acc.1.Names
  known : ∀ x, acc.2.Mentions x → acc.1.Knows x
  free : s.tableau.Free acc.2
  origin : ∀ x, acc.2.Mentions x →
    (∃ b row, s.tableau.rows.get? b = some row ∧ row.Mentions x) ∨
      ∃ v, acc.1.symbols.get? v = some x

theorem Terms.encodeTerm {s : Solver α} {acc : Solver α × Row α} (h : s.Terms acc)
    (hcan : s.tableau.Canonical) (hover : s.tableau.Over s.Knows) (t : Term α) :
    s.Terms (encodeTerm acc t) := by
  unfold Solver.encodeTerm
  split
  · exact h
  · obtain ⟨hgrows, htab, hnames, hget⟩ := symbolOf_spec h.names t.var
    have hgrown := h.grows.trans hgrows
    have htab' : (acc.1.symbolOf t.var).1.tableau = s.tableau := htab.trans h.tableau
    have horigin : ∀ x, acc.2.Mentions x →
        (∃ b row, s.tableau.rows.get? b = some row ∧ row.Mentions x) ∨
          ∃ v, (acc.1.symbolOf t.var).1.symbols.get? v = some x := fun x hx =>
      (h.origin x hx).imp_right fun ⟨v, hv⟩ => ⟨v, hgrows.symbols v x hv⟩
    dsimp only
    rw [htab']
    cases hrow : s.tableau.rows.get? (acc.1.symbolOf t.var).2 with
    | some basic =>
      refine ⟨hgrown, htab', hnames, fun x hx => ?_, fun x hx => ?_, fun x hx => ?_⟩
      · rcases Row.mentions_addRow hx with hx | hx
        · exact (h.known x hx).mono hgrows.counter
        · exact (hover.rows hrow hx).mono hgrown.counter
      · rcases Row.mentions_addRow hx with hx | hx
        · exact h.free x hx
        · exact hcan.rows hrow hx
      · rcases Row.mentions_addRow hx with hx | hx
        · exact horigin x hx
        · exact .inl ⟨_, basic, hrow, hx⟩
    | none =>
      refine ⟨hgrown, htab', hnames, fun x hx => ?_, fun x hx => ?_, fun x hx => ?_⟩
      · rcases Row.mentions_addCell hx with rfl | hx
        · exact (hnames.known _ _ hget).1
        · exact (h.known x hx).mono hgrows.counter
      · rcases Row.mentions_addCell hx with rfl | hx
        · exact hrow
        · exact h.free x hx
      · rcases Row.mentions_addCell hx with rfl | hx
        · exact .inr ⟨t.var, hget⟩
        · exact horigin x hx

theorem Terms.foldl {s : Solver α} (hcan : s.tableau.Canonical)
    (hover : s.tableau.Over s.Knows) : ∀ (ts : List (Term α)) {acc : Solver α × Row α},
    s.Terms acc → s.Terms (ts.foldl Solver.encodeTerm acc)
  | [], _, h => h
  | t :: ts, _, h => foldl hcan hover ts (h.encodeTerm hcan hover t)

omit [Scalar α] in
theorem terms_ofConstant {s : Solver α} (hnames : s.Names) (c : α) :
    s.Terms (s, .ofConstant c) := by
  have hempty : ∀ x, ¬ (Row.ofConstant c).Mentions x := Row.not_mentions_ofConstant c
  exact ⟨.refl s, rfl, hnames, fun x hx => absurd hx (hempty x), fun x hx => absurd hx (hempty x),
    fun x hx => absurd hx (hempty x)⟩

theorem terms_encodeTerms {s : Solver α} (hnames : s.Names) (hcan : s.tableau.Canonical)
    (hover : s.tableau.Over s.Knows) (e : Expression α) : s.Terms (s.encodeTerms e) :=
  Terms.foldl hcan hover e.terms (terms_ofConstant hnames e.constant)

/-! ## 4. Relations -/

/-- **What the relation brings in**: new symbols for the tag, which are all that the row and the
objective gain. -/
structure Tagged (s : Solver α) (row : Row α) (p : Priority) (rel : Relation) (e : Encoding α) :
    Prop where
  grows : s.Grows e.solver
  symbols : e.solver.symbols = s.symbols
  rows : e.solver.tableau.rows = s.tableau.rows
  artificial : e.solver.tableau.artificial = s.tableau.artificial
  infeasible : e.solver.tableau.infeasible = s.tableau.infeasible
  objective : ∀ x, e.solver.tableau.objective.Mentions x →
    s.tableau.objective.Mentions x ∨ e.tag.Has x
  unpaid : p.isRequired = true → e.solver.tableau = s.tableau
  fits : (⟨e.tag, p⟩ : ConstraintRecord).Fits rel
  fresh : ∀ x, e.tag.Has x → s.counter < x.id ∧ e.solver.Knows x
  distinct : e.tag.marker.id ≠ e.tag.other.id
  mentions : ∀ x, e.row.Mentions x → row.Mentions x ∨ e.tag.Has x

/-- A required constraint brings in its marker. -/
theorem tagged_single (s : Solver α) (row : Row α) (unit : α) {p : Priority} {rel : Relation}
    (hreq : p.isRequired = true) :
    s.Tagged row p rel ⟨{ s with counter := s.counter + 1 },
      row.addCell ⟨s.counter + 1, rel.markerKind true⟩ unit,
      { marker := ⟨s.counter + 1, rel.markerKind true⟩ }⟩ where
  grows := ⟨rfl, rfl, rfl, Nat.le_succ _, fun _ _ h => h, fun _ _ => .inl⟩
  symbols := rfl
  rows := rfl
  artificial := rfl
  infeasible := rfl
  objective _ hx := .inl hx
  unpaid _ := rfl
  fits := ⟨by rw [hreq], by rw [if_pos hreq]⟩
  fresh x hx := by
    obtain ⟨hne, rfl | rfl⟩ := hx
    · refine ⟨Nat.lt_succ_self _, Nat.succ_pos _, le_refl _, ?_⟩
      cases rel <;> simp [Relation.markerKind]
    · exact absurd rfl hne
  distinct := Nat.succ_ne_zero _
  mentions x hx := by
    rcases Row.mentions_addCell hx with rfl | hx
    · refine .inr ⟨fun h => ?_, .inl rfl⟩
      cases rel <;> cases h
    · exact .inl hx

/-- A soft constraint brings in its marker and an error. -/
theorem tagged_pair (s : Solver α) (row : Row α) (unit against : α) {p : Priority} {rel : Relation}
    (hsoft : p.isRequired = false) {objective : Row α}
    (hobj : ∀ x, objective.Mentions x → s.tableau.objective.Mentions x ∨
      x = ⟨s.counter + 1, rel.markerKind false⟩ ∨ x = ⟨s.counter + 2, .error⟩) :
    s.Tagged row p rel ⟨{ s with
        counter := s.counter + 2
        tableau := { s.tableau with objective := objective } },
      (row.addCell ⟨s.counter + 1, rel.markerKind false⟩ unit).addCell
        ⟨s.counter + 2, .error⟩ against,
      { marker := ⟨s.counter + 1, rel.markerKind false⟩, other := ⟨s.counter + 2, .error⟩ }⟩ where
  grows := ⟨rfl, rfl, rfl, Nat.le_add_right _ 2, fun _ _ h => h, fun _ _ => .inl⟩
  symbols := rfl
  rows := rfl
  artificial := rfl
  infeasible := rfl
  objective x hx := by
    rcases hobj x hx with hx | rfl | rfl
    · exact .inl hx
    · refine .inr ⟨fun h => ?_, .inl rfl⟩
      cases rel <;> cases h
    · exact .inr ⟨(fun h => by cases h), .inr rfl⟩
  unpaid hreq := by
    rw [hsoft] at hreq
    cases hreq
  fits := ⟨by rw [hsoft], by rw [if_neg (by simp [hsoft])]⟩
  fresh x hx := by
    obtain ⟨-, rfl | rfl⟩ := hx
    · exact ⟨Nat.lt_succ_self _, Nat.succ_pos _, Nat.le_succ _,
        by cases rel <;> simp [Relation.markerKind]⟩
    · exact ⟨Nat.lt_add_of_pos_right (by decide), Nat.succ_pos _, le_refl _, by simp⟩
  distinct := Nat.ne_of_lt (Nat.lt_succ_self _)
  mentions x hx := by
    rcases Row.mentions_addCell hx with rfl | hx
    · exact .inr ⟨(fun h => by cases h), .inr rfl⟩
    · rcases Row.mentions_addCell hx with rfl | hx
      · refine .inr ⟨fun h => ?_, .inl rfl⟩
        cases rel <;> cases h
      · exact .inl hx

/-- The encoding of a required constraint. -/
theorem encodeRelation_of_required (s : Solver α) (row : Row α) {p : Priority} (rel : Relation)
    (hreq : p.isRequired = true) :
    s.encodeRelation row p rel = ⟨{ s with counter := s.counter + 1 },
      row.addCell ⟨s.counter + 1, rel.markerKind true⟩ (rel.markerUnit true),
      { marker := ⟨s.counter + 1, rel.markerKind true⟩ }⟩ := by
  cases rel <;> simp [encodeRelation, encodeEquality, encodeInequality, hreq, newSymbol,
    Relation.markerKind, Relation.markerUnit]

/-- The objective after charging what a soft constraint may pay with. -/
def charged (s : Solver α) (p : Priority) (rel : Relation) : Row α :=
  match rel with
  | .equal => (s.tableau.objective.addCell ⟨s.counter + 1, .error⟩ p.weight).addCell
      ⟨s.counter + 2, .error⟩ p.weight
  | _ => s.tableau.objective.addCell ⟨s.counter + 2, .error⟩ p.weight

/-- The encoding of a soft constraint. -/
theorem encodeRelation_of_soft (s : Solver α) (row : Row α) {p : Priority} (rel : Relation)
    (hsoft : p.isRequired = false) :
    s.encodeRelation row p rel = ⟨{ s with
        counter := s.counter + 2
        tableau := { s.tableau with objective := s.charged p rel } },
      (row.addCell ⟨s.counter + 1, rel.markerKind false⟩ (rel.markerUnit false)).addCell
        ⟨s.counter + 2, .error⟩ rel.otherUnit,
      { marker := ⟨s.counter + 1, rel.markerKind false⟩, other := ⟨s.counter + 2, .error⟩ }⟩ := by
  cases rel <;> simp [encodeRelation, encodeEquality, encodeInequality, hsoft, newSymbol,
    Relation.markerKind, Relation.markerUnit, Relation.otherUnit, charge, charged]

theorem mentions_charged {s : Solver α} {p : Priority} {rel : Relation} {x : Symbol}
    (h : (s.charged p rel).Mentions x) : s.tableau.objective.Mentions x ∨
      x = ⟨s.counter + 1, rel.markerKind false⟩ ∨ x = ⟨s.counter + 2, .error⟩ := by
  cases rel with
  | equal =>
    rcases Row.mentions_addCell h with rfl | h
    · exact .inr (.inr rfl)
    · rcases Row.mentions_addCell h with rfl | h
      · exact .inr (.inl rfl)
      · exact .inl h
  | atMost => exact (Row.mentions_addCell h).elim (fun h => .inr (.inr h)) .inl
  | atLeast => exact (Row.mentions_addCell h).elim (fun h => .inr (.inr h)) .inl

theorem tagged_encodeRelation (s : Solver α) (row : Row α) (p : Priority) (rel : Relation) :
    s.Tagged row p rel (s.encodeRelation row p rel) := by
  cases hreq : p.isRequired with
  | true =>
    rw [s.encodeRelation_of_required row rel hreq]
    exact s.tagged_single row _ hreq
  | false =>
    rw [s.encodeRelation_of_soft row rel hreq]
    exact s.tagged_pair row _ _ hreq fun _ => mentions_charged

/-! ## 5. The encoding -/

omit [Scalar α] in
/-- A new symbol is free. -/
theorem nonbasic_of_lt {s : Solver α} (hover : s.tableau.Over s.Knows) {x : Symbol}
    (hx : s.counter < x.id) : s.tableau.Nonbasic x := by
  cases hrow : s.tableau.rows.get? x with
  | none => exact hrow
  | some row => exact absurd rfl ((hover.basic hrow).ne_of_lt hx)

/-- **An encoded constraint**: what the solver gained, and what the row is made of. -/
structure Encoded (s : Solver α) (c : Constraint α) (e : Encoding α) : Prop where
  grows : s.Grows e.solver
  names : e.solver.Names
  rows : e.solver.tableau.rows = s.tableau.rows
  artificial : e.solver.tableau.artificial = s.tableau.artificial
  infeasible : e.solver.tableau.infeasible = s.tableau.infeasible
  objective : ∀ x, e.solver.tableau.objective.Mentions x →
    s.tableau.objective.Mentions x ∨ e.tag.Has x
  unpaid : c.priority.isRequired = true → e.solver.tableau = s.tableau
  numbered : e.solver.tableau.Over e.solver.Knows
  fits : (⟨e.tag, c.priority⟩ : ConstraintRecord).Fits c.relation
  fresh : ∀ x, e.tag.Has x → s.counter < x.id ∧ e.solver.Knows x
  younger : ∀ v y, e.solver.symbols.get? v = some y → ∀ x, e.tag.Has x → y.id < x.id
  distinct : e.tag.marker.id ≠ e.tag.other.id
  known : ∀ x, e.row.Mentions x → e.solver.Knows x
  free : s.tableau.Free e.row
  origin : ∀ x, e.row.Mentions x →
    (∃ b row, s.tableau.rows.get? b = some row ∧ row.Mentions x) ∨
      (∃ v, e.solver.symbols.get? v = some x) ∨ e.tag.Has x

theorem Encoded.negate {s : Solver α} {c : Constraint α} {e : Encoding α} (h : s.Encoded c e) :
    s.Encoded c { e with row := e.row.negate } :=
  { h with
    known := fun x hx => h.known x (Row.mentions_negate.mp hx)
    free := fun x hx => h.free x (Row.mentions_negate.mp hx)
    origin := fun x hx => h.origin x (Row.mentions_negate.mp hx) }

omit [Scalar α] in
/-- Encoding makes no symbol basic. -/
theorem Encoded.nonbasic {s : Solver α} {c : Constraint α} {e : Encoding α} (h : s.Encoded c e)
    {x : Symbol} (hx : s.tableau.Nonbasic x) : e.solver.tableau.Nonbasic x := by
  rw [Tableau.Nonbasic, h.rows]
  exact hx

omit [Scalar α] in
theorem Encoded.free_row {s : Solver α} {c : Constraint α} {e : Encoding α} (h : s.Encoded c e) :
    e.solver.tableau.Free e.row := fun x hx => h.nonbasic (h.free x hx)

omit [Scalar α] in
theorem Encoded.marker_ne_other {s : Solver α} {c : Constraint α} {e : Encoding α}
    (h : s.Encoded c e) : e.tag.marker ≠ e.tag.other :=
  fun heq => h.distinct (congrArg Symbol.id heq)

theorem encoded_encode {s : Solver α} (hnames : s.Names) (hcan : s.tableau.Canonical)
    (hover : s.tableau.Over s.Knows) (c : Constraint α) : s.Encoded c (s.encode c) := by
  have hterms := terms_encodeTerms hnames hcan hover c.expression
  unfold encode
  dsimp only
  generalize s.encodeTerms c.expression = acc at hterms ⊢
  have htag := acc.1.tagged_encodeRelation acc.2 c.priority c.relation
  generalize acc.1.encodeRelation acc.2 c.priority c.relation = e at htag ⊢
  have hgrows := hterms.grows.trans htag.grows
  have hfresh : ∀ x, e.tag.Has x → s.counter < x.id ∧ e.solver.Knows x := fun x hx =>
    ⟨hterms.grows.counter.trans_lt (htag.fresh x hx).1, (htag.fresh x hx).2⟩
  have hrows : e.solver.tableau.rows = s.tableau.rows := by rw [htag.rows, hterms.tableau]
  have hart : e.solver.tableau.artificial = s.tableau.artificial := by
    rw [htag.artificial, hterms.tableau]
  have henc : s.Encoded c e := by
    refine ⟨hgrows, hterms.names.mono htag.symbols htag.grows.counter, hrows, hart, ?_,
      fun x hx => ?_, fun hreq => (htag.unpaid hreq).trans hterms.tableau, ?_, htag.fits, hfresh,
      fun v y hy x hx => ?_, htag.distinct, fun x hx => ?_, fun x hx => ?_, fun x hx => ?_⟩
    · rw [htag.infeasible, hterms.tableau]
    · rw [← hterms.tableau]
      exact htag.objective x hx
    · refine ⟨fun {b row} hb => ?_, fun {b row} hb x hx => ?_, fun {x} hx => ?_,
        fun {row} ha x hx => ?_⟩
      · rw [hrows] at hb
        exact (hover.basic hb).mono hgrows.counter
      · rw [hrows] at hb
        exact (hover.rows hb hx).mono hgrows.counter
      · rcases htag.objective x hx with hx | hx
        · rw [hterms.tableau] at hx
          exact (hover.objective hx).mono hgrows.counter
        · exact (hfresh x hx).2
      · rw [hart] at ha
        exact (hover.artificial ha hx).mono hgrows.counter
    · rw [htag.symbols] at hy
      exact (hterms.names.known v y hy).1.2.1.trans_lt (htag.fresh x hx).1
    · rcases htag.mentions x hx with hx | hx
      · exact (hterms.known x hx).mono htag.grows.counter
      · exact (hfresh x hx).2
    · rcases htag.mentions x hx with hx | hx
      · exact hterms.free x hx
      · exact nonbasic_of_lt hover (hfresh x hx).1
    · rcases htag.mentions x hx with hx | hx
      · rw [htag.symbols]
        exact (hterms.origin x hx).imp_right .inl
      · exact .inr (.inr hx)
  split
  · exact henc.negate
  · exact henc

/-- **The marker is in the row**, since its coefficient is one or minus one and is stored. -/
theorem mentions_marker_encode [Scalar.StoredUnits α] {s : Solver α} (hnames : s.Names)
    (hcan : s.tableau.Canonical) (hover : s.tableau.Over s.Knows) (c : Constraint α) :
    (s.encode c).row.Mentions (s.encode c).tag.marker := by
  have hterms := terms_encodeTerms hnames hcan hover c.expression
  unfold encode
  dsimp only
  generalize s.encodeTerms c.expression = acc at hterms ⊢
  have hmarker : ∀ k b, (acc.2.addCell ⟨acc.1.counter + 1, k⟩
      (c.relation.markerUnit b)).Mentions ⟨acc.1.counter + 1, k⟩ := fun k b =>
    Row.mentions_addCell_self_of_absent
      (fun hx => (hterms.known _ hx).ne_of_lt (Nat.lt_succ_self _) rfl)
      (c.relation.nearZero_markerUnit b)
  have hrow : (acc.1.encodeRelation acc.2 c.priority c.relation).row.Mentions
      (acc.1.encodeRelation acc.2 c.priority c.relation).tag.marker := by
    cases hreq : c.priority.isRequired with
    | true =>
      rw [acc.1.encodeRelation_of_required acc.2 c.relation hreq]
      exact hmarker _ _
    | false =>
      rw [acc.1.encodeRelation_of_soft acc.2 c.relation hreq]
      refine (Row.mentions_addCell_of_ne fun heq => ?_).mpr (hmarker _ _)
      exact Nat.ne_of_lt (Nat.lt_succ_self _) (congrArg Symbol.id heq)
  split
  · exact Row.mentions_negate.mpr hrow
  · exact hrow

end Any

end Solver

/-! ## 6. Equations in the exact reading -/

/-- What the symbols of the tag add to the expression in the constraint's equation. -/
def ConstraintRecord.tagPart (r : ConstraintRecord) (rel : Relation) (σ : Assignment) : ℚ :=
  match rel with
  | .atMost => σ r.tag.marker - if r.priority.isRequired then 0 else σ r.tag.other
  | .atLeast => -σ r.tag.marker + if r.priority.isRequired then 0 else σ r.tag.other
  | .equal =>
    if r.priority.isRequired then σ r.tag.marker else -σ r.tag.marker + σ r.tag.other

/-- The price of what the tag pays. -/
def ConstraintRecord.penalty (r : ConstraintRecord) (σ : Assignment) : ℚ :=
  r.priority.weight * (Tableau.errorAt σ r.tag.marker + Tableau.errorAt σ r.tag.other)

namespace Solver

/-- **An assignment read as values of variables**: that of the variable's symbol, and zero for a
variable without one. -/
def reading (s : Solver ℚ) (σ : Assignment) (v : Variable) : ℚ :=
  match s.symbols.get? v with
  | some x => σ x
  | none => 0

theorem reading_of_get? {s : Solver ℚ} {v : Variable} {x : Symbol}
    (h : s.symbols.get? v = some x) (σ : Assignment) : s.reading σ v = σ x := by
  rw [reading, h]

/-- Encoding a term adds its value, as any later state of the solver reads it. -/
theorem value_encodeTerm {s u : Solver ℚ} {acc : Solver ℚ × Row ℚ} (h : s.Terms acc) (t : Term ℚ)
    (hu : (encodeTerm acc t).1.Grows u) {σ : Assignment} (hσ : s.tableau.Solves σ) :
    (encodeTerm acc t).2.value σ = acc.2.value σ + t.valueAt (u.reading σ) := by
  unfold Solver.encodeTerm at hu ⊢
  split
  · rename_i hzero
    have hz : t.coefficient = 0 := of_decide_eq_true hzero
    rw [Term.valueAt, hz]
    show _ = _ + 0 * _
    ring
  · rename_i hnz
    rw [if_neg hnz] at hu
    obtain ⟨-, htab, -, hget⟩ := symbolOf_spec h.names t.var
    have htab' : (acc.1.symbolOf t.var).1.tableau = s.tableau := htab.trans h.tableau
    dsimp only at hu ⊢
    rw [htab'] at hu ⊢
    cases hrow : s.tableau.rows.get? (acc.1.symbolOf t.var).2 with
    | some basic =>
      rw [hrow] at hu
      rw [Term.valueAt, reading_of_get? (hu.symbols _ _ hget), hσ _ _ hrow, Row.value_addRow]
      show _ + _ * _ = _ + _ * _
      ring
    | none =>
      rw [hrow] at hu
      rw [Term.valueAt, reading_of_get? (hu.symbols _ _ hget), Row.value_addCell]

theorem reduced_encodeTerm {acc : Solver ℚ × Row ℚ} (h : acc.2.Reduced) (t : Term ℚ) :
    (encodeTerm acc t).2.Reduced := by
  unfold Solver.encodeTerm
  split
  · exact h
  · dsimp only
    split
    · exact h.addRow _ _
    · exact h.addCell _ _

/-- A coefficient that counts gives its variable a symbol. -/
theorem exists_symbol_encodeTerm {s : Solver ℚ} {acc : Solver ℚ × Row ℚ} (h : s.Terms acc)
    (t : Term ℚ) (ht : t.coefficient ≠ 0) :
    ∃ x, (encodeTerm acc t).1.symbols.get? t.var = some x := by
  have hnz : ¬ nearZero t.coefficient = true := fun hzero => ht (of_decide_eq_true hzero)
  unfold Solver.encodeTerm
  rw [if_neg hnz]
  obtain ⟨-, -, -, hget⟩ := symbolOf_spec h.names t.var
  dsimp only
  split <;> exact ⟨_, hget⟩

/-- **The encoded terms**: a reduced row with the value of the expression, and a symbol for every
variable that counts. -/
theorem foldl_encodeTerm {s : Solver ℚ} (hcan : s.tableau.Canonical)
    (hover : s.tableau.Over s.Knows) : ∀ (ts : List (Term ℚ)) {acc : Solver ℚ × Row ℚ},
    s.Terms acc → acc.2.Reduced →
      acc.1.Grows (ts.foldl encodeTerm acc).1 ∧ (ts.foldl encodeTerm acc).2.Reduced ∧
      (∀ t ∈ ts, t.coefficient ≠ 0 → ∃ x, (ts.foldl encodeTerm acc).1.symbols.get? t.var = some x) ∧
      ∀ u, (ts.foldl encodeTerm acc).1.Grows u → ∀ σ, s.tableau.Solves σ →
        (ts.foldl encodeTerm acc).2.value σ =
          ts.foldl (fun a t => a + t.valueAt (u.reading σ)) (acc.2.value σ)
  | [], acc, _, hred => ⟨.refl acc.1, hred, (fun t ht => by cases ht), fun _ _ _ _ => rfl⟩
  | t :: ts, acc, h, hred => by
    have hstep := h.encodeTerm hcan hover t
    obtain ⟨hgrows, hred', hsym, hval⟩ :=
      foldl_encodeTerm hcan hover ts hstep (reduced_encodeTerm hred t)
    have hone : acc.1.Grows (encodeTerm acc t).1 := by
      unfold Solver.encodeTerm
      split
      · exact .refl acc.1
      · have := (symbolOf_spec h.names t.var).1
        dsimp only
        split <;> exact this
    refine ⟨hone.trans hgrows, hred', fun r hr hrc => ?_, fun u hu σ hσ => ?_⟩
    · rcases List.mem_cons.mp hr with rfl | hr
      · obtain ⟨x, hx⟩ := exists_symbol_encodeTerm h r hrc
        exact ⟨x, hgrows.symbols _ _ hx⟩
      · exact hsym r hr hrc
    · rw [List.foldl_cons, List.foldl_cons, hval u hu σ hσ,
        value_encodeTerm h t (hgrows.trans hu) hσ]

/-- What the relation adds to the row. -/
theorem value_encodeRelation (s : Solver ℚ) (row : Row ℚ) (p : Priority) (rel : Relation)
    (σ : Assignment) :
    (s.encodeRelation row p rel).row.value σ = row.value σ +
      ConstraintRecord.tagPart ⟨(s.encodeRelation row p rel).tag, p⟩ rel σ := by
  cases hreq : p.isRequired with
  | true =>
    rw [s.encodeRelation_of_required row rel hreq]
    cases rel <;> simp [Row.value_addCell, ConstraintRecord.tagPart, hreq, Relation.markerUnit]
  | false =>
    rw [s.encodeRelation_of_soft row rel hreq]
    cases rel <;> simp [Row.value_addCell, ConstraintRecord.tagPart, hreq, Relation.markerUnit,
      Relation.otherUnit] <;> ring

theorem reduced_encodeRelation {s : Solver ℚ} {row : Row ℚ} (h : row.Reduced) (p : Priority)
    (rel : Relation) : (s.encodeRelation row p rel).row.Reduced := by
  cases hreq : p.isRequired with
  | true =>
    rw [s.encodeRelation_of_required row rel hreq]
    exact h.addCell _ _
  | false =>
    rw [s.encodeRelation_of_soft row rel hreq]
    exact (h.addCell _ _).addCell _ _

/-- The tag's own coefficients in a row that did not have its symbols. -/
theorem coefficient_encodeRelation {s : Solver ℚ} {row : Row ℚ}
    (hrow : ∀ x, row.Mentions x → s.Knows x) (p : Priority) (rel : Relation) :
    (s.encodeRelation row p rel).row.coefficient (s.encodeRelation row p rel).tag.marker =
        rel.markerUnit p.isRequired ∧
      (p.isRequired = false →
        (s.encodeRelation row p rel).row.coefficient (s.encodeRelation row p rel).tag.other =
          rel.otherUnit) := by
  have hnew : ∀ n kind, row.coefficient ⟨s.counter + (n + 1), kind⟩ = 0 := by
    intro n kind
    refine Row.coefficient_of_not_mentions fun hmen => ?_
    exact (hrow _ hmen).ne_of_lt (Nat.lt_add_of_pos_right (Nat.succ_pos n)) rfl
  cases hreq : p.isRequired with
  | true =>
    rw [s.encodeRelation_of_required row rel hreq]
    refine ⟨?_, fun h => by cases h⟩
    rw [Row.coefficient_addCell, if_pos rfl, hnew 0, zero_add]
  | false =>
    rw [s.encodeRelation_of_soft row rel hreq]
    have hne : (⟨s.counter + 1, rel.markerKind false⟩ : Symbol) ≠ ⟨s.counter + 2, .error⟩ :=
      fun h => absurd (congrArg Symbol.id h) (Nat.ne_of_lt (Nat.lt_succ_self _))
    refine ⟨?_, fun _ => ?_⟩
    · rw [Row.coefficient_addCell, if_neg hne, Row.coefficient_addCell, if_pos rfl, hnew 0,
        zero_add, add_zero]
    · rw [Row.coefficient_addCell, if_pos rfl, Row.coefficient_addCell, if_neg hne.symm, hnew 1,
        zero_add, zero_add]

/-- **The cost of an encoded constraint** is added to the one presented. -/
theorem presents_encodeRelation {s : Solver ℚ} {S : Assignment → Prop} {c : Assignment → ℚ}
    (h : s.tableau.Presents S c) (hover : s.tableau.Over s.Knows) (row : Row ℚ) (p : Priority)
    (rel : Relation) :
    (s.encodeRelation row p rel).solver.tableau.Presents S (fun σ => c σ +
      ConstraintRecord.penalty ⟨(s.encodeRelation row p rel).tag, p⟩ σ) := by
  have hfree : ∀ n kind, s.tableau.Nonbasic ⟨s.counter + (n + 1), kind⟩ := fun n kind =>
    nonbasic_of_lt hover (Nat.lt_add_of_pos_right (Nat.succ_pos n))
  have herr : ∀ n, (⟨s.counter + n, .error⟩ : Symbol).isRestricted := fun _ => rfl
  cases hreq : p.isRequired with
  | true =>
    rw [s.encodeRelation_of_required row rel hreq]
    refine h.congr (fun _ => Iff.rfl) fun σ => ?_
    cases rel <;> simp [ConstraintRecord.penalty, Tableau.errorAt, Relation.markerKind,
      Symbol.isError, Symbol.placeholder]
  | false =>
    rw [s.encodeRelation_of_soft row rel hreq]
    cases rel with
    | equal =>
      refine ((h.addCost (hfree 0 .error) (herr 1) p.weight).addCost (hfree 1 .error) (herr 2)
        p.weight).congr (fun _ => Iff.rfl) fun σ => ?_
      simp [ConstraintRecord.penalty, Tableau.errorAt, Relation.markerKind, Symbol.isError]
      ring
    | atMost =>
      refine (h.addCost (hfree 1 .error) (herr 2) p.weight).congr (fun _ => Iff.rfl) fun σ => ?_
      simp [ConstraintRecord.penalty, Tableau.errorAt, Relation.markerKind, Symbol.isError]
    | atLeast =>
      refine (h.addCost (hfree 1 .error) (herr 2) p.weight).congr (fun _ => Iff.rfl) fun σ => ?_
      simp [ConstraintRecord.penalty, Tableau.errorAt, Relation.markerKind, Symbol.isError]

/-! ## 7. The encoding in the exact reading -/

/-- **An encoded constraint in the exact reading**: its row has, up to its sign, the value of the
constraint's equation, and its cost is added to the objective. -/
structure Equation (s : Solver ℚ) (c : Constraint ℚ) (e : Encoding ℚ) : Prop
    extends s.Encoded c e where
  reduced : e.row.Reduced
  nonneg : 0 ≤ e.row.constant
  covers : ∀ t ∈ c.expression.terms, t.coefficient ≠ 0 → ∃ x, e.solver.symbols.get? t.var = some x
  value : ∃ ε : ℚ, (ε = 1 ∨ ε = -1) ∧
    (∀ u, e.solver.Grows u → ∀ σ, s.tableau.Solves σ → e.row.value σ =
      ε * (c.expression.valueAt (u.reading σ) +
        ConstraintRecord.tagPart ⟨e.tag, c.priority⟩ c.relation σ)) ∧
    e.row.coefficient e.tag.marker = ε * c.relation.markerUnit c.priority.isRequired ∧
    (c.priority.isRequired = false →
      e.row.coefficient e.tag.other = ε * c.relation.otherUnit)
  presents : ∀ {S : Assignment → Prop} {cost : Assignment → ℚ}, s.tableau.Presents S cost →
    e.solver.tableau.Presents S fun σ => cost σ + ConstraintRecord.penalty ⟨e.tag, c.priority⟩ σ

/-- The encoded terms of an expression. -/
theorem encodeTerms_spec {s : Solver ℚ} (hnames : s.Names) (hcan : s.tableau.Canonical)
    (hover : s.tableau.Over s.Knows) (e : Expression ℚ) :
    (s.encodeTerms e).2.Reduced ∧
      (∀ t ∈ e.terms, t.coefficient ≠ 0 → ∃ x, (s.encodeTerms e).1.symbols.get? t.var = some x) ∧
      ∀ u, (s.encodeTerms e).1.Grows u → ∀ σ, s.tableau.Solves σ →
        (s.encodeTerms e).2.value σ = e.valueAt (u.reading σ) := by
  obtain ⟨-, hred, hcov, hval⟩ := foldl_encodeTerm hcan hover e.terms
    (terms_ofConstant hnames e.constant) (Row.reduced_ofConstant e.constant)
  refine ⟨hred, hcov, fun u hu σ hσ => (hval u hu σ hσ).trans ?_⟩
  rw [Row.value_ofConstant]
  rfl

theorem equation_encode {s : Solver ℚ} (hnames : s.Names) (hcan : s.tableau.Canonical)
    (hover : s.tableau.Over s.Knows) (c : Constraint ℚ) : s.Equation c (s.encode c) := by
  have henc := encoded_encode hnames hcan hover c
  have hterms := terms_encodeTerms hnames hcan hover c.expression
  obtain ⟨hred, hcov, hval⟩ := encodeTerms_spec hnames hcan hover c.expression
  unfold encode at henc ⊢
  dsimp only at henc ⊢
  generalize s.encodeTerms c.expression = acc at hterms hred hcov hval henc ⊢
  have htag := acc.1.tagged_encodeRelation acc.2 c.priority c.relation
  have hvalue := acc.1.value_encodeRelation acc.2 c.priority c.relation
  have hred' := reduced_encodeRelation (s := acc.1) hred c.priority c.relation
  have hover' : acc.1.tableau.Over acc.1.Knows := by
    rw [hterms.tableau]
    exact hover.mono fun x hx => hx.mono hterms.grows.counter
  obtain ⟨hmarker, hother⟩ := coefficient_encodeRelation hterms.known c.priority c.relation
  have hpres : ∀ {S : Assignment → Prop} {cost : Assignment → ℚ}, s.tableau.Presents S cost →
      (acc.1.encodeRelation acc.2 c.priority c.relation).solver.tableau.Presents S fun σ =>
        cost σ + ConstraintRecord.penalty
          ⟨(acc.1.encodeRelation acc.2 c.priority c.relation).tag, c.priority⟩ σ := by
    intro S cost h
    rw [← hterms.tableau] at h
    exact presents_encodeRelation h hover' acc.2 c.priority c.relation
  generalize acc.1.encodeRelation acc.2 c.priority c.relation = e at *
  have hcov' : ∀ t ∈ c.expression.terms, t.coefficient ≠ 0 →
      ∃ x, e.solver.symbols.get? t.var = some x := by
    intro t ht htc
    obtain ⟨x, hx⟩ := hcov t ht htc
    exact ⟨x, htag.grows.symbols _ _ hx⟩
  have hval' : ∀ u, e.solver.Grows u → ∀ σ, s.tableau.Solves σ → e.row.value σ =
      c.expression.valueAt (u.reading σ) +
        ConstraintRecord.tagPart ⟨e.tag, c.priority⟩ c.relation σ := by
    intro u hu σ hσ
    rw [hvalue, hval u (htag.grows.trans hu) σ hσ]
  by_cases hneg : e.row.constant < 0
  · rw [if_pos hneg] at henc ⊢
    refine ⟨henc, hred'.negate, ?_, hcov', ⟨-1, .inr rfl, fun u hu σ hσ => ?_, ?_, fun hsoft => ?_⟩,
      hpres⟩
    · exact neg_nonneg.mpr hneg.le
    · show e.row.negate.value σ = _
      rw [Row.value_negate, hval' u hu σ hσ]
      ring
    · show e.row.negate.coefficient _ = _
      rw [Row.coefficient_negate, hmarker]
      ring
    · show e.row.negate.coefficient _ = _
      rw [Row.coefficient_negate, hother hsoft]
      ring
  · rw [if_neg hneg] at henc ⊢
    refine ⟨henc, hred', not_lt.mp hneg, hcov', ⟨1, .inl rfl, fun u hu σ hσ => ?_, ?_,
      fun hsoft => ?_⟩, hpres⟩
    · rw [hval' u hu σ hσ, one_mul]
    · rw [hmarker, one_mul]
    · rw [hother hsoft, one_mul]

/-- The row can be solved for the marker. -/
theorem Equation.marker_ne_zero {s : Solver ℚ} {c : Constraint ℚ} {e : Encoding ℚ}
    (h : s.Equation c e) : e.row.coefficient e.tag.marker ≠ 0 := by
  obtain ⟨ε, hε, -, hmarker, -⟩ := h.value
  rw [hmarker]
  refine mul_ne_zero ?_ ?_
  · rcases hε with rfl | rfl <;> norm_num
  · cases c.relation <;> cases c.priority.isRequired <;> simp [Relation.markerUnit]

end Solver

end IncrementalSimplex
