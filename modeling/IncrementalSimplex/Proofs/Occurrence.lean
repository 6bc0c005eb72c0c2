/-
# Which symbols occur where

The shape of a tableau -- which symbols key a row and which occur in a cell -- does not depend on
the numbers in it, only on which cells are stored.  This module follows the shape through the
operations on rows and tableaus, whatever the arithmetic.

Two facts about a shape matter later.

* `Tableau.Canonical`: no basic symbol occurs in a cell, neither of a row nor of an objective.  It
  is what makes a row an answer: its right-hand side is free.
* `Tableau.Over P`: every symbol that keys a row or occurs in a cell satisfies `P`.  With `P` taken
  as "has a number up to the counter", it is what makes a new symbol new.

Both are kept by `enter` (`Canonical.enter`, `Over.enter`) and therefore by every change of the
basis, because a substitution only moves cells: what occurs afterwards occurred before, in the
row itself or in the row put in (`mentions_substitute`).
-/
import IncrementalSimplex.Tableau.Choice

namespace IncrementalSimplex

/-! ## 1. Kinds -/

namespace Symbol

variable {x : Symbol}

theorem isRestricted_of_isError (h : x.isError) : x.isRestricted := by
  have hk : x.kind = .error := by simpa [isError] using h
  simp [isRestricted, isExternal, hk]

theorem not_isRestricted_of_isExternal (h : x.isExternal) : ¬ x.isRestricted := by
  simp [isRestricted, h]

theorem isDummy_of_isExternal (h : x.isExternal) : x.isDummy = false := by
  have hk : x.kind = .external := by simpa [isExternal] using h
  simp [isDummy, hk]

theorem isDummy_of_isPivotable (h : x.isPivotable) : x.isDummy = false := by
  have hk : x.kind = .slack ∨ x.kind = .error := by simpa [isPivotable] using h
  rcases hk with hk | hk <;> simp [isDummy, hk]

end Symbol

/-! ## 2. Symbols of a row -/

namespace Row

section Shape

variable {α : Type}

/-- The row has a cell for the symbol. -/
def Mentions (r : Row α) (x : Symbol) : Prop := (r.cells.get? x).isSome

theorem mentions_iff {r : Row α} {x : Symbol} :
    r.Mentions x ↔ ∃ c, r.cells.get? x = some c := Option.isSome_iff_exists

theorem not_mentions_iff {r : Row α} {x : Symbol} :
    ¬ r.Mentions x ↔ r.cells.get? x = none := by
  simp [Mentions]

theorem mentions_congr {r t : Row α} (h : r.cells = t.cells) {x : Symbol} :
    r.Mentions x ↔ t.Mentions x := by
  rw [Mentions, Mentions, h]

theorem mem_keys_iff {r : Row α} {x : Symbol} : x ∈ r.cells.keys ↔ r.Mentions x :=
  SymbolMap.mem_keys_iff

theorem not_mentions_ofConstant (c : α) (x : Symbol) : ¬ (ofConstant c).Mentions x := by
  simp [Mentions, ofConstant]

theorem mentions_dropCell {r : Row α} {s x : Symbol} :
    (r.dropCell s).Mentions x ↔ x ≠ s ∧ r.Mentions x := by
  unfold Mentions
  rw [get?_dropCell]
  by_cases h : x = s <;> simp [h]

end Shape

variable {α : Type} [Scalar α]

theorem coefficient_of_not_mentions {r : Row α} {x : Symbol} (h : ¬ r.Mentions x) :
    r.coefficient x = 0 := by
  rw [coefficient, not_mentions_iff.mp h]
  rfl

theorem mentions_negate {r : Row α} {x : Symbol} : r.negate.Mentions x ↔ r.Mentions x := by
  simp [Mentions]

theorem mentions_scale {r : Row α} {m : α} {x : Symbol} :
    (r.scale m).Mentions x ↔ r.Mentions x := by
  simp [Mentions]

theorem mentions_addConstant {r : Row α} {c : α} {x : Symbol} :
    (r.addConstant c).Mentions x ↔ r.Mentions x := Iff.rfl

theorem mentions_addCell_of_ne {r : Row α} {s x : Symbol} {c : α} (h : x ≠ s) :
    (r.addCell s c).Mentions x ↔ r.Mentions x := by
  rw [Mentions, get?_addCell_of_ne r c h, Mentions]

theorem mentions_addCell {r : Row α} {s x : Symbol} {c : α} (h : (r.addCell s c).Mentions x) :
    x = s ∨ r.Mentions x := by
  by_cases hxs : x = s
  · exact .inl hxs
  · exact .inr ((mentions_addCell_of_ne hxs).mp h)

/-- A new cell holds what was added, unless that passes for zero. -/
theorem get?_addCell_self_of_absent {r : Row α} {s : Symbol} {c : α} (h : ¬ r.Mentions s)
    (hc : nearZero (0 + c) = false) : (r.addCell s c).cells.get? s = some (0 + c) := by
  rw [get?_addCell_self, coefficient_of_not_mentions h, hc]
  rfl

theorem mentions_addCell_self_of_absent {r : Row α} {s : Symbol} {c : α} (h : ¬ r.Mentions s)
    (hc : nearZero (0 + c) = false) : (r.addCell s c).Mentions s :=
  mentions_iff.mpr ⟨_, get?_addCell_self_of_absent h hc⟩

/-- Adding cells one after the other brings in no other symbols. -/
theorem mentions_foldl_addCell (c : α) {x : Symbol} : ∀ (l : List (Symbol × α)) (r : Row α),
    (l.foldl (fun acc e => acc.addCell e.1 (e.2 * c)) r).Mentions x →
      r.Mentions x ∨ ∃ b, (x, b) ∈ l
  | [], _, h => .inl h
  | (s, b) :: l, r, h => by
    rcases mentions_foldl_addCell c l (r.addCell s (b * c)) h with h | ⟨d, hd⟩
    · rcases mentions_addCell h with rfl | h
      · exact .inr ⟨b, List.mem_cons_self⟩
      · exact .inl h
    · exact .inr ⟨d, List.mem_cons_of_mem _ hd⟩

theorem mentions_addRow {r t : Row α} {c : α} {x : Symbol} (h : (r.addRow t c).Mentions x) :
    r.Mentions x ∨ t.Mentions x := by
  rcases mentions_foldl_addCell c t.cells.entries (r.addConstant (t.constant * c)) h with
    h | ⟨b, hb⟩
  · exact .inl (mentions_addConstant.mp h)
  · exact .inr (mentions_iff.mpr ⟨b, SymbolMap.mem_entries_iff.mp hb⟩)

theorem mentions_solveFor? {r t : Row α} {s x : Symbol} (h : r.solveFor? s = some t) :
    t.Mentions x ↔ x ≠ s ∧ r.Mentions x := by
  obtain ⟨c, -, rfl⟩ := Option.map_eq_some_iff.mp h
  rw [mentions_scale, mentions_dropCell]

/-- A row can be solved for any symbol that it mentions. -/
theorem exists_solveFor? {r : Row α} {s : Symbol} (h : r.Mentions s) :
    ∃ t, r.solveFor? s = some t := by
  obtain ⟨c, hc⟩ := mentions_iff.mp h
  exact ⟨_, by rw [solveFor?, hc]; rfl⟩

theorem exists_exchange? {r : Row α} {l e : Symbol} (hel : e ≠ l) (h : r.Mentions e) :
    ∃ t, r.exchange? l e = some t :=
  exists_solveFor? ((mentions_addCell_of_ne hel).mpr h)

theorem mentions_of_exchange? {r t : Row α} {l e : Symbol} (hel : e ≠ l)
    (h : r.exchange? l e = some t) : r.Mentions e := by
  obtain ⟨c, hc, -⟩ := Option.map_eq_some_iff.mp h
  exact (mentions_addCell_of_ne hel).mp (mentions_iff.mpr ⟨c, hc⟩)

/-- An exchanged row mentions the leaving symbol and what the row mentioned, the entering symbol
apart. -/
theorem mentions_exchange? {r t : Row α} {l e x : Symbol} (h : r.exchange? l e = some t)
    (hx : t.Mentions x) : x ≠ e ∧ (x = l ∨ r.Mentions x) := by
  obtain ⟨hxe, hx⟩ := (mentions_solveFor? h).mp hx
  exact ⟨hxe, mentions_addCell hx⟩

/-- **A substitution only moves cells.** -/
theorem mentions_substitute {r t : Row α} {s x : Symbol} (h : (r.substitute s t).Mentions x) :
    (x ≠ s ∧ r.Mentions x) ∨ (r.Mentions s ∧ t.Mentions x) := by
  unfold substitute at h
  split at h
  · rename_i c hc
    rcases mentions_addRow h with h | h
    · exact .inl (mentions_dropCell.mp h)
    · exact .inr ⟨mentions_iff.mpr ⟨c, hc⟩, h⟩
  · rename_i hnone
    have hne : x ≠ s := by
      rintro rfl
      exact not_mentions_iff.mpr hnone h
    exact .inl ⟨hne, h⟩

theorem substitute_of_not_mentions {r : Row α} {s : Symbol} (h : ¬ r.Mentions s) (t : Row α) :
    r.substitute s t = r := substitute_of_absent (not_mentions_iff.mp h) t

/-- A symbol that was put in place of nothing else is gone. -/
theorem not_mentions_substitute_self {r t : Row α} {s : Symbol} (h : ¬ t.Mentions s) :
    ¬ (r.substitute s t).Mentions s := by
  intro hs
  rcases mentions_substitute hs with ⟨hne, -⟩ | ⟨-, ht⟩
  · exact hne rfl
  · exact h ht

end Row

/-! ## 3. Rows of a tableau

The rows after each operation, as statements about members: where a row of the new tableau comes
from. -/

namespace Tableau

variable {α : Type}

/-- The symbol has no row: it is free. -/
def Nonbasic (t : Tableau α) (x : Symbol) : Prop := t.rows.get? x = none

theorem not_nonbasic_of_get? {t : Tableau α} {b : Symbol} {row : Row α}
    (h : t.rows.get? b = some row) : ¬ t.Nonbasic b := by
  intro hb
  rw [Nonbasic, h] at hb
  cases hb

theorem nonbasic_dropRow {t : Tableau α} {s x : Symbol} (h : t.Nonbasic x) :
    (t.dropRow s).Nonbasic x := by
  unfold Nonbasic
  rw [get?_dropRow]
  split
  · rfl
  · exact h

theorem nonbasic_dropRow_self (t : Tableau α) (s : Symbol) : (t.dropRow s).Nonbasic s := by
  rw [Nonbasic, get?_dropRow, if_pos rfl]

theorem get?_of_dropRow {t : Tableau α} {s b : Symbol} {row : Row α}
    (h : (t.dropRow s).rows.get? b = some row) : b ≠ s ∧ t.rows.get? b = some row := by
  rw [get?_dropRow] at h
  split at h
  · cases h
  · rename_i hbs
    exact ⟨hbs, h⟩

theorem get?_of_dropColumn {t : Tableau α} {s b : Symbol} {row : Row α}
    (h : (t.dropColumn s).rows.get? b = some row) :
    ∃ old, t.rows.get? b = some old ∧ row = old.dropCell s := by
  obtain ⟨old, hold, rfl⟩ := Option.map_eq_some_iff.mp ((SymbolMap.get?_map _ _ _).symm.trans h)
  exact ⟨old, hold, rfl⟩

theorem nonbasic_dropColumn {t : Tableau α} {s x : Symbol} (h : t.Nonbasic x) :
    (t.dropColumn s).Nonbasic x :=
  (SymbolMap.get?_map _ _ _).trans (Option.map_eq_none_iff.mpr h)

variable [Scalar α]

/-- A row after `enter` is the entered one or an old one after the substitution. -/
theorem get?_of_enter {t : Tableau α} {s b : Symbol} {row new : Row α}
    (h : (t.enter s row).rows.get? b = some new) :
    (b = s ∧ new = row) ∨
      (b ≠ s ∧ ∃ old, t.rows.get? b = some old ∧ new = old.substitute s row) := by
  rw [get?_enter] at h
  split at h
  · rename_i hbs
    cases h
    exact .inl ⟨hbs, rfl⟩
  · rename_i hbs
    obtain ⟨old, hold, rfl⟩ := Option.map_eq_some_iff.mp h
    exact .inr ⟨hbs, old, hold, rfl⟩

theorem nonbasic_enter {t : Tableau α} {s x : Symbol} {row : Row α} :
    (t.enter s row).Nonbasic x ↔ x ≠ s ∧ t.Nonbasic x := by
  unfold Nonbasic
  rw [get?_enter]
  split
  · rename_i hxs
    simp [hxs]
  · rename_i hxs
    simp [hxs]

/-! ## 4. Canonical form -/

/-- **No basic symbol occurs in a cell.** -/
structure Canonical (t : Tableau α) : Prop where
  rows : ∀ {b row}, t.rows.get? b = some row → ∀ {x}, row.Mentions x → t.Nonbasic x
  objective : ∀ {x}, t.objective.Mentions x → t.Nonbasic x
  artificial : ∀ {row}, t.artificial = some row → ∀ {x}, row.Mentions x → t.Nonbasic x

/-- The row is written over free symbols. -/
def Free (t : Tableau α) (row : Row α) : Prop := ∀ x, row.Mentions x → t.Nonbasic x

omit [Scalar α] in
theorem free_iff {t : Tableau α} {row : Row α} :
    t.Free row ↔ ∀ x ∈ row.cells.keys, (t.rows.get? x).isNone := by
  simp only [Free, Row.mem_keys_iff, Option.isNone_iff_eq_none, Nonbasic]

instance (t : Tableau α) (row : Row α) : Decidable (t.Free row) := decidable_of_iff _ free_iff.symm

omit [Scalar α] in
/-- The canonical form can be checked row by row. -/
theorem canonical_iff {t : Tableau α} :
    t.Canonical ↔ (∀ e ∈ t.rows.entries, t.Free e.2) ∧ t.Free t.objective ∧
      ∀ row ∈ t.artificial.toList, t.Free row := by
  constructor
  · intro h
    refine ⟨fun e he _ => h.rows (SymbolMap.mem_entries_iff.mp he), fun _ => h.objective,
      fun row ha _ => h.artificial (Option.mem_toList.mp ha)⟩
  · rintro ⟨hrows, hobj, hart⟩
    exact ⟨fun hb x hx => hrows _ (SymbolMap.mem_entries_iff.mpr hb) x hx, fun {x} hx => hobj x hx,
      fun ha x hx => hart _ (Option.mem_toList.mpr ha) x hx⟩

instance (t : Tableau α) : Decidable t.Canonical := decidable_of_iff _ canonical_iff.symm

omit [Scalar α] in
theorem Canonical.dropRow {t : Tableau α} (h : t.Canonical) (s : Symbol) :
    (t.dropRow s).Canonical where
  rows hb _ hx := nonbasic_dropRow (h.rows (get?_of_dropRow hb).2 hx)
  objective hx := nonbasic_dropRow (h.objective hx)
  artificial ha _ hx := nonbasic_dropRow (h.artificial ha hx)

/-- A row over free symbols stays one when a free symbol becomes basic. -/
theorem free_substitute {t : Tableau α} {s : Symbol} {row old : Row α} (hs : ¬ row.Mentions s)
    (hrow : t.Free row) (hold : t.Free old) : (t.enter s row).Free (old.substitute s row) := by
  intro x hx
  refine nonbasic_enter.mpr ⟨?_, ?_⟩
  · rintro rfl
    exact Row.not_mentions_substitute_self hs hx
  · rcases Row.mentions_substitute hx with ⟨-, hx⟩ | ⟨-, hx⟩
    · exact hold x hx
    · exact hrow x hx

/-- **Entering a symbol keeps the canonical form**, if the row is over free symbols and without
the symbol itself. -/
theorem Canonical.enter {t : Tableau α} (h : t.Canonical) {s : Symbol} {row : Row α}
    (hs : ¬ row.Mentions s) (hrow : t.Free row) : (t.enter s row).Canonical where
  rows hb x hx := by
    rcases get?_of_enter hb with ⟨rfl, rfl⟩ | ⟨-, old, hold, rfl⟩
    · refine nonbasic_enter.mpr ⟨?_, hrow x hx⟩
      rintro rfl
      exact hs hx
    · exact free_substitute hs hrow (fun _ => h.rows hold) x hx
  objective hx := free_substitute hs hrow (fun _ => h.objective) _ hx
  artificial ha x hx := by
    obtain ⟨old, hold, rfl⟩ := Option.map_eq_some_iff.mp ha
    exact free_substitute hs hrow (fun _ => h.artificial hold) x hx

/-- **A pivot takes one row out, solves it and enters it.**  This is all that the later modules
need to know of a pivot. -/
theorem pivot_cases {t u : Tableau α} {e l : Symbol} (h : t.pivot ⟨e, l⟩ = .ok u) :
    ∃ row solved, t.rows.get? l = some row ∧ row.exchange? l e = some solved ∧
      u = (t.dropRow l).enter e solved := by
  obtain ⟨row, solved, hrow, hsolved, hu⟩ := pivot_eq_ok_iff.mp h
  exact ⟨row, solved, hrow, hsolved, hu.symm⟩

omit [Scalar α] in
/-- A free symbol is not a basic one. -/
theorem Nonbasic.ne {t : Tableau α} {x b : Symbol} {row : Row α} (hx : t.Nonbasic x)
    (hb : t.rows.get? b = some row) : x ≠ b := by
  rintro rfl
  exact not_nonbasic_of_get? hb hx

/-- The exchanged row is over the symbols that are free once its old basic symbol left. -/
theorem Canonical.free_exchange {t : Tableau α} (h : t.Canonical) {l e : Symbol}
    {row solved : Row α} (hrow : t.rows.get? l = some row)
    (hsolved : row.exchange? l e = some solved) : (t.dropRow l).Free solved := by
  intro x hx
  rcases (Row.mentions_exchange? hsolved hx).2 with rfl | hx
  · exact nonbasic_dropRow_self _ _
  · exact nonbasic_dropRow (h.rows hrow hx)

/-- A pivot brings in no artificial objective. -/
theorem artificial_pivot {t u : Tableau α} (ht : t.artificial = none) {e l : Symbol}
    (hu : t.pivot ⟨e, l⟩ = .ok u) : u.artificial = none := by
  obtain ⟨row, solved, -, -, rfl⟩ := pivot_cases hu
  exact Option.map_eq_none_iff.mpr ht

theorem Canonical.pivot {t u : Tableau α} (h : t.Canonical) {e l : Symbol}
    (hu : t.pivot ⟨e, l⟩ = .ok u) : u.Canonical := by
  obtain ⟨row, solved, hrow, hsolved, rfl⟩ := pivot_cases hu
  exact (h.dropRow l).enter (fun hx => (Row.mentions_exchange? hsolved hx).1 rfl)
    (h.free_exchange hrow hsolved)

/-- A pivot on a cell of the leaving row can be carried out. -/
theorem exists_pivot {t : Tableau α} {e l : Symbol} {row : Row α} (hel : e ≠ l)
    (hrow : t.rows.get? l = some row) (he : row.Mentions e) : ∃ u, t.pivot ⟨e, l⟩ = .ok u := by
  obtain ⟨solved, hsolved⟩ := Row.exists_exchange? hel he
  exact ⟨_, pivot_eq_ok_iff.mpr ⟨row, solved, hrow, hsolved, rfl⟩⟩

omit [Scalar α] in
theorem Canonical.dropColumn {t : Tableau α} (h : t.Canonical) (s : Symbol) :
    (t.dropColumn s).Canonical := by
  refine ⟨?_, ?_, ?_⟩
  · intro b row hb x hx
    obtain ⟨old, hold, rfl⟩ := get?_of_dropColumn hb
    exact nonbasic_dropColumn (h.rows hold (Row.mentions_dropCell.mp hx).2)
  · intro x hx
    exact nonbasic_dropColumn (h.objective (Row.mentions_dropCell.mp hx).2)
  · intro row ha x hx
    exact nonbasic_dropColumn (h.artificial ha hx)

theorem nonbasic_substitute {t : Tableau α} {s x : Symbol} {row : Row α} :
    (t.substitute s row).Nonbasic x ↔ t.Nonbasic x := by
  simp [Nonbasic, get?_substitute]

/-- Putting a row over free symbols in place of a symbol keeps the canonical form. -/
theorem Canonical.substitute {t : Tableau α} (h : t.Canonical) (s : Symbol) {row : Row α}
    (hrow : t.Free row) : (t.substitute s row).Canonical := by
  have hsub : ∀ {old : Row α}, t.Free old → (t.substitute s row).Free (old.substitute s row) := by
    intro old hold x hx
    rw [nonbasic_substitute]
    rcases Row.mentions_substitute hx with ⟨-, hx⟩ | ⟨-, hx⟩
    · exact hold x hx
    · exact hrow x hx
  refine ⟨fun {b new} hb x hx => ?_, fun {x} hx => hsub (fun _ => h.objective) x hx,
    fun {new} ha x hx => ?_⟩
  · rw [get?_substitute] at hb
    obtain ⟨old, hold, rfl⟩ := Option.map_eq_some_iff.mp hb
    exact hsub (fun _ => h.rows hold) x hx
  · obtain ⟨old, hold, rfl⟩ := Option.map_eq_some_iff.mp ha
    exact hsub (fun _ => h.artificial hold) x hx

omit [Scalar α] in
/-- The rows of the new tableau are rows of the old one with other constants: what was free is
free. -/
theorem nonbasic_of_cells {t u : Tableau α} {x : Symbol}
    (hcells : ∀ b new, u.rows.get? b = some new →
      ∃ old, t.rows.get? b = some old ∧ new.cells = old.cells)
    (hx : t.Nonbasic x) : u.Nonbasic x := by
  cases hrow : u.rows.get? x with
  | none => exact hrow
  | some new =>
    obtain ⟨old, hold, -⟩ := hcells x new hrow
    exact absurd hx (not_nonbasic_of_get? hold)

omit [Scalar α] in
/-- If the objectives are the same as well, it is as canonical as the old one. -/
theorem Canonical.of_cells {t u : Tableau α} (h : t.Canonical)
    (hcells : ∀ b new, u.rows.get? b = some new →
      ∃ old, t.rows.get? b = some old ∧ new.cells = old.cells)
    (hobj : u.objective = t.objective) (hart : u.artificial = t.artificial) : u.Canonical := by
  refine ⟨fun {b new} hb x hx => ?_, fun {x} hx => ?_, fun {row} ha x hx => ?_⟩
  · obtain ⟨old, hold, heq⟩ := hcells b new hb
    exact nonbasic_of_cells hcells (h.rows hold ((Row.mentions_congr heq).mp hx))
  · rw [hobj] at hx
    exact nonbasic_of_cells hcells (h.objective hx)
  · rw [hart] at ha
    exact nonbasic_of_cells hcells (h.artificial ha hx)

/-! ## 5. The symbols of a tableau -/

/-- Every symbol that keys a row or occurs in a cell satisfies `P`. -/
structure Over (P : Symbol → Prop) (t : Tableau α) : Prop where
  basic : ∀ {b row}, t.rows.get? b = some row → P b
  rows : ∀ {b row}, t.rows.get? b = some row → ∀ {x}, row.Mentions x → P x
  objective : ∀ {x}, t.objective.Mentions x → P x
  artificial : ∀ {row}, t.artificial = some row → ∀ {x}, row.Mentions x → P x

omit [Scalar α] in
theorem Over.mono {P Q : Symbol → Prop} {t : Tableau α} (h : t.Over P) (hPQ : ∀ x, P x → Q x) :
    t.Over Q where
  basic hb := hPQ _ (h.basic hb)
  rows hb _ hx := hPQ _ (h.rows hb hx)
  objective hx := hPQ _ (h.objective hx)
  artificial ha _ hx := hPQ _ (h.artificial ha hx)

omit [Scalar α] in
theorem Over.dropRow {P : Symbol → Prop} {t : Tableau α} (h : t.Over P) (s : Symbol) :
    (t.dropRow s).Over P where
  basic hb := h.basic (get?_of_dropRow hb).2
  rows hb _ hx := h.rows (get?_of_dropRow hb).2 hx
  objective hx := h.objective hx
  artificial ha _ hx := h.artificial ha hx

/-- **Entering a symbol brings in the symbol and those of its row.** -/
theorem Over.enter {P : Symbol → Prop} {t : Tableau α} (h : t.Over P) {s : Symbol} {row : Row α}
    (hs : P s) (hrow : ∀ {x}, row.Mentions x → P x) : (t.enter s row).Over P := by
  have hsub : ∀ {old : Row α}, (∀ {x}, old.Mentions x → P x) →
      ∀ {x}, (old.substitute s row).Mentions x → P x := by
    intro old hold x hx
    rcases Row.mentions_substitute hx with ⟨-, hx⟩ | ⟨-, hx⟩
    · exact hold hx
    · exact hrow hx
  refine ⟨?_, ?_, hsub h.objective, ?_⟩
  · intro b new hb
    rcases get?_of_enter hb with ⟨rfl, -⟩ | ⟨-, old, hold, -⟩
    · exact hs
    · exact h.basic hold
  · intro b new hb x hx
    rcases get?_of_enter hb with ⟨-, rfl⟩ | ⟨-, old, hold, rfl⟩
    · exact hrow hx
    · exact hsub (h.rows hold) hx
  · intro new ha x hx
    obtain ⟨old, hold, rfl⟩ := Option.map_eq_some_iff.mp ha
    exact hsub (h.artificial hold) hx

theorem Over.substitute {P : Symbol → Prop} {t : Tableau α} (h : t.Over P) {s : Symbol}
    {row : Row α} (hrow : ∀ {x}, row.Mentions x → P x) : (t.substitute s row).Over P := by
  have hsub : ∀ {old : Row α}, (∀ {x}, old.Mentions x → P x) →
      ∀ {x}, (old.substitute s row).Mentions x → P x := by
    intro old hold x hx
    rcases Row.mentions_substitute hx with ⟨-, hx⟩ | ⟨-, hx⟩
    · exact hold hx
    · exact hrow hx
  refine ⟨fun {b new} hb => ?_, fun {b new} hb x hx => ?_, hsub h.objective,
    fun {new} ha x hx => ?_⟩
  · rw [get?_substitute] at hb
    obtain ⟨old, hold, -⟩ := Option.map_eq_some_iff.mp hb
    exact h.basic hold
  · rw [get?_substitute] at hb
    obtain ⟨old, hold, rfl⟩ := Option.map_eq_some_iff.mp hb
    exact hsub (h.rows hold) hx
  · obtain ⟨old, hold, rfl⟩ := Option.map_eq_some_iff.mp ha
    exact hsub (h.artificial hold) hx

theorem Over.pivot {P : Symbol → Prop} {t u : Tableau α} (h : t.Over P) {e l : Symbol}
    (he : P e) (hu : t.pivot ⟨e, l⟩ = .ok u) : u.Over P := by
  obtain ⟨row, solved, hrow, hsolved, rfl⟩ := pivot_cases hu
  refine (h.dropRow l).enter he fun hx => ?_
  rcases (Row.mentions_exchange? hsolved hx).2 with rfl | hx
  · exact h.basic hrow
  · exact h.rows hrow hx

omit [Scalar α] in
theorem Over.of_cells {P : Symbol → Prop} {t u : Tableau α} (h : t.Over P)
    (hcells : ∀ b new, u.rows.get? b = some new →
      ∃ old, t.rows.get? b = some old ∧ new.cells = old.cells)
    (hobj : u.objective = t.objective) (hart : u.artificial = t.artificial) : u.Over P := by
  refine ⟨fun {b new} hb => ?_, fun {b new} hb x hx => ?_, fun {x} hx => ?_,
    fun {row} ha x hx => ?_⟩
  · obtain ⟨old, hold, -⟩ := hcells b new hb
    exact h.basic hold
  · obtain ⟨old, hold, heq⟩ := hcells b new hb
    exact h.rows hold ((Row.mentions_congr heq).mp hx)
  · rw [hobj] at hx
    exact h.objective hx
  · rw [hart] at ha
    exact h.artificial ha hx

omit [Scalar α] in
theorem Over.dropColumn {P : Symbol → Prop} {t : Tableau α} (h : t.Over P) (s : Symbol) :
    (t.dropColumn s).Over P := by
  refine ⟨?_, ?_, ?_, ?_⟩
  · intro b row hb
    obtain ⟨old, hold, rfl⟩ := get?_of_dropColumn hb
    exact h.basic hold
  · intro b row hb x hx
    obtain ⟨old, hold, rfl⟩ := get?_of_dropColumn hb
    exact h.rows hold (Row.mentions_dropCell.mp hx).2
  · intro x hx
    exact h.objective (Row.mentions_dropCell.mp hx).2
  · intro row ha x hx
    exact h.artificial ha hx

end Tableau

end IncrementalSimplex
