/-
# Numbers of symbols do not matter, only their order

A symbol carries the number of its creation.  The solver compares symbols, in order to walk its maps
and to choose the first candidate, and asks for their kind; it never does anything else with a
number.  So a tableau with other numbers in the same order goes through the same pivots.

The numbers are changed by opening a GAP: what comes after `start` moves up by `width`.  That is all
that a call can do to the numbering that leaves no other trace: numbers given out and forgotten.

Each function of the library commutes with `renumber`, from the maps up to the passes, and each
equation is oriented the same way: the function on renumbered arguments is the renumbered result.
Numbers (of the arithmetic) are copied and never looked into, so nothing is asked of them.
-/
import IncrementalSimplex.Proofs.PhaseOne

namespace IncrementalSimplex

/-! ## 1. Symbols -/

/-- **A gap in the numbering.** -/
structure Gap where
  /-- The last number that stays. -/
  start : Nat
  /-- By how much the later ones move up. -/
  width : Nat

namespace Gap

def number (g : Gap) (n : Nat) : Nat := if n ≤ g.start then n else n + g.width

theorem number_of_le {g : Gap} {n : Nat} (h : n ≤ g.start) : g.number n = n := if_pos h

theorem number_of_lt {g : Gap} {n : Nat} (h : g.start < n) : g.number n = n + g.width :=
  if_neg (Nat.not_le.mpr h)

theorem number_lt_iff {g : Gap} {m n : Nat} : g.number m < g.number n ↔ m < n := by
  unfold number
  split <;> split <;> omega

theorem number_inj {g : Gap} {m n : Nat} (h : g.number m = g.number n) : m = n := by
  unfold number at h
  split at h <;> split at h <;> omega

end Gap

variable {g : Gap}

namespace Symbol

/-- The symbol under its new number. -/
def renumber (g : Gap) (x : Symbol) : Symbol := ⟨g.number x.id, x.kind⟩

variable {x y : Symbol}

@[simp] theorem isExternal_renumber : (x.renumber g).isExternal = x.isExternal := rfl

@[simp] theorem isError_renumber : (x.renumber g).isError = x.isError := rfl

@[simp] theorem isDummy_renumber : (x.renumber g).isDummy = x.isDummy := rfl

@[simp] theorem isRestricted_renumber : (x.renumber g).isRestricted = x.isRestricted := rfl

@[simp] theorem isPivotable_renumber : (x.renumber g).isPivotable = x.isPivotable := rfl

@[simp] theorem renumber_placeholder : placeholder.renumber g = placeholder := by
  simp [renumber, placeholder, Gap.number]

theorem renumber_of_le (h : x.id ≤ g.start) : x.renumber g = x := by
  rw [renumber, Gap.number_of_le h]

@[simp] theorem renumber_inj : x.renumber g = y.renumber g ↔ x = y := by
  refine ⟨fun h => ?_, fun h => h ▸ rfl⟩
  cases x
  cases y
  simp only [renumber, Symbol.mk.injEq] at h ⊢
  exact h.imp_left Gap.number_inj

@[simp] theorem renumber_beq : (x.renumber g == y.renumber g) = (x == y) := by
  rw [Bool.eq_iff_iff, beq_iff_eq, beq_iff_eq, renumber_inj]

/-- **The order stays.** -/
@[simp] theorem renumber_lt_iff : x.renumber g < y.renumber g ↔ x < y := by
  have hx := x.kind.index_lt
  have hy := y.kind.index_lt
  have hlt := @Gap.number_lt_iff g x.id y.id
  have hgt := @Gap.number_lt_iff g y.id x.id
  have heq := @Gap.number_inj g x.id y.id
  change 5 * g.number x.id + x.kind.index < 5 * g.number y.id + y.kind.index ↔
    5 * x.id + x.kind.index < 5 * y.id + y.kind.index
  rcases Nat.lt_trichotomy x.id y.id with h | h | h
  · have := hlt.mpr h
    omega
  · rw [h]
    omega
  · have := hgt.mpr h
    omega

end Symbol

/-- The tag under its new numbers. -/
def Tag.renumber (g : Gap) (tag : Tag) : Tag := ⟨tag.marker.renumber g, tag.other.renumber g⟩

/-! ## 2. Maps -/

namespace SymbolMap

variable {β γ : Type}

/-- The map under new keys. -/
def renumber (g : Gap) (m : SymbolMap β) : SymbolMap β :=
  ⟨m.entries.map fun e => (e.1.renumber g, e.2),
    List.pairwise_map.mpr (m.sorted.imp fun h => Symbol.renumber_lt_iff.mpr h)⟩

theorem lookup_renumber (x : Symbol) (l : List (Symbol × β)) :
    (l.map fun e => (e.1.renumber g, e.2)).lookup (x.renumber g) = l.lookup x := by
  induction l with
  | nil => rfl
  | cons e l ih =>
    rw [List.map_cons, List.lookup_cons, Symbol.renumber_beq, ih, List.lookup_cons]

theorem insertEntry_renumber (x : Symbol) (b : β) (l : List (Symbol × β)) :
    insertEntry (x.renumber g) b (l.map fun e => (e.1.renumber g, e.2)) =
      (insertEntry x b l).map fun e => (e.1.renumber g, e.2) := by
  induction l with
  | nil => rfl
  | cons e l ih =>
    simp only [insertEntry, List.map_cons, Symbol.renumber_lt_iff, Symbol.renumber_inj, ih]
    split
    · rfl
    · split <;> rfl

@[simp] theorem get?_renumber (m : SymbolMap β) (x : Symbol) :
    (m.renumber g).get? (x.renumber g) = m.get? x := lookup_renumber x m.entries

@[simp] theorem insert_renumber (m : SymbolMap β) (x : Symbol) (b : β) :
    (m.renumber g).insert (x.renumber g) b = (m.insert x b).renumber g :=
  eq_of_entries (insertEntry_renumber x b m.entries)

@[simp] theorem erase_renumber (m : SymbolMap β) (x : Symbol) :
    (m.renumber g).erase (x.renumber g) = (m.erase x).renumber g := by
  refine eq_of_entries ?_
  simp [erase, renumber, List.filter_map, Function.comp_def, bne]

@[simp] theorem map_renumber (f : β → γ) (m : SymbolMap β) :
    (m.renumber g).map f = (m.map f).renumber g :=
  eq_of_entries (by simp [map, renumber])

@[simp] theorem keys_renumber (m : SymbolMap β) :
    (m.renumber g).keys = m.keys.map (·.renumber g) := by simp [keys, renumber]

@[simp] theorem size_renumber (m : SymbolMap β) : (m.renumber g).size = m.size := by
  simp [size, renumber]

/-- What lies below the gap stays. -/
theorem renumber_eq_self {m : SymbolMap β} (h : ∀ x b, m.get? x = some b → x.id ≤ g.start) :
    m.renumber g = m := by
  refine eq_of_entries ((List.map_congr_left fun e he => ?_).trans (List.map_id _))
  rw [Symbol.renumber_of_le (h e.1 e.2 (mem_entries_iff.mp he))]
  rfl

end SymbolMap

/-! ## 3. Rows -/

namespace Row

variable {α : Type}

/-- The row over new numbers. -/
def renumber (g : Gap) (r : Row α) : Row α := ⟨r.constant, r.cells.renumber g⟩

@[simp] theorem constant_renumber (r : Row α) : (r.renumber g).constant = r.constant := rfl

@[simp] theorem cells_renumber (r : Row α) : (r.renumber g).cells = r.cells.renumber g := rfl

theorem renumber_eq_self {r : Row α} (h : ∀ x, r.Mentions x → x.id ≤ g.start) :
    r.renumber g = r := by
  rw [renumber, SymbolMap.renumber_eq_self fun x c hx => h x (mentions_iff.mpr ⟨c, hx⟩)]

@[simp] theorem dropCell_renumber (r : Row α) (x : Symbol) :
    (r.renumber g).dropCell (x.renumber g) = (r.dropCell x).renumber g := by
  simp [dropCell, renumber]

theorem find?_renumber {p q : Symbol → Bool} (hp : ∀ x : Symbol, p (x.renumber g) = q x)
    (l : List Symbol) : (l.map (·.renumber g)).find? p = (l.find? q).map (·.renumber g) := by
  rw [List.find?_map]
  congr 2
  funext x
  exact hp x

@[simp] theorem firstPivotable?_renumber (r : Row α) :
    (r.renumber g).firstPivotable? = r.firstPivotable?.map (·.renumber g) := by
  simpa [firstPivotable?] using
    find?_renumber (fun _ => Symbol.isPivotable_renumber) r.cells.keys

@[simp] theorem firstExternal?_renumber (r : Row α) :
    (r.renumber g).firstExternal? = r.firstExternal?.map (·.renumber g) := by
  simpa [firstExternal?] using
    find?_renumber (fun _ => Symbol.isExternal_renumber) r.cells.keys

@[simp] theorem allDummies_renumber (r : Row α) : (r.renumber g).allDummies = r.allDummies := by
  simp [allDummies, Function.comp_def]

variable [Scalar α]

@[simp] theorem coefficient_renumber (r : Row α) (x : Symbol) :
    (r.renumber g).coefficient (x.renumber g) = r.coefficient x := by
  simp [coefficient]

@[simp] theorem addConstant_renumber (r : Row α) (c : α) :
    (r.renumber g).addConstant c = (r.addConstant c).renumber g := rfl

@[simp] theorem addCell_renumber (r : Row α) (x : Symbol) (c : α) :
    (r.renumber g).addCell (x.renumber g) c = (r.addCell x c).renumber g := by
  simp only [addCell, coefficient_renumber, cells_renumber, SymbolMap.erase_renumber,
    SymbolMap.insert_renumber]
  split <;> rfl

theorem foldl_addCell_renumber (c : α) (l : List (Symbol × α)) (r : Row α) :
    (l.map fun e => (e.1.renumber g, e.2)).foldl (fun acc e => acc.addCell e.1 (e.2 * c))
        (r.renumber g) =
      (l.foldl (fun acc e => acc.addCell e.1 (e.2 * c)) r).renumber g := by
  induction l generalizing r with
  | nil => rfl
  | cons e l ih => rw [List.map_cons, List.foldl_cons, addCell_renumber, ih, List.foldl_cons]

@[simp] theorem addRow_renumber (r t : Row α) (c : α) :
    (r.renumber g).addRow (t.renumber g) c = (r.addRow t c).renumber g :=
  foldl_addCell_renumber c t.cells.entries (r.addConstant (t.constant * c))

@[simp] theorem negate_renumber (r : Row α) : (r.renumber g).negate = r.negate.renumber g := by
  simp [negate, renumber]

@[simp] theorem scale_renumber (r : Row α) (m : α) :
    (r.renumber g).scale m = (r.scale m).renumber g := by
  simp [scale, renumber]

@[simp] theorem solveFor?_renumber (r : Row α) (x : Symbol) :
    (r.renumber g).solveFor? (x.renumber g) = (r.solveFor? x).map (·.renumber g) := by
  simp [solveFor?, Function.comp_def]

@[simp] theorem exchange?_renumber (r : Row α) (l e : Symbol) :
    (r.renumber g).exchange? (l.renumber g) (e.renumber g) =
      (r.exchange? l e).map (·.renumber g) := by
  simp [exchange?]

@[simp] theorem substitute_renumber (r t : Row α) (x : Symbol) :
    (r.renumber g).substitute (x.renumber g) (t.renumber g) = (r.substitute x t).renumber g := by
  unfold substitute
  rw [cells_renumber, SymbolMap.get?_renumber]
  cases r.cells.get? x with
  | none => rfl
  | some c => simp

end Row

/-! ## 4. Tableaus -/

namespace Tableau

variable {α : Type}

/-- Rows over new numbers, under new keys. -/
def renumberRows (g : Gap) (rows : SymbolMap (Row α)) : SymbolMap (Row α) :=
  (rows.map (·.renumber g)).renumber g

section Rows

variable (rows : SymbolMap (Row α))

@[simp] theorem get?_renumberRows (x : Symbol) :
    (renumberRows g rows).get? (x.renumber g) = (rows.get? x).map (·.renumber g) := by
  simp [renumberRows]

theorem entries_renumberRows :
    (renumberRows g rows).entries = rows.entries.map fun e => (e.1.renumber g, e.2.renumber g) := by
  simp [renumberRows, SymbolMap.map, SymbolMap.renumber]

@[simp] theorem insert_renumberRows (x : Symbol) (row : Row α) :
    (renumberRows g rows).insert (x.renumber g) (row.renumber g) =
      renumberRows g (rows.insert x row) := by
  simp [renumberRows, SymbolMap.map_insert]

@[simp] theorem erase_renumberRows (x : Symbol) :
    (renumberRows g rows).erase (x.renumber g) = renumberRows g (rows.erase x) := by
  simp [renumberRows, SymbolMap.map_erase]

/-- Changing each row, where the change commutes with the new numbers. -/
theorem map_renumberRows {f f' : Row α → Row α}
    (h : ∀ row, f' (row.renumber g) = (f row).renumber g) :
    (renumberRows g rows).map f' = renumberRows g (rows.map f) := by
  simp only [renumberRows, SymbolMap.map_renumber, SymbolMap.map_map, h]

end Rows

/-- **The tableau over new numbers.** -/
def renumber (g : Gap) (t : Tableau α) : Tableau α where
  rows := renumberRows g t.rows
  objective := t.objective.renumber g
  artificial := t.artificial.map (·.renumber g)
  infeasible := t.infeasible.map (·.renumber g)

@[simp] theorem rows_renumber (t : Tableau α) :
    (t.renumber g).rows = renumberRows g t.rows := rfl

@[simp] theorem objective_renumber (t : Tableau α) :
    (t.renumber g).objective = t.objective.renumber g := rfl

@[simp] theorem artificial_renumber (t : Tableau α) :
    (t.renumber g).artificial = t.artificial.map (·.renumber g) := rfl

@[simp] theorem infeasible_renumber (t : Tableau α) :
    (t.renumber g).infeasible = t.infeasible.map (·.renumber g) := rfl

@[simp] theorem setRow_renumber (t : Tableau α) (x : Symbol) (row : Row α) :
    (t.renumber g).setRow (x.renumber g) (row.renumber g) = (t.setRow x row).renumber g := by
  simp [setRow, renumber]

@[simp] theorem dropRow_renumber (t : Tableau α) (x : Symbol) :
    (t.renumber g).dropRow (x.renumber g) = (t.dropRow x).renumber g := by
  simp [dropRow, renumber]

@[simp] theorem dropColumn_renumber (t : Tableau α) (x : Symbol) :
    (t.renumber g).dropColumn (x.renumber g) = (t.dropColumn x).renumber g := by
  have hrows : (renumberRows g t.rows).map (·.dropCell (x.renumber g)) =
      renumberRows g (t.rows.map (·.dropCell x)) :=
    map_renumberRows _ fun row => row.dropCell_renumber x
  simp [dropColumn, renumber, hrows]

@[simp] theorem queue_renumber (t : Tableau α) (x : Symbol) :
    (t.renumber g).queue (x.renumber g) = (t.queue x).renumber g := rfl

/-- The pivot between the renumbered symbols. -/
def Pivot.renumber (g : Gap) (p : Pivot) : Pivot := ⟨p.entering.renumber g, p.leaving.renumber g⟩

variable [Scalar α]

@[simp] theorem setRowQueued_renumber (t : Tableau α) (x : Symbol) (row : Row α) :
    (t.renumber g).setRowQueued (x.renumber g) (row.renumber g) =
      (t.setRowQueued x row).renumber g := by
  simp only [setRowQueued, setRow_renumber, Row.constant_renumber, queue_renumber]
  split <;> rfl

@[simp] theorem negativeRows_renumberRows (rows : SymbolMap (Row α)) :
    negativeRows (renumberRows g rows) = (negativeRows rows).map (·.renumber g) := by
  rw [negativeRows, negativeRows, entries_renumberRows, List.filter_map, List.map_map,
    List.map_map]
  rfl

@[simp] theorem substitute_renumber (t : Tableau α) (x : Symbol) (row : Row α) :
    (t.renumber g).substitute (x.renumber g) (row.renumber g) =
      (t.substitute x row).renumber g := by
  have hrows : (renumberRows g t.rows).map (·.substitute (x.renumber g) (row.renumber g)) =
      renumberRows g (t.rows.map (·.substitute x row)) :=
    map_renumberRows _ fun old => old.substitute_renumber row x
  simp [substitute, renumber, hrows, Function.comp_def]

@[simp] theorem enter_renumber (t : Tableau α) (x : Symbol) (row : Row α) :
    (t.renumber g).enter (x.renumber g) (row.renumber g) = (t.enter x row).renumber g := by
  simp [enter]

/-- **A pivot commutes with new numbers.** -/
theorem pivot_renumber (t : Tableau α) (e l : Symbol) :
    (t.renumber g).pivot ⟨e.renumber g, l.renumber g⟩ = (t.pivot ⟨e, l⟩).map (·.renumber g) := by
  unfold pivot
  rw [rows_renumber, get?_renumberRows]
  cases t.rows.get? l with
  | none => rfl
  | some row =>
    simp only [Option.map_some, Row.exchange?_renumber]
    cases row.exchange? l e with
    | none => rfl
    | some solved => simp [Except.map]

/-! ## 5. Choices -/

@[simp] theorem entering?_renumber (objective : Row α) :
    entering? (objective.renumber g) = (entering? objective).map (·.renumber g) := by
  simp [entering?, SymbolMap.renumber, List.find?_map, Function.comp_def]

end Tableau

namespace RatioTest

variable {α : Type} [Scalar α]

theorem foldl_offer_renumber (l : List (α × Symbol)) (best : Option (α × Symbol)) :
    (l.map fun c => (c.1, c.2.renumber g)).foldl offer (best.map fun c => (c.1, c.2.renumber g)) =
      (l.foldl offer best).map fun c => (c.1, c.2.renumber g) := by
  induction l generalizing best with
  | nil => rfl
  | cons c l ih =>
    rw [List.map_cons, List.foldl_cons, List.foldl_cons, ← ih]
    congr 1
    cases best with
    | none =>
      simp only [offer, Option.map_none]
      split <;> rfl
    | some b =>
      simp only [offer, Option.map_some]
      split <;> rfl

@[simp] theorem least?_renumber (l : List (α × Symbol)) :
    least? (l.map fun c => (c.1, c.2.renumber g)) = (least? l).map (·.renumber g) := by
  have h := foldl_offer_renumber (g := g) l none
  simp only [Option.map_none] at h
  simp [least?, h, Function.comp_def]

end RatioTest

namespace Tableau

variable {α : Type} [Scalar α]

@[simp] theorem fallingRatios_renumber (rows : List (Symbol × Row α)) (x : Symbol) :
    fallingRatios (rows.map fun e => (e.1.renumber g, e.2.renumber g)) (x.renumber g) =
      (fallingRatios rows x).map fun c => (c.1, c.2.renumber g) := by
  rw [fallingRatios, fallingRatios, List.filterMap_map, List.map_filterMap]
  congr 1
  funext e
  simp only [Function.comp_apply, Symbol.isRestricted_renumber, Row.coefficient_renumber,
    Row.constant_renumber]
  split <;> rfl

@[simp] theorem risingRatios_renumber (rows : List (Symbol × Row α)) (x : Symbol) :
    risingRatios (rows.map fun e => (e.1.renumber g, e.2.renumber g)) (x.renumber g) =
      (risingRatios rows x).map fun c => (c.1, c.2.renumber g) := by
  rw [risingRatios, risingRatios, List.filterMap_map, List.map_filterMap]
  congr 1
  funext e
  simp only [Function.comp_apply, Symbol.isRestricted_renumber, Row.coefficient_renumber,
    Row.constant_renumber]
  split <;> rfl

@[simp] theorem leaving?_renumber (t : Tableau α) (e : Symbol) :
    (t.renumber g).leaving? (e.renumber g) = (t.leaving? e).map (·.renumber g) := by
  simp [leaving?, entries_renumberRows]

@[simp] theorem dualEntering?_renumber (t : Tableau α) (row : Row α) :
    (t.renumber g).dualEntering? (row.renumber g) = (t.dualEntering? row).map (·.renumber g) := by
  unfold dualEntering?
  rw [← RatioTest.least?_renumber, Row.cells_renumber, SymbolMap.renumber, List.filterMap_map,
    List.map_filterMap]
  congr 2
  funext e
  simp only [Function.comp_apply, Symbol.isDummy_renumber, objective_renumber,
    Row.coefficient_renumber]
  split <;> rfl

@[simp] theorem leavingForMarker?_renumber (t : Tableau α) (m : Symbol) :
    (t.renumber g).leavingForMarker? (m.renumber g) =
      (t.leavingForMarker? m).map (·.renumber g) := by
  have hrows : (t.renumber g).rows.entries.filter
        (fun e => e.2.coefficient (m.renumber g) != 0) =
      (t.rows.entries.filter fun e => e.2.coefficient m != 0).map
        fun e => (e.1.renumber g, e.2.renumber g) := by
    rw [rows_renumber, entries_renumberRows, List.filter_map]
    simp [Function.comp_def]
  unfold leavingForMarker?
  rw [hrows]
  generalize t.rows.entries.filter (fun e => e.2.coefficient m != 0) = rows
  have hexternal : ((rows.map fun e => (e.1.renumber g, e.2.renumber g)).map (·.1)).find?
      Symbol.isExternal = ((rows.map (·.1)).find? Symbol.isExternal).map (·.renumber g) := by
    have hkinds : ∀ x : Symbol, (x.renumber g).isExternal = x.isExternal := fun _ => rfl
    rw [← Row.find?_renumber hkinds, List.map_map, List.map_map]
    rfl
  simp only [fallingRatios_renumber, risingRatios_renumber, RatioTest.least?_renumber, hexternal]
  cases RatioTest.least? (fallingRatios rows m) with
  | some l => rfl
  | none => cases RatioTest.least? (risingRatios rows m) <;> rfl

end Tableau

/-! ## 6. Passes -/

/-- The halt with the renumbered symbol; refusals name none. -/
def Halt.renumber (g : Gap) : Halt → Halt
  | .refused e => .refused e
  | .absentSymbol x => .absentSymbol (x.renumber g)

/-- The record of a pass under new numbers. -/
def Pass.renumber {α β : Type} (g : Gap) (p : Pass α β) : Pass α β where
  tableau := p.tableau.renumber g
  outcome := p.outcome.mapError (·.renumber g)
  pivots := p.pivots.map (·.renumber g)
  popped := p.popped

namespace Pass

variable {α β : Type}

@[simp] theorem done_renumber (t : Tableau α) (b : β) :
    done (t.renumber g) b = (done t b).renumber g := rfl

end Pass

namespace Tableau

variable {α : Type} [Scalar α]

omit [Scalar α] in
@[simp] theorem stopped_fault_renumber {β : Type} (t : Tableau α) (p : Pivot) (f : PivotFault) :
    (Pass.stopped (t.renumber g) (f.halt (p.renumber g)) : Pass α β) =
      (Pass.stopped t (f.halt p)).renumber g := by
  cases f <;> rfl

omit [Scalar α] in
@[simp] theorem objectiveOf?_renumber (t : Tableau α) (goal : Goal) :
    (t.renumber g).objectiveOf? goal = (t.objectiveOf? goal).map (·.renumber g) := by
  cases goal <;> rfl

omit [Scalar α] in
@[simp] theorem atMinimum_renumber (t : Tableau α) (goal : Goal) :
    (t.renumber g).atMinimum goal = (t.atMinimum goal).renumber g := by
  cases goal <;> rfl

/-- **The primal pass makes the same pivots**, by induction on its budget. -/
theorem minimizeWithin_renumber (limit : Nat) (goal : Goal) (budget : Nat) (t : Tableau α) :
    (t.renumber g).minimizeWithin limit goal budget =
      (t.minimizeWithin limit goal budget).renumber g := by
  induction budget using Nat.strongRecOn generalizing t with
  | ind budget ih =>
    rw [minimizeWithin.eq_def, minimizeWithin.eq_def limit goal budget t, objectiveOf?_renumber]
    cases t.objectiveOf? goal with
    | none => rfl
    | some objective =>
      simp only [Option.map_some, entering?_renumber]
      cases entering? objective with
      | none => simp
      | some e =>
        cases budget with
        | zero => rfl
        | succ budget =>
          simp only [Option.map_some, leaving?_renumber]
          cases t.leaving? e with
          | none => rfl
          | some l =>
            simp only [Option.map_some, pivot_renumber]
            cases t.pivot ⟨e, l⟩ with
            | error f => exact stopped_fault_renumber t ⟨e, l⟩ f
            | ok u =>
              exact congrArg (·.after (Pivot.renumber g ⟨e, l⟩)) (ih budget (Nat.lt_succ_self _) u)

theorem minimize_renumber (limit : Nat) (goal : Goal) (t : Tableau α) :
    (t.renumber g).minimize limit goal = (t.minimize limit goal).renumber g :=
  minimizeWithin_renumber limit goal limit t

theorem nextInfeasible?_renumber (rows : SymbolMap (Row α)) (queue : List Symbol) :
    nextInfeasible? (renumberRows g rows) (queue.map (·.renumber g)) =
      (nextInfeasible? rows queue).map fun (x, row, rest) =>
        (x.renumber g, row.renumber g, rest.map (·.renumber g)) := by
  induction queue with
  | nil => rfl
  | cons x queue ih =>
    simp only [nextInfeasible?, List.map_cons, get?_renumberRows]
    cases rows.get? x with
    | none => exact ih
    | some row =>
      by_cases hneg : row.constant < 0
      · simp [hneg]
      · simpa [hneg] using ih

omit [Scalar α] in
theorem withQueue_renumber (t : Tableau α) (queue : List Symbol) :
    ({ t.renumber g with infeasible := queue.map (·.renumber g) } : Tableau α) =
      ({ t with infeasible := queue } : Tableau α).renumber g := rfl

/-- **The dual pass makes the same pivots** and takes as many entries off the queue. -/
theorem repairWithin_renumber (limit budget : Nat) (t : Tableau α) :
    (t.renumber g).repairWithin limit budget = (t.repairWithin limit budget).renumber g := by
  induction budget using Nat.strongRecOn generalizing t with
  | ind budget ih =>
    have hnext := nextInfeasible?_renumber (g := g) t.rows t.infeasible
    rw [← rows_renumber, ← infeasible_renumber] at hnext
    rw [repairWithin.eq_def, repairWithin.eq_def limit budget t, hnext]
    rcases nextInfeasible? t.rows t.infeasible with _ | ⟨l, row, rest⟩
    · simp only [Option.map_none, infeasible_renumber, List.length_map]
      rfl
    · simp only [Option.map_some, infeasible_renumber, List.length_map, withQueue_renumber,
        dualEntering?_renumber]
      cases dualEntering? ({ t with infeasible := rest }) row with
      | none => rfl
      | some e =>
        cases budget with
        | zero => rfl
        | succ budget =>
          simp only [Option.map_some, pivot_renumber]
          cases pivot ({ t with infeasible := rest }) ⟨e, l⟩ with
          | error f =>
            exact congrArg (Pass.popping (t.infeasible.length - rest.length))
              (stopped_fault_renumber { t with infeasible := rest } ⟨e, l⟩ f)
          | ok u =>
            exact congrArg (fun p => Pass.popping (t.infeasible.length - rest.length)
              (p.after (Pivot.renumber g ⟨e, l⟩))) (ih budget (Nat.lt_succ_self _) u)

theorem repair_renumber (limit : Nat) (t : Tableau α) :
    (t.renumber g).repair limit = (t.repair limit).renumber g :=
  repairWithin_renumber limit limit t

/-- Taking the artificial symbol out. -/
theorem retire_renumber (t : Tableau α) (art : Symbol) (driven : Bool) :
    (t.renumber g).retire (art.renumber g) driven = (t.retire art driven).renumber g := by
  unfold retire
  rw [rows_renumber, get?_renumberRows]
  cases t.rows.get? art with
  | none => simp
  | some row =>
    simp only [Option.map_some, Row.cells_renumber, SymbolMap.size_renumber, dropRow_renumber,
      Row.firstPivotable?_renumber]
    split
    · rfl
    · cases row.firstPivotable? with
      | none => rfl
      | some e =>
        simp only [Option.map_some, Row.exchange?_renumber]
        cases row.exchange? art e with
        | none => rfl
        | some solved => simp

omit [Scalar α] in
theorem arm_renumber (t : Tableau α) (art : Symbol) (row : Row α) :
    (t.renumber g).arm (art.renumber g) (row.renumber g) = (t.arm art row).renumber g := by
  simp only [arm, setRow_renumber]
  rfl

/-- **Phase one makes the same pivots** and gives the same answer. -/
theorem phaseOne_renumber (limit : Nat) (art : Symbol) (row : Row α) (t : Tableau α) :
    (t.renumber g).phaseOne limit (art.renumber g) (row.renumber g) =
      (t.phaseOne limit art row).renumber g := by
  have harm : ({ (t.renumber g).setRow (art.renumber g) (row.renumber g) with
      artificial := some (row.renumber g) } : Tableau α) =
        ({ t.setRow art row with artificial := some row } : Tableau α).renumber g :=
    arm_renumber t art row
  unfold phaseOne
  rw [harm, minimize_renumber]
  generalize ({ t.setRow art row with artificial := some row } : Tableau α).minimize limit
    .artificial = pass
  have hdriven : ((pass.renumber g).tableau.artificial.any fun a => nearZero a.constant) =
      pass.tableau.artificial.any fun a => nearZero a.constant := by
    simp only [Pass.renumber, artificial_renumber]
    cases pass.tableau.artificial <;> rfl
  have htab : ({ (pass.renumber g).tableau with artificial := none } : Tableau α) =
      ({ pass.tableau with artificial := none } : Tableau α).renumber g := rfl
  simp only [hdriven, htab, retire_renumber]
  cases hout : pass.outcome with
  | error h =>
    simp only [Pass.renumber, hout, Except.mapError]
  | ok =>
    simp only [Pass.renumber, hout, Except.mapError]

end Tableau

end IncrementalSimplex
