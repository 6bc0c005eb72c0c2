/-
# What happens in one part of a tableau

All constraints share one tableau, one objective and one queue.  Still a call only works where its
own constraint is, if the rest is a part of its own: take a set `S` of symbols, the REGION, such that
every row is over symbols of `S` if its basic symbol is in `S`, and over symbols outside it if not
(`Tableau.Separated`).  Then a pivot between two symbols of the region finds the entering symbol in
no row outside, so the rows outside stay as they are and the tableau stays separated.

So it is enough that no pass CHOOSES a symbol outside.

* The primal pass chooses a symbol with a negative cost, and the leaving row has a cell for it.
* The dual pass chooses a restricted row that is negative, and the entering symbol is one of its
  cells.
* Phase one starts from a row over the region, and its objective stays over the region.

Outside the region there is neither a negative cost nor a negative restricted row as long as there was
none at the start (`Tableau.CalmOutside`), because nothing changes there (`Tableau.Confined`).  None of
this depends on the arithmetic, except that zero is not a candidate (`Scalar.LawfulUnits`).
-/
import IncrementalSimplex.Proofs.Frames
import IncrementalSimplex.Proofs.Integrity

namespace IncrementalSimplex

/-! ## 1. Rows over a region -/

namespace Row

variable {α : Type} {S : Symbol → Prop}

/-- The row is over symbols of the region. -/
def Within (S : Symbol → Prop) (r : Row α) : Prop := ∀ x, r.Mentions x → S x

theorem dropCell_of_not_mentions {r : Row α} {s : Symbol} (h : ¬ r.Mentions s) :
    r.dropCell s = r := by
  have hcells : r.cells.erase s = r.cells := by
    refine SymbolMap.ext fun x => ?_
    rw [SymbolMap.get?_erase]
    split
    · rename_i hxs
      rw [hxs, not_mentions_iff.mp h]
    · rfl
  rw [dropCell, hcells]

variable [Scalar α]

theorem get?_foldl_addCell_of_absent (c : α) {x : Symbol} (l : List (Symbol × α)) (r : Row α)
    (h : ∀ e ∈ l, e.1 ≠ x) :
    (l.foldl (fun acc e => acc.addCell e.1 (e.2 * c)) r).cells.get? x = r.cells.get? x := by
  induction l generalizing r with
  | nil => rfl
  | cons e l ih =>
    rw [List.foldl_cons, ih _ fun f hf => h f (List.mem_cons_of_mem e hf),
      get?_addCell_of_ne _ _ (h e List.mem_cons_self).symm]

/-- Adding a row changes no cell that the row does not have. -/
theorem get?_addRow_of_not_mentions {r t : Row α} {x : Symbol} (h : ¬ t.Mentions x) (c : α) :
    (r.addRow t c).cells.get? x = r.cells.get? x := by
  refine get?_foldl_addCell_of_absent c _ _ fun e he hex => h ?_
  rw [← hex, mentions_iff]
  exact ⟨e.2, SymbolMap.mem_entries_iff.mp he⟩

/-- **A substitution inside the region changes no cell outside.** -/
theorem Within.get?_substitute {r t : Row α} {s x : Symbol} (h : t.Within S) (hs : S s)
    (hx : ¬ S x) : (r.substitute s t).cells.get? x = r.cells.get? x := by
  unfold substitute
  split
  · have hxs : x ≠ s := fun heq => hx (heq ▸ hs)
    rw [get?_addRow_of_not_mentions (fun ht => hx (h x ht)), get?_dropCell, if_neg hxs]
  · rfl

theorem Within.substitute {r t : Row α} (hr : r.Within S) (ht : t.Within S) (s : Symbol) :
    (r.substitute s t).Within S := by
  intro x hx
  rcases mentions_substitute hx with ⟨-, hx⟩ | ⟨-, hx⟩
  · exact hr x hx
  · exact ht x hx

theorem Within.solveFor? {r t : Row α} (h : r.Within S) {s : Symbol} (ht : r.solveFor? s = some t) :
    t.Within S := fun x hx => h x ((mentions_solveFor? ht).mp hx).2

end Row

/-! ## 2. Changes inside a region -/

namespace Tableau

variable {α : Type} {S : Symbol → Prop}

/-- **No row crosses the border of the region.** -/
def Separated (S : Symbol → Prop) (t : Tableau α) : Prop :=
  ∀ b row, t.rows.get? b = some row → ∀ x, row.Mentions x → (S x ↔ S b)

/-- **`u` is `t` changed inside the region only**, and separated: outside it has the same rows and
the same costs. -/
structure Confined (S : Symbol → Prop) (t u : Tableau α) : Prop where
  separated : u.Separated S
  rows : ∀ b, ¬ S b → u.rows.get? b = t.rows.get? b
  costs : ∀ x, ¬ S x → u.objective.cells.get? x = t.objective.cells.get? x
  artificial : ∀ row, u.artificial = some row → row.Within S

variable {t u v : Tableau α} {s : Symbol} {row : Row α}

theorem Confined.refl (h : t.Separated S) (hart : t.artificial = none) : Confined S t t :=
  ⟨h, fun _ _ => rfl, fun _ _ => rfl, fun row ha => by simp [hart] at ha⟩

theorem Confined.within (h : Confined S t u) (hrow : u.rows.get? s = some row) (hs : S s) :
    row.Within S := fun x hx => (h.separated s row hrow x hx).mpr hs

theorem Confined.mem_of_mentions (h : Confined S t u) {x : Symbol} (hx : S x)
    (hrow : u.rows.get? s = some row) (hmen : row.Mentions x) : S s :=
  (h.separated s row hrow x hmen).mp hx

theorem Confined.withQueue (h : Confined S t u) (queue : List Symbol) :
    Confined S t { u with infeasible := queue } :=
  ⟨h.separated, h.rows, h.costs, h.artificial⟩

theorem Confined.disarm (h : Confined S t u) : Confined S t u.disarm :=
  ⟨h.separated, h.rows, h.costs, nofun⟩

theorem Confined.dropRow (h : Confined S t u) (hs : S s) : Confined S t (u.dropRow s) where
  separated b row hb := h.separated b row (get?_of_dropRow hb).2
  rows b hb := by
    have hbs : b ≠ s := fun heq => hb (heq ▸ hs)
    rw [get?_dropRow, if_neg hbs, h.rows b hb]
  costs := h.costs
  artificial := h.artificial

theorem Confined.setRow (h : Confined S t u) (hs : S s) (hrow : row.Within S) :
    Confined S t (u.setRow s row) where
  separated b new hb x hx := by
    rw [get?_setRow] at hb
    split at hb
    · rename_i hbs
      cases hb
      rw [hbs]
      exact iff_of_true (hrow x hx) hs
    · exact h.separated b new hb x hx
  rows b hb := by
    have hbs : b ≠ s := fun heq => hb (heq ▸ hs)
    rw [get?_setRow, if_neg hbs, h.rows b hb]
  costs := h.costs
  artificial := h.artificial

/-- The rows of `u` with other constants, and outside the region not even that. -/
theorem Confined.of_cells (h : Confined S t u)
    (hcells : ∀ b new, v.rows.get? b = some new →
      ∃ old, u.rows.get? b = some old ∧ new.cells = old.cells)
    (hrows : ∀ b, ¬ S b → v.rows.get? b = u.rows.get? b) (hobj : v.objective = u.objective)
    (hart : v.artificial = u.artificial) : Confined S t v where
  separated b new hb x hx := by
    obtain ⟨old, hold, heq⟩ := hcells b new hb
    exact h.separated b old hold x ((Row.mentions_congr heq).mp hx)
  rows b hb := (hrows b hb).trans (h.rows b hb)
  costs x hx := by rw [hobj, h.costs x hx]
  artificial row ha := h.artificial row (hart ▸ ha)

theorem Confined.dropColumn (h : Confined S t u) (hs : S s) : Confined S t (u.dropColumn s) where
  separated b new hb x hx := by
    obtain ⟨old, hold, rfl⟩ := get?_of_dropColumn hb
    exact h.separated b old hold x (Row.mentions_dropCell.mp hx).2
  rows b hb := by
    rw [← h.rows b hb, Tableau.dropColumn, SymbolMap.get?_map]
    cases hrow : u.rows.get? b with
    | none => rfl
    | some row =>
      have habs : ¬ row.Mentions s := fun hmen => hb (h.mem_of_mentions hs hrow hmen)
      rw [Option.map_some, Row.dropCell_of_not_mentions habs]
  costs x hx := by
    have hxs : x ≠ s := fun heq => hx (heq ▸ hs)
    rw [← h.costs x hx, Tableau.dropColumn, Row.get?_dropCell, if_neg hxs]
  artificial := h.artificial

variable [Scalar α]

/-- **A substitution inside the region** meets no row outside. -/
theorem Confined.substitute (h : Confined S t u) (hs : S s) (hrow : row.Within S) :
    Confined S t (u.substitute s row) where
  separated b new hb x hx := by
    rw [get?_substitute] at hb
    obtain ⟨old, hold, rfl⟩ := Option.map_eq_some_iff.mp hb
    rcases Row.mentions_substitute hx with ⟨-, hx⟩ | ⟨hmen, hx⟩
    · exact h.separated b old hold x hx
    · exact iff_of_true (hrow x hx) (h.mem_of_mentions hs hold hmen)
  rows b hb := by
    rw [get?_substitute, ← h.rows b hb]
    cases hold : u.rows.get? b with
    | none => rfl
    | some old =>
      have habs : ¬ old.Mentions s := fun hmen => hb (h.mem_of_mentions hs hold hmen)
      rw [Option.map_some, Row.substitute_of_not_mentions habs]
  costs x hx := (hrow.get?_substitute hs hx).trans (h.costs x hx)
  artificial new ha := by
    obtain ⟨old, hold, rfl⟩ := Option.map_eq_some_iff.mp ha
    exact (h.artificial old hold).substitute hrow s

theorem Confined.enter (h : Confined S t u) (hs : S s) (hrow : row.Within S) :
    Confined S t (u.enter s row) := (h.substitute hs hrow).setRow hs hrow

/-- A row of the region stays in it when it is exchanged. -/
theorem Confined.exchange (h : Confined S t u) {l e : Symbol} {solved : Row α} (hl : S l)
    (hrow : u.rows.get? l = some row) (hsolved : row.exchange? l e = some solved) :
    solved.Within S := by
  intro x hx
  rcases (Row.mentions_exchange? hsolved hx).2 with rfl | hx
  · exact hl
  · exact h.within hrow hl x hx

/-- **A pivot between two symbols of the region.** -/
theorem Confined.pivot (h : Confined S t u) {e l : Symbol} (he : S e) (hl : S l)
    (hv : u.pivot ⟨e, l⟩ = .ok v) : Confined S t v := by
  obtain ⟨row, solved, hrow, hsolved, rfl⟩ := pivot_cases hv
  exact (h.dropRow hl).enter he (h.exchange hl hrow hsolved)

/-! ## 3. Passes -/

/-- **Outside the region there is nothing to do**: no cost and no restricted row is negative. -/
structure CalmOutside (S : Symbol → Prop) (t : Tableau α) : Prop where
  cost : ∀ x, ¬ S x → x.isDummy = false → ¬ t.objective.coefficient x < 0
  constant : ∀ b row, ¬ S b → b.isRestricted → t.rows.get? b = some row → ¬ row.constant < 0

/-- The symbol that the main objective chooses is in the region. -/
theorem Confined.entering_mem (h : Confined S t u) (hcalm : t.CalmOutside S) {e : Symbol}
    (he : entering? u.objective = some e) : S e := by
  obtain ⟨-, hdummy, hneg⟩ := of_entering? he
  by_contra hout
  refine hcalm.cost e hout hdummy ?_
  rwa [Row.coefficient, h.costs e hout] at hneg

theorem Confined.dualStep (h : Confined S t u) (hcalm : t.CalmOutside S)
    (hqueue : u.QueueRestricted) (hstep : DualStep u v) : Confined S t v := by
  obtain ⟨e, l, row, rest, hnext, he, hv⟩ := hstep.parts
  obtain ⟨hrow, hneg, hmem, -⟩ := of_nextInfeasible? hnext
  have hl : S l := by
    by_contra hout
    rw [h.rows l hout] at hrow
    exact hcalm.constant l row hout (hqueue l hmem) hrow hneg
  exact (h.withQueue rest).pivot (h.within hrow hl e (of_dualEntering? he).1) hl hv

/-- **The dual pass stays in the region**, if the queue holds restricted symbols only. -/
theorem Confined.repair (h : Confined S t u) (hcalm : t.CalmOutside S) (hqueue : u.QueueRestricted)
    (limit : Nat) : Confined S t (u.repair limit).tableau := by
  obtain ⟨last, ⟨hlast, -⟩, hend⟩ :=
    repair_ends (P := fun v => Confined S t v ∧ v.QueueRestricted)
      (fun _ _ ⟨hv, hq⟩ hs => ⟨hv.dualStep hcalm hq hs, hs.queueRestricted hq⟩) ⟨h, hqueue⟩ limit
  obtain ⟨queue, -, heq⟩ := hend.tableau_eq
  rw [heq]
  exact hlast.withQueue queue

variable [Scalar.LawfulUnits α]

theorem Confined.primalStep (h : Confined S t u) {goal : Goal}
    (hgoal : goal = .main → t.CalmOutside S) (hstep : PrimalStep goal u v) : Confined S t v := by
  obtain ⟨hobj, he, hl, hv⟩ := hstep
  rename_i objective e l
  have heS : S e := by
    cases goal with
    | main =>
      cases hobj
      exact h.entering_mem (hgoal rfl) he
    | artificial => exact h.artificial objective hobj e (of_entering? he).1
  obtain ⟨row, hrow, -, hneg⟩ := of_leaving? hl
  exact h.pivot heS (h.mem_of_mentions heS hrow (Row.mentions_of_coefficient_neg hneg)) hv

/-- **A primal pass stays in the region.**  That of the artificial objective needs nothing else. -/
theorem Confined.minimize (h : Confined S t u) (goal : Goal)
    (hgoal : goal = .main → t.CalmOutside S) (limit : Nat) :
    Confined S t (u.minimize limit goal).tableau := by
  obtain ⟨last, hlast, hend⟩ := minimize_ends (P := Confined S t)
    (fun _ _ hv hs => hv.primalStep hgoal hs) h limit
  rcases hend.tableau_eq with heq | heq
  · rw [heq]
    exact hlast
  · rw [heq]
    exact hlast.withQueue []

omit [Scalar.LawfulUnits α] in
theorem Confined.retire (h : Confined S t u) {art : Symbol} (hart : S art) (driven : Bool) :
    Confined S t (u.retire art driven).tableau :=
  retire_keeps (h.dropColumn hart) (h.dropRow hart)
    (fun e _ _ hrow he hv => (h.pivot (h.within hrow hart e he) hart hv).dropColumn hart) driven

/-- **Phase one stays in the region** if its row does. -/
theorem Confined.phaseOne (h : Confined S t u) {art : Symbol} (hart : S art)
    (hrow : row.Within S) (limit : Nat) :
    Confined S t (u.phaseOne limit art row).tableau := by
  have harm : Confined S t (u.arm art row) :=
    { h.setRow hart hrow with artificial := fun r hr => by cases hr; exact hrow }
  have hpass := (harm.minimize .artificial nofun limit).disarm
  exact phaseOne_keeps hpass (hpass.retire hart)

/-! ## 4. Removals and shifts -/

omit [Scalar.LawfulUnits α] in
theorem Confined.uncharge (h : Confined S t u) {x : Symbol} (w : α) (hx : x.isError → S x) :
    Confined S t (u.uncharge x w) := by
  unfold Tableau.uncharge
  split
  · rename_i herr
    refine ⟨h.separated, h.rows, fun y hy => ?_, h.artificial⟩
    rw [← h.costs y hy]
    dsimp only
    split
    · rename_i row hrow
      exact Row.get?_addRow_of_not_mentions (fun hmen => hy (h.within hrow (hx herr) y hmen)) _
    · have hyx : y ≠ x := fun heq => hy (heq ▸ hx herr)
      exact Row.get?_addCell_of_ne _ _ hyx
  · exact h

/-- The row to exchange with a marker has the marker. -/
theorem Confined.expel (h : Confined S t u) {m : Symbol} (hm : S m) (hv : u.expel m = .ok v) :
    Confined S t v := by
  rcases expel_cases hv with ⟨-, -, rfl⟩ | ⟨-, -, rfl⟩ | ⟨-, l, row, solved, hl, hrow, hsolved, rfl⟩
  · exact h.dropRow hm
  · exact h
  · obtain ⟨other, hother, hc⟩ := of_leavingForMarker? hl
    have hlS : S l := h.mem_of_mentions hm hother (Row.mentions_of_coefficient_bne hc)
    exact (h.dropRow hlS).substitute hm (h.exchange hlS hrow hsolved)

theorem shiftRow_of_not_mentions {m : Symbol} (h : ¬ row.Mentions m) (δ : α) :
    shiftRow m δ row = row := by
  simp [shiftRow, Row.coefficient_of_not_mentions h, bne, Scalar.LawfulUnits.zero_beq_zero]

/-- A shift of the target of an edit only moves rows that have a symbol of its tag. -/
theorem Confined.shift (h : Confined S t u) {tag : Tag} (hm : S tag.marker) (ho : S tag.other)
    (δ : α) : Confined S t (u.shift tag δ) := by
  obtain ⟨hcells, hobj, hart⟩ := u.shift_cells tag δ
  refine h.of_cells hcells (fun b hb => ?_) hobj hart
  have hbm : b ≠ tag.marker := fun heq => hb (heq ▸ hm)
  have hbo : b ≠ tag.other := fun heq => hb (heq ▸ ho)
  unfold Tableau.shift
  split
  · rw [(setRowQueued_rest _ _ _).1, SymbolMap.get?_insert, if_neg hbm]
  · split
    · rw [(setRowQueued_rest _ _ _).1, SymbolMap.get?_insert, if_neg hbo]
    · rw [SymbolMap.get?_map]
      cases hrow : u.rows.get? b with
      | none => rfl
      | some row =>
        have habs : ¬ row.Mentions tag.marker := fun hmen => hb (h.mem_of_mentions hm hrow hmen)
        rw [Option.map_some, shiftRow_of_not_mentions habs]

end Tableau

/-! ## 5. Calls -/

namespace Solver

open Tableau (Confined Separated)

variable {α : Type} [Scalar α] {S : Symbol → Prop} {s : Solver α} {c : Constraint α}

/-- Encoding charges the symbols of the tag and no others. -/
theorem get?_objective_encodeRelation (s : Solver α) (row : Row α) (p : Priority) (rel : Relation)
    {x : Symbol} (hx : ¬ (s.encodeRelation row p rel).tag.Has x) :
    (s.encodeRelation row p rel).solver.tableau.objective.cells.get? x =
      s.tableau.objective.cells.get? x := by
  cases hreq : p.isRequired with
  | true => rw [encodeRelation_of_required s row rel hreq]
  | false =>
    rw [encodeRelation_of_soft s row rel hreq] at hx ⊢
    have hother : x ≠ ⟨s.counter + 2, .error⟩ := fun heq =>
      hx ⟨by simp [heq, Symbol.placeholder], .inr heq⟩
    have hmarker : x ≠ ⟨s.counter + 1, rel.markerKind false⟩ := fun heq =>
      hx ⟨by simp [heq, Symbol.placeholder], .inl heq⟩
    cases rel with
    | equal => exact (Row.get?_addCell_of_ne _ _ hother).trans (Row.get?_addCell_of_ne _ _ hmarker)
    | atMost => exact Row.get?_addCell_of_ne _ _ hother
    | atLeast => exact Row.get?_addCell_of_ne _ _ hother

/-- **Encoding is confined to a region with the symbols of the tag.** -/
theorem confined_encode (hbase : Confined S s.tableau s.tableau) (hnames : s.Names)
    (hcan : s.tableau.Canonical) (hover : s.tableau.Over s.Knows)
    (htag : ∀ x, (s.encode c).tag.Has x → S x) :
    Confined S s.tableau (s.encode c).solver.tableau := by
  have henc := encoded_encode hnames hcan hover c
  refine ⟨fun b row hb => hbase.separated b row (henc.rows ▸ hb), fun b _ => by rw [henc.rows],
    fun x hx => ?_, fun row ha => hbase.artificial row (henc.artificial ▸ ha)⟩
  have hterms := (terms_encodeTerms hnames hcan hover c.expression).tableau
  have hhas : ¬ (s.encode c).tag.Has x := fun h => hx (htag x h)
  revert hhas
  unfold encode
  dsimp only
  rw [← hterms]
  split <;> exact get?_objective_encodeRelation _ _ _ _

/-- A place in the tableau for a row of the region. -/
theorem confined_placeBasic {t : Tableau α} {e : Encoding α} (h : Confined S t e.solver.tableau)
    (hrow : e.row.Within S) {x : Symbol} (hx : S x) :
    Confined S t (e.placeBasic x).solver.tableau := by
  unfold Encoding.placeBasic
  cases hsolved : e.row.solveFor? x with
  | none => exact h
  | some solved => exact h.enter hx (hrow.solveFor? hsolved)

variable [Scalar.LawfulUnits α]

theorem confined_placeArtificial {t : Tableau α} {e : Encoding α}
    (h : Confined S t e.solver.tableau) (hrow : e.row.Within S)
    (hart : S ⟨e.solver.counter + 1, .slack⟩) (id : ConstraintId) :
    Confined S t (e.placeArtificial id).solver.tableau := by
  have hphase := h.phaseOne hart hrow e.solver.config.maxIterations
  unfold Encoding.placeArtificial
  dsimp only [newSymbol]
  split
  · exact hphase
  · exact h.disarm
  · exact h.disarm
  · exact hphase

theorem confined_place {t : Tableau α} {e : Encoding α} (h : Confined S t e.solver.tableau)
    (hrow : e.row.Within S) (hmarker : S e.tag.marker) (hart : S ⟨e.solver.counter + 1, .slack⟩)
    (id : ConstraintId) : Confined S t (e.place id).solver.tableau := by
  unfold Encoding.place Encoding.placement
  cases hsub : e.subject? with
  | some x => exact confined_placeBasic h hrow (hrow x (mentions_of_subject? hsub))
  | none =>
    dsimp only
    split
    · rename_i subject heq
      have hsubject : subject = e.tag.marker := by
        split at heq
        · split at heq
          · cases heq
            rfl
          · cases heq
        · cases heq
      exact confined_placeBasic h hrow (hsubject ▸ hmarker)
    · exact h
    · exact confined_placeArtificial h hrow hart id

/-- **Adding is confined to a region** that has the encoded row, the marker and the next symbol. -/
theorem confined_add (hbase : Confined S s.tableau s.tableau) (hcalm : s.tableau.CalmOutside S)
    (henc : Confined S s.tableau (s.encode c).solver.tableau) (hrow : (s.encode c).row.Within S)
    (hmarker : S (s.encode c).tag.marker) (hart : S ⟨(s.encode c).solver.counter + 1, .slack⟩) :
    Confined S s.tableau (s.add c).solver.tableau := by
  unfold Solver.add
  split
  · exact hbase
  · split
    · exact hbase
    · have hplace := confined_place henc hrow hmarker hart c.id
      dsimp only
      cases hout : ((s.encode c).place c.id).outcome with
      | error halt =>
        rw [Reply.andThen_of_error hout, Reply.andThen_of_error hout]
        exact hplace
      | ok =>
        rw [Reply.andThen_of_ok hout, Reply.andThen_of_ok rfl]
        exact hplace.minimize .main (fun _ => hcalm) _

/-- **Removing is confined to a region** that has the tag. -/
theorem confined_remove (hbase : Confined S s.tableau s.tableau) (hcalm : s.tableau.CalmOutside S)
    (htag : ∀ r, s.constraints.get? c.id = some r →
      S r.tag.marker ∧ (r.tag.other.isError → S r.tag.other)) :
    Confined S s.tableau (s.remove c).solver.tableau := by
  unfold Solver.remove
  cases hr : s.constraints.get? c.id with
  | none => exact hbase
  | some r =>
    obtain ⟨hmarker, hother⟩ := htag r hr
    have hclear : Confined S s.tableau
        (Solver.clear { s with constraints := s.constraints.erase c.id } r).solver.tableau := by
      have hrefund := (hbase.uncharge r.priority.weight fun _ => hmarker).uncharge
        r.priority.weight hother
      unfold Solver.clear
      dsimp only
      split
      · rename_i t ht
        exact hrefund.expel hmarker ht
      · exact hrefund
    dsimp only
    cases hout : (Solver.clear { s with constraints := s.constraints.erase c.id } r).outcome with
    | error halt =>
      rw [Reply.andThen_of_error hout, Reply.andThen_of_error hout]
      exact hclear
    | ok =>
      rw [Reply.andThen_of_ok hout, Reply.andThen_of_ok rfl]
      exact hclear.minimize .main (fun _ => hcalm) _

/-- **Suggesting is confined to a region** that has the tag of the edit. -/
theorem confined_suggest (hbase : Confined S s.tableau s.tableau) (hcalm : s.tableau.CalmOutside S)
    {v : Variable} {x : α} (htag : ∀ e, s.edits.get? v = some e → S e.tag.marker ∧ S e.tag.other ∧
      (s.tableau.shift e.tag (x - e.constant)).QueueRestricted) :
    Confined S s.tableau (s.suggest v x).solver.tableau := by
  unfold Solver.suggest
  cases he : s.edits.get? v with
  | none => exact hbase
  | some e =>
    obtain ⟨hmarker, hother, hqueue⟩ := htag e he
    exact (hbase.shift hmarker hother _).repair hcalm hqueue _

end Solver

end IncrementalSimplex
