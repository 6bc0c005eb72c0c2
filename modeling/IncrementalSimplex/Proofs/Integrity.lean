/-
# What holds whatever the arithmetic

Rounding may turn any number of the tableau into any other, a NaN included, and with it every choice
that is made by comparing numbers.  What no rounding can touch is the bookkeeping:

* no symbol is basic and in a cell at once, and between two calls there is no artificial objective;
* every symbol that the solver holds, be it in the tableau, in a tag or as the name of a variable,
  has a number that was given out, and no two of them have the same (`Intact`).  The queue may name
  symbols that are gone, but none whose number was not given out (`Tidy.queue`).

So a call is never broken off (`Unbroken`): a row is only ever solved for a symbol that it has, a
symbol that was chosen to leave has a row, and an edit finds the constraint that it added.

**What it rests on.**  The books are kept without any law at all (`Ledger.after_perform`): a pass
that breaks off leaves them as they are.  That it does not break off takes something of the
arithmetic, namely that zero does not look like a candidate, neither below zero nor unequal to zero,
and that `0 + 1` and `0 + -1` are stored (`Scalar.LawfulUnits`).  A symbol is chosen because a
coefficient compares with zero, so it has a cell; and a row without a subject is solved for its
marker, whose coefficient was stored when the row was encoded.

The proof goes through a set `P` of symbols given out so far (`Ledger P`).  A pass moves symbols and
brings none in, so `P` stays; each new symbol has the next number and joins `P`.  The calls need not
be lawful: the book of `Calls` plays no part here.
-/
import IncrementalSimplex.Proofs.Calls

namespace IncrementalSimplex

/-- **The call is not broken off**: it succeeds or is refused, and not because a row or a record is
missing. -/
def Unbroken (o : Except Halt Unit) : Prop :=
  o = .ok () ∨ ∃ e, o = .error (.refused e) ∧ e ≠ .internal .leavingRowVanished ∧
    e ≠ .internal .editNotRecorded

/-- Refused for a reason that is no internal fault. -/
theorem Unbroken.refused {e : SolverError} (h : ∀ fault, e ≠ .internal fault) :
    Unbroken (.error (.refused e)) := .inr ⟨e, rfl, h _, h _⟩

variable {α : Type} [Scalar α]

/-! ## 1. Tableaus between passes -/

namespace Tableau

/-- **Every symbol on the queue is one of `P`.** -/
def QueueOver (P : Symbol → Prop) (t : Tableau α) : Prop := ∀ x ∈ t.infeasible, P x

section Queue

variable {P : Symbol → Prop} {t u : Tableau α}

/-- A substitution queues basic symbols. -/
theorem QueueOver.substitute (h : t.QueueOver P) (hover : t.Over P) (s : Symbol) (row : Row α) :
    (t.substitute s row).QueueOver P := by
  intro x hx
  rcases List.mem_append.mp hx with hx | hx
  · obtain ⟨⟨b, new⟩, hmem, rfl⟩ := List.mem_map.mp (List.mem_reverse.mp hx)
    have hnew := SymbolMap.mem_entries_iff.mp (List.mem_filter.mp hmem).1
    rw [SymbolMap.get?_map] at hnew
    obtain ⟨old, hold, -⟩ := Option.map_eq_some_iff.mp hnew
    exact hover.basic hold
  · exact h x hx

theorem QueueOver.pivot (h : t.QueueOver P) (hover : t.Over P) {e l : Symbol}
    (hu : t.pivot ⟨e, l⟩ = .ok u) : u.QueueOver P := by
  obtain ⟨row, solved, -, -, rfl⟩ := pivot_cases hu
  exact QueueOver.substitute (t := t.dropRow l) h (hover.dropRow l) e solved

theorem QueueOver.minimize (h : t.QueueOver P) (hover : t.Over P) (limit : Nat) (goal : Goal) :
    (t.minimize limit goal).tableau.QueueOver P := by
  obtain ⟨last, ⟨-, hlast⟩, hend⟩ := minimize_ends (P := fun v => v.Over P ∧ v.QueueOver P)
    (fun v w hv (hs : PrimalStep goal v w) => by
      refine ⟨hs.over hv.1, ?_⟩
      obtain ⟨-, -, -, hw⟩ := hs
      exact hv.2.pivot hv.1 hw) ⟨hover, h⟩ limit
  rcases hend.tableau_eq with heq | heq
  · rw [heq]
    exact hlast
  · rw [heq]
    exact nofun

theorem QueueOver.repair (h : t.QueueOver P) (hover : t.Over P) (limit : Nat) :
    (t.repair limit).tableau.QueueOver P := by
  obtain ⟨last, ⟨-, hlast⟩, hend⟩ := repair_ends (P := fun v => v.Over P ∧ v.QueueOver P)
    (fun v w hv hs => by
      refine ⟨DualStep.over hv.1 hs, ?_⟩
      obtain ⟨hnext, -, hw⟩ := hs
      refine QueueOver.pivot (t := { v with infeasible := _ }) (fun x hx => ?_)
        (hv.1.withQueue _) hw
      exact hv.2 x ((of_nextInfeasible? hnext).2.2.2 x hx)) ⟨hover, h⟩ limit
  obtain ⟨queue, hqueue, heq⟩ := hend.tableau_eq
  rw [heq]
  exact fun x hx => hlast x (hqueue x hx)

theorem QueueOver.retire (h : t.QueueOver P) (hover : t.Over P) (art : Symbol) (driven : Bool) :
    (t.retire art driven).tableau.QueueOver P :=
  retire_keeps (P := fun u => u.QueueOver P) h h
    (fun _ _ u _ _ hu => (h.pivot hover hu : u.QueueOver P)) driven

theorem QueueOver.phaseOne (h : t.QueueOver P) (hover : t.Over P) {art : Symbol} {row : Row α}
    (hart : P art) (hrow : ∀ x, row.Mentions x → P x) (limit : Nat) :
    (t.phaseOne limit art row).tableau.QueueOver P := by
  have harm := hover.arm hart hrow
  have hpass := QueueOver.minimize (t := t.arm art row) h harm limit .artificial
  exact phaseOne_keeps (P := fun u => u.QueueOver P) hpass
    (QueueOver.retire (t := disarm _) hpass (harm.minimize limit .artificial).disarm art)

theorem QueueOver.uncharge (h : t.QueueOver P) (x : Symbol) (w : α) :
    (t.uncharge x w).QueueOver P := by
  unfold Tableau.uncharge
  split <;> exact h

theorem QueueOver.expel (h : t.QueueOver P) (hover : t.Over P) {m : Symbol}
    (hu : t.expel m = .ok u) : u.QueueOver P := by
  rcases expel_cases hu with ⟨-, -, rfl⟩ | ⟨-, -, rfl⟩ | ⟨-, l, row, solved, -, -, -, rfl⟩
  · exact h
  · exact h
  · exact QueueOver.substitute (t := t.dropRow l) h (hover.dropRow l) m solved

theorem QueueOver.setRowQueued (h : t.QueueOver P) {x : Symbol} (hx : P x) (row : Row α) :
    (t.setRowQueued x row).QueueOver P := by
  unfold Tableau.setRowQueued
  dsimp only
  split
  · intro y hy
    rcases List.mem_cons.mp hy with rfl | hy
    · exact hx
    · exact h y hy
  · exact h

theorem QueueOver.shift (h : t.QueueOver P) (hover : t.Over P) (tag : Tag) (δ : α) :
    (t.shift tag δ).QueueOver P := by
  unfold Tableau.shift
  split
  · rename_i row hrow
    exact h.setRowQueued (hover.basic hrow) _
  · split
    · rename_i row hrow
      exact h.setRowQueued (hover.basic hrow) _
    · intro x hx
      rcases List.mem_append.mp hx with hx | hx
      · obtain ⟨⟨b, row⟩, hmem, rfl⟩ := List.mem_map.mp (List.mem_reverse.mp hx)
        exact hover.basic (SymbolMap.mem_entries_iff.mp (List.mem_filter.mp hmem).1)
      · exact h x hx

end Queue

/-- **A tableau between passes**: in canonical form, over symbols of `P`, its queue included, and
without an artificial objective. -/
structure Tidy (P : Symbol → Prop) (t : Tableau α) : Prop where
  canonical : t.Canonical
  symbols : t.Over P
  queue : t.QueueOver P
  noArtificial : t.artificial = none

variable {P : Symbol → Prop} {t : Tableau α}

omit [Scalar α] in
theorem Tidy.mono {Q : Symbol → Prop} (h : t.Tidy P) (hPQ : ∀ x, P x → Q x) : t.Tidy Q :=
  ⟨h.canonical, h.symbols.mono hPQ, fun x hx => hPQ x (h.queue x hx), h.noArtificial⟩

theorem tidy_empty : (empty : Tableau α).Tidy P := by
  refine ⟨⟨?_, ?_, ?_⟩, ⟨?_, ?_, ?_, ?_⟩, nofun, rfl⟩
  · intro b row h
    cases h
  · intro x h
    cases h
  · intro row h
    cases h
  · intro b row h
    cases h
  · intro b row h
    cases h
  · intro x h
    cases h
  · intro row h
    cases h

theorem Tidy.enter (h : t.Tidy P) {s : Symbol} {row : Row α} (hs : ¬ row.Mentions s)
    (hfree : t.Free row) (hPs : P s) (hrow : ∀ {x}, row.Mentions x → P x) :
    (t.enter s row).Tidy P :=
  ⟨h.canonical.enter hs hfree, h.symbols.enter hPs hrow, h.queue.substitute h.symbols s row,
    Option.map_eq_none_iff.mpr h.noArtificial⟩

theorem Tidy.uncharge (h : t.Tidy P) {x : Symbol} (w : α) (hx : x.isError → P x) :
    (t.uncharge x w).Tidy P :=
  ⟨h.canonical.uncharge x w, h.symbols.uncharge w hx, h.queue.uncharge x w,
    (t.artificial_uncharge x w).trans h.noArtificial⟩

theorem Tidy.expel {u : Tableau α} (h : t.Tidy P) {m : Symbol} (hu : t.expel m = .ok u) :
    u.Tidy P :=
  ⟨h.canonical.expel hu, h.symbols.expel hu, h.queue.expel h.symbols hu,
    artificial_expel h.noArtificial hu⟩

theorem Tidy.shift (h : t.Tidy P) (tag : Tag) (δ : α) : (t.shift tag δ).Tidy P :=
  ⟨h.canonical.shift tag δ, h.symbols.shift tag δ, h.queue.shift h.symbols tag δ,
    (t.shift_cells tag δ).2.2.trans h.noArtificial⟩

theorem Tidy.after_minimize (h : t.Tidy P) (limit : Nat) :
    (t.minimize limit .main).tableau.Tidy P :=
  ⟨h.canonical.minimize limit .main, h.symbols.minimize limit .main,
    h.queue.minimize h.symbols limit .main, artificial_minimize h.noArtificial limit .main⟩

theorem Tidy.minimize [Scalar.LawfulUnits α] (h : t.Tidy P) (limit : Nat) :
    (t.minimize limit .main).tableau.Tidy P ∧ Unbroken (t.minimize limit .main).outcome := by
  refine ⟨h.after_minimize limit, ?_⟩
  obtain ⟨last, hlast, hend⟩ := minimize_ends (P := Canonical)
    (fun u v hu (hs : PrimalStep .main u v) => hs.canonical hu) h.canonical limit
  rcases hend.cases_outcome hlast with ⟨hout, -⟩ | hout | ⟨hout, -⟩
  · exact .inl hout
  · exact .inr ⟨_, hout, nofun, nofun⟩
  · exact .inr ⟨_, hout, nofun, nofun⟩

theorem Tidy.repair (h : t.Tidy P) (limit : Nat) :
    (t.repair limit).tableau.Tidy P ∧ Unbroken (t.repair limit).outcome := by
  refine ⟨⟨h.canonical.repair limit, h.symbols.repair limit, h.queue.repair h.symbols limit,
    artificial_repair h.noArtificial limit⟩, ?_⟩
  obtain ⟨last, hlast, hend⟩ := repair_ends (P := Canonical)
    (fun _ _ hu hs => DualStep.canonical hu hs) h.canonical limit
  rcases hend.cases_outcome hlast with ⟨hout, -⟩ | hout | ⟨hout, -⟩
  · exact .inl hout
  · exact .inr ⟨_, hout, nofun, nofun⟩
  · exact .inr ⟨_, hout, nofun, nofun⟩

end Tableau

namespace Solver

/-! ## 2. The symbols of a solver -/

/-- **The symbols that a solver holds**: in its rows and cells, in tags, and for variables. -/
inductive Holds (s : Solver α) : Symbol → Prop
  | basic {b : Symbol} {row : Row α} (hb : s.tableau.rows.get? b = some row) : Holds s b
  | cell {b x : Symbol} {row : Row α} (hb : s.tableau.rows.get? b = some row)
      (hx : row.Mentions x) : Holds s x
  | objective {x : Symbol} (hx : s.tableau.objective.Mentions x) : Holds s x
  | named {v : Variable} {x : Symbol} (hv : s.symbols.get? v = some x) : Holds s x
  | tagged {id : ConstraintId} {r : ConstraintRecord} {x : Symbol}
      (hr : s.constraints.get? id = some r) (hx : r.tag.Has x) : Holds s x
  | edited {v : Variable} {e : Edit α} {x : Symbol} (he : s.edits.get? v = some e)
      (hx : e.tag.Has x) : Holds s x

/-- **The books are in order.** -/
structure Intact (s : Solver α) : Prop where
  rows : ∀ {b row c other}, s.tableau.rows.get? b = some row →
    s.tableau.rows.get? c = some other → ¬ row.Mentions c
  objective : ∀ {b row}, s.tableau.rows.get? b = some row → ¬ s.tableau.objective.Mentions b
  noArtificial : s.tableau.artificial = none
  numbered : ∀ x, s.Holds x → 1 ≤ x.id ∧ x.id ≤ s.counter ∧ x.kind ≠ .placeholder
  kinds : ∀ x y, s.Holds x → s.Holds y → x.id = y.id → x.kind = y.kind

/-- **The solver holds symbols of `P` only**, and these are known and told apart by their
numbers. -/
structure Ledger (P : Symbol → Prop) (s : Solver α) : Prop where
  tableau : s.tableau.Tidy P
  names : s.Names
  named : ∀ v x, s.symbols.get? v = some x → P x
  tagged : ∀ id r, s.constraints.get? id = some r → ∀ x, r.tag.Has x → P x
  edited : ∀ v e, s.edits.get? v = some e → ∀ x, e.tag.Has x → P x
  known : ∀ x, P x → s.Knows x
  unique : ∀ x y, P x → P y → x.id = y.id → x = y

variable {P : Symbol → Prop} {s u : Solver α}

omit [Scalar α] in
theorem Ledger.holds (h : s.Ledger P) {x : Symbol} (hx : s.Holds x) : P x := by
  cases hx with
  | basic hb => exact h.tableau.symbols.basic hb
  | cell hb hx => exact h.tableau.symbols.rows hb hx
  | objective hx => exact h.tableau.symbols.objective hx
  | named hv => exact h.named _ x hv
  | tagged hr hx => exact h.tagged _ _ hr x hx
  | edited he hx => exact h.edited _ _ he x hx

omit [Scalar α] in
/-- **With a ledger the books are in order.** -/
theorem Ledger.intact (h : s.Ledger P) : s.Intact where
  rows hb hc hx := (h.tableau.canonical.rows hb hx).ne hc rfl
  objective hb hx := (h.tableau.canonical.objective hx).ne hb rfl
  noArtificial := h.tableau.noArtificial
  numbered x hx := h.known x (h.holds hx)
  kinds x y hx hy hid := congrArg Symbol.kind (h.unique x y (h.holds hx) (h.holds hy) hid)

theorem ledger_new (config : SolverConfig) : (new config : Solver α).Ledger fun _ => False where
  tableau := Tableau.tidy_empty
  names := ⟨nofun, nofun⟩
  named := nofun
  tagged := nofun
  edited := nofun
  known := nofun
  unique := nofun

omit [Scalar α] in
/-- Another tableau over the same symbols. -/
theorem Ledger.withTableau (h : s.Ledger P) {t : Tableau α} (ht : t.Tidy P) :
    ({ s with tableau := t } : Solver α).Ledger P :=
  ⟨ht, ⟨h.names.known, h.names.inj⟩, h.named, h.tagged, h.edited, h.known, h.unique⟩

omit [Scalar α] in
/-- **A new symbol** joins the ledger under the next number. -/
theorem Ledger.issue (h : s.Ledger P) {k : SymbolKind} (hk : k ≠ .placeholder) :
    ({ s with counter := s.counter + 1 } : Solver α).Ledger
      fun x => P x ∨ x = ⟨s.counter + 1, k⟩ where
  tableau := h.tableau.mono fun _ => .inl
  names := h.names.mono rfl (Nat.le_succ _)
  named v x hv := .inl (h.named v x hv)
  tagged id r hr x hx := .inl (h.tagged id r hr x hx)
  edited v e he x hx := .inl (h.edited v e he x hx)
  known x hx := by
    rcases hx with hx | rfl
    · exact (h.known x hx).mono (Nat.le_succ _)
    · exact ⟨Nat.succ_pos _, le_refl _, hk⟩
  unique x y hx hy hid := by
    rcases hx with hx | rfl
    · rcases hy with hy | rfl
      · exact h.unique x y hx hy hid
      · have := (h.known x hx).2.1
        simp only at hid
        omega
    · rcases hy with hy | rfl
      · have := (h.known y hy).2.1
        simp only at hid
        omega
      · rfl

theorem Ledger.after_optimize (h : s.Ledger P) : s.optimize.solver.Ledger P :=
  h.withTableau (h.tableau.after_minimize s.config.maxIterations)

theorem Ledger.optimize [Scalar.LawfulUnits α] (h : s.Ledger P) :
    s.optimize.solver.Ledger P ∧ Unbroken s.optimize.outcome :=
  ⟨h.after_optimize, (h.tableau.minimize s.config.maxIterations).2⟩

theorem Ledger.repair (h : s.Ledger P) : s.repair.solver.Ledger P ∧ Unbroken s.repair.outcome := by
  obtain ⟨htidy, hout⟩ := h.tableau.repair s.config.maxIterations
  exact ⟨h.withTableau htidy, hout⟩

/-! ## 3. Adding -/

section Encoding

variable {c : Constraint α} {e : Encoding α}

omit [Scalar α]

/-- What has been given out once a constraint is encoded: also the names and the symbols of the
tag. -/
def GivenOut (P : Symbol → Prop) (e : Encoding α) (x : Symbol) : Prop :=
  P x ∨ (∃ v, e.solver.symbols.get? v = some x) ∨ e.tag.Has x

theorem Ledger.over_knows (h : s.Ledger P) : s.tableau.Over s.Knows :=
  h.tableau.symbols.mono h.known

/-- **Encoding charges free symbols only**, so the tableau stays tidy. -/
theorem Ledger.tidy_encoded (h : s.Ledger P) (henc : s.Encoded c e) :
    e.solver.tableau.Tidy (GivenOut P e) := by
  have hart : e.solver.tableau.artificial = none := henc.artificial.trans h.tableau.noArtificial
  refine ⟨⟨fun {b row} hb x hx => ?_, fun {x} hx => ?_, fun {row} ha x hx => ?_⟩,
    ⟨fun {b row} hb => ?_, fun {b row} hb x hx => ?_, fun {x} hx => ?_, fun {row} ha x hx => ?_⟩,
    fun x hx => .inl (h.tableau.queue x (henc.infeasible ▸ hx)), hart⟩
  · rw [henc.rows] at hb
    exact henc.nonbasic (h.tableau.canonical.rows hb hx)
  · rcases henc.objective x hx with hx | hx
    · exact henc.nonbasic (h.tableau.canonical.objective hx)
    · exact henc.nonbasic (nonbasic_of_lt h.over_knows (henc.fresh x hx).1)
  · rw [hart] at ha
    cases ha
  · rw [henc.rows] at hb
    exact .inl (h.tableau.symbols.basic hb)
  · rw [henc.rows] at hb
    exact .inl (h.tableau.symbols.rows hb hx)
  · rcases henc.objective x hx with hx | hx
    · exact .inl (h.tableau.symbols.objective hx)
    · exact .inr (.inr hx)
  · rw [hart] at ha
    cases ha

/-- **Numbers tell the names from the rest**: a new name has a later number than what was there. -/
theorem Ledger.eq_of_id_eq_name (h : s.Ledger P) (henc : s.Encoded c e) {x y : Symbol}
    (hx : P x ∨ ∃ v, e.solver.symbols.get? v = some x)
    (hy : ∃ v, e.solver.symbols.get? v = some y) (hid : x.id = y.id) : x = y := by
  obtain ⟨w, hw⟩ := hy
  rcases hx with hx | ⟨v, hv⟩
  · rcases henc.grows.young w y hw with hold | hlt
    · exact h.unique x y hx (h.named w y hold) hid
    · have := (h.known x hx).2.1
      omega
  · -- two names are external, so they have the same kind
    have hxe := (henc.names.known v x hv).2
    have hye := (henc.names.known w y hw).2
    rw [Symbol.isExternal, beq_iff_eq] at hxe hye
    cases x
    cases y
    cases hid
    cases hxe
    cases hye
    rfl

/-- The symbols of the tag come after all others. -/
theorem Ledger.lt_of_has (h : s.Ledger P) (henc : s.Encoded c e) {x y : Symbol}
    (hx : P x ∨ ∃ v, e.solver.symbols.get? v = some x) (hy : e.tag.Has y) : x.id < y.id := by
  rcases hx with hx | ⟨v, hv⟩
  · exact (h.known x hx).2.1.trans_lt (henc.fresh y hy).1
  · exact henc.younger v x hv y hy

/-- **No two symbols given out have the same number.** -/
theorem Ledger.unique_encoded (h : s.Ledger P) (henc : s.Encoded c e) {x y : Symbol}
    (hx : GivenOut P e x) (hy : GivenOut P e y) (hid : x.id = y.id) : x = y := by
  rcases or_assoc.mpr hx with hx | hx <;> rcases or_assoc.mpr hy with hy | hy
  · rcases hy with hyP | hyname
    · rcases hx with hxP | hxname
      · exact h.unique x y hxP hyP hid
      · exact (h.eq_of_id_eq_name henc (.inl hyP) hxname hid.symm).symm
    · exact h.eq_of_id_eq_name henc hx hyname hid
  · exact absurd hid (h.lt_of_has henc hx hy).ne
  · exact absurd hid.symm (h.lt_of_has henc hy hx).ne
  · obtain ⟨-, rfl | rfl⟩ := hx <;> obtain ⟨-, rfl | rfl⟩ := hy
    · rfl
    · exact absurd hid henc.distinct
    · exact absurd hid.symm henc.distinct
    · rfl

/-- **Encoding enters the names and the symbols of the tag.** -/
theorem Ledger.encoded (h : s.Ledger P) (henc : s.Encoded c e) :
    e.solver.Ledger (GivenOut P e) where
  tableau := h.tidy_encoded henc
  names := henc.names
  named v _ hv := .inr (.inl ⟨v, hv⟩)
  tagged id r hr x hx := .inl (h.tagged id r (henc.grows.constraints ▸ hr) x hx)
  edited v d hd x hx := .inl (h.edited v d (henc.grows.edits ▸ hd) x hx)
  known := by
    rintro x (hx | ⟨v, hv⟩ | hx)
    · exact (h.known x hx).mono henc.grows.counter
    · exact (henc.names.known v x hv).1
    · exact (henc.fresh x hx).2
  unique _ _ := h.unique_encoded henc

/-- **A constraint encoded over a ledger**: its row is over free symbols given out. -/
structure Admitted (P : Symbol → Prop) (e : Encoding α) : Prop where
  ledger : e.solver.Ledger P
  row : ∀ {x}, e.row.Mentions x → P x
  tag : ∀ x, e.tag.Has x → P x
  free : e.solver.tableau.Free e.row

/-- With its marker in the row, there is always a symbol to solve it for. -/
structure Entered (P : Symbol → Prop) (e : Encoding α) : Prop extends Admitted P e where
  marker : e.row.Mentions e.tag.marker

end Encoding

variable {c : Constraint α} {e : Encoding α}

theorem Ledger.admitted (h : s.Ledger P) (c : Constraint α) :
    Admitted (GivenOut P (s.encode c)) (s.encode c) := by
  have henc := encoded_encode h.names h.tableau.canonical h.over_knows c
  refine ⟨h.encoded henc, fun {x} hx => ?_, fun x hx => .inr (.inr hx), henc.free_row⟩
  rcases henc.origin x hx with ⟨b, row, hb, hx⟩ | hx
  · exact .inl (h.tableau.symbols.rows hb hx)
  · exact .inr hx

theorem Ledger.encode [Scalar.LawfulUnits α] (h : s.Ledger P) (c : Constraint α) :
    Entered (GivenOut P (s.encode c)) (s.encode c) :=
  ⟨h.admitted c, mentions_marker_encode h.names h.tableau.canonical h.over_knows c⟩

/-- Solving for a symbol, be it in the row or not. -/
theorem Admitted.placeBasic (h : Admitted P e) (x : Symbol) :
    (e.placeBasic x).solver.Ledger P := by
  unfold Encoding.placeBasic
  cases hsolved : e.row.solveFor? x with
  | none => exact h.ledger
  | some solved =>
    have hmen : ∀ {y}, solved.Mentions y → y ≠ x ∧ e.row.Mentions y :=
      (Row.mentions_solveFor? hsolved).mp
    have hx : e.row.Mentions x := by
      obtain ⟨c, hc, -⟩ := Option.map_eq_some_iff.mp hsolved
      exact Row.mentions_iff.mpr ⟨c, hc⟩
    exact h.ledger.withTableau (h.ledger.tableau.enter (fun hxx => (hmen hxx).1 rfl)
      (fun y hy => h.free y (hmen hy).2) (h.row hx) fun hy => h.row (hmen hy).2)

omit [Scalar α] in
/-- The row may be made basic under the next symbol. -/
theorem Admitted.canonical_arm (h : Admitted P e) :
    (e.solver.tableau.arm ⟨e.solver.counter + 1, .slack⟩ e.row).Canonical := by
  have hnew : ∀ {x}, P x → x ≠ ⟨e.solver.counter + 1, .slack⟩ := fun hx =>
    (h.ledger.known _ hx).ne_of_lt (Nat.lt_succ_self _)
  exact h.ledger.tableau.canonical.arm h.free (fun hx => hnew (h.row hx) rfl)
    (fun b r hb hx => hnew (h.ledger.tableau.symbols.rows hb hx) rfl)
    fun hx => hnew (h.ledger.tableau.symbols.objective hx) rfl

/-- **Phase one**, however it ends, gives back a tidy tableau; one more number is given out. -/
theorem Admitted.placeArtificial (h : Admitted P e) (id : ConstraintId) :
    (e.placeArtificial id).solver.Ledger
      fun x => P x ∨ x = ⟨e.solver.counter + 1, .slack⟩ := by
  have hissue := h.ledger.issue (k := .slack) (by decide)
  have harm := h.canonical_arm
  set art : Symbol := ⟨e.solver.counter + 1, .slack⟩ with hart
  obtain ⟨hcan, hnone⟩ := harm.after_phaseOne e.solver.config.maxIterations
  have hover : (e.solver.tableau.phaseOne e.solver.config.maxIterations art e.row).tableau.Over
      fun x => P x ∨ x = art :=
    hissue.tableau.symbols.phaseOne (.inr rfl) (fun x hx => .inl (h.row hx)) _
  have hqueue : (e.solver.tableau.phaseOne e.solver.config.maxIterations art
      e.row).tableau.QueueOver fun x => P x ∨ x = art :=
    hissue.tableau.queue.phaseOne hissue.tableau.symbols (.inr rfl) (fun x hx => .inl (h.row hx)) _
  have hback : ({ e.solver.tableau with artificial := none } : Tableau α).Tidy
      fun x => P x ∨ x = art := by
    have htab : ({ e.solver.tableau with artificial := none } : Tableau α) = e.solver.tableau := by
      rw [← h.ledger.tableau.noArtificial]
    rw [htab]
    exact hissue.tableau
  unfold Encoding.placeArtificial
  dsimp only [newSymbol]
  split
  · exact hissue.withTableau ⟨hcan, hover, hqueue, hnone⟩
  · exact hissue.withTableau hback
  · exact hissue.withTableau hback
  · exact hissue.withTableau ⟨hcan, hover, hqueue, hnone⟩

/-- **Placing the row**, wherever it belongs. -/
theorem Admitted.place (h : Admitted P e) (id : ConstraintId) :
    ∃ Q, (e.place id).solver.Ledger Q ∧ ∀ x, e.tag.Has x → Q x := by
  unfold Encoding.place
  split
  · exact ⟨P, h.placeBasic _, h.tag⟩
  · exact ⟨P, h.ledger, h.tag⟩
  · exact ⟨_, h.placeArtificial id, fun x hx => .inl (h.tag x hx)⟩

section Unbroken

variable [Scalar.LawfulUnits α]

omit [Scalar.LawfulUnits α] in
/-- A row is solved for any symbol that it has. -/
theorem ok_placeBasic {x : Symbol} (hx : e.row.Mentions x) : (e.placeBasic x).outcome = .ok () := by
  obtain ⟨solved, hsolved⟩ := Row.exists_solveFor? hx
  unfold Encoding.placeBasic
  rw [hsolved]
  rfl

/-- Phase one is not broken off. -/
theorem Admitted.unbroken_placeArtificial (h : Admitted P e) (id : ConstraintId) :
    Unbroken (e.placeArtificial id).outcome := by
  obtain ⟨-, -, hout⟩ := h.canonical_arm.phaseOne e.solver.config.maxIterations
  unfold Encoding.placeArtificial
  dsimp only [newSymbol]
  rcases hout with ⟨b, hok⟩ | hlimit | hunbounded
  · rw [hok]
    cases b with
    | true => exact .inl rfl
    | false => exact .refused fun _ heq => by cases heq
  · rw [hlimit]
    exact .refused fun _ heq => by cases heq
  · rw [hunbounded]
    exact .inr ⟨_, rfl, nofun, nofun⟩

/-- **Placing is not broken off**: the subject is in the row, and else the marker is. -/
theorem Entered.unbroken_place (h : Entered P e) (id : ConstraintId) :
    Unbroken (e.place id).outcome := by
  unfold Encoding.place Encoding.placement
  cases hsub : e.subject? with
  | some x => exact .inl (ok_placeBasic (mentions_of_subject? hsub))
  | none =>
    dsimp only
    cases e.row.allDummies with
    | true =>
      rw [if_pos rfl]
      cases nearZero e.row.constant with
      | true => exact .inl (ok_placeBasic h.marker)
      | false => exact .refused fun _ heq => by cases heq
    | false => exact h.unbroken_placeArtificial id

end Unbroken

omit [Scalar α] in
/-- Listing a constraint whose tag is in the ledger. -/
theorem Ledger.record (h : s.Ledger P) (c : Constraint α) {tag : Tag}
    (htag : ∀ x, tag.Has x → P x) : (s.record c tag).solver.Ledger P :=
  { h with
    names := ⟨h.names.known, h.names.inj⟩
    tagged := Registry.forall_get?_insert h.tagged htag }

/-- **Adding a constraint** keeps the books. -/
theorem Ledger.after_add (h : s.Ledger P) (c : Constraint α) : ∃ Q, (s.add c).solver.Ledger Q := by
  unfold Solver.add
  split
  · exact ⟨P, h⟩
  · split
    · exact ⟨P, h⟩
    · obtain ⟨Q, hledger, htag⟩ := (h.admitted c).place c.id
      dsimp only
      cases hout : ((s.encode c).place c.id).outcome with
      | error halt =>
        rw [Reply.andThen_of_error hout, Reply.andThen_of_error hout]
        exact ⟨Q, hledger⟩
      | ok =>
        rw [Reply.andThen_of_ok hout, Reply.andThen_of_ok rfl]
        exact ⟨Q, (hledger.record c htag).after_optimize⟩

/-- **It is not broken off**, and if it succeeds the constraint is listed. -/
theorem Ledger.add [Scalar.LawfulUnits α] (h : s.Ledger P) (c : Constraint α) :
    (∃ Q, (s.add c).solver.Ledger Q) ∧ Unbroken (s.add c).outcome ∧
      ((s.add c).outcome = .ok () → ∃ r, (s.add c).solver.constraints.get? c.id = some r) := by
  refine ⟨h.after_add c, ?_⟩
  unfold Solver.add
  split
  · exact ⟨.refused (fun _ heq => by cases heq), fun hok => by cases hok⟩
  · split
    · exact ⟨.refused (fun _ heq => by cases heq), fun hok => by cases hok⟩
    · obtain ⟨R, hledger, htag⟩ := (h.admitted c).place c.id
      have hout := (h.encode c).unbroken_place c.id
      dsimp only
      generalize s.encode c = e at hledger htag hout ⊢
      rcases hout with hok | ⟨error, herr, hne⟩
      · rw [Reply.andThen_of_ok hok, Reply.andThen_of_ok rfl]
        refine ⟨(hledger.record c htag).optimize.2, fun _ => ⟨⟨e.tag, c.priority⟩, ?_⟩⟩
        exact (Registry.get?_insert _ _ _ _).trans (if_pos rfl)
      · rw [Reply.andThen_of_error herr, Reply.andThen_of_error herr]
        refine ⟨.inr ⟨error, herr, hne⟩, fun hok => ?_⟩
        rw [herr] at hok
        cases hok

/-! ## 4. Removing -/

omit [Scalar α] in
/-- A constraint less. -/
theorem Ledger.unlist (h : s.Ledger P) (id : ConstraintId) :
    ({ s with constraints := s.constraints.erase id } : Solver α).Ledger P :=
  { h with
    names := ⟨h.names.known, h.names.inj⟩
    tagged := Registry.forall_get?_erase h.tagged id }

/-- The tableau without the cost of a tag in the ledger. -/
theorem Ledger.uncharge (h : s.Ledger P) {r : ConstraintRecord} (hr : ∀ x, r.tag.Has x → P x) :
    ((s.tableau.uncharge r.tag.marker r.priority.weight).uncharge r.tag.other
      r.priority.weight).Tidy P := by
  have herror : ∀ x, (x = r.tag.marker ∨ x = r.tag.other) → x.isError → P x := by
    intro x hx herr
    refine hr x ⟨?_, hx⟩
    rintro rfl
    cases herr
  exact (h.tableau.uncharge r.priority.weight (herror _ (.inl rfl))).uncharge r.priority.weight
    (herror _ (.inr rfl))

/-- **Clearing a tag in the ledger** keeps the books. -/
theorem Ledger.after_clear (h : s.Ledger P) {r : ConstraintRecord}
    (hr : ∀ x, r.tag.Has x → P x) : (s.clear r).solver.Ledger P := by
  have htidy := h.uncharge hr
  unfold Solver.clear
  dsimp only
  split
  · rename_i ht
    exact h.withTableau (htidy.expel ht)
  · exact h.withTableau htidy

/-- It succeeds. -/
theorem ok_clear [Scalar.LawfulUnits α] (s : Solver α) (r : ConstraintRecord) :
    (s.clear r).outcome = .ok () := by
  obtain ⟨t, ht⟩ := Tableau.exists_expel ((s.tableau.uncharge r.tag.marker
    r.priority.weight).uncharge r.tag.other r.priority.weight) r.tag.marker
  unfold Solver.clear
  dsimp only
  rw [ht]
  rfl

/-- **Removing a constraint** keeps the books. -/
theorem Ledger.after_remove (h : s.Ledger P) (c : Constraint α) :
    (s.remove c).solver.Ledger P := by
  unfold Solver.remove
  cases hr : s.constraints.get? c.id with
  | none => exact h
  | some r =>
    have hcleared := (h.unlist c.id).after_clear (h.tagged c.id r hr)
    exact andThen_keeps (P := (·.Ledger P)) (andThen_keeps hcleared fun _ => id)
      fun _ hu => hu.after_optimize

/-- It is not broken off. -/
theorem Ledger.remove [Scalar.LawfulUnits α] (h : s.Ledger P) (c : Constraint α) :
    (s.remove c).solver.Ledger P ∧ Unbroken (s.remove c).outcome := by
  refine ⟨h.after_remove c, ?_⟩
  unfold Solver.remove
  cases hr : s.constraints.get? c.id with
  | none => exact .refused fun _ heq => by cases heq
  | some r =>
    have hcleared := (h.unlist c.id).after_clear (h.tagged c.id r hr)
    dsimp only
    rw [Reply.andThen_of_ok (ok_clear _ r), Reply.andThen_of_ok rfl]
    exact hcleared.optimize.2

/-! ## 5. Editing -/

omit [Scalar α] in
/-- Listing an edit whose tag is in the ledger. -/
theorem Ledger.insertEdit (h : s.Ledger P) (v : Variable) {d : Edit α}
    (hd : ∀ x, d.tag.Has x → P x) :
    ({ s with edits := s.edits.insert v d } : Solver α).Ledger P :=
  { h with
    names := ⟨h.names.known, h.names.inj⟩
    edited := Registry.forall_get?_insert h.edited hd }

omit [Scalar α] in
/-- An edit less. -/
theorem Ledger.eraseEdit (h : s.Ledger P) (v : Variable) :
    ({ s with edits := s.edits.erase v } : Solver α).Ledger P :=
  { h with
    names := ⟨h.names.known, h.names.inj⟩
    edited := Registry.forall_get?_erase h.edited v }

/-- Recording an edit: its tag is that of a constraint. -/
theorem Ledger.recordEdit (h : s.Ledger P) (c : Constraint α) (v : Variable) :
    (s.recordEdit c v).solver.Ledger P := by
  unfold Solver.recordEdit
  split
  · exact h
  · rename_i r hr
    exact h.insertEdit v (h.tagged c.id r hr)

/-- **Suggesting a value** keeps the books. -/
theorem Ledger.suggest (h : s.Ledger P) (v : Variable) (x : α) :
    (s.suggest v x).solver.Ledger P ∧ Unbroken (s.suggest v x).outcome := by
  unfold Solver.suggest
  cases hd : s.edits.get? v with
  | none => exact ⟨h, .inl rfl⟩
  | some d =>
    have hedit := h.insertEdit v (d := { d with constant := x }) (h.edited v d hd)
    exact (hedit.withTableau (h.tableau.shift d.tag (x - d.constant))).repair

section Unbroken

variable [Scalar.LawfulUnits α]

/-- An edit that could not be begun is answered with the reason. -/
theorem Ledger.outcome_abandonEdit (h : s.Ledger P) (c : Constraint α) (v : Variable)
    (e : SolverError) : (s.abandonEdit c v e).outcome = .error (.refused e) := by
  unfold Solver.abandonEdit
  split
  · obtain ⟨-, hok | ⟨error, herr, -⟩⟩ := h.remove c
    · dsimp only
      rw [hok]
    · dsimp only
      rw [herr]
  · rfl

/-- **Beginning an edit** is not broken off: the constraint that was added is listed. -/
theorem Ledger.unbroken_addEdit (h : s.Ledger P) (id : ConstraintId) (v : Variable)
    (p : Priority) : Unbroken (s.addEdit id v p).outcome := by
  unfold Solver.addEdit
  cases hrefuse : s.editRefusal? v p with
  | some error =>
    refine .inr ⟨error, rfl, ?_⟩
    unfold editRefusal? at hrefuse
    split at hrefuse
    · cases hrefuse
      exact ⟨nofun, nofun⟩
    · split at hrefuse
      · cases hrefuse
        exact ⟨nofun, nofun⟩
      · cases hrefuse
  | none =>
    dsimp only
    generalize (editConstraint id v p : Constraint α) = c
    obtain ⟨⟨Q, hQ⟩, hok | ⟨error, herr, hne⟩, hlisted⟩ := h.add c
    · obtain ⟨r, hr⟩ := hlisted hok
      rw [hok]
      dsimp only
      rw [Reply.outcome_after, Solver.recordEdit, hr]
      exact .inl rfl
    · rw [herr]
      exact .inr ⟨error, hQ.outcome_abandonEdit c v error, hne⟩

/-- **Ending an edit** is not broken off. -/
theorem Ledger.unbroken_removeEdit (h : s.Ledger P) (v : Variable) :
    Unbroken (s.removeEdit v).outcome := by
  unfold Solver.removeEdit
  cases s.edits.get? v with
  | none => exact .refused fun _ heq => by cases heq
  | some d =>
    obtain ⟨-, hout⟩ := (h.eraseEdit v).remove d.constraint
    dsimp only
    rcases hout with hok | ⟨error, herr, hne⟩
    · rw [Reply.andThen_of_ok hok]
      exact .inl rfl
    · rw [Reply.andThen_of_error herr]
      exact .inr ⟨error, herr, hne⟩

end Unbroken

/-! ## 6. Any call -/

/-- **Every call keeps the books**, whatever the arithmetic. -/
theorem Ledger.after_perform (h : s.Ledger P) (c : Call α) :
    ∃ Q, (s.perform c).solver.Ledger Q := by
  by_cases hc : c = .reset
  · subst hc
    exact ⟨_, ledger_new s.config⟩
  · exact perform_keeps (P := fun u => ∃ Q, u.Ledger Q) (fun _ c ⟨_, hQ⟩ => hQ.after_add c)
      (fun _ c ⟨Q, hQ⟩ => ⟨Q, hQ.after_remove c⟩) (fun _ c v ⟨Q, hQ⟩ => ⟨Q, hQ.recordEdit c v⟩)
      (fun _ v ⟨Q, hQ⟩ => ⟨Q, hQ.eraseEdit v⟩) (fun _ v x ⟨Q, hQ⟩ => ⟨Q, (hQ.suggest v x).1⟩)
      ⟨P, h⟩ hc

/-- **Every call keeps the books and is not broken off.** -/
theorem Ledger.perform [Scalar.LawfulUnits α] (h : s.Ledger P) (c : Call α) :
    (∃ Q, (s.perform c).solver.Ledger Q) ∧ Unbroken (s.perform c).outcome := by
  refine ⟨h.after_perform c, ?_⟩
  have hadd : ∀ (u : Solver α) (c : Constraint α), True → (∃ Q, u.Ledger Q) →
      (∃ Q, (u.add c).solver.Ledger Q) ∧ Unbroken (u.add c).outcome :=
    fun u c _ ⟨Q, hQ⟩ => ⟨(hQ.add c).1, (hQ.add c).2.1⟩
  have hremove : ∀ (u : Solver α) (c : Constraint α), True → (∃ Q, u.Ledger Q) →
      (∃ Q, (u.remove c).solver.Ledger Q) ∧ Unbroken (u.remove c).outcome :=
    fun u c _ ⟨Q, hQ⟩ => ⟨⟨Q, (hQ.remove c).1⟩, (hQ.remove c).2⟩
  have hall : ∀ cs : List (Constraint α), ∀ c ∈ cs, True := fun _ _ _ => trivial
  cases c with
  | add c => exact (h.add c).2.1
  | remove c => exact (h.remove c).2
  | addAll cs => exact batch_outcome (.inl rfl) hadd hremove (hall cs) (hall []) ⟨P, h⟩
  | removeAll cs => exact batch_outcome (.inl rfl) hremove hadd (hall cs) (hall []) ⟨P, h⟩
  | edit id v p => exact h.unbroken_addEdit id v p
  | unedit v => exact h.unbroken_removeEdit v
  | suggest v x => exact (h.suggest v x).2
  | reset => exact .inl rfl

end Solver

/-- **The states that calls lead to**, any calls, however they ended. -/
inductive Attained : Solver α → Prop
  | new (config : SolverConfig) : Attained (.new config)
  | call {s : Solver α} (c : Call α) (h : Attained s) : Attained (s.perform c).solver

namespace Attained

variable {s : Solver α}

/-- **Every state has a ledger**, whatever the arithmetic. -/
theorem exists_ledger (h : Attained s) : ∃ P, s.Ledger P := by
  induction h with
  | new config => exact ⟨_, Solver.ledger_new config⟩
  | call c _ ih =>
    obtain ⟨P, hP⟩ := ih
    exact hP.after_perform c

variable [Scalar.LawfulUnits α]

/-- **The books are in order between any two calls, and no call is broken off**, whatever the
arithmetic. -/
theorem intact_and_unbroken (h : Attained s) :
    s.Intact ∧ ∀ c : Call α, Unbroken (s.perform c).outcome := by
  obtain ⟨P, hP⟩ := h.exists_ledger
  exact ⟨hP.intact, fun c => (hP.perform c).2⟩

end Attained

/-- The bound `v >= 2`, with a tolerance. -/
def tolerantBound : Constraint Tolerant :=
  ⟨⟨0⟩, ⟨[.ofVariable ⟨0⟩], Scalar.ofInt (-2)⟩, .atLeast, .required⟩

/-- Exactly, and with a tolerance: the one row is that of `v`, over the slack of the bound. -/
theorem intact_of_bound :
    (pulled.Intact ∧ ∀ c, Unbroken (pulled.perform c).outcome) ∧
      let s := ((Solver.new : Solver Tolerant).perform (.add tolerantBound)).solver
      s.tableau.rows.keys = [⟨1, .external⟩] ∧ s.Intact ∧ ∀ c, Unbroken (s.perform c).outcome := by
  have hpulled : Attained pulled := .call _ (.call _ (.call _ (.new {})))
  exact ⟨hpulled.intact_and_unbroken, by decide +kernel,
    (Attained.call _ (.new {})).intact_and_unbroken⟩

end IncrementalSimplex
