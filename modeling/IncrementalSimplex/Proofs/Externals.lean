/-
# Where the symbols of variables occur

The symbol of a variable is EXTERNAL: it may take any sign, so neither a ratio test nor the test for a
minimum may meet one.  They do not, because an external symbol is in rows of external symbols only.  A
row of a restricted symbol, the objective, and during phase one the artificial objective are free of
them (`Tableau.ExternalFree`).

**At the return of a call** this is part of what every reached state has (`Solver.Sound`).  The one
operation that could break it is the removal of a constraint: if its marker is in rows of variables
only, it is exchanged with one of these, and what it equals then is full of external symbols.  By then
its cost was taken out of the objective, and without a cost it has no cell there, so the expression
goes into rows of variables alone.

**During phase one** there is no return of a call to speak of, so the tableaus are named: `InPhaseOne`
are those that the pass of phase one goes through while a constraint is added in some state.  That
these are all is said by `inPhaseOne_of_place`: the pivots that placing a row reports visit no other
tableau.  And the states are named in which a call comes to add one.  For an addition and an edit that
is the state of the call.  A batch of additions goes on from where the last one ended, and a batch of
removals adds when it takes back what it removed (`Adds`).  That these are all is said by
`batch_congr`: a batch depends on its two operations at the places listed and nowhere else.
-/
import IncrementalSimplex.Proofs.Calls
import IncrementalSimplex.Proofs.Termination

namespace IncrementalSimplex

namespace Solver

/-! ## 1. What a batch comes to -/

section Batches

variable {α : Type} {apply undo apply' undo' : Solver α → Constraint α → Reply α}

/-- Undoing a list from a state comes to undoing `d` in the state `u`. -/
inductive Undoes (undo : Solver α → Constraint α → Reply α) :
    List (Constraint α) → Solver α → Constraint α → Solver α → Prop
  | here {c : Constraint α} {rest : List (Constraint α)} {s : Solver α} :
      Undoes undo (c :: rest) s c s
  | next {c d : Constraint α} {rest : List (Constraint α)} {s u : Solver α}
      (hgo : ∀ x, (undo s c).outcome ≠ .error (.absentSymbol x))
      (h : Undoes undo rest (undo s c).solver d u) : Undoes undo (c :: rest) s d u

/-- A batch comes to applying `d` in the state `u`. -/
inductive Applies (apply : Solver α → Constraint α → Reply α) :
    List (Constraint α) → Solver α → Constraint α → Solver α → Prop
  | here {c : Constraint α} {rest : List (Constraint α)} {s : Solver α} :
      Applies apply (c :: rest) s c s
  | next {c d : Constraint α} {rest : List (Constraint α)} {s u : Solver α}
      (hok : (apply s c).outcome = .ok ()) (h : Applies apply rest (apply s c).solver d u) :
      Applies apply (c :: rest) s d u

/-- A batch with some steps behind it is refused, and comes to undoing `d` in the state `u`. -/
inductive TakesBack (apply undo : Solver α → Constraint α → Reply α) :
    List (Constraint α) → List (Constraint α) → Solver α → Constraint α → Solver α → Prop
  | next {applied rest : List (Constraint α)} {c d : Constraint α} {s u : Solver α}
      (hok : (apply s c).outcome = .ok ())
      (h : TakesBack apply undo (c :: applied) rest (apply s c).solver d u) :
      TakesBack apply undo applied (c :: rest) s d u
  | stop {applied rest : List (Constraint α)} {c d : Constraint α} {s u : Solver α}
      {e : SolverError} (hstop : (apply s c).outcome = .error (.refused e))
      (h : Undoes undo applied (apply s c).solver d u) :
      TakesBack apply undo applied (c :: rest) s d u

theorem undoAll_congr : ∀ {cs : List (Constraint α)} {s : Solver α},
    (∀ d u, Undoes undo cs s d u → undo' u d = undo u d) →
      undoAll undo' cs s = undoAll undo cs s
  | [], _, _ => rfl
  | c :: rest, s, h => by
    have hrest : (∀ x, (undo s c).outcome ≠ .error (.absentSymbol x)) →
        undoAll undo' rest (undo s c).solver = undoAll undo rest (undo s c).solver :=
      fun hgo => undoAll_congr fun d u hd => h d u (.next hgo hd)
    have hc := h c s .here
    cases hout : (undo s c).outcome with
    | ok =>
      rw [undoAll_cons_ok hout, undoAll_cons_ok (hc ▸ hout), hc, hrest (by simp [hout])]
    | error halt =>
      cases halt with
      | refused e =>
        rw [undoAll_cons_refused hout, undoAll_cons_refused (hc ▸ hout), hc,
          hrest (by simp [hout])]
      | absentSymbol x => rw [undoAll_cons_absent hout, undoAll_cons_absent (hc ▸ hout), hc]

/-- **A batch depends on its two operations only where it comes to them.** -/
theorem batch_congr : ∀ {cs applied : List (Constraint α)} {s : Solver α},
    (∀ d u, Applies apply cs s d u → apply' u d = apply u d) →
    (∀ d u, TakesBack apply undo applied cs s d u → undo' u d = undo u d) →
      batch apply' undo' applied cs s = batch apply undo applied cs s
  | [], _, _, _, _ => rfl
  | c :: rest, applied, s, happly, hundo => by
    have hc := happly c s .here
    cases hout : (apply s c).outcome with
    | ok =>
      rw [batch_cons_ok hout, batch_cons_ok (hc ▸ hout), hc,
        batch_congr (fun d u hd => happly d u (.next hout hd))
          fun d u hd => hundo d u (.next hout hd)]
    | error halt =>
      cases halt with
      | refused e =>
        rw [batch_cons_refused hout, batch_cons_refused (hc ▸ hout), hc,
          undoAll_congr fun d u hd => hundo d u (.stop hout hd)]
      | absentSymbol x => rw [batch_cons_absent hout, batch_cons_absent (hc ▸ hout), hc]

variable {P : Solver α → Prop} {Q : Constraint α → Prop}

/-- What the steps keep holds wherever undoing comes to. -/
theorem Undoes.holds (hundo : ∀ s c, Q c → P s → P (undo s c).solver) {cs : List (Constraint α)}
    {s u : Solver α} {d : Constraint α} (h : Undoes undo cs s d u) (hcs : ∀ c ∈ cs, Q c)
    (hs : P s) : P u := by
  induction h with
  | here => exact hs
  | @next c d rest s u _ _ ih =>
    exact ih (fun a ha => hcs a (List.mem_cons_of_mem c ha))
      (hundo s c (hcs c List.mem_cons_self) hs)

/-- What the steps keep holds wherever a batch comes to ... -/
theorem Applies.holds (happly : ∀ s c, Q c → P s → P (apply s c).solver)
    {cs : List (Constraint α)} {s u : Solver α} {d : Constraint α} (h : Applies apply cs s d u)
    (hcs : ∀ c ∈ cs, Q c) (hs : P s) : P u := by
  induction h with
  | here => exact hs
  | @next c d rest s u _ _ ih =>
    exact ih (fun a ha => hcs a (List.mem_cons_of_mem c ha))
      (happly s c (hcs c List.mem_cons_self) hs)

/-- ... also where it takes its steps back. -/
theorem TakesBack.holds (happly : ∀ s c, Q c → P s → P (apply s c).solver)
    (hundo : ∀ s c, Q c → P s → P (undo s c).solver) {applied cs : List (Constraint α)}
    {s u : Solver α} {d : Constraint α} (h : TakesBack apply undo applied cs s d u)
    (hcs : ∀ c ∈ cs, Q c) (happlied : ∀ c ∈ applied, Q c) (hs : P s) : P u := by
  induction h with
  | @next applied rest c d s u _ _ ih =>
    have hc := hcs c List.mem_cons_self
    refine ih (fun a ha => hcs a (List.mem_cons_of_mem c ha)) (fun a ha => ?_)
      (happly s c hc hs)
    rcases List.mem_cons.mp ha with rfl | ha
    · exact hc
    · exact happlied a ha
  | @stop applied rest c d s u e _ h =>
    exact h.holds hundo happlied (happly s c (hcs c List.mem_cons_self) hs)

end Batches

/-! ## 2. Where a call adds a constraint -/

/-- **Carrying out a call in `s` comes to adding `c` in the state `u`.** -/
inductive Adds {α : Type} [Scalar α] (s : Solver α) : Call α → Constraint α → Solver α → Prop
  | add (c : Constraint α) : Adds s (.add c) c s
  | addAll {cs : List (Constraint α)} {c : Constraint α} {u : Solver α}
      (h : Applies Solver.add cs s c u) : Adds s (.addAll cs) c u
  | removeAll {cs : List (Constraint α)} {c : Constraint α} {u : Solver α}
      (h : TakesBack Solver.remove Solver.add [] cs s c u) : Adds s (.removeAll cs) c u
  | edit {id : ConstraintId} {v : Variable} {p : Priority} (h : s.editRefusal? v p = none) :
      Adds s (.edit id v p) (editConstraint id v p) s

/-- **A call in a faithful state adds in faithful states only**, a batch that is taken back
included. -/
theorem Adds.faithful {book : ConstraintId → Origin} {s u : Solver ℚ} {call : Call ℚ}
    {c : Constraint ℚ} (h : s.Adds call c u) (hcall : call.Lawful book s) (hs : s.Faithful book) :
    u.Faithful book := by
  have hadd : ∀ (u : Solver ℚ) (c : Constraint ℚ), book c.id = .written c.form →
      u.Faithful book → (u.add c).solver.Faithful book := fun _ _ hc hu => (hu.add hc).1
  have hremove : ∀ (u : Solver ℚ) (c : Constraint ℚ), book c.id = .written c.form →
      u.Faithful book → (u.remove c).solver.Faithful book := fun _ _ hc hu => (hu.remove hc).1
  cases h with
  | add => exact hs
  | addAll h => exact h.holds hadd hcall hs
  | removeAll h => exact h.holds hremove hadd hcall (by simp) hs
  | edit => exact hs

/-! ## 3. Phase one -/

/-- **A tableau of phase one**: the pass that drives the artificial symbol out goes through it when
`c` is added to `s`. -/
def InPhaseOne {α : Type} [Scalar α] (s : Solver α) (c : Constraint α) (t : Tableau α) : Prop :=
  let e := s.encode c
  e.placement = .artificial ∧
    Tableau.PrimalRun .artificial (e.solver.tableau.arm ⟨e.solver.counter + 1, .slack⟩ e.row) t

/-- **Placing a row goes through no other tableaus.**  If the row of `c` needs an artificial symbol,
the events of placing it begin with the pivots of phase one, and the tableaus that these visit are
those named. -/
theorem inPhaseOne_of_place {α : Type} [Scalar α] {s : Solver α} {c : Constraint α}
    (h : (s.encode c).placement = .artificial) (id : ConstraintId) :
    let e := s.encode c
    let (fresh, art) := e.solver.newSymbol .slack
    let pass := fresh.tableau.phaseOne fresh.config.maxIterations art e.row
    pass.pivots.map .pivoted <+: (e.place id).events ∧
      ∀ t ∈ (fresh.tableau.arm art e.row).visited pass.pivots, s.InPhaseOne c t := by
  intro e
  dsimp only [newSymbol]
  constructor
  · have hplace : e.place id = e.placeArtificial id := by
      simp only [Encoding.place, e, h]
    rw [hplace]
    unfold Encoding.placeArtificial
    dsimp only [newSymbol]
    split
    · exact List.prefix_refl _
    · exact List.prefix_append _ _
    · exact List.prefix_append _ _
    · exact List.prefix_refl _
  · intro t ht
    rw [Tableau.pivots_phaseOne] at ht
    exact ⟨h, (Tableau.traced_minimize _ _ _).mem t ht⟩

/-- What goes through phase one has no subject to solve it for. -/
theorem subject?_eq_none_of_artificial {α : Type} [Scalar α] {e : Encoding α}
    (h : e.placement = .artificial) : e.subject? = none := by
  unfold Encoding.placement at h
  split at h
  · cases h
  · assumption

/-- **Phase one keeps external symbols out of restricted rows and of both objectives**, from the
tableau it starts with to the one its pass ends with. -/
theorem Sound.externalFree_phaseOne {forms : ConstraintId → Form} {s : Solver ℚ}
    (h : s.Sound forms) {c : Constraint ℚ} {t : Tableau ℚ} (ht : s.InPhaseOne c t) :
    t.ExternalFree ∧ t.artificial.isSome := by
  obtain ⟨hplacement, hrun⟩ := ht
  have heq := equation_encode h.names h.presents.toCanonical h.numbered c
  have hins := heq.insertable
    (externalFree_of_subject?_eq_none (subject?_eq_none_of_artificial hplacement))
  have harmed := (heq.presents h.presents).toSound.arm hins
  have hstep : ∀ u v : Tableau ℚ, u.ExternalFree ∧ u.artificial.isSome →
      Tableau.PrimalStep .artificial u v → v.ExternalFree ∧ v.artificial.isSome := by
    rintro u v ⟨hu, hart⟩ hs
    refine ⟨hs.externalFree hu, ?_⟩
    obtain ⟨-, -, -, hv⟩ := hs
    obtain ⟨row, solved, -, -, rfl⟩ := Tableau.pivot_cases hv
    exact Option.isSome_map.trans hart
  exact Tableau.keeps hstep hrun ⟨harmed.externalFree, rfl⟩

end Solver

/-! ## 4. Reached states -/

/-- **External symbols stay among themselves.**  In every reached state, that is at the return of
every call of every course, no row of a restricted symbol has a cell for an external one, and neither
has the objective.  And wherever a call from there comes to adding a constraint, the same holds of
every tableau that phase one goes through and of the artificial objective, which is there. -/
theorem Reached.externals_apart {book : ConstraintId → Origin} {s : Solver ℚ} {τ : Variable → ℚ}
    (h : Reached book (fun _ _ => True) s τ) :
    s.tableau.ExternalFree ∧
      ∀ call, call.Lawful book s → ∀ c u, s.Adds call c u → ∀ t, u.InPhaseOne c t →
        t.ExternalFree ∧ t.artificial.isSome := by
  have hfaithful := h.faithful.1
  refine ⟨hfaithful.sound.presents.externalFree, fun call hcall c u hadds t ht => ?_⟩
  exact (hadds.faithful hcall hfaithful).sound.externalFree_phaseOne ht

/-- `v >= 3`, required. -/
def atLeastThree : Constraint ℚ := ⟨⟨1⟩, ⟨[.ofVariable ⟨0⟩], -3⟩, .atLeast, .required⟩

/-- The book of a course that raises the bound of `v`. -/
def raisedBook (id : ConstraintId) : Origin :=
  if id = ⟨0⟩ then .written atLeastTwo.form else .written atLeastThree.form

/-- The tableau from which phase one starts when the bound is raised. -/
def raising : Tableau ℚ :=
  let e := pulledBegun.encode atLeastThree
  e.solver.tableau.arm ⟨e.solver.counter + 1, .slack⟩ e.row

/-- The first bound leaves a row of `v` over its slack.  A batch of both goes through phase one with
the second, in the state that the first one leaves. -/
theorem raising_externals_apart :
    Reached raisedBook (fun _ _ => True) .new (fun _ => 0) ∧
      Reached raisedBook (fun _ _ => True) pulledBegun (fun _ => 0) ∧
      pulledBegun.tableau.rows.keys = [⟨1, .external⟩] ∧ pulledBegun.tableau.ExternalFree ∧
      Call.Lawful raisedBook .new (.addAll [atLeastTwo, atLeastThree]) ∧
      (Solver.new : Solver ℚ).Adds (.addAll [atLeastTwo, atLeastThree]) atLeastThree pulledBegun ∧
      pulledBegun.InPhaseOne atLeastThree raising ∧
      raising.rows.keys = [⟨1, .external⟩, ⟨4, .slack⟩] ∧ raising.ExternalFree ∧
      raising.artificial.map (·.cells.keys) = some [⟨2, .slack⟩, ⟨3, .slack⟩] := by
  have hnew : Reached raisedBook (fun _ _ => True) .new (fun _ => 0) := .new {}
  have hbegun : Reached raisedBook (fun _ _ => True) pulledBegun (fun _ => 0) :=
    .call (.add atLeastTwo) hnew rfl trivial
  have hlawful : Call.Lawful raisedBook .new (.addAll [atLeastTwo, atLeastThree]) := by
    intro c hc
    rcases List.mem_cons.mp hc with rfl | hc
    · rfl
    · rw [List.mem_singleton.mp hc]
      rfl
  have hfirst : ((Solver.new : Solver ℚ).add atLeastTwo).outcome = .ok () := by decide +kernel
  have hadds : (Solver.new : Solver ℚ).Adds (.addAll [atLeastTwo, atLeastThree]) atLeastThree
      pulledBegun := .addAll (.next hfirst .here)
  have hphase : pulledBegun.InPhaseOne atLeastThree raising := ⟨by decide +kernel, .refl⟩
  obtain ⟨hrows, -⟩ := hbegun.externals_apart
  obtain ⟨-, hphases⟩ := hnew.externals_apart
  obtain ⟨hraising, -⟩ := hphases _ hlawful _ _ hadds _ hphase
  exact ⟨hnew, hbegun, by decide +kernel, hrows, hlawful, hadds, hphase, by decide +kernel, hraising,
    by decide +kernel⟩

end IncrementalSimplex
