/-
# What an addition leaves behind, answer by answer

An addition changes the state before it knows its answer: it gives out numbers, it gives symbols to
variables, it charges errors to the objective, and in phase one it may make any number of pivots.
The tableau is put back when phase one fails, and it is the tableau from AFTER the encoding that is
put back.  So a caller who holds an error has reason to ask what is left.

`AddEnd` has one constructor for each answer:

* the constraint is `Enlisted`: it is at the end of the list with its priority and a tag that was in
  use nowhere, and the entries of the others and the edits are what they were;
* the solver is `Restored`: it is the old one but for numbers given out and symbols given to
  variables, and these are exactly the variables of the constraint that were not met before
  (`entries_symbols_encode`).

**Why the tableau that is put back is the old one.**  A soft constraint never fails to be placed
(`Ledger.place_of_soft`), so a refusal concerns a required one, and encoding a required constraint
charges nothing (`Encoded.unpaid`).

**Where an error leaves the constraint live.**  Once the row is placed the constraint is recorded,
and the minimization that follows may be cut short.  Such an error does not say by itself whether
the constraint is live; `Solver.has` does.
-/
import IncrementalSimplex.Proofs.Rejection
import IncrementalSimplex.Proofs.Rollback

namespace IncrementalSimplex

variable {α : Type} [Scalar α]

/-! ## 1. Variables met for the first time -/

namespace Solver

/-- **The variables that terms bring in**, beyond those already met: each once, in the order in
which they first count. -/
def newcomers (met : List Variable) : List (Term α) → List Variable
  | [] => []
  | t :: ts =>
    if nearZero t.coefficient ∨ t.var ∈ met then newcomers met ts
    else t.var :: newcomers (met ++ [t.var]) ts

/-- External symbols for variables, under the numbers from `n + 1` on. -/
def naming (n : Nat) : List Variable → List (Variable × Symbol)
  | [] => []
  | v :: vs => (v, ⟨n + 1, .external⟩) :: naming (n + 1) vs

/-- The symbols of a naming are external and have later numbers. -/
theorem of_mem_naming {v : Variable} {x : Symbol} : ∀ {n : Nat} {vs : List Variable},
    (v, x) ∈ naming n vs → n < x.id ∧ x.isExternal
  | _, [], h => by cases h
  | n, _ :: vs, h => by
    rcases List.mem_cons.mp h with heq | h
    · cases heq
      exact ⟨Nat.lt_succ_self n, rfl⟩
    · obtain ⟨hlt, hext⟩ := of_mem_naming h
      exact ⟨Nat.lt_of_succ_lt hlt, hext⟩

/-- **What a term does to the solver**: nothing, or its variable gets the next symbol. -/
theorem fst_encodeTerm (acc : Solver α × Row α) (t : Term α) :
    (encodeTerm acc t).1 =
      if nearZero t.coefficient ∨ t.var ∈ acc.1.symbols.keys then acc.1
      else { acc.1 with
        counter := acc.1.counter + 1
        symbols := acc.1.symbols.insert t.var ⟨acc.1.counter + 1, .external⟩ } := by
  unfold encodeTerm
  by_cases hzero : nearZero t.coefficient = true
  · rw [if_pos hzero, if_pos (.inl hzero)]
  · -- what the symbol adds to the row is no matter
    rw [if_neg hzero]
    suffices hsymbol : (acc.1.symbolOf t.var).1 = _ by
      dsimp only
      split <;> exact hsymbol
    unfold symbolOf
    cases hget : acc.1.symbols.get? t.var with
    | some x =>
      rw [if_pos (.inr (Registry.mem_keys_iff.mpr (by rw [hget]; rfl)))]
    | none =>
      have hnot : t.var ∉ acc.1.symbols.keys := by
        intro hmem
        have hsome := Registry.mem_keys_iff.mp hmem
        rw [hget] at hsome
        cases hsome
      rw [if_neg (not_or.mpr ⟨hzero, hnot⟩)]
      rfl

/-- **What terms do to the names**: the newcomers are listed at the end, in order. -/
theorem entries_symbols_foldl (ts : List (Term α)) (acc : Solver α × Row α) :
    (ts.foldl encodeTerm acc).1.symbols.entries =
      acc.1.symbols.entries ++ naming acc.1.counter (newcomers acc.1.symbols.keys ts) := by
  induction ts generalizing acc with
  | nil => exact (List.append_nil _).symm
  | cons t ts ih =>
    rw [List.foldl_cons, ih, fst_encodeTerm, newcomers]
    split
    · rfl
    · rename_i hnot
      have hnew : acc.1.symbols.get? t.var = none := by
        have := (not_or.mp hnot).2
        rwa [Registry.mem_keys_iff, Option.not_isSome_iff_eq_none] at this
      have hentries := Registry.entries_insert_of_new hnew (⟨acc.1.counter + 1, .external⟩ : Symbol)
      have hkeys : (acc.1.symbols.insert t.var ⟨acc.1.counter + 1, .external⟩).keys =
          acc.1.symbols.keys ++ [t.var] := by
        rw [Registry.keys, hentries, List.map_append]
        rfl
      rw [hkeys, hentries, List.append_assoc]
      rfl

/-- **The names after encoding a constraint.** -/
theorem entries_symbols_encode (s : Solver α) (c : Constraint α) :
    (s.encode c).solver.symbols.entries =
      s.symbols.entries ++ naming s.counter (newcomers s.symbols.keys c.expression.terms) := by
  have hterms := entries_symbols_foldl c.expression.terms (s, .ofConstant c.expression.constant)
  have hrelation := (tagged_encodeRelation (s.encodeTerms c.expression).1
    (s.encodeTerms c.expression).2 c.priority c.relation).symbols
  refine Eq.trans ?_ ((congrArg Registry.entries hrelation).trans hterms)
  unfold encode
  dsimp only
  split <;> rfl

end Solver

/-! ## 2. Why a row is refused -/

/-- **An error of a pass**: it ran out of pivots or into a fault. -/
def SolverError.FromPass (e : SolverError) : Prop :=
  (∃ limit, e = .iterationLimit limit) ∨ ∃ fault, e = .internal fault

/-- Taking the artificial symbol out is not refused. -/
theorem Tableau.retire_ne_refused (t : Tableau α) (art : Symbol) (driven : Bool)
    (e : SolverError) : (t.retire art driven).outcome ≠ .error (.refused e) := by
  unfold retire
  split
  · exact nofun
  · dsimp only
    split
    · exact nofun
    · split
      · exact nofun
      · split <;> exact nofun

/-- Phase one is refused only by its pass. -/
theorem Tableau.fromPass_of_phaseOne {t : Tableau α} {limit : Nat} {art : Symbol} {row : Row α}
    {e : SolverError} (h : (t.phaseOne limit art row).outcome = .error (.refused e)) :
    e.FromPass := by
  cases hout : ((t.arm art row).minimize limit .artificial).outcome with
  | ok =>
    rw [(phaseOne_of_ok rfl hout).1] at h
    exact absurd h (retire_ne_refused _ _ _ _)
  | error halt =>
    rw [(phaseOne_of_error hout).1] at h
    cases h
    obtain ⟨last, -, hend⟩ := minimizeWithin_run limit .artificial limit (t.arm art row)
    exact hend.refused hout

/-- A row that is refused has no subject, and so no symbol of a variable. -/
theorem Encoding.externalFree_of_place {e : Encoding α} {id : ConstraintId} {err : SolverError}
    (h : (e.place id).outcome = .error (.refused err)) : e.row.ExternalFree := by
  cases hsubject : e.subject? with
  | none => exact Solver.externalFree_of_subject?_eq_none hsubject
  | some x =>
    rw [place, placement, hsubject] at h
    dsimp only at h
    unfold placeBasic at h
    split at h <;> cases h

/-- **A row is refused** because it contradicts what is there, or by a pass that failed. -/
theorem Encoding.reason_of_place {e : Encoding α} {id : ConstraintId} {err : SolverError}
    (h : (e.place id).outcome = .error (.refused err)) :
    err = .unsatisfiableConstraint id ∨ err.FromPass := by
  unfold place at h
  split at h
  · unfold placeBasic at h
    split at h <;> cases h
  · cases h
    exact .inl rfl
  · unfold placeArtificial at h
    dsimp only [Solver.newSymbol] at h
    split at h
    · cases h
    · cases h
      exact .inl rfl
    · rename_i hout
      cases h
      exact .inr (Tableau.fromPass_of_phaseOne hout)
    · cases h

namespace Solver

/-! ## 3. What is left -/

/-- **The solver is the old one**, but for numbers given out and names given to the variables of `c`
that were not met before.  In particular it has the old rows, objective, queue, constraints and
edits. -/
structure Restored (s : Solver α) (c : Constraint α) (u : Solver α) : Prop where
  rest : u = { s with counter := u.counter, symbols := u.symbols }
  noArtificial : u.tableau.artificial = none
  counter : s.counter ≤ u.counter
  symbols : u.symbols.entries =
    s.symbols.entries ++ naming s.counter (newcomers s.symbols.keys c.expression.terms)

/-- **The constraint is live**, at the end of the list, with its priority and a tag of symbols that
were in use nowhere; all other entries and the edits are what they were. -/
structure Enlisted (s : Solver α) (c : Constraint α) (tag : Tag) (u : Solver α) : Prop where
  live : u.constraints.get? c.id = some ⟨tag, c.priority⟩
  marker : tag.Has tag.marker
  fresh : ∀ x, tag.Has x → s.counter < x.id ∧ ¬ s.Holds x
  others : ∀ id, id ≠ c.id → u.constraints.get? id = s.constraints.get? id
  order : u.constraints.keys = s.constraints.keys ++ [c.id]
  edits : u.edits = s.edits

/-- **How an addition ends**: the solver that it leaves, and its answer. -/
inductive AddEnd (s : Solver α) (c : Constraint α) (u : Solver α) : Except Halt Unit → Prop
  | added {tag : Tag} (h : s.Enlisted c tag u) : AddEnd s c u (.ok ())
  | duplicate (hlive : s.has c = true) (h : u = s) :
      AddEnd s c u (.error (.refused (.duplicateConstraint c.id)))
  | negative (hnew : s.has c = false) (hneg : c.priority.value < 0) (h : u = s) :
      AddEnd s c u (.error (.refused (.negativePriority c.id)))
  | unsatisfiable (hnew : u.has c = false) (hfree : (s.encode c).row.ExternalFree)
      (h : s.Restored c u) : AddEnd s c u (.error (.refused (.unsatisfiableConstraint c.id)))
  | unplaced {e : SolverError} (he : e.FromPass) (hnew : u.has c = false)
      (hfree : (s.encode c).row.ExternalFree) (h : s.Restored c u) :
      AddEnd s c u (.error (.refused e))
  | unsettled {e : SolverError} (he : e.FromPass) {tag : Tag} (h : s.Enlisted c tag u) :
      AddEnd s c u (.error (.refused e))

variable {s u : Solver α} {P : Symbol → Prop} {c : Constraint α}

theorem Restored.tableau (h : s.Restored c u) : u.tableau = s.tableau := by
  rw [h.rest]

omit [Scalar α] in
theorem Enlisted.has {tag : Tag} (h : s.Enlisted c tag u) : u.has c = true := by
  rw [Solver.has, Registry.contains, h.live]
  rfl

omit [Scalar α] in
/-- A solver that only grew and has the old tableau. -/
theorem Grows.eq_of_tableau (h : s.Grows u) (htab : u.tableau = s.tableau) :
    u = { s with counter := u.counter, symbols := u.symbols } := by
  obtain ⟨hconfig, hconstraints, hedits, -, -, -⟩ := h
  cases u
  cases hconfig
  cases hconstraints
  cases hedits
  cases htab
  rfl

/-- **A refused row leaves the solver restored.** -/
theorem Ledger.restored_of_place (h : s.Ledger P) (hreq : c.priority.isRequired = true)
    {err : SolverError} (hout : ((s.encode c).place c.id).outcome = .error (.refused err)) :
    s.Restored c ((s.encode c).place c.id).solver := by
  have henc := encoded_encode h.names h.tableau.canonical h.over_knows c
  have htab := henc.unpaid hreq
  have hart : (s.encode c).solver.tableau.artificial = none := by
    rw [htab]
    exact h.tableau.noArtificial
  obtain ⟨k, hk⟩ := Encoding.place_refused hart hout
  have hgrows : s.Grows { (s.encode c).solver with counter := (s.encode c).solver.counter + k } :=
    henc.grows.trans (.of_le (Nat.le_add_right _ k) _)
  rw [hk]
  exact ⟨hgrows.eq_of_tableau htab, hart, hgrows.counter, s.entries_symbols_encode c⟩

/-- **A recorded constraint is enlisted.** -/
theorem Ledger.enlisted_of_record (h : s.Ledger P) (hnew : s.constraints.get? c.id = none)
    (hconstraints : u.constraints =
      s.constraints.insert c.id ⟨(s.encode c).tag, c.priority⟩)
    (hedits : u.edits = s.edits) : s.Enlisted c (s.encode c).tag u := by
  have henc := encoded_encode h.names h.tableau.canonical h.over_knows c
  refine ⟨?_, henc.fits.has_marker, fun x hx => ?_, fun id hid => ?_, ?_, hedits⟩
  · rw [hconstraints, Registry.get?_insert, if_pos rfl]
  · have hlt := (henc.fresh x hx).1
    exact ⟨hlt, fun hholds => absurd (h.known x (h.holds hholds)).2.1 (Nat.not_le.mpr hlt)⟩
  · rw [hconstraints, Registry.get?_insert, if_neg hid]
  · rw [hconstraints, Registry.keys_insert, if_neg]
    rw [Registry.mem_keys_iff, hnew]
    exact Bool.false_ne_true

variable [Scalar.LawfulUnits α] [Scalar.LawfulSigns α]

/-- **An addition ends in one of these ways.** -/
theorem Ledger.add_ends (h : s.Ledger P) (c : Constraint α) :
    s.AddEnd c (s.add c).solver (s.add c).outcome := by
  have hunbroken := (h.add c).2.1
  unfold Solver.add at hunbroken ⊢
  cases hhas : s.has c with
  | true => exact .duplicate hhas rfl
  | false =>
    rw [hhas, if_neg Bool.false_ne_true] at hunbroken
    rw [if_neg Bool.false_ne_true]
    cases hneg : c.priority.isNegative with
    | true => exact .negative hhas (of_decide_eq_true hneg) rfl
    | false =>
      rw [hneg, if_neg Bool.false_ne_true] at hunbroken
      rw [if_neg Bool.false_ne_true]
      dsimp only at hunbroken ⊢
      have hnew := Registry.contains_eq_false_iff.mp hhas
      cases hout : ((s.encode c).place c.id).outcome with
      | error halt =>
        -- the row is not placed
        rw [Reply.andThen_of_error hout, Reply.andThen_of_error hout, hout] at hunbroken
        rw [Reply.andThen_of_error hout, Reply.andThen_of_error hout, hout]
        rcases hunbroken with hok | ⟨err, herr, -⟩
        · cases hok
        cases herr
        have hreq : c.priority.isRequired = true := by
          cases hsoft : c.priority.isRequired with
          | true => rfl
          | false =>
            rw [h.place_of_soft hsoft c.id] at hout
            cases hout
        have hrestored := h.restored_of_place hreq hout
        have hfree := Encoding.externalFree_of_place hout
        have hgone : ((s.encode c).place c.id).solver.has c = false := by
          rw [hrestored.rest]
          exact hhas
        rcases Encoding.reason_of_place hout with rfl | hpass
        · exact .unsatisfiable hgone hfree hrestored
        · exact .unplaced hpass hgone hfree hrestored
      | ok =>
        -- the row is placed and the constraint recorded; what is left is to minimize
        rw [Reply.andThen_of_ok hout, Reply.andThen_of_ok rfl] at hunbroken ⊢
        obtain ⟨n, t, -, hrest⟩ := (s.encode c).place_rest c.id
        have hgrows := s.grows_encode c
        have hconstraints := (congrArg Solver.constraints hrest).trans hgrows.constraints
        have henlisted : s.Enlisted c (s.encode c).tag
            (((s.encode c).place c.id).solver.record c (s.encode c).tag).solver.optimize.solver :=
          h.enlisted_of_record hnew
            (congrArg (·.insert c.id ⟨(s.encode c).tag, c.priority⟩) hconstraints)
            ((congrArg Solver.edits hrest).trans hgrows.edits)
        simp only [Reply.solver_after, Reply.outcome_after] at hunbroken ⊢
        rcases hunbroken with hok | ⟨err, herr, -⟩
        · rw [hok]
          exact .added henlisted
        · rw [herr]
          exact .unsettled (refused_optimize herr) henlisted

end Solver

/-! ## 4. Answer by answer -/

/-- **What an addition leaves behind**, by its answer, in any state and whatever the arithmetic.  If
it succeeds the constraint is live with its priority and a new tag.  If it is refused as a duplicate
or for its priority the solver is what it was.  If it is unsatisfiable, or if a pass fails and the
constraint is not live, the solver is restored; and if a pass fails and the constraint is live, all
other entries and the edits are what they were.  There are no other answers. -/
theorem Attained.restored_or_enlisted_add [Scalar.LawfulUnits α] [Scalar.LawfulSigns α]
    {s : Solver α} (h : Attained s) (c : Constraint α) :
    let u := (s.add c).solver
    let answer := (s.add c).outcome
    (answer = .ok () → ∃ tag, s.Enlisted c tag u) ∧
    (∀ id, answer = .error (.refused (.duplicateConstraint id)) ∨
      answer = .error (.refused (.negativePriority id)) → u = s) ∧
    (∀ id, answer = .error (.refused (.unsatisfiableConstraint id)) → s.Restored c u) ∧
    (∀ e, e.FromPass → answer = .error (.refused e) →
      (u.has c = false → s.Restored c u) ∧ (u.has c = true → ∃ tag, s.Enlisted c tag u)) ∧
    (answer = .ok () ∨ ∃ e, answer = .error (.refused e) ∧
      (e = .duplicateConstraint c.id ∨ e = .negativePriority c.id ∨
        e = .unsatisfiableConstraint c.id ∨ e.FromPass)) := by
  intro u answer
  obtain ⟨P, hP⟩ := h.exists_ledger
  have hend : s.AddEnd c u answer := hP.add_ends c
  clear_value u answer
  cases hend with
  | added henlisted => exact ⟨fun _ => ⟨_, henlisted⟩, nofun, nofun, nofun, .inl rfl⟩
  | duplicate hlive heq =>
    refine ⟨nofun, fun _ _ => heq, nofun, ?_, .inr ⟨_, rfl, .inl rfl⟩⟩
    rintro e (⟨n, rfl⟩ | ⟨fault, rfl⟩) <;> exact nofun
  | negative hnew hneg heq =>
    refine ⟨nofun, fun _ _ => heq, nofun, ?_, .inr ⟨_, rfl, .inr (.inl rfl)⟩⟩
    rintro e (⟨n, rfl⟩ | ⟨fault, rfl⟩) <;> exact nofun
  | unsatisfiable hnew hfree hrestored =>
    refine ⟨nofun, nofun, fun _ _ => hrestored, ?_, .inr ⟨_, rfl, .inr (.inr (.inl rfl))⟩⟩
    rintro e (⟨n, rfl⟩ | ⟨fault, rfl⟩) <;> exact nofun
  | unplaced he hnew hfree hrestored =>
    have hlast : ∀ {Q : Prop}, u.has c = true → Q := by
      intro Q hlive
      rw [hnew] at hlive
      cases hlive
    refine ⟨nofun, ?_, ?_, fun _ _ _ => ⟨fun _ => hrestored, hlast⟩,
      .inr ⟨_, rfl, .inr (.inr (.inr he))⟩⟩ <;>
    obtain ⟨n, rfl⟩ | ⟨fault, rfl⟩ := he <;> exact nofun
  | unsettled he henlisted =>
    have hfirst : ∀ {Q : Prop}, u.has c = false → Q := by
      intro Q hnew
      rw [henlisted.has] at hnew
      cases hnew
    refine ⟨nofun, ?_, ?_, fun _ _ _ => ⟨hfirst, fun _ => ⟨_, henlisted⟩⟩,
      .inr ⟨_, rfl, .inr (.inr (.inr he))⟩⟩ <;>
    obtain ⟨n, rfl⟩ | ⟨fault, rfl⟩ := he <;> exact nofun

/-- The three kinds of end.  Without pivots `v == 3` is an error and live; against its bound
`v <= 1` is turned down and two numbers are gone; and with a tolerance the bound itself is
added. -/
theorem Solver.cut_enlists_and_conflict_restores :
    ((unpivoted.add mediumThree).outcome = .error (.refused (.iterationLimit 0)) ∧
      ∃ tag, unpivoted.Enlisted mediumThree tag (unpivoted.add mediumThree).solver) ∧
    ((pulled.add (atMostOne ℚ)).outcome = .error (.refused (.unsatisfiableConstraint ⟨2⟩)) ∧
      (pulled.add (atMostOne ℚ)).solver.counter = pulled.counter + 2 ∧
      pulled.Restored (atMostOne ℚ) (pulled.add (atMostOne ℚ)).solver) ∧
    ((Solver.new : Solver Tolerant).add tolerantBound).outcome = .ok () ∧
      ∃ tag, (Solver.new : Solver Tolerant).Enlisted tolerantBound tag
        ((Solver.new : Solver Tolerant).add tolerantBound).solver := by
  have hunpivoted : Attained unpivoted := .call _ (.new ⟨0⟩)
  have hpulled : Attained pulled := .call _ (.call _ (.call _ (.new {})))
  have hcut : (unpivoted.add mediumThree).outcome = .error (.refused (.iterationLimit 0)) := by
    decide +kernel
  have hturned : (pulled.add (atMostOne ℚ)).outcome =
      .error (.refused (.unsatisfiableConstraint ⟨2⟩)) := by decide +kernel
  have hadded : ((Solver.new : Solver Tolerant).add tolerantBound).outcome = .ok () := by
    decide +kernel
  refine ⟨⟨hcut, ?_⟩, ⟨hturned, by decide +kernel, ?_⟩, hadded, ?_⟩
  · exact ((hunpivoted.restored_or_enlisted_add mediumThree).2.2.2.1 _ (.inl ⟨0, rfl⟩) hcut).2
      (by decide +kernel)
  · exact (hpulled.restored_or_enlisted_add (atMostOne ℚ)).2.2.1 _ hturned
  · exact ((Attained.new {}).restored_or_enlisted_add tolerantBound).1 hadded

end IncrementalSimplex
