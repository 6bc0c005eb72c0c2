/-
# Every edit keeps its constraint

An edit is listed twice: the variable in the registry of edits, with the constraint that pulls it,
and that constraint in the registry of constraints, with its tag.  The caller holds the variable and
never the constraint, so a constraint that lost its edit could not be removed by anyone, and an edit
that lost its constraint would shift rows by a tag that means nothing.

The two entries are written one after the other, and the passes between them may fail:

* beginning an edit adds the constraint, minimizes, and lists the edit only then.  If the
  minimization fails the constraint is live already and has to be taken off again
  (`registries_of_addEdit_refused`);
* ending an edit takes the edit off, then the constraint, and only then minimizes; whatever the
  minimization says, both are gone (`removeEdit_rest`).

**What a caller can do** is the relation `Operated`: an edit makes its constraint under a number of
its own, and no other call is about a constraint with such a number.  Nothing is assumed of the
arithmetic.  So the relation also has states that a call left when it broke off.

**The two invariants.**  `InStep` is about the two registries, and any call that is not about an
edit's constraint keeps it, because it leaves the edits and these entries alone (`InStep.mono`).
`Apart` is about the tags: a new tag has numbers beyond the counter, and the old ones have none
beyond it, so no two share a symbol.  That one needs no condition on the calls.
-/
import IncrementalSimplex.Proofs.Rollback

namespace IncrementalSimplex

variable {α : Type} [Scalar α]

namespace Solver

/-! ## 1. Tags -/

/-- **No two live constraints share a symbol**, and no tag has a number that was not given out. -/
structure Apart (s : Solver α) : Prop where
  disjoint : ∀ {i j q r x}, s.constraints.get? i = some q → s.constraints.get? j = some r →
    q.tag.Has x → r.tag.Has x → i = j
  issued : ∀ {i r x}, s.constraints.get? i = some r → r.tag.Has x → x.id ≤ s.counter

namespace Apart

variable {s u : Solver α}

theorem new (config : SolverConfig) : (Solver.new config : Solver α).Apart := ⟨nofun, nofun⟩

omit [Scalar α] in
/-- Fewer constraints and more numbers. -/
theorem mono (h : s.Apart)
    (hcons : ∀ i r, u.constraints.get? i = some r → s.constraints.get? i = some r)
    (hcounter : s.counter ≤ u.counter) : u.Apart where
  disjoint hq hr := h.disjoint (hcons _ _ hq) (hcons _ _ hr)
  issued hr hx := (h.issued (hcons _ _ hr) hx).trans hcounter

/-- **A new tag** is beyond all others. -/
theorem add (h : s.Apart) (c : Constraint α) : (s.add c).solver.Apart := by
  rcases s.recorded_add c with ⟨hcons, -⟩ | ⟨-, hcons, hcounter, -⟩
  · exact h.mono (fun i r hr => hcons ▸ hr) (s.counter_add c)
  · have hget : ∀ {i r}, (s.add c).solver.constraints.get? i = some r →
        (i = c.id ∧ r.tag = (s.encode c).tag) ∨ s.constraints.get? i = some r := by
      intro i r hr
      rw [hcons, Registry.get?_insert] at hr
      split at hr
      · rename_i hi
        cases hr
        exact .inl ⟨hi, rfl⟩
      · exact .inr hr
    have hbeyond : ∀ {i r x}, s.constraints.get? i = some r → r.tag.Has x →
        ¬ (s.encode c).tag.Has x := fun hr hx hnew =>
      absurd (h.issued hr hx) (Nat.not_le.mpr (s.fresh_encode c hnew).1)
    constructor
    · intro i j q r x hq hr hqx hrx
      rcases hget hq with ⟨hi, hqtag⟩ | hq <;> rcases hget hr with ⟨hj, hrtag⟩ | hr
      · exact hi.trans hj.symm
      · exact absurd (hqtag ▸ hqx) (hbeyond hr hrx)
      · exact absurd (hrtag ▸ hrx) (hbeyond hq hqx)
      · exact h.disjoint hq hr hqx hrx
    · intro i r x hr hx
      rcases hget hr with ⟨-, htag⟩ | hr
      · exact (s.fresh_encode c (htag ▸ hx)).2.trans hcounter
      · exact (h.issued hr hx).trans (s.counter_add c)

theorem remove (h : s.Apart) (c : Constraint α) : (s.remove c).solver.Apart := by
  refine h.mono (fun i r hr => ?_) (s.counter_remove c).ge
  rw [constraints_remove, Registry.get?_erase] at hr
  split at hr
  · cases hr
  · exact hr

/-- **Every call keeps the tags apart.** -/
theorem perform (h : s.Apart) (c : Call α) : (s.perform c).solver.Apart := by
  by_cases hc : c = .reset
  · subst hc
    exact .new s.config
  · refine perform_keeps (P := Apart) (fun _ c hu => hu.add c) (fun _ c hu => hu.remove c)
      (fun u c v hu => ?_) (fun _ _ hu => hu.mono (fun _ _ hr => hr) le_rfl)
      (fun u v x hu => ?_) h hc
    · unfold recordEdit
      split
      · exact hu
      · exact hu.mono (fun _ _ hr => hr) le_rfl
    · unfold suggest
      split
      · exact hu
      · exact hu.mono (fun _ _ hr => hr) le_rfl

end Apart

/-! ## 2. The two registries -/

/-- **The edits and their constraints are in step**: an edit has the tag and the constraint of a
live entry, under a number of its own that no other edit has, and with a soft priority. -/
structure InStep (own : ConstraintId → Prop) (s : Solver α) : Prop where
  live : ∀ {v d}, s.edits.get? v = some d → ∃ id p, own id ∧ d.constraint = editConstraint id v p ∧
    0 ≤ p.value ∧ p.isRequired = false ∧ s.constraints.get? id = some ⟨d.tag, p⟩
  distinct : ∀ {v w d e}, s.edits.get? v = some d → s.edits.get? w = some e →
    d.constraint.id = e.constraint.id → v = w

variable {own : ConstraintId → Prop} {s u : Solver α} {id : ConstraintId} {v : Variable}
  {p : Priority}

namespace InStep

theorem new (own : ConstraintId → Prop) (config : SolverConfig) :
    (Solver.new config : Solver α).InStep own := ⟨nofun, nofun⟩

/-- The constraint of an edit is live. -/
theorem exists_live (h : s.InStep own) {d : Edit α} (hd : s.edits.get? v = some d) :
    own d.constraint.id ∧ ∃ r, s.constraints.get? d.constraint.id = some r := by
  obtain ⟨id, p, hown, hconstraint, -, -, hr⟩ := h.live hd
  rw [hconstraint]
  exact ⟨hown, _, hr⟩

/-- **What leaves the edits and the entries of their constraints alone keeps them in step.** -/
theorem mono (h : s.InStep own) (hedits : u.edits = s.edits)
    (hcons : ∀ id r, own id → s.constraints.get? id = some r → u.constraints.get? id = some r) :
    u.InStep own where
  live hd := by
    rw [hedits] at hd
    obtain ⟨id, p, hown, hconstraint, hnonneg, hsoft, hr⟩ := h.live hd
    exact ⟨id, p, hown, hconstraint, hnonneg, hsoft, hcons id _ hown hr⟩
  distinct hd he := by
    rw [hedits] at hd he
    exact h.distinct hd he

/-! ### Calls about other constraints -/

theorem add (h : s.InStep own) (c : Constraint α) : (s.add c).solver.InStep own := by
  refine h.mono (s.edits_add c) fun id r _ hr => ?_
  rcases s.recorded_add c with ⟨hcons, -⟩ | ⟨hnew, hcons, -⟩
  · rw [hcons, hr]
  · rw [hcons, Registry.get?_insert, if_neg, hr]
    rintro rfl
    cases hnew.symm.trans hr

theorem remove (h : s.InStep own) {c : Constraint α} (hc : ¬ own c.id) :
    (s.remove c).solver.InStep own := by
  refine h.mono (s.edits_remove c) fun id r hown hr => ?_
  rw [constraints_remove, Registry.get?_erase, if_neg, hr]
  rintro rfl
  exact hc hown

end InStep

/-! ### Beginning an edit -/

/-- **A new edit and its entry** are in step with the rest, if the entry is new. -/
theorem InStep.insertEdit (h : s.InStep own) (hown : own id) (hnew : s.constraints.get? id = none)
    (hnonneg : 0 ≤ p.value) (hsoft : p.isRequired = false) (hedits : u.edits = s.edits)
    (hcons : ∀ j r, s.constraints.get? j = some r → u.constraints.get? j = some r) {tag : Tag}
    (hr : u.constraints.get? id = some ⟨tag, p⟩) (x : α) :
    ({ u with edits := u.edits.insert v ⟨tag, editConstraint id v p, x⟩ } : Solver α).InStep
      own := by
  have hget : ∀ {w d}, (u.edits.insert v ⟨tag, editConstraint id v p, x⟩).get? w = some d →
      (w = v ∧ d = ⟨tag, editConstraint id v p, x⟩) ∨ s.edits.get? w = some d := by
    intro w d hd
    rw [Registry.get?_insert, hedits] at hd
    split at hd
    · rename_i hw
      cases hd
      exact .inl ⟨hw, rfl⟩
    · exact .inr hd
  have hother : ∀ {w d}, s.edits.get? w = some d → d.constraint.id ≠ id := by
    intro w d hd heq
    obtain ⟨-, r, hr⟩ := h.exists_live hd
    rw [heq, hnew] at hr
    cases hr
  constructor
  · intro w d hd
    rcases hget hd with ⟨rfl, rfl⟩ | hd
    · exact ⟨id, p, hown, rfl, hnonneg, hsoft, hr⟩
    · obtain ⟨j, q, hj, hconstraint, hq, hqsoft, hqr⟩ := h.live hd
      exact ⟨j, q, hj, hconstraint, hq, hqsoft, hcons j _ hqr⟩
  · intro w w' d d' hd hd' heq
    rcases hget hd with ⟨rfl, rfl⟩ | hold <;> rcases hget hd' with ⟨rfl, rfl⟩ | hold'
    · rfl
    · exact absurd heq.symm (hother hold')
    · exact absurd heq (hother hold)
    · exact h.distinct hold hold' heq

/-- **What giving an edit up leaves**: both registries as they were before its constraint was added.
The constraint may have been recorded, and then it was at the end of the list. -/
theorem registries_abandonEdit {c : Constraint α} (hnew : s.constraints.get? c.id = none)
    (v : Variable) (e : SolverError) :
    ((s.add c).solver.abandonEdit c v e).solver.edits = s.edits ∧
      ((s.add c).solver.abandonEdit c v e).solver.constraints = s.constraints := by
  have hedits := s.edits_add c
  have hrecorded := s.recorded_add c
  unfold abandonEdit
  split
  · have herased : ((s.add c).solver.remove c).solver.constraints = s.constraints := by
      rw [constraints_remove]
      rcases hrecorded with ⟨hcons, -⟩ | ⟨-, hcons, -⟩
      · rw [hcons, Registry.erase_eq_self hnew]
      · rw [hcons, Registry.erase_insert_self hnew]
    dsimp only
    split <;> exact ⟨(edits_remove _ c).trans hedits, herased⟩
  · rename_i hhas
    rcases hrecorded with ⟨hcons, -⟩ | ⟨-, hcons, -⟩
    · exact ⟨hedits, hcons⟩
    · refine absurd ?_ hhas
      rw [has, hcons, Registry.contains, Registry.get?_insert, if_pos rfl]
      rfl

/-- **An edit that could not be begun leaves both registries as they were**, order included. -/
theorem registries_of_addEdit_refused (hnew : s.constraints.get? id = none) {e : SolverError}
    (hout : (s.addEdit id v p).outcome = .error (.refused e)) :
    (s.addEdit id v p).solver.edits = s.edits ∧
      (s.addEdit id v p).solver.constraints = s.constraints := by
  unfold addEdit at hout ⊢
  cases hrefuse : s.editRefusal? v p with
  | some reason => exact ⟨rfl, rfl⟩
  | none =>
    rw [hrefuse] at hout
    dsimp only at hout ⊢
    cases hadd : (s.add (editConstraint id v p)).outcome with
    | ok =>
      rw [hadd] at hout
      rcases s.recorded_add (editConstraint id v p) with ⟨-, hne⟩ | ⟨-, hcons, -⟩
      · exact absurd hadd hne
      · dsimp only at hout
        rw [Reply.outcome_after, recordEdit, hcons, Registry.get?_insert, if_pos rfl] at hout
        cases hout
    | error halt =>
      rw [hadd] at hout
      cases halt with
      | refused reason =>
        exact registries_abandonEdit (c := editConstraint id v p) hnew v reason
      | absentSymbol x =>
        dsimp only at hout
        rw [hadd] at hout
        cases hout

/-- **Beginning an edit** keeps the registries in step, however it ends. -/
theorem InStep.addEdit (h : s.InStep own) (hown : own id) (hnew : s.constraints.get? id = none) :
    (s.addEdit id v p).solver.InStep own := by
  unfold Solver.addEdit
  cases hrefuse : s.editRefusal? v p with
  | some reason => exact h
  | none =>
    obtain ⟨-, hnonneg, hsoft⟩ := editRefusal?_eq_none hrefuse
    dsimp only
    split
    · rename_i hok
      rcases s.recorded_add (editConstraint id v p) with ⟨-, hne⟩ | ⟨-, hcons, -⟩
      · exact absurd hok hne
      have hlive : (s.add (editConstraint id v p)).solver.constraints.get? id =
          some ⟨(s.encode (editConstraint id v p)).tag, p⟩ := by
        rw [hcons]
        exact (Registry.get?_insert _ _ _ _).trans (if_pos rfl)
      rw [Reply.solver_after, Solver.recordEdit]
      rw [show (editConstraint id v p : Constraint α).id = id from rfl, hlive]
      refine h.insertEdit hown hnew hnonneg hsoft (s.edits_add _) (fun j r hr => ?_) hlive 0
      rw [hcons, Registry.get?_insert, if_neg, hr]
      rintro rfl
      cases hnew.symm.trans hr
    · obtain ⟨hedits, hcons⟩ := registries_abandonEdit (c := editConstraint id v p) hnew v _
      exact h.mono hedits fun _ _ _ hr => hcons ▸ hr
    · exact h.add _

/-! ### Ending an edit, and a new target -/

/-- **What ending an edit does to the registries**, whatever the minimization says. -/
theorem registries_removeEdit {d : Edit α} (hd : s.edits.get? v = some d) :
    (s.removeEdit v).solver.edits = s.edits.erase v ∧
      (s.removeEdit v).solver.constraints = s.constraints.erase d.constraint.id := by
  unfold removeEdit
  rw [hd]
  exact andThen_keeps (P := fun u => u.edits = s.edits.erase v ∧
    u.constraints = s.constraints.erase d.constraint.id)
    ⟨edits_remove _ d.constraint, constraints_remove _ d.constraint⟩ fun _ => id

theorem InStep.removeEdit (h : s.InStep own) (v : Variable) :
    (s.removeEdit v).solver.InStep own := by
  cases hd : s.edits.get? v with
  | none =>
    rw [Solver.removeEdit, hd]
    exact h
  | some d =>
    obtain ⟨hedits, hcons⟩ := registries_removeEdit hd
    have hget : ∀ {w e}, (s.removeEdit v).solver.edits.get? w = some e →
        w ≠ v ∧ s.edits.get? w = some e := by
      intro w e he
      rw [hedits, Registry.get?_erase] at he
      split at he
      · cases he
      · rename_i hw
        exact ⟨hw, he⟩
    constructor
    · intro w e he
      obtain ⟨hwv, he⟩ := hget he
      obtain ⟨id, p, hown, hconstraint, hnonneg, hsoft, hr⟩ := h.live he
      refine ⟨id, p, hown, hconstraint, hnonneg, hsoft, ?_⟩
      rw [hcons, Registry.get?_erase, if_neg, hr]
      -- the entry that is erased is that of another edit
      intro heq
      refine hwv (h.distinct he hd ?_)
      rw [hconstraint, ← heq]
      rfl
    · intro w w' e e' he he'
      exact h.distinct (hget he).2 (hget he').2

/-- A suggestion changes the target of an edit and nothing else of the registries. -/
theorem InStep.suggest (h : s.InStep own) (v : Variable) (x : α) :
    (s.suggest v x).solver.InStep own := by
  unfold Solver.suggest
  cases hd : s.edits.get? v with
  | none => exact h
  | some d =>
    have hget : ∀ {w e}, (s.edits.insert v { d with constant := x }).get? w = some e →
        ∃ e', s.edits.get? w = some e' ∧ e'.constraint = e.constraint ∧ e'.tag = e.tag := by
      intro w e he
      rw [Registry.get?_insert] at he
      split at he
      · rename_i hw
        cases he
        exact ⟨d, hw ▸ hd, rfl, rfl⟩
      · exact ⟨e, he, rfl, rfl⟩
    constructor
    · intro w e he
      obtain ⟨e', he', hconstraint, htag⟩ := hget he
      rw [← hconstraint, ← htag]
      exact h.live he'
    · intro w w' e e' he he' heq
      obtain ⟨d, hd, hconstraint, -⟩ := hget he
      obtain ⟨d', hd', hconstraint', -⟩ := hget he'
      exact h.distinct hd hd' (by rw [hconstraint, hconstraint', heq])

end Solver

/-! ## 3. What a caller can do -/

/-- **The caller does not have the constraints of edits**: their numbers are the edits' own, new when
the edit is begun, and no other call is about such a constraint. -/
def Call.Discreet (own : ConstraintId → Prop) (s : Solver α) : Call α → Prop
  | .add c | .remove c => ¬ own c.id
  | .addAll cs | .removeAll cs => ∀ c ∈ cs, ¬ own c.id
  | .edit id _ _ => own id ∧ s.constraints.get? id = none
  | .unedit _ | .suggest _ _ | .reset => True

/-- **Every call of such a caller keeps the registries in step.** -/
theorem Solver.InStep.perform {own : ConstraintId → Prop} {s : Solver α} (h : s.InStep own)
    {c : Call α} (hc : c.Discreet own s) : (s.perform c).solver.InStep own := by
  have hadd : ∀ (u : Solver α) (c : Constraint α), ¬ own c.id → u.InStep own →
      (u.add c).solver.InStep own := fun u c _ hu => hu.add c
  have hremove : ∀ (u : Solver α) (c : Constraint α), ¬ own c.id → u.InStep own →
      (u.remove c).solver.InStep own := fun u c hc hu => hu.remove hc
  have hnone : ∀ c ∈ ([] : List (Constraint α)), ¬ own c.id := by simp
  cases c with
  | add c => exact h.add c
  | remove c => exact h.remove hc
  | addAll cs => exact batch_keeps hadd hremove hc hnone h
  | removeAll cs => exact batch_keeps hremove hadd hc hnone h
  | edit id v p => exact h.addEdit hc.1 hc.2
  | unedit v => exact h.removeEdit v
  | suggest v x => exact h.suggest v x
  | reset => exact .new own s.config

/-- **The states that such a caller leads a solver to.** -/
inductive Operated (own : ConstraintId → Prop) : Solver α → Prop
  | new (config : SolverConfig) : Operated own (.new config)
  | call {s : Solver α} (c : Call α) (h : Operated own s) (discreet : c.Discreet own s) :
      Operated own (s.perform c).solver

namespace Operated

variable {own : ConstraintId → Prop} {s : Solver α}

theorem inStep (h : Operated own s) : s.InStep own := by
  induction h with
  | new config => exact .new own config
  | call c _ discreet ih => exact ih.perform discreet

theorem apart (h : Operated own s) : s.Apart := by
  induction h with
  | new config => exact .new config
  | call c _ _ ih => exact ih.perform c

/-- **Edits and constraints are in step between any two calls.**  An edit names a live constraint
with its tag and a soft priority, two edits name two constraints, and no two live constraints share a
symbol.  A new edit that is refused changes neither registry, and an edit that is ended leaves
nothing in either, whatever the answer. -/
theorem edits_keep_constraints (h : Operated own s) :
    (∀ v d, s.edits.get? v = some d → ∃ id p, own id ∧ d.constraint = Solver.editConstraint id v p ∧
      0 ≤ p.value ∧ p.value < Priority.required.value ∧
      s.constraints.get? id = some ⟨d.tag, p⟩) ∧
    (∀ v w d e, s.edits.get? v = some d → s.edits.get? w = some e → v ≠ w →
      d.constraint.id ≠ e.constraint.id) ∧
    (∀ i j q r, s.constraints.get? i = some q → s.constraints.get? j = some r → i ≠ j →
      ∀ x, q.tag.Has x → ¬ r.tag.Has x) ∧
    (∀ id v p e, s.constraints.get? id = none →
      (s.addEdit id v p).outcome = .error (.refused e) →
        (s.addEdit id v p).solver.edits.entries = s.edits.entries ∧
        (s.addEdit id v p).solver.constraints.entries = s.constraints.entries) ∧
    ∀ v d, s.edits.get? v = some d →
      (s.removeEdit v).solver.edits.get? v = none ∧
        (s.removeEdit v).solver.constraints.get? d.constraint.id = none := by
  have hstep := h.inStep
  refine ⟨fun v d hd => ?_, fun v w d e hd he hne heq => hne (hstep.distinct hd he heq),
    fun i j q r hq hr hne x hqx hrx => hne (h.apart.disjoint hq hr hqx hrx),
    fun id v p e hnew hout => ?_, fun v d hd => ?_⟩
  · obtain ⟨id, p, hown, hconstraint, hnonneg, hsoft, hr⟩ := hstep.live hd
    exact ⟨id, p, hown, hconstraint, hnonneg, not_le.mp (of_decide_eq_false hsoft), hr⟩
  · obtain ⟨hedits, hcons⟩ := Solver.registries_of_addEdit_refused hnew hout
    rw [hedits, hcons]
    exact ⟨rfl, rfl⟩
  · obtain ⟨hedits, hcons⟩ := Solver.registries_removeEdit hd
    rw [hedits, hcons, Registry.get?_erase, Registry.get?_erase, if_pos rfl, if_pos rfl]
    exact ⟨rfl, rfl⟩

end Operated

/-- Two courses.  Where `v` is bounded, edited and pulled, its edit has a live constraint, and ending
the edit takes it off.  Where no pivot may be made, an edit of `v` is cut short after its constraint
was recorded, and nothing is left of it. -/
theorem Solver.pulled_and_cut_edits :
    (Operated (· = ⟨1⟩) pulled ∧ ∃ d id p, pulled.edits.get? ⟨0⟩ = some d ∧
      d.constraint = editConstraint id ⟨0⟩ p ∧
      pulled.constraints.get? id = some ⟨d.tag, p⟩ ∧
      (pulled.removeEdit ⟨0⟩).solver.edits.get? ⟨0⟩ = none ∧
      (pulled.removeEdit ⟨0⟩).solver.constraints.get? d.constraint.id = none) ∧
    Operated (· = ⟨1⟩) unpivoted ∧
      (unpivoted.add (editConstraint ⟨1⟩ ⟨0⟩ .medium)).solver.constraints.size = 2 ∧
      (unpivoted.addEdit ⟨1⟩ ⟨0⟩ .medium).outcome = .error (.refused (.iterationLimit 0)) ∧
      (unpivoted.addEdit ⟨1⟩ ⟨0⟩ .medium).solver.edits.entries = unpivoted.edits.entries ∧
      (unpivoted.addEdit ⟨1⟩ ⟨0⟩ .medium).solver.constraints.entries =
        unpivoted.constraints.entries := by
  have hother : (⟨0⟩ : ConstraintId) ≠ ⟨1⟩ := by decide
  have hpulled : Operated (· = ⟨1⟩) pulled :=
    .call _ (.call _ (.call _ (.new {}) hother) ⟨rfl, by decide +kernel⟩) trivial
  have hcut : Operated (· = ⟨1⟩) unpivoted := .call _ (.new ⟨0⟩) hother
  have hlimit : (unpivoted.addEdit ⟨1⟩ ⟨0⟩ .medium).outcome =
      .error (.refused (.iterationLimit 0)) := by decide +kernel
  have hedited : (pulled.edits.get? ⟨0⟩).isSome := by decide +kernel
  obtain ⟨d, hd⟩ := Option.isSome_iff_exists.mp hedited
  obtain ⟨hlive, -, -, -, hended⟩ := hpulled.edits_keep_constraints
  obtain ⟨id, p, -, hconstraint, -, -, hr⟩ := hlive _ d hd
  exact ⟨⟨hpulled, d, id, p, hd, hconstraint, hr, hended _ d hd⟩, hcut, by decide +kernel, hlimit,
    hcut.edits_keep_constraints.2.2.2.1 ⟨1⟩ ⟨0⟩ .medium _ (by decide +kernel) hlimit⟩

end IncrementalSimplex
