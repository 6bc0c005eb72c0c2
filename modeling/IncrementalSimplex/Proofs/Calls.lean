/-
# Any course of calls

A state is REACHED if some course of calls leads to it from a new solver (`Reached`).  The relation
carries along what the caller knows: the targets suggested so far (`Call.suggested`), and which form
each number stands for, which is the book.  A call is lawful if it agrees with the book
(`Call.Lawful`): a number stands for one form, and an edit brings a number that is not in use.

Each call keeps the solver faithful, whether it succeeds or fails, and moves the solver's own record
of the targets in step with the caller's (`Faithful.perform`).  Hence every reached state means its
live constraints at the targets of the moment (`Reached.faithful`), and the tableau's rows have just
the solutions of their equations (`Reached.solves_iff`).

A batch is a course of its own: what its steps keep, it keeps, the undoing included
(`batch_keeps`).  The edits too are made of additions and removals, so an invariant of the whole
state needs an argument for each of these and for a suggestion, and none for the other calls
(`perform_keeps`).
-/
import IncrementalSimplex.Solver.Call
import IncrementalSimplex.Proofs.Editing

namespace IncrementalSimplex

namespace Solver

/-! ## 1. Batches -/

section Batches

variable {α : Type} [Scalar α] {P : Solver α → Prop} {Q : Constraint α → Prop}
  {apply undo : Solver α → Constraint α → Reply α}

omit [Scalar α] in
/-- What an undoing step keeps, undoing a list of steps keeps. -/
theorem undoAll_keeps (hundo : ∀ s c, Q c → P s → P (undo s c).solver) :
    ∀ {cs : List (Constraint α)} {s : Solver α}, (∀ c ∈ cs, Q c) → P s →
      P (undoAll undo cs s).solver
  | [], _, _, hs => hs
  | c :: rest, s, hcs, hs => by
    have hone := hundo s c (hcs c List.mem_cons_self) hs
    have hrest := undoAll_keeps hundo (fun d hd => hcs d (List.mem_cons_of_mem c hd)) hone
    unfold undoAll
    dsimp only
    split
    · exact hrest
    · exact hrest
    · exact hone

omit [Scalar α] in
/-- **What the steps of a batch keep, the batch keeps**, however it ends. -/
theorem batch_keeps (happly : ∀ s c, Q c → P s → P (apply s c).solver)
    (hundo : ∀ s c, Q c → P s → P (undo s c).solver) :
    ∀ {cs applied : List (Constraint α)} {s : Solver α}, (∀ c ∈ cs, Q c) →
      (∀ c ∈ applied, Q c) → P s → P (batch apply undo applied cs s).solver
  | [], _, _, _, _, hs => hs
  | c :: rest, applied, s, hcs, happlied, hs => by
    have hc := hcs c List.mem_cons_self
    have hone := happly s c hc hs
    unfold batch
    dsimp only
    split
    · refine batch_keeps happly hundo (fun d hd => hcs d (List.mem_cons_of_mem c hd)) ?_ hone
      intro d hd
      rcases List.mem_cons.mp hd with rfl | hd
      · exact hc
      · exact happlied d hd
    · have hundone := undoAll_keeps hundo happlied hone
      show P (Reply.andThen _ _).solver
      unfold Reply.andThen
      split <;> exact hundone
    · exact hone

omit [Scalar α] in
/-- **How undoing ends**: well, or the way one of its steps ends. -/
theorem undoAll_outcome {Good : Except Halt Unit → Prop} (hok : Good (.ok ()))
    (hundo : ∀ s c, Q c → P s → P (undo s c).solver ∧ Good (undo s c).outcome) :
    ∀ {cs : List (Constraint α)} {s : Solver α}, (∀ c ∈ cs, Q c) → P s →
      Good (undoAll undo cs s).outcome
  | [], _, _, _ => hok
  | c :: rest, s, hcs, hs => by
    obtain ⟨hone, hgood⟩ := hundo s c (hcs c List.mem_cons_self) hs
    have hrest := undoAll_outcome hok hundo (fun d hd => hcs d (List.mem_cons_of_mem c hd)) hone
    unfold undoAll
    dsimp only
    split
    · exact hrest
    · exact hrest
    · exact hgood

omit [Scalar α] in
/-- **How a batch ends**: well, or the way one of its steps ends, the undoing included. -/
theorem batch_outcome {Good : Except Halt Unit → Prop} (hok : Good (.ok ()))
    (happly : ∀ s c, Q c → P s → P (apply s c).solver ∧ Good (apply s c).outcome)
    (hundo : ∀ s c, Q c → P s → P (undo s c).solver ∧ Good (undo s c).outcome) :
    ∀ {cs applied : List (Constraint α)} {s : Solver α}, (∀ c ∈ cs, Q c) →
      (∀ c ∈ applied, Q c) → P s → Good (batch apply undo applied cs s).outcome
  | [], _, _, _, _, _ => hok
  | c :: rest, applied, s, hcs, happlied, hs => by
    have hc := hcs c List.mem_cons_self
    obtain ⟨hone, hgood⟩ := happly s c hc hs
    unfold batch
    dsimp only
    split
    · refine batch_outcome hok happly hundo (fun d hd => hcs d (List.mem_cons_of_mem c hd)) ?_ hone
      intro d hd
      rcases List.mem_cons.mp hd with rfl | hd
      · exact hc
      · exact happlied d hd
    · rename_i e he
      have hundone := undoAll_outcome hok hundo happlied hone
      show Good (Reply.andThen _ _).outcome
      unfold Reply.andThen
      split
      · rwa [he] at hgood
      · exact hundone
    · exact hgood

end Batches

/-! ## 2. What every call keeps -/

section Steps

variable {α : Type} [Scalar α] {P : Solver α → Prop}

omit [Scalar α] in
/-- What two steps keep, one after the other keeps. -/
theorem andThen_keeps {r : Reply α} {next : Solver α → Reply α} (hr : P r.solver)
    (hnext : ∀ u, P u → P (next u).solver) : P (r.andThen next).solver := by
  unfold Reply.andThen
  split
  · exact hnext r.solver hr
  · exact hr

theorem abandonEdit_keeps (hremove : ∀ s c, P s → P (s.remove c).solver) {s : Solver α} (hs : P s)
    (c : Constraint α) (v : Variable) (e : SolverError) : P (s.abandonEdit c v e).solver := by
  unfold abandonEdit
  split
  · dsimp only
    split <;> exact hremove s c hs
  · exact hs

theorem addEdit_keeps (hadd : ∀ s c, P s → P (s.add c).solver)
    (hremove : ∀ s c, P s → P (s.remove c).solver)
    (hrecord : ∀ s c v, P s → P (s.recordEdit c v).solver) {s : Solver α} (hs : P s)
    (id : ConstraintId) (v : Variable) (p : Priority) : P (s.addEdit id v p).solver := by
  have hone := hadd s (editConstraint id v p) hs
  unfold addEdit
  split
  · exact hs
  · dsimp only
    split
    · exact hrecord _ _ v hone
    · exact abandonEdit_keeps hremove hone _ v _
    · exact hone

theorem removeEdit_keeps (hremove : ∀ s c, P s → P (s.remove c).solver)
    (herase : ∀ s v, P s → P { s with edits := s.edits.erase v }) {s : Solver α} (hs : P s)
    (v : Variable) : P (s.removeEdit v).solver := by
  unfold removeEdit
  split
  · exact hs
  · exact andThen_keeps (hremove _ _ (herase s v hs)) fun _ => id

/-- **What additions, removals, suggestions and the list of edits keep, every call keeps**, a reset
apart. -/
theorem perform_keeps (hadd : ∀ s c, P s → P (s.add c).solver)
    (hremove : ∀ s c, P s → P (s.remove c).solver)
    (hrecord : ∀ s c v, P s → P (s.recordEdit c v).solver)
    (herase : ∀ s v, P s → P { s with edits := s.edits.erase v })
    (hsuggest : ∀ s v x, P s → P (s.suggest v x).solver) {s : Solver α} (hs : P s) {c : Call α}
    (hc : c ≠ .reset) : P (s.perform c).solver := by
  have hall : ∀ cs : List (Constraint α), ∀ c ∈ cs, True := fun _ _ _ => trivial
  cases c with
  | add c => exact hadd s c hs
  | remove c => exact hremove s c hs
  | addAll cs =>
    exact batch_keeps (fun s c _ => hadd s c) (fun s c _ => hremove s c) (hall cs) (hall []) hs
  | removeAll cs =>
    exact batch_keeps (fun s c _ => hremove s c) (fun s c _ => hadd s c) (hall cs) (hall []) hs
  | edit id v p => exact addEdit_keeps hadd hremove hrecord hs id v p
  | unedit v => exact removeEdit_keeps hremove herase hs v
  | suggest v x => exact hsuggest s v x hs
  | reset => exact absurd rfl hc

end Steps

end Solver

/-! ## 3. Lawful calls -/

/-- **The call agrees with the book.** -/
def Call.Lawful (book : ConstraintId → Origin) (s : Solver ℚ) : Call ℚ → Prop
  | .add c | .remove c => book c.id = .written c.form
  | .addAll cs | .removeAll cs => ∀ c ∈ cs, book c.id = .written c.form
  | .edit id v _ => book id = .edit v ∧ s.constraints.get? id = none
  | .unedit _ | .suggest _ _ | .reset => True

/-- **The targets after a call**: a suggestion counts if the variable is under edit, and the target
goes with the edit. -/
def Call.suggested (s : Solver ℚ) (τ : Variable → ℚ) : Call ℚ → Variable → ℚ
  | .suggest v x => if s.hasEdit v then Function.update τ v x else τ
  | .unedit v => Function.update τ v 0
  | .reset => fun _ => 0
  | _ => τ

namespace Solver

variable {book : ConstraintId → Origin} {s : Solver ℚ}

theorem target_new (config : SolverConfig) : (new config : Solver ℚ).target = fun _ => 0 :=
  funext fun _ => target_of_get?_eq_none rfl

/-- **Every lawful call keeps the solver faithful**, however it ends, and records the targets. -/
theorem Faithful.perform (h : s.Faithful book) {c : Call ℚ} (hc : c.Lawful book s) :
    (s.perform c).solver.Faithful book ∧ (s.perform c).solver.target = c.suggested s s.target := by
  -- Steps of a batch are compared with the state that the batch began in.
  have hadd : ∀ (u : Solver ℚ) (c : Constraint ℚ), book c.id = .written c.form →
      u.Faithful book ∧ u.target = s.target →
        (u.add c).solver.Faithful book ∧ (u.add c).solver.target = s.target :=
    fun u c hc hu => ⟨(hu.1.add hc).1, (hu.1.add hc).2.trans hu.2⟩
  have hremove : ∀ (u : Solver ℚ) (c : Constraint ℚ), book c.id = .written c.form →
      u.Faithful book ∧ u.target = s.target →
        (u.remove c).solver.Faithful book ∧ (u.remove c).solver.target = s.target :=
    fun u c hc hu => ⟨(hu.1.remove hc).1, (hu.1.remove hc).2.trans hu.2⟩
  have hnone : ∀ c ∈ ([] : List (Constraint ℚ)), book c.id = .written c.form := by simp
  cases c with
  | add c => exact h.add hc
  | remove c => exact h.remove hc
  | addAll cs => exact batch_keeps hadd hremove hc hnone ⟨h, rfl⟩
  | removeAll cs => exact batch_keeps hremove hadd hc hnone ⟨h, rfl⟩
  | edit id v p => exact h.addEdit hc.1 hc.2 p
  | unedit v => exact h.removeEdit v
  | suggest v x => exact ⟨(h.suggest v x).1, (h.suggest v x).2.1⟩
  | reset => exact ⟨faithful_new book s.config, target_new s.config⟩

end Solver

/-! ## 4. Reached states -/

/-- **The states that lawful calls lead to**, if each call is one that is allowed in its state,
together with the targets suggested on the way. -/
inductive Reached (book : ConstraintId → Origin) (allow : Solver ℚ → Call ℚ → Prop) :
    Solver ℚ → (Variable → ℚ) → Prop
  | new (config : SolverConfig) : Reached book allow (.new config) fun _ => 0
  | call {s : Solver ℚ} {τ : Variable → ℚ} (c : Call ℚ) (h : Reached book allow s τ)
      (lawful : c.Lawful book s) (allowed : allow s c) :
      Reached book allow (s.perform c).solver (c.suggested s τ)

namespace Reached

variable {book : ConstraintId → Origin} {allow : Solver ℚ → Call ℚ → Prop} {s : Solver ℚ}
  {τ : Variable → ℚ}

/-- **Every reached state is faithful**, at the targets of the moment. -/
theorem faithful (h : Reached book allow s τ) : s.Faithful book ∧ s.target = τ := by
  induction h with
  | new config => exact ⟨Solver.faithful_new book config, Solver.target_new config⟩
  | call c _ lawful _ ih =>
    obtain ⟨hfaithful, rfl⟩ := ih
    exact hfaithful.perform lawful

/-- The forms that a reached state means. -/
theorem forms_eq (h : Reached book allow s τ) : s.forms book = fun id => (book id).form τ := by
  funext id
  rw [Solver.forms, h.faithful.2]

/-- **The rows have just the solutions of the live constraints' equations**, at the return of every
call of every course, whatever the calls were and however they ended. -/
theorem solves_iff (h : Reached book allow s τ) :
    (∀ id r, s.constraints.get? id = some r → ∀ t ∈ ((book id).form τ).expression.terms,
      t.coefficient ≠ 0 → ∃ x, s.symbols.get? t.var = some x ∧ x.isExternal) ∧
    (∀ v w x, s.symbols.get? v = some x → s.symbols.get? w = some x → v = w) ∧
    ∀ σ : Assignment, s.tableau.Solves σ ↔ ∀ id r, s.constraints.get? id = some r →
      ((book id).form τ).expression.valueAt (s.reading σ) +
        r.tagPart ((book id).form τ).relation σ = 0 := by
  have hsound := h.faithful.1.sound
  rw [h.forms_eq] at hsound
  refine ⟨fun id r hr t ht htc => ?_, hsound.names.inj, fun σ => hsound.presents.solves σ⟩
  obtain ⟨x, hx⟩ := hsound.records.covers hr t ht htc
  exact ⟨x, hx, (hsound.names.known _ _ hx).2⟩

end Reached

/-! ## 5. A course -/

/-- `v >= 2`, required. -/
def atLeastTwo : Constraint ℚ := ⟨⟨0⟩, ⟨[.ofVariable ⟨0⟩], -2⟩, .atLeast, .required⟩

/-- The book of a course with that constraint and edits of `v`. -/
def pulledBook (id : ConstraintId) : Origin :=
  if id = ⟨0⟩ then .written atLeastTwo.form else .edit ⟨0⟩

/-- The constraint is added, `v` is put under edit ... -/
def pulledBegun : Solver ℚ := ((Solver.new : Solver ℚ).perform (.add atLeastTwo)).solver

def pulledEdited : Solver ℚ := (pulledBegun.perform (.edit ⟨1⟩ ⟨0⟩ .strong)).solver

/-- ... and pulled below the bound, to one. -/
def pulled : Solver ℚ := (pulledEdited.perform (.suggest ⟨0⟩ 1)).solver

/-- The target of that course. -/
def pulledTarget : Variable → ℚ := Function.update (fun _ => 0) ⟨0⟩ 1

theorem reached_pulled {allow : Solver ℚ → Call ℚ → Prop} (hadd : allow .new (.add atLeastTwo))
    (hedit : allow pulledBegun (.edit ⟨1⟩ ⟨0⟩ .strong))
    (hsuggest : allow pulledEdited (.suggest ⟨0⟩ 1)) :
    Reached pulledBook allow pulled pulledTarget := by
  have htarget : Call.suggested pulledEdited (fun _ => 0) (.suggest ⟨0⟩ 1) = pulledTarget := by
    rw [Call.suggested, if_pos (by decide +kernel)]
    rfl
  rw [← htarget]
  refine .call _ (.call _ (.call _ (.new {}) rfl hadd) ⟨rfl, ?_⟩ hedit) trivial hsuggest
  decide +kernel

/-- The rows of that course: those of `v - 2 - s = 0` and, for the edit, `v - 1 - p + m = 0`. -/
theorem solves_pulled :
    Reached pulledBook (fun _ _ => True) pulled pulledTarget ∧
      (pulledBook ⟨1⟩).form pulledTarget = .edit ⟨0⟩ 1 ∧
      ∀ σ : Assignment, pulled.tableau.Solves σ ↔
        ∀ id r, pulled.constraints.get? id = some r →
          ((pulledBook id).form pulledTarget).expression.valueAt (pulled.reading σ) +
            r.tagPart ((pulledBook id).form pulledTarget).relation σ = 0 :=
  have h : Reached pulledBook (fun _ _ => True) pulled pulledTarget :=
    reached_pulled trivial trivial trivial
  ⟨h, rfl, h.solves_iff.2.2⟩

end IncrementalSimplex
