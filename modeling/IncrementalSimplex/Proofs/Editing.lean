/-
# Edits, and the book of constraints

The caller writes most constraints; the solver makes one for each edit.  A BOOK records, for every
number a constraint is made under, which of the two it is (`Origin`): a form, written once and for
all, or the edit of a variable.  What an edit's constraint says is not in the book, because it
changes: it is `v == target`, where the target is the value suggested last (`Solver.forms`).

The solver keeps up with the book if every edit on its list has a live constraint of its own and
every live constraint of an edit is on the list (`Tracks`).  Together with soundness for the forms
of the moment this is `Faithful`, the invariant between two calls.  Inside a call it may be broken:
an edit that ends is taken off the list before its constraint is removed.
-/
import IncrementalSimplex.Proofs.Insertion
import IncrementalSimplex.Proofs.Removal
import IncrementalSimplex.Proofs.Shift

namespace IncrementalSimplex

/-! ## 1. The book -/

/-- Where a constraint comes from. -/
inductive Origin where
  /-- The caller wrote it. -/
  | written (f : Form)
  /-- The solver made it for the edit of a variable. -/
  | edit (v : Variable)

/-- The form of an edit's constraint: the variable equals the target. -/
def Form.edit (v : Variable) (target : ℚ) : Form := ⟨⟨[.ofVariable v], -target⟩, .equal⟩

theorem Form.valueAt_edit (v : Variable) (target : ℚ) (ρ : Variable → ℚ) :
    (Form.edit v target).expression.valueAt ρ = ρ v - target := by
  show -target + 1 * ρ v = ρ v - target
  ring

/-- **What a constraint says**, given the targets of the variables under edit. -/
def Origin.form (τ : Variable → ℚ) : Origin → Form
  | .written f => f
  | .edit v => .edit v (τ v)

namespace Solver

/-- The value suggested last, zero at first. -/
def target (s : Solver ℚ) (v : Variable) : ℚ :=
  match s.edits.get? v with
  | some e => e.constant
  | none => 0

/-- **What each constraint says at the moment.** -/
def forms (book : ConstraintId → Origin) (s : Solver ℚ) (id : ConstraintId) : Form :=
  (book id).form s.target

theorem form_editConstraint (id : ConstraintId) (v : Variable) (p : Priority) :
    (editConstraint id v p : Constraint ℚ).form = .edit v 0 := by
  show (⟨⟨[.ofVariable v], 0⟩, .equal⟩ : Form) = ⟨⟨[.ofVariable v], -0⟩, .equal⟩
  rw [neg_zero]

/-- **Edits and their constraints go together.** -/
structure Tracks (book : ConstraintId → Origin) (s : Solver ℚ) : Prop where
  live : ∀ v e, s.edits.get? v = some e → book e.constraint.id = .edit v ∧
    ∃ r, s.constraints.get? e.constraint.id = some r ∧ r.tag = e.tag ∧
      r.priority.isRequired = false
  listed : ∀ id r v, s.constraints.get? id = some r → book id = .edit v →
    ∃ e, s.edits.get? v = some e ∧ e.constraint.id = id

/-- **The invariant between two calls.** -/
structure Faithful (book : ConstraintId → Origin) (s : Solver ℚ) : Prop where
  sound : s.Sound (s.forms book)
  tracks : s.Tracks book

variable {book : ConstraintId → Origin} {forms' : ConstraintId → Form} {s u : Solver ℚ}
  {c : Constraint ℚ}

theorem faithful_new (book : ConstraintId → Origin) (config : SolverConfig) :
    (new config : Solver ℚ).Faithful book where
  sound := sound_new _ config
  tracks := ⟨fun v e he => (by cases he), fun id r v hr => (not_live_new config hr).elim⟩

/-- The forms change with the targets only. -/
theorem forms_congr (h : u.target = s.target) : u.forms book = s.forms book := by
  funext id
  rw [forms, forms, h]

theorem target_congr (h : u.edits = s.edits) : u.target = s.target := by
  funext v
  rw [target, target, h]

/-- A target matters to the forms of its own edits only. -/
theorem forms_eq_of_ne {id : ConstraintId} {v : Variable} (hb : book id ≠ .edit v)
    (h : ∀ w, w ≠ v → u.target w = s.target w) : u.forms book id = s.forms book id := by
  unfold forms
  cases hid : book id with
  | written f => rfl
  | edit w =>
    have hwv : w ≠ v := by
      rintro rfl
      exact hb hid
    rw [Origin.form, Origin.form, h w hwv]

/-- Edits are tracked as long as their constraints stay. -/
theorem Tracks.congr (h : s.Tracks book) (hedits : u.edits = s.edits)
    (hcons : ∀ id v, book id = .edit v → u.constraints.get? id = s.constraints.get? id) :
    u.Tracks book where
  live v e he := by
    rw [hedits] at he
    obtain ⟨hb, r, hr, hrest⟩ := h.live v e he
    exact ⟨hb, r, (hcons _ v hb).trans hr, hrest⟩
  listed id r v hr hb := by
    rw [hcons id v hb] at hr
    rw [hedits]
    exact h.listed id r v hr hb

/-- The edits are no part of what is presented. -/
theorem Sound.withEdits (h : s.Sound forms') (edits : Registry Variable (Edit ℚ)) :
    ({ s with edits := edits } : Solver ℚ).Sound forms' :=
  ⟨h.presents, h.numbered, ⟨h.names.known, h.names.inj⟩, h.records.fits, h.records.known,
    h.records.apart, h.records.disjoint, h.records.covers, h.records.priced⟩

/-! ## 2. Written constraints -/

theorem forms_written (s : Solver ℚ) (h : book c.id = .written c.form) :
    s.forms book c.id = c.form := by
  rw [forms, h, Origin.form]

/-- **Adding a written constraint**, however it ends. -/
theorem Faithful.add (h : s.Faithful book) (hc : book c.id = .written c.form) :
    (s.add c).solver.Faithful book ∧ (s.add c).solver.target = s.target := by
  have hform := s.forms_written hc
  obtain ⟨hedits, hcons, -⟩ := h.sound.add_frame hform
  refine ⟨⟨?_, h.tracks.congr hedits fun id v hb => hcons id ?_⟩, target_congr hedits⟩
  · rw [forms_congr (target_congr hedits)]
    exact h.sound.add hform
  · rintro rfl
    rw [hc] at hb
    cases hb

/-- **Removing a written constraint**, however it ends. -/
theorem Faithful.remove (h : s.Faithful book) (hc : book c.id = .written c.form) :
    (s.remove c).solver.Faithful book ∧ (s.remove c).solver.target = s.target := by
  obtain ⟨hedits, -, hcons, -⟩ := h.sound.remove_frame c
  refine ⟨⟨?_, h.tracks.congr hedits fun id v hb => hcons id ?_⟩, target_congr hedits⟩
  · rw [forms_congr (target_congr hedits)]
    exact h.sound.remove c
  · rintro rfl
    rw [hc] at hb
    cases hb

/-! ## 3. Beginning and ending an edit -/

variable {id : ConstraintId} {r : ConstraintRecord} {v : Variable} {p : Priority}

theorem target_of_get?_eq_none (h : s.edits.get? v = none) : s.target v = 0 := by
  rw [target, h]

/-- Listing an edit at its first target changes no target. -/
theorem target_insert (hnone : s.edits.get? v = none) (tag : Tag) (c : Constraint ℚ) :
    ({ s with edits := s.edits.insert v ⟨tag, c, 0⟩ } : Solver ℚ).target = s.target := by
  funext w
  unfold target
  rw [Registry.get?_insert]
  by_cases hwv : w = v
  · rw [if_pos hwv, hwv, hnone]
  · rw [if_neg hwv]

/-- **An edit that was begun.** -/
theorem Tracks.recordEdit (h : s.Tracks book) (hu : u.edits = s.edits)
    (hcons : ∀ j, j ≠ id → u.constraints.get? j = s.constraints.get? j)
    (hnone : s.edits.get? v = none) (hnew : s.constraints.get? id = none)
    (hb : book id = .edit v) {r : ConstraintRecord} (hr : u.constraints.get? id = some r)
    (hsoft : r.priority.isRequired = false) {c : Constraint ℚ} (hid : c.id = id) :
    ({ u with edits := u.edits.insert v ⟨r.tag, c, 0⟩ } : Solver ℚ).Tracks book where
  live w e he := by
    rw [show ({ u with edits := u.edits.insert v ⟨r.tag, c, 0⟩ } : Solver ℚ).edits.get? w =
      if w = v then some ⟨r.tag, c, 0⟩ else u.edits.get? w from Registry.get?_insert _ _ _ _] at he
    split at he
    · rename_i hwv
      cases he
      dsimp only
      rw [hid, hwv]
      exact ⟨hb, r, hr, rfl, hsoft⟩
    · rw [hu] at he
      obtain ⟨hbe, q, hq, hrest⟩ := h.live w e he
      refine ⟨hbe, q, ?_, hrest⟩
      refine (hcons _ ?_).trans hq
      intro heq
      rw [heq, hnew] at hq
      cases hq
  listed j q w hq hbj := by
    rw [show ({ u with edits := u.edits.insert v ⟨r.tag, c, 0⟩ } : Solver ℚ).edits.get? w =
      if w = v then some ⟨r.tag, c, 0⟩ else u.edits.get? w from Registry.get?_insert _ _ _ _]
    by_cases hji : j = id
    · subst hji
      rw [hb] at hbj
      cases hbj
      exact ⟨_, if_pos rfl, hid⟩
    · have hq' : s.constraints.get? j = some q := (hcons j hji).symm.trans hq
      obtain ⟨e, he, hej⟩ := h.listed j q w hq' hbj
      refine ⟨e, ?_, hej⟩
      rw [if_neg, hu, he]
      rintro rfl
      rw [hnone] at he
      cases he

theorem editRefusal?_eq_none {α : Type} {s : Solver α} (h : s.editRefusal? v p = none) :
    s.edits.get? v = none ∧ 0 ≤ p.value ∧ p.isRequired = false := by
  unfold editRefusal? at h
  split at h
  · cases h
  · rename_i hedit
    split at h
    · cases h
    · rename_i hprio
      simp only [Bool.or_eq_true, not_or, Bool.not_eq_true] at hprio
      refine ⟨?_, not_lt.mp (of_decide_eq_false hprio.1), hprio.2⟩
      simpa [hasEdit, Registry.contains] using hedit

/-- An edit that could not be begun leaves no constraint, and answers with the reason. -/
theorem Sound.abandonEdit (h : s.Sound forms') (c : Constraint ℚ) (v : Variable)
    (e : SolverError) :
    (s.abandonEdit c v e).outcome = .error (.refused e) ∧
      ((s.constraints.get? c.id = none ∧ (s.abandonEdit c v e).solver = s) ∨
        (s.abandonEdit c v e).solver = (s.remove c).solver) := by
  unfold Solver.abandonEdit
  cases hhas : s.has c with
  | true =>
    dsimp only
    rw [if_pos rfl]
    rcases h.remove_outcome c with ⟨-, hout⟩ | ⟨hout, -⟩ | hout <;>
      rw [hout] <;>
      exact ⟨rfl, .inr rfl⟩
  | false =>
    rw [if_neg (by simp)]
    exact ⟨rfl, .inl ⟨by simpa [Solver.has, Registry.contains] using hhas, rfl⟩⟩

/-- **Everything that beginning an edit can do**: nothing, or a constraint is added and the edit
listed, or the constraint could not be added and is not there. -/
theorem Faithful.addEdit_cases (h : s.Faithful book) (hb : book id = .edit v) (p : Priority) :
    (∃ e, s.editRefusal? v p = some e ∧ s.addEdit id v p = .refused s e) ∨
    ∃ c : Constraint ℚ, c.id = id ∧ s.forms book c.id = c.form ∧ s.edits.get? v = none ∧
      ((∃ tag, (s.add c).outcome = .ok () ∧
          (s.add c).solver.constraints.get? id = some ⟨tag, p⟩ ∧ p.isRequired = false ∧
          (s.addEdit id v p).outcome = .ok () ∧ (s.addEdit id v p).solver = { (s.add c).solver with
            edits := (s.add c).solver.edits.insert v ⟨tag, c, 0⟩ }) ∨
        ∃ error, (s.add c).outcome = .error (.refused error) ∧
          (s.addEdit id v p).outcome = .error (.refused error) ∧
          (((s.add c).solver.constraints.get? id = none ∧
              (s.addEdit id v p).solver = (s.add c).solver) ∨
            (s.addEdit id v p).solver = ((s.add c).solver.remove c).solver)) := by
  unfold Solver.addEdit
  cases hrefuse : s.editRefusal? v p with
  | some e => exact .inl ⟨e, rfl, rfl⟩
  | none =>
    obtain ⟨hnone, -, hsoft⟩ := editRefusal?_eq_none hrefuse
    have hform : s.forms book (editConstraint id v p : Constraint ℚ).id =
        (editConstraint id v p : Constraint ℚ).form := by
      rw [form_editConstraint, forms,
        show book (editConstraint id v p : Constraint ℚ).id = _ from hb, Origin.form, target_of_get?_eq_none hnone]
    refine .inr ⟨editConstraint id v p, rfl, hform, hnone, ?_⟩
    have hsound := h.sound.add hform
    have hout := h.sound.add_outcome hform
    generalize hc : (editConstraint id v p : Constraint ℚ) = c at hsound hout ⊢
    have hid : c.id = id := by rw [← hc]; rfl
    have hprio : c.priority = p := by rw [← hc]; rfl
    rw [hid, hprio] at hout
    have hends : ((s.add c).outcome = .ok () ∧
        ∃ tag, (s.add c).solver.constraints.get? id = some ⟨tag, p⟩) ∨
          ∃ error, (s.add c).outcome = .error (.refused error) := by
      rcases hout with ⟨hok, -, hget⟩ | hlimit | ⟨error, herr, -⟩
      · exact .inl ⟨hok, hget⟩
      · exact .inr ⟨_, hlimit⟩
      · exact .inr ⟨error, herr⟩
    dsimp only
    rcases hends with ⟨hok, tag, hget⟩ | ⟨error, herr⟩
    · refine .inl ⟨tag, hok, hget, hsoft, ?_⟩
      rw [hok]
      dsimp only
      rw [Reply.outcome_after, Reply.solver_after, Solver.recordEdit, hid, hget]
      exact ⟨rfl, rfl⟩
    · obtain ⟨hout, hsol⟩ := hsound.abandonEdit c v error
      rw [hid] at hsol
      refine .inr ⟨error, herr, ?_⟩
      rw [herr]
      exact ⟨hout, hsol⟩

/-- **Beginning an edit**, however it ends. -/
theorem Faithful.addEdit (h : s.Faithful book) (hb : book id = .edit v)
    (hnew : s.constraints.get? id = none) (p : Priority) :
    (s.addEdit id v p).solver.Faithful book ∧ (s.addEdit id v p).solver.target = s.target := by
  rcases h.addEdit_cases hb p with ⟨e, -, heq⟩ | ⟨c, hid, hform, hnone, hcases⟩
  · rw [heq]
    exact ⟨h, rfl⟩
  have hsound := h.sound.add hform
  obtain ⟨hedits, hcons, -⟩ := h.sound.add_frame hform
  rw [hid] at hcons
  rcases hcases with ⟨tag, -, hget, hsoft, -, hsol⟩ | ⟨error, -, -, ⟨hgone, hsol⟩ | hsol⟩
  · have htarget := (target_insert (s := (s.add c).solver) (by rw [hedits, hnone]) tag c).trans
      (target_congr hedits)
    rw [hsol]
    refine ⟨⟨?_, ?_⟩, htarget⟩
    · rw [forms_congr htarget]
      exact hsound.withEdits _
    · exact h.tracks.recordEdit hedits hcons hnone hnew hb hget hsoft hid
  · rw [hsol]
    refine ⟨⟨?_, h.tracks.congr hedits fun j w _ => ?_⟩, target_congr hedits⟩
    · rw [forms_congr (target_congr hedits)]
      exact hsound
    · by_cases hj : j = id
      · rw [hj, hgone, hnew]
      · exact hcons j hj
  · obtain ⟨hedits', hgone, hcons', -⟩ := hsound.remove_frame c
    rw [hid] at hgone hcons'
    have htarget := target_congr (hedits'.trans hedits)
    rw [hsol]
    refine ⟨⟨?_, h.tracks.congr (hedits'.trans hedits) fun j w _ => ?_⟩, htarget⟩
    · rw [forms_congr htarget]
      exact hsound.remove _
    · by_cases hj : j = id
      · rw [hj, hgone, hnew]
      · exact (hcons' j hj).trans (hcons j hj)

/-- The only live constraint of an edit is the one it was begun with. -/
theorem Tracks.id_eq (h : s.Tracks book) {e : Edit ℚ} (he : s.edits.get? v = some e)
    {r : ConstraintRecord} (hr : s.constraints.get? id = some r) (hb : book id = .edit v) :
    id = e.constraint.id := by
  obtain ⟨e', he', hid⟩ := h.listed id r v hr hb
  rw [he] at he'
  cases he'
  exact hid.symm

/-- The solver with an edit taken off the list, while its constraint is still there. -/
def unedited (s : Solver ℚ) (v : Variable) : Solver ℚ := { s with edits := s.edits.erase v }

theorem get?_unedited (s : Solver ℚ) (v w : Variable) :
    (s.unedited v).edits.get? w = if w = v then none else s.edits.get? w :=
  s.edits.get?_erase v w

/-- An edit that ends takes its target along. -/
theorem target_unedited (s : Solver ℚ) (v : Variable) :
    (s.unedited v).target = Function.update s.target v 0 := by
  funext w
  rw [target, get?_unedited]
  by_cases hwv : w = v
  · rw [if_pos hwv, hwv, Function.update_self]
  · rw [if_neg hwv, Function.update_of_ne hwv, target]

/-- Ending an edit is removing its constraint. -/
theorem removeEdit_eq (he : s.edits.get? v = none) :
    s.removeEdit v = .refused s (.unknownEditVariable v) := by
  rw [Solver.removeEdit, he]

theorem removeEdit_of_edit {e : Edit ℚ} (he : s.edits.get? v = some e) :
    (s.removeEdit v).solver = ((s.unedited v).remove e.constraint).solver ∧
      (s.removeEdit v).outcome = ((s.unedited v).remove e.constraint).outcome := by
  rw [Solver.removeEdit, he]
  show ((s.unedited v).remove e.constraint |>.andThen _).solver = _ ∧
    ((s.unedited v).remove e.constraint |>.andThen _).outcome = _
  unfold Reply.andThen
  split
  · rename_i hok
    rw [hok]
    exact ⟨rfl, rfl⟩
  · exact ⟨rfl, rfl⟩

/-- **Ending an edit**, however it ends.  Between the edit leaving the list and its constraint
leaving the tableau the target is forgotten, which matters to no other constraint. -/
theorem Faithful.removeEdit (h : s.Faithful book) (v : Variable) :
    (s.removeEdit v).solver.Faithful book ∧
      (s.removeEdit v).solver.target = Function.update s.target v 0 := by
  cases he : s.edits.get? v with
  | none =>
    rw [removeEdit_eq he]
    refine ⟨h, ?_⟩
    show s.target = _
    rw [← target_of_get?_eq_none he, Function.update_eq_self]
  | some e =>
    obtain ⟨hbe, -⟩ := h.tracks.live v e he
    have hs : (s.unedited v).Sound (s.forms book) := h.sound.withEdits _
    obtain ⟨hedits, -⟩ := hs.remove_frame e.constraint
    have hu := hs.remove e.constraint
    have htarget := (target_congr hedits).trans (s.target_unedited v)
    have hlive : ∀ {j r}, ((s.unedited v).remove e.constraint).solver.constraints.get? j = some r ↔
        j ≠ e.constraint.id ∧ s.constraints.get? j = some r := hs.get?_remove e.constraint
    rw [(removeEdit_of_edit he).1]
    generalize ((s.unedited v).remove e.constraint).solver = u at hu hedits htarget hlive ⊢
    have hget : ∀ w, u.edits.get? w = if w = v then none else s.edits.get? w := by
      intro w
      rw [hedits, get?_unedited]
    refine ⟨⟨hu.congr_forms fun j r hr => ?_, fun w f hf => ?_, fun j r w hr hb => ?_⟩, htarget⟩
    · obtain ⟨hj, hr⟩ := hlive.mp hr
      refine forms_eq_of_ne (fun hb => hj (h.tracks.id_eq he hr hb)) fun w hwv => ?_
      rw [htarget, Function.update_of_ne hwv]
    · rw [hget] at hf
      split at hf
      · cases hf
      · rename_i hwv
        obtain ⟨hb, r, hr, hrest⟩ := h.tracks.live w f hf
        refine ⟨hb, r, hlive.mpr ⟨?_, hr⟩, hrest⟩
        intro heq
        rw [heq, hbe] at hb
        cases hb
        exact hwv rfl
    · obtain ⟨hj, hr⟩ := hlive.mp hr
      obtain ⟨f, hf, hid⟩ := h.tracks.listed j r w hr hb
      refine ⟨f, ?_, hid⟩
      rw [hget, if_neg, hf]
      rintro rfl
      exact hj (h.tracks.id_eq he hr hb)

/-! ## 4. Suggesting a value -/

end Solver

namespace ConstraintRecord

variable {r : ConstraintRecord}

/-- Moving a symbol of the tag moves the price by a constant. -/
theorem exists_penalty_move (hapart : r.tag.marker ≠ r.tag.other) {x : Symbol}
    (hx : r.tag.Has x) (e : ℚ) :
    ∃ w, ∀ σ : Assignment, r.penalty (Function.update σ x (σ x + e)) = r.penalty σ + w := by
  have hself : ∀ σ : Assignment, Tableau.errorAt (Function.update σ x (σ x + e)) x =
      Tableau.errorAt σ x + if x.isError then e else 0 := by
    intro σ
    unfold Tableau.errorAt
    rw [Function.update_self]
    split
    · rfl
    · ring
  refine ⟨r.priority.weight * if x.isError then e else 0, fun σ => ?_⟩
  unfold penalty
  obtain ⟨-, rfl | rfl⟩ := hx
  · rw [hself, Tableau.errorAt_update_of_ne hapart.symm]
    ring
  · rw [hself, Tableau.errorAt_update_of_ne hapart]
    ring

/-- **The two errors of a soft equality matter by their difference**: raising the marker and
lowering the other symbol are the same. -/
theorem tagPart_move (hapart : r.tag.marker ≠ r.tag.other) (hsoft : r.priority.isRequired = false)
    {x : Symbol} {d δ : ℚ} (hx : x = r.tag.marker ∧ d = δ ∨ x = r.tag.other ∧ d = -δ)
    (σ : Assignment) :
    r.tagPart .equal (Function.update σ x (σ x + d)) = r.tagPart .equal σ - δ := by
  simp only [tagPart, hsoft, Bool.false_eq_true, if_false]
  rcases hx with ⟨rfl, rfl⟩ | ⟨rfl, rfl⟩
  · rw [Function.update_self, Function.update_of_ne hapart.symm]
    ring
  · rw [Function.update_self, Function.update_of_ne hapart]
    ring

end ConstraintRecord

namespace Solver

variable {book : ConstraintId → Origin} {forms' : ConstraintId → Form} {s u : Solver ℚ}
  {c : Constraint ℚ} {id : ConstraintId} {r : ConstraintRecord} {v : Variable}

/-- Moving a symbol of one tag moves the cost by a constant. -/
theorem Records.exists_cost_move (hs : s.Records forms') (hr : s.constraints.get? id = some r)
    {x : Symbol} (hx : r.tag.Has x) (e : ℚ) :
    ∃ w, ∀ σ, s.cost (Function.update σ x (σ x + e)) = s.cost σ + w := by
  obtain ⟨w, hw⟩ := ConstraintRecord.exists_penalty_move (hs.apart hr) hx e
  refine ⟨w, fun σ => ?_⟩
  have hothers : (s.unlisted id).cost (Function.update σ x (σ x + e)) =
      (s.unlisted id).cost σ := by
    refine cost_update (fun j q hq hhas => ?_) hx.1 σ _
    obtain ⟨hj, hq⟩ := get?_of_unlisted hq
    exact hj (hs.disjoint hq hr x hhas hx)
  rw [cost_unlisted hr, cost_unlisted hr, hw σ] at hothers
  linarith

/-- The solver with another target for an edit. -/
def retarget (s : Solver ℚ) (v : Variable) (e : Edit ℚ) (x : ℚ) : Solver ℚ :=
  { s with edits := s.edits.insert v { e with constant := x } }

theorem get?_retarget (s : Solver ℚ) (v w : Variable) (e : Edit ℚ) (x : ℚ) :
    (s.retarget v e x).edits.get? w =
      if w = v then some { e with constant := x } else s.edits.get? w :=
  s.edits.get?_insert v w _

/-- The forms after a new target: that of the edit has the target, the others are as they were. -/
theorem Tracks.forms_retarget (h : s.Tracks book) {e : Edit ℚ} (he : s.edits.get? v = some e)
    (x : ℚ) (hr : s.constraints.get? id = some r) :
    (s.retarget v e x).forms book id =
      if id = e.constraint.id then .edit v x else s.forms book id := by
  have hb := (h.live v e he).1
  by_cases hid : id = e.constraint.id
  · rw [if_pos hid, forms, hid, hb, Origin.form, target, get?_retarget, if_pos rfl]
  · rw [if_neg hid]
    refine forms_eq_of_ne (fun hb => hid (h.id_eq he hr hb)) fun w hwv => ?_
    rw [target, target, get?_retarget, if_neg hwv]

/-- The form of an edit's constraint. -/
theorem Tracks.forms_edit (h : s.Tracks book) {e : Edit ℚ} (he : s.edits.get? v = some e) :
    s.forms book e.constraint.id = .edit v e.constant := by
  rw [forms, (h.live v e he).1, Origin.form, target, he]

/-- A new target leaves the edits and their constraints together. -/
theorem Tracks.retarget (h : s.Tracks book) {e : Edit ℚ} (he : s.edits.get? v = some e) (x : ℚ) :
    (s.retarget v e x).Tracks book where
  live w f hf := by
    rw [get?_retarget] at hf
    split at hf
    · rename_i hwv
      cases hf
      rw [hwv]
      exact h.live v e he
    · exact h.live w f hf
  listed j q w hq hb := by
    obtain ⟨f, hf, hid⟩ := h.listed j q w hq hb
    rw [get?_retarget]
    by_cases hwv : w = v
    · rw [hwv, he] at hf
      cases hf
      exact ⟨_, if_pos hwv, hid⟩
    · exact ⟨f, (if_neg hwv).trans hf, hid⟩

/-- A new target asks for no other tag and no other variable. -/
theorem Faithful.records_retarget (h : s.Faithful book) {e : Edit ℚ}
    (he : s.edits.get? v = some e) (x : ℚ) :
    (s.retarget v e x).Records ((s.retarget v e x).forms book) where
  fits {id r} hr := by
    have hfit := h.sound.records.fits hr
    rw [h.tracks.forms_retarget he x hr]
    split
    · rename_i hid
      rw [hid, h.tracks.forms_edit he] at hfit
      exact hfit
    · exact hfit
  known := h.sound.records.known
  apart := h.sound.records.apart
  disjoint := h.sound.records.disjoint
  covers {id r} hr := by
    have hcov := h.sound.records.covers hr
    rw [h.tracks.forms_retarget he x hr]
    split
    · rename_i hid
      rw [hid, h.tracks.forms_edit he] at hcov
      exact hcov
    · exact hcov
  priced := h.sound.records.priced

/-- **A new target is a moved error.** -/
theorem Faithful.satisfies_retarget (h : s.Faithful book) {e : Edit ℚ}
    (he : s.edits.get? v = some e) (x : ℚ) {y : Symbol} {d : ℚ} (hne : y ≠ .placeholder)
    (hy : y = e.tag.marker ∧ d = x - e.constant ∨ y = e.tag.other ∧ d = -(x - e.constant))
    (σ : Assignment) :
    s.Satisfies (s.forms book) (Function.update σ y (σ y + d)) ↔
      (s.retarget v e x).Satisfies ((s.retarget v e x).forms book) σ := by
  obtain ⟨hb, r, hr, htag, hsoft⟩ := h.tracks.live v e he
  have hhas : r.tag.Has y := by
    rw [htag]
    exact ⟨hne, hy.imp And.left And.left⟩
  have hres := (h.sound.records.fits hr).restricted hhas
  refine forall_congr' fun j => forall_congr' fun q => imp_congr_right fun hq => ?_
  show s.Equates _ q _ ↔ s.Equates _ q σ
  rw [h.tracks.forms_retarget he x hq]
  split
  · rename_i hj
    subst hj
    rw [hr] at hq
    cases hq
    rw [h.tracks.forms_edit he, Equates, Equates, h.sound.names.reading_update hres,
      Form.valueAt_edit, Form.valueAt_edit]
    rw [htag.symm] at hy
    have hmove := ConstraintRecord.tagPart_move (h.sound.records.apart hr) hsoft hy σ
    show _ + r.tagPart .equal _ = 0 ↔ _ + r.tagPart .equal σ = 0
    rw [hmove]
    constructor <;> intro heq <;> linarith
  · rename_i hj
    exact equates_update h.sound.names
      (fun hqy => hj (h.sound.records.disjoint hq hr y hqy hhas)) hres hne _ σ _

/-- **Shifting the target keeps the solver faithful.**  What was feasible waits on the queue where
it is not any more. -/
theorem Faithful.shift (h : s.Faithful book) {e : Edit ℚ} (he : s.edits.get? v = some e) (x : ℚ) :
    let u : Solver ℚ := { s.retarget v e x with
      tableau := s.tableau.shift e.tag (x - e.constant) }
    u.Faithful book ∧ (s.tableau.Feasible → u.tableau.Queued) ∧
      (s.tableau.DummyPure → u.tableau.DummyPure) ∧ (s.tableau.Settled → u.tableau.Settled) := by
  obtain ⟨-, r, hr, htag, hsoft⟩ := h.tracks.live v e he
  have hfit := h.sound.records.fits hr
  have hm := hfit.has_marker
  have ho := hfit.has_other hsoft
  have hres : ∀ z, r.tag.Has z → z.isRestricted := fun z => hfit.restricted
  have hdum : ∀ z, r.tag.Has z → z.isDummy = false := fun z => hfit.not_isDummy_of_soft hsoft
  have hmove : ∀ z, r.tag.Has z → ∀ d, ∃ w, ∀ σ,
      s.cost (Function.update σ z (σ z + d)) = s.cost σ + w := fun z hz =>
    h.sound.records.exists_cost_move hr hz
  rw [htag] at hm ho hres hdum hmove
  have hmarker := h.satisfies_retarget he x hm.1 (.inl ⟨rfl, rfl⟩)
  have hother := h.satisfies_retarget he x ho.1 (.inr ⟨rfl, rfl⟩)
  have hshift := h.sound.presents.shift (δ := x - e.constant) (hres _ hm) (hdum _ hm) (hres _ ho)
    (hdum _ ho) (fun σ => (hother σ).trans (hmarker σ).symm) fun z hz => by
      rcases hz with rfl | rfl
      · exact hmove _ hm
      · exact hmove _ ho
  obtain ⟨hpres, hqueued, hpure, hset⟩ := hshift
  refine ⟨⟨⟨?_, ?_, ?_, ?_⟩, ?_⟩, hqueued, hpure, hset⟩
  · exact hpres.congr hmarker fun _ => rfl
  · exact h.sound.numbered.shift _ _
  · exact h.sound.names.mono rfl (le_refl _)
  · exact (h.records_retarget he x).withTableau _
  · have ht := h.tracks.retarget he x
    exact ⟨ht.live, ht.listed⟩

/-- **Suggesting a value**, however it ends.  When the dual pass is stuck, the system of the new
target has no solution. -/
theorem Faithful.suggest (h : s.Faithful book) (v : Variable) (x : ℚ) :
    (s.suggest v x).solver.Faithful book ∧
      (s.suggest v x).solver.target =
        (if s.hasEdit v then Function.update s.target v x else s.target) ∧
      (s.suggest v x).solver.constraints = s.constraints ∧
      (s.tableau.DummyPure → (s.suggest v x).solver.tableau.DummyPure) ∧
      (s.tableau.Settled → (s.suggest v x).solver.tableau.Settled) ∧
      ((s.suggest v x).outcome = .ok () ∧
          (s.tableau.Feasible → (s.suggest v x).solver.tableau.Feasible) ∨
        (s.suggest v x).outcome = .error (.refused (.iterationLimit s.config.maxIterations)) ∨
        (s.suggest v x).outcome = .error (.refused (.internal .dualStuck)) ∧
          ∀ σ : Assignment, σ.Proper → ¬ (s.suggest v x).solver.Satisfies
            ((s.suggest v x).solver.forms book) σ) := by
  cases he : s.edits.get? v with
  | none =>
    have hnot : s.hasEdit v = false := by simp [hasEdit, Registry.contains, he]
    rw [Solver.suggest, he]
    exact ⟨h, by rw [hnot]; rfl, rfl, id, id, .inl ⟨rfl, id⟩⟩
  | some e =>
    obtain ⟨hu, hqueued, hpure, hset⟩ := h.shift he x
    have hsuggest : s.suggest v x = Solver.repair { s.retarget v e x with
        tableau := s.tableau.shift e.tag (x - e.constant) } := by
      rw [Solver.suggest, he]
      rfl
    have hhas : s.hasEdit v = true := by simp [hasEdit, Registry.contains, he]
    have htarget : (s.retarget v e x).target = Function.update s.target v x := by
      funext w
      rw [target, get?_retarget]
      by_cases hwv : w = v
      · rw [if_pos hwv, hwv, Function.update_self]
      · rw [if_neg hwv, Function.update_of_ne hwv, target]
    obtain ⟨hsound, hpure', hset', hout⟩ := hu.sound.repair
    rw [hsuggest, hhas, if_pos rfl]
    refine ⟨⟨hsound, hu.tracks.live, hu.tracks.listed⟩, htarget, rfl, hpure' ∘ hpure,
      hset' ∘ hset, ?_⟩
    rcases hout with ⟨hok, hfeas⟩ | hlimit | ⟨hstuck, hnone⟩
    · exact .inl ⟨hok, fun hf => hfeas (hqueued hf)⟩
    · exact .inr (.inl hlimit)
    · exact .inr (.inr ⟨hstuck, hnone⟩)

end Solver

end IncrementalSimplex
