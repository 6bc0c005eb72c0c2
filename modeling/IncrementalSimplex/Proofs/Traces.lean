/-
# What the live constraints account for

A constraint comes into the tableau as one row with its own two symbols.  The pivots that follow
spread these over other rows and over the objective, and soon nothing says any more which row came
with which constraint.  When the constraint goes, only its MARKER is taken out: no line of the code
looks for its second symbol, or makes sure that it takes a row with it.  Both hold all the same, and
not because of how the tableau was arrived at, but because of what it means (`Solver.Sound`).

* **Symbols.**  A symbol that is in no equation and has no price is nowhere in the tableau
  (`Presents.over_ne`): as a basic symbol it would be determined, in the cell of a row it would move
  a basic one, and in the objective it would cost something.  So every symbol but the external ones
  is that of a live constraint (`Sound.over_accounts`).
* **Rows.**  There are as many as live constraints (`Sound.size_rows`).  To count them, the
  constraints are cleared one after the other.  Each takes exactly one row along
  (`Presents.size_expel`): some row has the marker, or the system would not depend on it.  When none
  is left every assignment is a solution, so there is no row left either.

The symbols of a constraint that is no longer live do not come back: whatever is live after a call
either was so before, with the same tag, or has symbols with later numbers (`Faithful.live_perform`).
-/
import IncrementalSimplex.Proofs.Calls
import IncrementalSimplex.Proofs.Frames

namespace IncrementalSimplex

namespace Tableau

variable {t u : Tableau ℚ} {S : Assignment → Prop} {c : Assignment → ℚ}

/-! ## 1. Symbols that do not matter -/

/-- A property of all symbols of a tableau may be shown by excluding those without it. -/
theorem over_of_forall_ne {α : Type} {P : Symbol → Prop} {t : Tableau α}
    (h : ∀ x, ¬ P x → t.Over (· ≠ x)) : t.Over P where
  basic {b _} hb := by
    by_contra hP
    exact (h b hP).basic hb rfl
  rows hb x hx := by
    by_contra hP
    exact (h x hP).rows hb hx rfl
  objective {x} hx := by
    by_contra hP
    exact (h x hP).objective hx rfl
  artificial ha x hx := by
    by_contra hP
    exact (h x hP).artificial ha hx rfl

/-- Raising a symbol by one raises a form by its coefficient. -/
theorem value_update_add_one (row : Row ℚ) (σ : Assignment) (x : Symbol) :
    row.value (Function.update σ x (σ x + 1)) = row.value σ + row.coefficient x := by
  rw [Row.value_update]
  ring

/-- If a symbol may be chosen at will, the reported solution stays one when the symbol is raised. -/
theorem Presents.solves_raised (h : t.Presents S c) {x : Symbol}
    (hS : ∀ σ q, S σ → S (Function.update σ x q)) :
    t.Solves (Function.update t.point x (t.point x + 1)) :=
  (h.solves _).mpr (hS _ _ ((h.solves _).mp h.toCanonical.solves_point))

/-- A basic symbol cannot be chosen at will. -/
theorem Presents.nonbasic_of_update (h : t.Presents S c) {x : Symbol}
    (hS : ∀ σ q, S σ → S (Function.update σ x q)) : t.Nonbasic x := by
  by_contra hx
  obtain ⟨row, hrow⟩ := Option.ne_none_iff_exists'.mp hx
  have hself : row.coefficient x = 0 :=
    Row.coefficient_of_not_mentions fun hmen => not_nonbasic_of_get? hrow (h.rows hrow hmen)
  have hrises := h.solves_raised hS x row hrow
  rw [Function.update_self, value_update_add_one, hself,
    ← h.toCanonical.solves_point x row hrow] at hrises
  linarith

/-- **A symbol that is in no equation and has no price is nowhere in the tableau.** -/
theorem Presents.over_ne (h : t.Presents S c) {x : Symbol}
    (hS : ∀ σ q, S σ → S (Function.update σ x q))
    (hc : ∀ σ q, c (Function.update σ x q) = c σ) : t.Over (· ≠ x) := by
  have hx : t.Nonbasic x := h.nonbasic_of_update hS
  -- two solutions that differ in `x` alone
  have hlow : t.Solves t.point := h.toCanonical.solves_point
  have hhigh := h.solves_raised hS
  refine ⟨fun {b row} hb => (hx.ne hb).symm, fun {b row} hb y hy => ?_, fun {y} hy => ?_,
    fun {row} ha => ?_⟩
  · rintro rfl
    have hsame := hhigh b row hb
    rw [Function.update_of_ne (hx.ne hb).symm, value_update_add_one, ← hlow b row hb] at hsame
    exact (h.reduced hb).coefficient_ne_zero hy (by linarith)
  · rintro rfl
    obtain ⟨k, hk⟩ := h.prices
    have hcost := hk t.objective rfl _ hhigh
    rw [value_update_add_one, hk t.objective rfl _ hlow, hc] at hcost
    exact h.objective_reduced.coefficient_ne_zero hy (by linarith)
  · rw [h.noArtificial] at ha
    cases ha

/-! ## 2. One row less -/

/-- **Expelling a symbol that matters takes one row out of the tableau.** -/
theorem Presents.size_expel (h : t.Presents S c) {m : Symbol} {σ : Assignment} {q : ℚ}
    (hσ : S σ) (hm : ¬ S (Function.update σ m q)) (hu : t.expel m = .ok u) :
    u.rows.size + 1 = t.rows.size := by
  rcases expel_cases hu with ⟨row, hrow, rfl⟩ | ⟨hnon, hl, rfl⟩ |
    ⟨-, l, row, solved, -, hrow, -, rfl⟩
  · exact SymbolMap.size_erase hrow
  · refine absurd ((h.update_of_absent hnon (fun b row hb hmen => ?_) σ q).mpr hσ) hm
    exact (h.reduced hb).coefficient_ne_zero hmen (coefficient_of_leavingForMarker?_eq_none hl hb)
  · rw [← SymbolMap.size_erase hrow]
    exact congrArg (· + 1) (SymbolMap.size_map _ _)

/-- Without a condition there is no row. -/
theorem Presents.rows_eq_empty (h : t.Presents S c) (hS : ∀ σ, S σ) : t.rows = .empty :=
  SymbolMap.ext fun _ => h.nonbasic_of_update fun _ _ _ => hS _

end Tableau

/-- The marker counts in the equation of its constraint. -/
theorem ConstraintRecord.tagPart_raised_ne {r : ConstraintRecord} (h : r.tag.marker ≠ r.tag.other)
    (rel : Relation) (σ : Assignment) :
    r.tagPart rel (Function.update σ r.tag.marker (σ r.tag.marker + 1)) ≠ r.tagPart rel σ := by
  unfold tagPart
  rw [Function.update_self, Function.update_of_ne h.symm]
  cases rel <;> cases r.priority.isRequired <;> simp

namespace Solver

variable {forms forms' : ConstraintId → Form} {book : ConstraintId → Origin} {s u v : Solver ℚ}
  {id : ConstraintId} {r : ConstraintRecord}

/-! ## 3. Symbols and rows of a sound solver -/

/-- **The symbols that a solver accounts for**: those of variables, and those of live
constraints. -/
def Accounts (s : Solver ℚ) (x : Symbol) : Prop :=
  x.isExternal ∨ ∃ id r, s.constraints.get? id = some r ∧ r.tag.Has x

/-- **Every symbol of the tableau is accounted for.** -/
theorem Sound.over_accounts (h : s.Sound forms) : s.tableau.Over s.Accounts := by
  refine Tableau.over_of_forall_ne fun x hx => ?_
  by_cases hp : x = .placeholder
  · subst hp
    refine h.numbered.mono fun y hy => ?_
    rintro rfl
    exact hy.2.2 rfl
  obtain ⟨hext, hlive⟩ := not_or.mp hx
  have hres : x.isRestricted := by simpa [Symbol.isRestricted] using hext
  have hnot : ∀ id r, s.constraints.get? id = some r → ¬ r.tag.Has x :=
    fun id r hr hhas => hlive ⟨id, r, hr, hhas⟩
  exact h.presents.over_ne
    (fun σ q hσ id r hr => (equates_update h.names (hnot id r hr) hres hp _ σ q).mpr (hσ id r hr))
    (cost_update hnot hp)

/-- **The system depends on the marker** of each live constraint. -/
theorem Sound.exists_not_satisfies_update (h : s.Sound forms)
    (hr : s.constraints.get? id = some r) :
    ∃ σ q, s.Satisfies forms σ ∧ ¬ s.Satisfies forms (Function.update σ r.tag.marker q) := by
  have hsat : s.Satisfies forms s.tableau.point :=
    (h.presents.solves _).mp h.presents.toCanonical.solves_point
  refine ⟨s.tableau.point, s.tableau.point r.tag.marker + 1, hsat, fun hup => ?_⟩
  have hlow := hsat id r hr
  have hhigh := hup id r hr
  rw [Equates, h.names.reading_update (h.records.fits hr).marker_restricted] at hhigh
  rw [Equates] at hlow
  exact ConstraintRecord.tagPart_raised_ne (h.records.apart hr) _ _ (by linarith)

/-- Clearing a constraint takes one row out of the tableau. -/
theorem Cleared.size_rows (h : s.Sound forms) (hr : s.constraints.get? id = some r)
    (hu : s.Cleared forms id r u) : u.tableau.rows.size + 1 = s.tableau.rows.size := by
  obtain ⟨σ, q, hσ, hm⟩ := h.exists_not_satisfies_update hr
  rw [(h.presents_refunded hr).size_expel hσ hm hu.expelled, refunded_rows]

theorem satisfies_of_size_eq_zero (hn : s.constraints.size = 0) (σ : Assignment) :
    s.Satisfies forms σ := by
  intro id r hr
  rw [Registry.get?_eq_none_of_size hn] at hr
  cases hr

/-- **There are as many rows as live constraints**, since clearing the constraints one by one takes
one row each. -/
theorem Sound.size_rows (h : s.Sound forms) : s.tableau.rows.size = s.constraints.size := by
  induction hn : s.constraints.size generalizing s with
  | zero =>
    rw [h.presents.rows_eq_empty (satisfies_of_size_eq_zero hn)]
    rfl
  | succ n ih =>
    obtain ⟨⟨id, r⟩, rest, hentries⟩ := List.exists_cons_of_length_eq_add_one hn
    have hr : s.constraints.get? id = some r :=
      Registry.mem_entries_iff.mp (hentries ▸ List.mem_cons_self)
    obtain ⟨-, hcleared⟩ := h.clear hr
    rw [← hcleared.size_rows h hr, ih hcleared.sound]
    have hsize := Registry.size_erase hr
    rw [hn] at hsize
    rw [hcleared.constraints]
    exact Nat.succ_injective hsize

/-- **With no constraint the tableau is empty.** -/
theorem Sound.empty_of_size_eq_zero (h : s.Sound forms) (hn : s.constraints.size = 0) :
    s.tableau.rows = .empty ∧ s.tableau.objective.cells = .empty := by
  refine ⟨h.presents.rows_eq_empty (satisfies_of_size_eq_zero hn), ?_⟩
  refine SymbolMap.ext fun x => Row.not_mentions_iff.mp fun hx => ?_
  rcases h.over_accounts.objective hx with hext | ⟨id, r, hr, -⟩
  · have hres := h.presents.externalFree.objective x hx
    rw [Symbol.isRestricted, hext] at hres
    cases hres
  · rw [Registry.get?_eq_none_of_size hn] at hr
    cases hr

/-! ## 4. What is live after a call -/

/-- **A later state**: what is live was so before, with the same tag, or has later symbols. -/
structure Follows (u s : Solver ℚ) : Prop where
  counter : s.counter ≤ u.counter
  live : ∀ {id r}, u.constraints.get? id = some r →
    s.constraints.get? id = some r ∨ ∀ x, r.tag.Has x → s.counter < x.id

theorem Follows.refl (s : Solver ℚ) : s.Follows s := ⟨le_refl _, .inl⟩

theorem Follows.trans (hv : v.Follows u) (hu : u.Follows s) : v.Follows s where
  counter := hu.counter.trans hv.counter
  live hr := by
    rcases hv.live hr with hr | hlater
    · exact hu.live hr
    · exact .inr fun x hx => hu.counter.trans_lt (hlater x hx)

/-- With the same counter and no more constraints a state follows. -/
theorem Follows.of_eq (hcounter : u.counter = s.counter)
    (hlive : ∀ {id r}, u.constraints.get? id = some r → s.constraints.get? id = some r) :
    u.Follows s := ⟨hcounter.ge, fun hr => .inl (hlive hr)⟩

theorem Sound.follows_add (h : s.Sound forms) {c : Constraint ℚ} (hform : forms c.id = c.form) :
    (s.add c).solver.Follows s := by
  rcases h.add_cases hform with ⟨-, heq⟩ | ⟨-, -, heq⟩ |
    ⟨-, -, henc, ⟨error, -, hu⟩ | ⟨u, hu, hsol, -⟩⟩
  · rw [heq]
    exact .refl s
  · rw [heq]
    exact .refl s
  · have hgrows := henc.grows.trans hu.grows
    exact ⟨hgrows.counter, fun hr => .inl (hgrows.constraints ▸ hr)⟩
  · have hget : ∀ {id r}, u.constraints.get? id = some r →
        s.constraints.get? id = some r ∨ r.tag = (s.encode c).tag := by
      intro id r hr
      rw [hu.constraints, Registry.get?_insert] at hr
      split at hr
      · cases hr
        exact .inr rfl
      · exact .inl hr
    have hmarker := henc.fits.has_marker
    have hself : u.constraints.get? c.id = some ⟨(s.encode c).tag, c.priority⟩ := by
      rw [hu.constraints, Registry.get?_insert, if_pos rfl]
    have hknown : u.Knows (s.encode c).tag.marker := hu.sound.records.known hself _ hmarker
    rw [hsol]
    refine ⟨(henc.fresh _ hmarker).1.le.trans hknown.2.1, fun hr => ?_⟩
    refine (hget hr).imp_right fun htag x hx => (henc.fresh x ?_).1
    rwa [← htag]

theorem Sound.follows_remove (h : s.Sound forms) (c : Constraint ℚ) :
    (s.remove c).solver.Follows s :=
  .of_eq (s.counter_remove c) fun hr => ((h.get?_remove c).mp hr).2

theorem Faithful.follows_addEdit (h : s.Faithful book) {v : Variable} (hb : book id = .edit v)
    (p : Priority) : (s.addEdit id v p).solver.Follows s := by
  rcases h.addEdit_cases hb p with ⟨e, -, heq⟩ | ⟨c, -, hform, -, hcases⟩
  · rw [heq]
    exact .refl s
  have hadd := h.sound.follows_add hform
  rcases hcases with ⟨tag, -, -, -, -, hsol⟩ | ⟨error, -, -, ⟨-, hsol⟩ | hsol⟩
  · rw [hsol]
    exact ⟨hadd.counter, hadd.live⟩
  · rw [hsol]
    exact hadd
  · rw [hsol]
    exact ((h.sound.add hform).follows_remove c).trans hadd

theorem Faithful.follows_removeEdit (h : s.Faithful book) (v : Variable) :
    (s.removeEdit v).solver.Follows s := by
  cases he : s.edits.get? v with
  | none =>
    rw [removeEdit_eq he]
    exact .refl s
  | some e =>
    have hs : (s.unedited v).Sound (s.forms book) := h.sound.withEdits _
    rw [(removeEdit_of_edit he).1]
    have hfollows := hs.follows_remove e.constraint
    exact ⟨hfollows.counter, hfollows.live⟩

theorem follows_suggest (s : Solver ℚ) (v : Variable) (x : ℚ) : (s.suggest v x).solver.Follows s := by
  unfold Solver.suggest
  split
  · exact .refl s
  · exact .of_eq rfl id

/-- **No call gives a symbol to another constraint**: what is live afterwards was live before, with
the same tag, or has later symbols. -/
theorem Faithful.live_perform (h : s.Faithful book) {c : Call ℚ} (hc : c.Lawful book s)
    (hr : (s.perform c).solver.constraints.get? id = some r) :
    s.constraints.get? id = some r ∨ ∀ x, r.tag.Has x → s.counter < x.id := by
  have hadd : ∀ (u : Solver ℚ) (c : Constraint ℚ), book c.id = .written c.form →
      u.Faithful book ∧ u.Follows s → (u.add c).solver.Faithful book ∧ (u.add c).solver.Follows s :=
    fun u c hc hu => ⟨(hu.1.add hc).1, (hu.1.sound.follows_add (u.forms_written hc)).trans hu.2⟩
  have hremove : ∀ (u : Solver ℚ) (c : Constraint ℚ), book c.id = .written c.form →
      u.Faithful book ∧ u.Follows s →
        (u.remove c).solver.Faithful book ∧ (u.remove c).solver.Follows s :=
    fun u c hc hu => ⟨(hu.1.remove hc).1, (hu.1.sound.follows_remove c).trans hu.2⟩
  have hnone : ∀ c ∈ ([] : List (Constraint ℚ)), book c.id = .written c.form := by simp
  have hself : s.Faithful book ∧ s.Follows s := ⟨h, .refl s⟩
  cases c with
  | add c => exact (hadd s c hc hself).2.live hr
  | remove c => exact (hremove s c hc hself).2.live hr
  | addAll cs => exact (batch_keeps hadd hremove hc hnone hself).2.live hr
  | removeAll cs => exact (batch_keeps hremove hadd hc hnone hself).2.live hr
  | edit id v p => exact (h.follows_addEdit hc.1 p).live hr
  | unedit v => exact (h.follows_removeEdit v).live hr
  | suggest v x => exact (s.follows_suggest v x).live hr
  | reset => exact (not_live_new s.config hr).elim

/-- **A constraint that is no longer live has left no trace**: neither symbol of its tag is in the
tableau. -/
theorem Sound.over_not_has (h : s.Sound forms) (hu : u.Sound forms')
    (hlive : ∀ {j q}, u.constraints.get? j = some q →
      s.constraints.get? j = some q ∨ ∀ x, q.tag.Has x → s.counter < x.id)
    (hr : s.constraints.get? id = some r) (hgone : u.constraints.get? id ≠ some r) :
    u.tableau.Over fun x => ¬ r.tag.Has x := by
  refine hu.over_accounts.mono fun x hx hhas => ?_
  rcases hx with hext | ⟨j, q, hq, hqx⟩
  · have hres := (h.records.fits hr).restricted hhas
    rw [Symbol.isRestricted, hext] at hres
    cases hres
  · rcases hlive hq with hq' | hlater
    · obtain rfl := h.records.disjoint hq' hr x hqx hhas
      rw [hr] at hq'
      cases hq'
      exact hgone hq
    · have := (h.records.known hr x hhas).2.1
      have := hlater x hqx
      omega

/-- **The artificial symbol does not stay**: not after phase one, however that ends, nor where
phase one is not needed. -/
theorem Sound.over_ne_artificial (h : s.Sound forms) {c : Constraint ℚ}
    (hform : forms c.id = c.form) :
    (s.add c).solver.tableau.Over (· ≠ ((s.encode c).solver.newSymbol .slack).2) := by
  have henc := equation_encode h.names h.presents.toCanonical h.numbered c
  have hnew : ∀ {x}, (s.encode c).solver.Knows x → x ≠ ((s.encode c).solver.newSymbol .slack).2 :=
    fun hx => hx.ne_of_lt (Nat.lt_succ_self _)
  have hold : s.tableau.Over (· ≠ ((s.encode c).solver.newSymbol .slack).2) :=
    h.numbered.mono fun x hx => hnew (hx.mono henc.grows.counter)
  rcases h.add_cases hform with ⟨-, heq⟩ | ⟨-, -, heq⟩ |
    ⟨-, -, -, ⟨error, -, hu⟩ | ⟨u, hu, hsol, -⟩⟩
  · rw [heq]
    exact hold
  · rw [heq]
    exact hold
  · rw [hu.tableau]
    exact hold
  · rw [hsol]
    refine hu.sound.optimize.1.over_accounts.mono fun x hx => ?_
    rcases hx with hext | ⟨id, r, hr, hhas⟩
    · rintro rfl
      cases hext
    · replace hr : u.constraints.get? id = some r := hr
      rw [hu.constraints, Registry.get?_insert] at hr
      split at hr
      · cases hr
        exact hnew (henc.fresh x hhas).2
      · exact hnew ((h.records.known hr x hhas).mono henc.grows.counter)

end Solver

/-! ## 5. Any course -/

namespace Reached

variable {book : ConstraintId → Origin} {s : Solver ℚ} {τ : Variable → ℚ}

/-- **The tableau holds what the live constraints account for and nothing else**, after any calls
and however they ended: one row for each, and no symbol but theirs and those of variables.  So a
constraint that a call takes off the list leaves neither symbol of its tag behind, an artificial
symbol does not outlast the call that made it, and without constraints the tableau is empty. -/
theorem size_rows_and_over_accounts (h : Reached book (fun _ _ => True) s τ) :
    s.tableau.rows.size = s.constraints.size ∧ s.tableau.Over s.Accounts ∧
    (∀ c : Call ℚ, c.Lawful book s → ∀ id r, s.constraints.get? id = some r →
      (s.perform c).solver.constraints.get? id ≠ some r →
        (s.perform c).solver.tableau.Over fun x => ¬ r.tag.Has x) ∧
    (∀ c : Constraint ℚ, book c.id = .written c.form →
      (s.perform (.remove c)).solver.constraints.get? c.id = none ∧
      (s.perform (.add c)).solver.tableau.Over
        (· ≠ ((s.encode c).solver.newSymbol .slack).2)) ∧
    (s.constraints.size = 0 → s.tableau.rows = .empty ∧ s.tableau.objective.cells = .empty) := by
  have hfaithful := h.faithful.1
  have hsound := hfaithful.sound
  refine ⟨hsound.size_rows, hsound.over_accounts, fun c hc id r hr hgone => ?_,
    fun c hc => ⟨(hsound.remove_frame c).2.1, ?_⟩, hsound.empty_of_size_eq_zero⟩
  · exact hsound.over_not_has (hfaithful.perform hc).1.sound (hfaithful.live_perform hc) hr hgone
  · exact hsound.over_ne_artificial (s.forms_written hc)

end Reached

/-! The pulled course goes on.  The variable is basic and so is one error of its edit, over the slack
of the bound and the other error. -/

/-- The edit ends ... -/
def unpulled : Solver ℚ := (pulled.perform (.unedit ⟨0⟩)).solver

/-- ... and the bound is removed. -/
def released : Solver ℚ := (unpulled.perform (.remove atLeastTwo)).solver

/-- Two rows for two constraints; with the edit both errors go, and with the bound the rest. -/
theorem released_without_traces :
    (Reached pulledBook (fun _ _ => True) pulled pulledTarget ∧
      pulled.tableau.rows.keys = [⟨1, .external⟩, ⟨3, .error⟩] ∧ pulled.constraints.size = 2 ∧
      pulled.tableau.rows.size = pulled.constraints.size ∧
      pulled.tableau.Over pulled.Accounts) ∧
    unpulled.tableau.Over (fun x => ¬ (⟨⟨3, .error⟩, ⟨4, .error⟩⟩ : Tag).Has x) ∧
    (released.constraints.size = 0 ∧ released.tableau.rows = .empty ∧
      released.tableau.objective.cells = .empty) := by
  have hpulled : Reached pulledBook (fun _ _ => True) pulled pulledTarget :=
    reached_pulled trivial trivial trivial
  obtain ⟨hsize, hover, hgone, -⟩ := hpulled.size_rows_and_over_accounts
  have hunpulled : Reached pulledBook (fun _ _ => True) unpulled _ :=
    .call (.unedit ⟨0⟩) hpulled trivial trivial
  have hreleased : Reached pulledBook (fun _ _ => True) released _ :=
    .call (.remove atLeastTwo) hunpulled rfl trivial
  have hnone : released.constraints.size = 0 := by decide +kernel
  obtain ⟨-, -, -, -, hempty⟩ := hreleased.size_rows_and_over_accounts
  refine ⟨⟨hpulled, by decide +kernel, by decide +kernel, hsize, hover⟩, ?_, hnone, hempty hnone⟩
  exact hgone (.unedit ⟨0⟩) trivial ⟨1⟩ ⟨⟨⟨3, .error⟩, ⟨4, .error⟩⟩, .strong⟩
    (by decide +kernel) (by decide +kernel)

end IncrementalSimplex
