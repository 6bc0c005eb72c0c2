/-
# What the constraints ask of the variables

The theory so far speaks of assignments to SYMBOLS.  A caller knows variables only: a required
constraint is to hold of their values, and what is not required costs its weight times the amount by
which it is violated.  `Demand` is a constraint in that reading, `Admits` and `discontent` are what
a list of them asks.

The two readings are tied both ways.

* From variables to symbols: values that admit the demands extend to an assignment that satisfies
  the system and costs exactly their discontent (`Records.exists_extension`).  The tag of a
  constraint takes up what its expression leaves over, the part above zero on one symbol and the
  part below zero on the other.
* From symbols to variables: an assignment that satisfies the system, with no negative slack or
  error, costs at least the discontent of its values (`Records.discontent_le_cost`), and its values
  meet every required inequality.  A required EQUALITY they meet just if its dummy is zero
  (`Records.holds_iff`).
-/
import Mathlib.Tactic.Linarith
import IncrementalSimplex.Proofs.Insertion

namespace IncrementalSimplex

/-! ## 1. Demands -/

namespace Form

/-- The form holds of values. -/
def Holds (f : Form) (ρ : Variable → ℚ) : Prop :=
  match f.relation with
  | .equal => f.expression.valueAt ρ = 0
  | .atMost => f.expression.valueAt ρ ≤ 0
  | .atLeast => 0 ≤ f.expression.valueAt ρ

/-- By how much a form is violated. -/
def violation (f : Form) (ρ : Variable → ℚ) : ℚ :=
  match f.relation with
  | .equal => |f.expression.valueAt ρ|
  | .atMost => max 0 (f.expression.valueAt ρ)
  | .atLeast => max 0 (-f.expression.valueAt ρ)

end Form

/-- A form and how much it matters. -/
structure Demand where
  form : Form
  priority : Priority

/-- The weighted violation of a demand that is not required. -/
def Demand.price (d : Demand) (ρ : Variable → ℚ) : ℚ :=
  if d.priority.isRequired then 0 else d.priority.weight * d.form.violation ρ

/-- **The values meet everything that is required.** -/
def Admits (ds : List Demand) (ρ : Variable → ℚ) : Prop :=
  ∀ d ∈ ds, d.priority.isRequired = true → d.form.Holds ρ

/-- **What the values cost**: the weighted violations of the soft demands. -/
def discontent (ds : List Demand) (ρ : Variable → ℚ) : ℚ := (ds.map (·.price ρ)).sum

theorem Admits.perm {ds es : List Demand} {ρ : Variable → ℚ} (h : Admits ds ρ)
    (hperm : ds.Perm es) : Admits es ρ :=
  fun d hd => h d (hperm.mem_iff.mpr hd)

theorem discontent_perm {ds es : List Demand} (h : ds.Perm es) (ρ : Variable → ℚ) :
    discontent ds ρ = discontent es ρ := (h.map _).sum_eq

namespace Solver

variable {forms : ConstraintId → Form} {s u : Solver ℚ} {id : ConstraintId} {r : ConstraintRecord}
  {ρ : Variable → ℚ} {σ : Assignment}

/-- **The demands of the live constraints**, in order of arrival. -/
def demands (forms : ConstraintId → Form) (s : Solver ℚ) : List Demand :=
  s.constraints.entries.map fun e => ⟨forms e.1, e.2.priority⟩

theorem admits_demands_iff : Admits (s.demands forms) ρ ↔
    ∀ id r, s.constraints.get? id = some r → r.priority.isRequired = true →
      (forms id).Holds ρ := by
  constructor
  · intro h id r hr hreq
    exact h _ (List.mem_map.mpr ⟨(id, r), Registry.mem_entries_iff.mpr hr, rfl⟩) hreq
  · intro h d hd hreq
    obtain ⟨⟨id, r⟩, hmem, rfl⟩ := List.mem_map.mp hd
    exact h id r (Registry.mem_entries_iff.mp hmem) hreq

/-- The value of a symbol is the one it has at the tableau's point. -/
theorem symbolValue_eq_point (s : Solver ℚ) (x : Symbol) :
    s.symbolValue x = s.tableau.point x := by
  unfold symbolValue
  cases hrow : s.tableau.rows.get? x with
  | some row => exact (Tableau.point_basic hrow).symm
  | none => exact (Tableau.point_nonbasic hrow).symm

/-- The solved values are those of the tableau's point. -/
theorem value_eq_reading (s : Solver ℚ) : s.value = s.reading s.tableau.point := by
  funext v
  unfold value reading
  cases s.symbols.get? v with
  | none => rfl
  | some x => exact s.symbolValue_eq_point x

end Solver

/-! ## 2. From variables to symbols -/

instance (tag : Tag) (x : Symbol) : Decidable (tag.Has x) :=
  inferInstanceAs (Decidable (x ≠ .placeholder ∧ (x = tag.marker ∨ x = tag.other)))

namespace ConstraintRecord

variable {r : ConstraintRecord} {f : Form} {ρ : Variable → ℚ} {σ : Assignment}

/-- **What a symbol of the tag takes up** of the expression's value: the part below zero or the part
above it. -/
def share (r : ConstraintRecord) (f : Form) (ρ : Variable → ℚ) (x : Symbol) : ℚ :=
  match f.relation with
  | .atMost =>
    if x = r.tag.marker then max 0 (-f.expression.valueAt ρ) else max 0 (f.expression.valueAt ρ)
  | _ =>
    if x = r.tag.marker then max 0 (f.expression.valueAt ρ) else max 0 (-f.expression.valueAt ρ)

theorem share_nonneg (r : ConstraintRecord) (f : Form) (ρ : Variable → ℚ) (x : Symbol) :
    0 ≤ r.share f ρ x := by
  unfold share
  split <;> split <;> exact le_max_left _ _

/-- The part above zero less the part below it. -/
theorem max_sub_max (a : ℚ) : max 0 a - max 0 (-a) = a := by
  rcases le_total 0 a with ha | ha
  · rw [max_eq_right ha, max_eq_left (neg_nonpos.mpr ha), sub_zero]
  · rw [max_eq_left ha, max_eq_right (neg_nonneg.mpr ha)]
    ring

theorem max_add_max (a : ℚ) : max 0 a + max 0 (-a) = |a| := by
  rcases le_total 0 a with ha | ha
  · rw [max_eq_right ha, max_eq_left (neg_nonpos.mpr ha), add_zero, abs_of_nonneg ha]
  · rw [max_eq_left ha, max_eq_right (neg_nonneg.mpr ha), zero_add, abs_of_nonpos ha]

/-- **The shares settle the equation.**  Those of a required constraint do because the constraint
holds: what the missing second symbol would take up is zero. -/
theorem value_add_tagPart_eq_zero (hapart : r.tag.marker ≠ r.tag.other)
    (hmarker : σ r.tag.marker = r.share f ρ r.tag.marker)
    (hother : r.priority.isRequired = false → σ r.tag.other = r.share f ρ r.tag.other)
    (hreq : r.priority.isRequired = true → f.Holds ρ) :
    f.expression.valueAt ρ + r.tagPart f.relation σ = 0 := by
  have hsum := max_sub_max (f.expression.valueAt ρ)
  obtain ⟨e, rel⟩ := f
  cases hr : r.priority.isRequired with
  | false =>
    have hother := hother hr
    cases rel <;>
      simp only [share, if_true, if_neg hapart.symm] at hmarker hother <;>
      simp only [tagPart, hr, Bool.false_eq_true, if_false, hmarker, hother] <;>
      linarith
  | true =>
    have hholds := hreq hr
    cases rel with
    | equal =>
      have hz : e.valueAt ρ = 0 := hholds
      simp only [share, if_true, hz, max_self] at hmarker
      simp only [tagPart, hr, if_true, hmarker, hz, add_zero]
    | atMost =>
      have hle : e.valueAt ρ ≤ 0 := hholds
      simp only [share, if_true, max_eq_right (neg_nonneg.mpr hle)] at hmarker
      simp only [tagPart, hr, if_true, hmarker]
      ring
    | atLeast =>
      have hle : 0 ≤ e.valueAt ρ := hholds
      simp only [share, if_true, max_eq_right hle] at hmarker
      simp only [tagPart, hr, if_true, hmarker]
      ring

/-- A required constraint pays nothing. -/
theorem penalty_of_required (h : r.Fits f.relation) (hreq : r.priority.isRequired = true)
    (σ : Assignment) : r.penalty σ = 0 := by
  have hm : Tableau.errorAt σ r.tag.marker = 0 := by
    refine if_neg ?_
    have hk := h.marker
    rw [hreq] at hk
    rw [Symbol.isError, hk]
    cases f.relation <;> exact Bool.false_ne_true
  have ho : Tableau.errorAt σ r.tag.other = 0 := by
    rw [h.other_of_required hreq]
    rfl
  rw [penalty, hm, ho, add_zero, mul_zero]

/-- A soft constraint pays for its errors: both symbols of an equality, the second one of an
inequality. -/
theorem penalty_of_soft (h : r.Fits f.relation) (hsoft : r.priority.isRequired = false)
    (σ : Assignment) : r.penalty σ = r.priority.weight *
      ((if f.relation = .equal then σ r.tag.marker else 0) + σ r.tag.other) := by
  have hm : Tableau.errorAt σ r.tag.marker =
      if f.relation = .equal then σ r.tag.marker else 0 := by
    have hk := h.marker
    rw [hsoft] at hk
    unfold Tableau.errorAt
    rw [Symbol.isError, hk]
    cases f.relation <;> rfl
  have ho : Tableau.errorAt σ r.tag.other = σ r.tag.other := by
    refine if_pos ?_
    rw [Symbol.isError, h.other_of_soft hsoft]
    rfl
  rw [penalty, hm, ho]

/-- **The shares pay for the violation.** -/
theorem penalty_share (h : r.Fits f.relation) (hapart : r.tag.marker ≠ r.tag.other)
    (hmarker : σ r.tag.marker = r.share f ρ r.tag.marker)
    (hother : r.priority.isRequired = false → σ r.tag.other = r.share f ρ r.tag.other) :
    r.penalty σ = (⟨f, r.priority⟩ : Demand).price ρ := by
  unfold Demand.price
  dsimp only
  cases hr : r.priority.isRequired with
  | true => exact penalty_of_required h hr σ
  | false =>
    have hother := hother hr
    rw [penalty_of_soft h hr, if_neg Bool.false_ne_true]
    congr 1
    obtain ⟨e, rel⟩ := f
    cases rel <;>
      simp only [share, if_true, if_neg hapart.symm] at hmarker hother <;>
      simp [Form.violation, hmarker, hother, max_add_max]

end ConstraintRecord

namespace Solver

variable {forms : ConstraintId → Form} {s u : Solver ℚ} {id : ConstraintId} {r : ConstraintRecord}
  {ρ : Variable → ℚ} {σ : Assignment}

/-- **Values extended to the symbols**: an external symbol has the value of its variable, a symbol
of a tag its share, and any other symbol zero. -/
def extension (forms : ConstraintId → Form) (s : Solver ℚ) (ρ : Variable → ℚ) : Assignment :=
  fun x =>
    if x.isExternal then
      match s.symbols.entries.find? fun e => decide (e.2 = x) with
      | some (v, _) => ρ v
      | none => 0
    else
      match s.constraints.entries.find? fun e => decide (e.2.tag.Has x) with
      | some (id, r) => r.share (forms id) ρ x
      | none => 0

theorem Names.extension_external (h : s.Names) {v : Variable} {x : Symbol}
    (hx : s.symbols.get? v = some x) : s.extension forms ρ x = ρ v := by
  rw [extension, if_pos (h.known v x hx).2]
  cases hfind : s.symbols.entries.find? fun e => decide (e.2 = x) with
  | none =>
    have := List.find?_eq_none.mp hfind (v, x) (Registry.mem_entries_iff.mpr hx)
    simp at this
  | some e =>
    have he : e.2 = x := by simpa using List.find?_some hfind
    have hget := Registry.mem_entries_iff.mp (List.mem_of_find?_eq_some hfind)
    rw [he] at hget
    exact congrArg ρ (h.inj _ _ _ hget hx)

theorem Records.extension_tag (h : s.Records forms) (hr : s.constraints.get? id = some r)
    {x : Symbol} (hx : r.tag.Has x) : s.extension forms ρ x = r.share (forms id) ρ x := by
  have hres := (h.fits hr).restricted hx
  have hext : ¬ x.isExternal = true := by simpa [Symbol.isRestricted] using hres
  rw [extension, if_neg hext]
  cases hfind : s.constraints.entries.find? fun e => decide (e.2.tag.Has x) with
  | none =>
    have := List.find?_eq_none.mp hfind (id, r) (Registry.mem_entries_iff.mpr hr)
    simp [hx] at this
  | some e =>
    have he : e.2.tag.Has x := by simpa using List.find?_some hfind
    have hget := Registry.mem_entries_iff.mp (List.mem_of_find?_eq_some hfind)
    have hid := h.disjoint hget hr x he hx
    rw [hid, hr] at hget
    cases hget
    dsimp only
    rw [hid]

theorem extension_nonneg (forms : ConstraintId → Form) (s : Solver ℚ) (ρ : Variable → ℚ)
    {x : Symbol} (hx : x.isRestricted) : 0 ≤ s.extension forms ρ x := by
  have hext : ¬ x.isExternal = true := by simpa [Symbol.isRestricted] using hx
  rw [extension, if_neg hext]
  split
  · exact ConstraintRecord.share_nonneg _ _ _ _
  · exact le_refl _

/-- A dummy is the marker of a required equality, which leaves it nothing to take up. -/
theorem Records.extension_dummy (h : s.Records forms) (hρ : Admits (s.demands forms) ρ)
    {x : Symbol} (hx : x.isDummy) : s.extension forms ρ x = 0 := by
  have hext : ¬ x.isExternal = true := by
    intro hext
    rw [Symbol.isDummy_of_isExternal hext] at hx
    cases hx
  rw [extension, if_neg hext]
  split
  · rename_i id r hfind
    have hhas : r.tag.Has x := by simpa using List.find?_some hfind
    have hr := Registry.mem_entries_iff.mp (List.mem_of_find?_eq_some hfind)
    obtain ⟨hrel, hreq⟩ := (h.fits hr).of_isDummy hhas hx
    have hholds := admits_demands_iff.mp hρ id r hr hreq
    unfold Form.Holds at hholds
    rw [hrel] at hholds
    unfold ConstraintRecord.share
    rw [hrel]
    simp [show (forms id).expression.valueAt ρ = 0 from hholds]
  · rfl

/-- The equation of a constraint as the extension has it. -/
theorem Records.valueAt_extension (h : s.Records forms) (hnames : s.Names)
    (hr : s.constraints.get? id = some r) :
    (forms id).expression.valueAt (s.reading (s.extension forms ρ)) =
      (forms id).expression.valueAt ρ := by
  refine Expression.valueAt_congr fun t ht htc => ?_
  obtain ⟨x, hx⟩ := h.covers hr t ht htc
  rw [reading_of_get? hx, hnames.extension_external hx]

/-- **Admissible values extend to a solution of the system**, at the cost of their discontent. -/
theorem Records.exists_extension (h : s.Records forms) (hnames : s.Names)
    (hρ : Admits (s.demands forms) ρ) : ∃ σ : Assignment, σ.Proper ∧ s.Satisfies forms σ ∧
      s.cost σ = discontent (s.demands forms) ρ := by
  have hmarker : ∀ {id r}, s.constraints.get? id = some r →
      s.extension forms ρ r.tag.marker = r.share (forms id) ρ r.tag.marker := fun hr =>
    h.extension_tag hr (h.fits hr).has_marker
  have hother : ∀ {id r}, s.constraints.get? id = some r → r.priority.isRequired = false →
      s.extension forms ρ r.tag.other = r.share (forms id) ρ r.tag.other := fun hr hsoft =>
    h.extension_tag hr ((h.fits hr).has_other hsoft)
  refine ⟨s.extension forms ρ, ⟨fun x => extension_nonneg forms s ρ, fun x => h.extension_dummy hρ⟩,
    fun id r hr => ?_, ?_⟩
  · rw [Equates, h.valueAt_extension hnames hr]
    exact ConstraintRecord.value_add_tagPart_eq_zero (h.apart hr) (hmarker hr) (hother hr)
      (admits_demands_iff.mp hρ id r hr)
  · unfold cost discontent demands
    rw [List.map_map]
    refine congrArg List.sum (List.map_congr_left fun e he => ?_)
    have hr := Registry.mem_entries_iff.mp he
    exact ConstraintRecord.penalty_share (h.fits hr) (h.apart hr) (hmarker hr) (hother hr)

/-! ## 3. From symbols to variables -/

/-- **The required constraints at a solution.**  An inequality holds, whatever the dummies are; an
equality holds just if its dummy is zero. -/
theorem Records.holds_iff (h : s.Records forms) (hσ : s.Satisfies forms σ)
    (hnonneg : ∀ x : Symbol, x.isRestricted → 0 ≤ σ x) (hr : s.constraints.get? id = some r)
    (hreq : r.priority.isRequired = true) :
    (forms id).Holds (s.reading σ) ↔ ((forms id).relation = .equal → σ r.tag.marker = 0) := by
  have hm := hnonneg _ (h.fits hr).marker_restricted
  have heq := hσ id r hr
  unfold Equates ConstraintRecord.tagPart at heq
  unfold Form.Holds
  cases hrel : (forms id).relation with
  | equal =>
    rw [hrel] at heq
    simp only [hreq, if_true] at heq
    simp only [forall_const]
    constructor <;> intro hz <;> linarith
  | atMost =>
    rw [hrel] at heq
    simp only [hreq, if_true] at heq
    refine ⟨fun _ hno => (by cases hno), fun _ => ?_⟩
    dsimp only
    linarith
  | atLeast =>
    rw [hrel] at heq
    simp only [hreq, if_true] at heq
    refine ⟨fun _ hno => (by cases hno), fun _ => ?_⟩
    dsimp only
    linarith

/-- The values of a proper solution are admissible. -/
theorem Records.admits (h : s.Records forms) (hσ : s.Satisfies forms σ) (hproper : σ.Proper) :
    Admits (s.demands forms) (s.reading σ) := by
  refine admits_demands_iff.mpr fun id r hr hreq => ?_
  exact (h.holds_iff hσ hproper.nonneg hr hreq).mpr fun hrel =>
    hproper.dummy _ ((h.fits hr).marker_isDummy hrel hreq)

/-- **A solution pays at least for what its values violate.** -/
theorem Records.discontent_le_cost (h : s.Records forms) (hσ : s.Satisfies forms σ)
    (hnonneg : ∀ x : Symbol, x.isRestricted → 0 ≤ σ x) :
    discontent (s.demands forms) (s.reading σ) ≤ s.cost σ := by
  unfold discontent demands cost
  rw [List.map_map]
  refine List.sum_le_sum fun e he => ?_
  have hr := Registry.mem_entries_iff.mp he
  have hfit := h.fits hr
  show Demand.price ⟨forms e.1, e.2.priority⟩ (s.reading σ) ≤ e.2.penalty σ
  unfold Demand.price
  dsimp only
  cases hsoft : e.2.priority.isRequired with
  | true =>
    rw [if_pos rfl, ConstraintRecord.penalty_of_required hfit hsoft]
  | false =>
    rw [if_neg Bool.false_ne_true, ConstraintRecord.penalty_of_soft hfit hsoft]
    refine mul_le_mul_of_nonneg_left ?_ (Priority.weight_nonneg (h.priced hr))
    have hm := hnonneg _ hfit.marker_restricted
    have ho := hnonneg _ (hfit.restricted (hfit.has_other hsoft))
    have heq := hσ e.1 e.2 hr
    unfold Equates ConstraintRecord.tagPart at heq
    unfold Form.violation
    cases hrel : (forms e.1).relation <;> rw [hrel] at heq <;>
      simp only [hsoft, Bool.false_eq_true, if_false] at heq
    · rw [if_pos rfl]
      exact abs_le.mpr ⟨by linarith, by linarith⟩
    · exact max_le (by simpa using ho) (by simp; linarith)
    · exact max_le (by simpa using ho) (by simp; linarith)

end Solver

end IncrementalSimplex
