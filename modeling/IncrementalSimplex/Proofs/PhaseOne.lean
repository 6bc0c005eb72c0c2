/-
# Phase one

A row without a subject is inserted through an artificial symbol `a`: the row is made basic under
`a`, and then `a` itself is minimized.  Reading the tableau as a system (`Presents`), the detour is

    S   →   S and a = row   →   S and row = 0

where the last step sets `a` to zero (`Presents.dropColumn`) and takes it out.

**When it fails.**  Phase one answers "no" in two cases.  Either the minimum of `a` is positive, and
then no proper assignment satisfies the system and the row: at such an assignment `a` would be zero,
below its own minimum.  Or `a` reached zero but is basic in a row without a pivotable symbol.  That
does not happen while the rows of dummies are pure (`DummyPure`): the row of `a` would be over
dummies alone, so `a` would be fixed by them, and yet it moves with any symbol of the inserted row
that is no dummy.
-/
import IncrementalSimplex.Proofs.Presentation

namespace IncrementalSimplex

namespace Tableau

/-! ## 1. The symbols of phase one -/

section Any

variable {α : Type} [Scalar α]

/-- **The tableau that phase one starts from**: the row is basic under the artificial symbol, and is
what is to be minimized. -/
def arm (t : Tableau α) (art : Symbol) (row : Row α) : Tableau α :=
  { t.setRow art row with artificial := some row }

/-- The same tableau without its artificial objective. -/
def disarm (t : Tableau α) : Tableau α := { t with artificial := none }

/-- Whether the artificial objective has reached zero. -/
def driven (t : Tableau α) : Bool := t.artificial.any fun a => nearZero a.constant

omit [Scalar α] in
theorem get?_arm (t : Tableau α) (art b : Symbol) (row : Row α) :
    (t.arm art row).rows.get? b = if b = art then some row else t.rows.get? b :=
  t.get?_setRow art b row

omit [Scalar α] in
theorem get?_of_arm {t : Tableau α} {art b : Symbol} {row r : Row α}
    (h : (t.arm art row).rows.get? b = some r) : (b = art ∧ r = row) ∨ t.rows.get? b = some r := by
  rw [get?_arm] at h
  split at h
  · rename_i hba
    cases h
    exact .inl ⟨hba, rfl⟩
  · exact .inr h

omit [Scalar α] in
/-- A free symbol other than the artificial one stays free. -/
theorem nonbasic_arm {t : Tableau α} {art x : Symbol} {row : Row α} (hx : t.Nonbasic x)
    (hne : x ≠ art) : (t.arm art row).Nonbasic x := by
  rw [Nonbasic, get?_arm, if_neg hne]
  exact hx

omit [Scalar α] in
theorem Over.arm {P : Symbol → Prop} {t : Tableau α} (h : t.Over P) {art : Symbol} {row : Row α}
    (hart : P art) (hrow : ∀ x, row.Mentions x → P x) : (t.arm art row).Over P := by
  refine ⟨?_, ?_, fun hx => h.objective hx, ?_⟩
  · intro b r hb
    rcases get?_of_arm hb with ⟨rfl, -⟩ | hb
    · exact hart
    · exact h.basic hb
  · intro b r hb x hx
    rcases get?_of_arm hb with ⟨-, rfl⟩ | hb
    · exact hrow x hx
    · exact h.rows hb hx
  · intro r ha x hx
    cases ha
    exact hrow x hx

omit [Scalar α] in
/-- **Arming keeps the canonical form**, if the artificial symbol occurs nowhere yet. -/
theorem Canonical.arm {t : Tableau α} (h : t.Canonical) {art : Symbol} {row : Row α}
    (hfree : t.Free row) (hown : ¬ row.Mentions art)
    (habs : ∀ b r, t.rows.get? b = some r → ¬ r.Mentions art)
    (hobj : ¬ t.objective.Mentions art) : (t.arm art row).Canonical := by
  have hrow : (t.arm art row).Free row := fun x hx =>
    nonbasic_arm (hfree x hx) fun hxa => hown (hxa ▸ hx)
  refine ⟨fun {b r} hb x hx => ?_, fun {x} hx => ?_, fun {r} ha x hx => ?_⟩
  · rcases get?_of_arm hb with ⟨-, rfl⟩ | hb
    · exact hrow x hx
    · exact nonbasic_arm (h.rows hb hx) fun hxa => habs b r hb (hxa ▸ hx)
  · exact nonbasic_arm (h.objective hx) fun hxa => hobj (hxa ▸ hx)
  · cases ha
    exact hrow x hx

omit [Scalar α] in
theorem Canonical.disarm {t : Tableau α} (h : t.Canonical) : t.disarm.Canonical :=
  ⟨h.rows, h.objective, fun ha => by cases ha⟩

omit [Scalar α] in
theorem Over.disarm {P : Symbol → Prop} {t : Tableau α} (h : t.Over P) : t.disarm.Over P :=
  ⟨h.basic, h.rows, h.objective, fun ha => by cases ha⟩

omit [Scalar α] in
/-- A chosen symbol of a row is a pivotable one. -/
theorem of_firstPivotable? {row : Row α} {e : Symbol} (h : row.firstPivotable? = some e) :
    row.Mentions e ∧ e.isPivotable :=
  ⟨Row.mem_keys_iff.mp (List.mem_of_find?_eq_some h), List.find?_some h⟩

/-- **Taking the artificial symbol out is a pivot at most**: its column is dropped, at first or after
it left the basis, or else its row. -/
theorem retire_keeps {P : Tableau α → Prop} {t : Tableau α} {art : Symbol}
    (hcolumn : P (t.dropColumn art)) (hdrop : P (t.dropRow art))
    (hpivot : ∀ e row u, t.rows.get? art = some row → row.Mentions e →
      t.pivot ⟨e, art⟩ = .ok u → P (u.dropColumn art)) (driven : Bool) :
    P (t.retire art driven).tableau := by
  unfold Tableau.retire
  cases hrow : t.rows.get? art with
  | none => exact hcolumn
  | some row =>
    dsimp only
    split
    · exact hdrop
    · cases he : row.firstPivotable? with
      | none => exact hdrop
      | some e =>
        dsimp only
        cases hsolved : row.exchange? art e with
        | none => exact hdrop
        | some solved =>
          exact hpivot e row _ hrow (of_firstPivotable? he).1
            (pivot_eq_ok_iff.mpr ⟨row, solved, hrow, hsolved, rfl⟩)

theorem Over.retire {P : Symbol → Prop} {t : Tableau α} (h : t.Over P) (art : Symbol)
    (driven : Bool) : (t.retire art driven).tableau.Over P :=
  retire_keeps (P := Over P) (h.dropColumn art) (h.dropRow art)
    (fun _ _ _ hrow he hu => (h.pivot (h.rows hrow he) hu).dropColumn art) driven

/-- **Taking the artificial symbol out succeeds**, whatever the answer, and keeps the canonical form:
the symbol it is exchanged for is in its row. -/
theorem Canonical.retire {t : Tableau α} (h : t.Canonical) (ht : t.artificial = none)
    (art : Symbol) (driven : Bool) :
    (t.retire art driven).tableau.Canonical ∧ (t.retire art driven).tableau.artificial = none ∧
      ∃ b, (t.retire art driven).outcome = .ok b := by
  unfold Tableau.retire
  cases hrow : t.rows.get? art with
  | none => exact ⟨h.dropColumn art, ht, _, rfl⟩
  | some row =>
    dsimp only
    split
    · exact ⟨h.dropRow art, ht, _, rfl⟩
    · cases he : row.firstPivotable? with
      | none => exact ⟨h.dropRow art, ht, _, rfl⟩
      | some e =>
        dsimp only
        have hmen := (of_firstPivotable? he).1
        obtain ⟨solved, hsolved⟩ := Row.exists_exchange? ((h.rows hrow hmen).ne hrow) hmen
        rw [hsolved]
        refine ⟨Canonical.dropColumn ?_ art, Option.map_eq_none_iff.mpr ht, _, rfl⟩
        exact (h.dropRow art).enter (fun hx => (Row.mentions_exchange? hsolved hx).1 rfl)
          (h.free_exchange hrow hsolved)

/-- Phase one fails with its pass. -/
theorem phaseOne_of_error {t : Tableau α} {limit : Nat} {art : Symbol} {row : Row α} {e : Halt}
    (h : ((t.arm art row).minimize limit .artificial).outcome = .error e) :
    (t.phaseOne limit art row).outcome = .error e ∧
      (t.phaseOne limit art row).tableau =
        ((t.arm art row).minimize limit .artificial).tableau.disarm := by
  have h' : ({ t.setRow art row with artificial := some row }.minimize limit .artificial).outcome =
      .error e := h
  unfold phaseOne
  simp only [h']
  exact ⟨trivial, rfl⟩

/-- Else it ends as taking the artificial symbol out does. -/
theorem phaseOne_of_ok {t : Tableau α} {limit : Nat} {art : Symbol} {row : Row α}
    {u : Tableau α} (hu : ((t.arm art row).minimize limit .artificial).tableau = u)
    (h : ((t.arm art row).minimize limit .artificial).outcome = .ok ()) :
    (t.phaseOne limit art row).outcome = (u.disarm.retire art u.driven).outcome ∧
      (t.phaseOne limit art row).tableau = (u.disarm.retire art u.driven).tableau := by
  subst hu
  have h' : ({ t.setRow art row with artificial := some row }.minimize limit .artificial).outcome =
      .ok () := h
  unfold phaseOne
  simp only [h']
  exact ⟨rfl, rfl⟩

/-- The pivots that phase one reports are those of its pass. -/
theorem pivots_phaseOne (t : Tableau α) (limit : Nat) (art : Symbol) (row : Row α) :
    (t.phaseOne limit art row).pivots = ((t.arm art row).minimize limit .artificial).pivots := by
  show _ = ({ t.setRow art row with artificial := some row }.minimize limit .artificial).pivots
  unfold phaseOne
  dsimp only
  split
  · rfl
  · rfl

/-- **Phase one leaves what its pass does**, or that without the artificial symbol: to keep a
property is to keep it in both. -/
theorem phaseOne_keeps {P : Tableau α → Prop} {t : Tableau α} {limit : Nat} {art : Symbol}
    {row : Row α} (hpass : P ((t.arm art row).minimize limit .artificial).tableau.disarm)
    (hretire : ∀ driven,
      P (((t.arm art row).minimize limit .artificial).tableau.disarm.retire art driven).tableau) :
    P (t.phaseOne limit art row).tableau := by
  cases hout : ((t.arm art row).minimize limit .artificial).outcome with
  | error e =>
    rw [(phaseOne_of_error hout).2]
    exact hpass
  | ok =>
    rw [(phaseOne_of_ok rfl hout).2]
    exact hretire _

theorem Over.phaseOne {P : Symbol → Prop} {t : Tableau α} (h : t.Over P) {art : Symbol}
    {row : Row α} (hart : P art) (hrow : ∀ x, row.Mentions x → P x) (limit : Nat) :
    (t.phaseOne limit art row).tableau.Over P := by
  have hpass := ((h.arm hart hrow).minimize limit .artificial).disarm
  exact phaseOne_keeps hpass (hpass.retire art)

/-- **Phase one keeps the canonical form** and leaves no artificial objective behind, however it
ends. -/
theorem Canonical.after_phaseOne {t : Tableau α} {art : Symbol} {row : Row α}
    (h : (t.arm art row).Canonical) (limit : Nat) :
    (t.phaseOne limit art row).tableau.Canonical ∧
      (t.phaseOne limit art row).tableau.artificial = none := by
  have hpass := (h.minimize limit .artificial).disarm
  refine phaseOne_keeps (P := fun u => u.Canonical ∧ u.artificial = none) ⟨hpass, rfl⟩
    fun driven => ?_
  obtain ⟨hcan, hart, -⟩ := hpass.retire rfl art driven
  exact ⟨hcan, hart⟩

/-- **It ends with an answer**, at its limit, or with an unbounded objective. -/
theorem Canonical.phaseOne [Scalar.LawfulUnits α] {t : Tableau α} {art : Symbol} {row : Row α}
    (h : (t.arm art row).Canonical) (limit : Nat) :
    (t.phaseOne limit art row).tableau.Canonical ∧
      (t.phaseOne limit art row).tableau.artificial = none ∧
      ((∃ b, (t.phaseOne limit art row).outcome = .ok b) ∨
        (t.phaseOne limit art row).outcome = .error (.refused (.iterationLimit limit)) ∨
        (t.phaseOne limit art row).outcome =
          .error (.refused (.internal .unboundedObjective))) := by
  obtain ⟨hcan, hnone⟩ := h.after_phaseOne limit
  refine ⟨hcan, hnone, ?_⟩
  obtain ⟨last, hlast, hend⟩ := minimize_ends (P := Canonical)
    (fun u v hu (hs : PrimalStep .artificial u v) => hs.canonical hu) h limit
  rcases hend.cases_outcome hlast with ⟨hout, -⟩ | hout | ⟨hout, -⟩
  · obtain ⟨-, -, hok⟩ := (h.minimize limit .artificial).disarm.retire rfl art
      ((t.arm art row).minimize limit .artificial).tableau.driven
    rw [(phaseOne_of_ok rfl hout).1]
    exact .inl hok
  · exact .inr (.inl (phaseOne_of_error hout).1)
  · exact .inr (.inr (phaseOne_of_error hout).1)

end Any

/-! ## 2. Taking the artificial symbol out -/

variable {t u : Tableau ℚ} {S : Assignment → Prop} {c : Assignment → ℚ}

/-- A row `x = 0` without cells may be dropped, because nothing but zero solves it. -/
theorem Presents.dropZeroRow (h : t.Presents S c) {x : Symbol} {row : Row ℚ}
    (hrow : t.rows.get? x = some row) (hempty : ∀ y, ¬ row.Mentions y) (hzero : row.constant = 0)
    (hcx : ∀ σ q, c (Function.update σ x q) = c σ) :
    (t.dropRow x).Presents (fun σ => S (Function.update σ x 0)) c := by
  have hdrop := h.toRegular.presents_dropRow h.noArtificial h.solves h.prices h.queueRestricted
    hrow hcx (h.externalFree.dropRow x)
  refine hdrop.congr (fun σ => ⟨?_, fun hS => ⟨0, hS⟩⟩) fun _ => rfl
  rintro ⟨q, hq⟩
  have hval := (h.solves _).mpr hq x row hrow
  rw [Function.update_self, Row.value_congr (τ := fun _ => 0) fun y hy => absurd hy (hempty y),
    Row.value_zero, hzero] at hval
  rwa [hval] at hq

/-- **Taking the artificial symbol out.**  The answer is "no" if the symbol was not driven to zero,
or if it is left in a row that has no pivotable symbol; else the symbol is set to zero. -/
theorem Presents.retire (h : t.Presents S c) {art : Symbol} (hart : art.isRestricted)
    (hcart : ∀ σ q, c (Function.update σ art q) = c σ) {driven : Bool}
    (hzero : driven = true → t.point art = 0) :
    ((t.retire art driven).outcome = .ok true ∧
      (t.retire art driven).tableau.Presents (fun σ => S (Function.update σ art 0)) c ∧
      (t.Feasible → (t.retire art driven).tableau.Feasible) ∧
      (t.DummyPure → (t.retire art driven).tableau.DummyPure)) ∨
    ((t.retire art driven).outcome = .ok false ∧
      (driven = false ∨ ∃ row, t.rows.get? art = some row ∧
        ∀ x, row.Mentions x → x.isPivotable = false)) := by
  cases hd : driven with
  | false =>
    refine .inr ⟨?_, .inl rfl⟩
    unfold Tableau.retire
    cases hrow : t.rows.get? art with
    | none => rfl
    | some row =>
      dsimp only
      split
      · rfl
      · cases he : row.firstPivotable? with
        | none => rfl
        | some e =>
          obtain ⟨hmen, -⟩ := of_firstPivotable? he
          obtain ⟨solved, hsolved⟩ := Row.exists_exchange? ((h.rows hrow hmen).ne hrow) hmen
          simp only [hsolved]
          rfl
  | true =>
    have hpoint := hzero hd
    unfold Tableau.retire
    cases hrow : t.rows.get? art with
    | none =>
      exact .inl ⟨rfl, h.dropColumn hrow hcart, fun hfeas => hfeas.dropColumn art,
        fun hpure => hpure.dropColumn art⟩
    | some row =>
      rw [point_basic hrow] at hpoint
      dsimp only
      split
      · rename_i hsize
        have hempty : ∀ x, ¬ row.Mentions x := by
          intro x hx
          have hmem := Row.mem_keys_iff.mpr hx
          rw [SymbolMap.keys, List.length_eq_zero_iff.mp hsize] at hmem
          cases hmem
        exact .inl ⟨rfl, h.dropZeroRow hrow hempty hpoint hcart, fun hfeas => hfeas.dropRow art,
          fun hpure => hpure.dropRow art⟩
      · cases he : row.firstPivotable? with
        | none =>
          refine .inr ⟨rfl, .inr ⟨row, rfl, fun x hx => ?_⟩⟩
          have := List.find?_eq_none.mp he x (Row.mem_keys_iff.mpr hx)
          simpa using this
        | some e =>
          obtain ⟨hmen, hpiv⟩ := of_firstPivotable? he
          have hne : e ≠ art := (h.rows hrow hmen).ne hrow
          obtain ⟨solved, hsolved⟩ := Row.exists_exchange? hne hmen
          have hpivot : t.pivot ⟨e, art⟩ = .ok ((t.dropRow art).enter e solved) :=
            pivot_eq_ok_iff.mpr ⟨row, solved, hrow, hsolved, rfl⟩
          have hnew : ((t.dropRow art).enter e solved).Presents S c :=
            h.of_equivalent (h.toSound.pivot hart hpivot)
              (h.toRegular.pivot_equivalent (h.rows hrow hmen) hpivot)
          have hfree : ((t.dropRow art).enter e solved).Nonbasic art :=
            nonbasic_enter.mpr ⟨hne.symm, nonbasic_dropRow_self t art⟩
          have hedum := Symbol.isDummy_of_isPivotable hpiv
          simp only [hsolved]
          refine .inl ⟨rfl, hnew.dropColumn hfree hcart, fun hfeas => ?_, fun hpure => ?_⟩
          · have hc := (h.reduced hrow).coefficient_ne_zero hmen
            exact (hfeas.degenerate (h.rows hrow hmen) hrow hc hpoint hpivot).dropColumn art
          · exact (hpure.pivot hedum hpivot).dropColumn art

/-! ## 3. Arming the tableau -/

/-- **A row that phase one can insert**, with a new slack symbol as the artificial one. -/
structure Insertable (t : Tableau ℚ) (art : Symbol) (row : Row ℚ) : Prop where
  slack : art.kind = .slack
  nonbasic : t.Nonbasic art
  absent : ∀ b r, t.rows.get? b = some r → ¬ r.Mentions art
  unpriced : ¬ t.objective.Mentions art
  own : ¬ row.Mentions art
  free : t.Free row
  reduced : row.Reduced
  externalFree : row.ExternalFree

theorem Insertable.restricted {art : Symbol} {row : Row ℚ} (h : t.Insertable art row) :
    art.isRestricted := by
  simp [Symbol.isRestricted, Symbol.isExternal, h.slack]

theorem Sound.arm (h : t.Sound) {art : Symbol} {row : Row ℚ} (hins : t.Insertable art row) :
    (t.arm art row).Sound := by
  have hcan := h.toCanonical.arm hins.free hins.own hins.absent hins.unpriced
  refine ⟨⟨hcan, fun {b r} hb => ?_, h.objective_reduced, fun {r} ha => ?_⟩,
    ⟨fun {b r} hb hres => ?_, h.externalFree.objective, fun {r} ha => ?_⟩, h.queueRestricted⟩
  · rcases get?_of_arm hb with ⟨-, rfl⟩ | hb
    · exact hins.reduced
    · exact h.reduced hb
  · cases ha
    exact hins.reduced
  · rcases get?_of_arm hb with ⟨-, rfl⟩ | hb
    · exact hins.externalFree
    · exact h.externalFree.rows hb hres
  · cases ha
    exact hins.externalFree

theorem solves_arm {art : Symbol} {row : Row ℚ} (hins : t.Insertable art row) (σ : Assignment) :
    (t.arm art row).Solves σ ↔ t.Solves σ ∧ σ art = row.value σ :=
  (solves_congr_rows rfl σ).trans (solves_setRow hins.nonbasic σ)

theorem Feasible.arm (h : t.Feasible) {art : Symbol} {row : Row ℚ} (hrow : 0 ≤ row.constant) :
    (t.arm art row).Feasible := by
  intro b r hb hres
  rcases get?_of_arm hb with ⟨-, rfl⟩ | hb
  · exact hrow
  · exact h b r hb hres

theorem DummyPure.arm (h : t.DummyPure) {art : Symbol} {row : Row ℚ}
    (hins : t.Insertable art row) : (t.arm art row).DummyPure := by
  intro d r hd hdum
  rcases get?_of_arm hd with ⟨rfl, -⟩ | hd
  · rw [Symbol.isDummy, hins.slack] at hdum
    cases hdum
  · exact h d r hd hdum

/-- The artificial objective is the artificial symbol. -/
theorem prices_arm {art : Symbol} {row : Row ℚ} (hins : t.Insertable art row) :
    (t.arm art row).Prices .artificial (fun σ => σ art) := by
  refine ⟨0, fun objective hobj σ hσ => ?_⟩
  cases hobj
  exact ((solves_arm hins σ).mp hσ).2.symm.trans (add_zero _).symm

/-- Setting the artificial symbol to zero leaves the system with the row equal to zero. -/
theorem Presents.disarmed (h : t.Presents S c) {art : Symbol} {row : Row ℚ}
    (hins : t.Insertable art row) (σ : Assignment) :
    (t.arm art row).Solves (Function.update σ art 0) ↔ S σ ∧ row.value σ = 0 := by
  have hval : row.value (Function.update σ art 0) = row.value σ :=
    Row.value_congr fun y hy =>
      Function.update_of_ne (fun (hya : y = art) => hins.own (hya ▸ hy)) _ _
  rw [solves_arm hins, h.solves, h.update_of_absent hins.nonbasic hins.absent, hval,
    Function.update_self]
  exact and_congr_right fun _ => eq_comm

/-! ## 4. The pass of phase one -/

/-- **What the artificial pass ends with**: the armed system in another basis, in which the
artificial objective is the artificial symbol and at its minimum. -/
structure Driven (t : Tableau ℚ) (art : Symbol) (row : Row ℚ) (u : Tableau ℚ) : Prop
    extends u.Sound where
  equivalent : (t.arm art row).Equivalent u
  feasible : t.Feasible → 0 ≤ row.constant → u.Feasible
  pure : t.DummyPure → u.DummyPure

theorem Driven.step {art : Symbol} {row : Row ℚ} {v : Tableau ℚ} (h : t.Driven art row u)
    (hs : PrimalStep .artificial u v) : t.Driven art row v where
  toSound := hs.sound h.toSound
  equivalent := h.equivalent.trans (hs.equivalent h.toCanonical)
  feasible ht hrow := hs.feasible h.toCanonical (h.feasible ht hrow)
  pure ht := hs.dummyPure (h.pure ht)

/-- The artificial objective is there throughout, and is worth the artificial symbol. -/
theorem Driven.artificial_value {art : Symbol} {row : Row ℚ} (h : t.Driven art row u)
    (hins : t.Insertable art row) :
    ∃ a, u.artificial = some a ∧ ∀ σ, u.Solves σ → a.value σ = σ art := by
  have hval : ∀ σ, u.Solves σ → u.artificial.map (·.value σ) = some (σ art) := by
    intro σ hσ
    have hσ' := (h.equivalent.solves σ).mp hσ
    rw [h.equivalent.artificial σ hσ', ((solves_arm hins σ).mp hσ').2]
    rfl
  cases ha : u.artificial with
  | none =>
    have := hval _ h.toCanonical.solves_point
    rw [ha] at this
    cases this
  | some a =>
    refine ⟨a, rfl, fun σ hσ => ?_⟩
    have := hval σ hσ
    rw [ha] at this
    exact Option.some.inj this

/-- Without the artificial objective the tableau presents the armed system at the old cost. -/
theorem Driven.presents {art : Symbol} {row : Row ℚ} (h : t.Driven art row u)
    (ht : t.Presents S c) (hins : t.Insertable art row) :
    u.disarm.Presents (t.arm art row).Solves c where
  rows := h.rows
  objective := h.toCanonical.objective
  artificial ha := by cases ha
  reduced := h.reduced
  objective_reduced := h.objective_reduced
  artificial_reduced ha := by cases ha
  externalFree := ⟨h.externalFree.rows, h.externalFree.objective, fun ha => by cases ha⟩
  queueRestricted := h.queueRestricted
  noArtificial := rfl
  solves σ := h.equivalent.solves σ
  prices := by
    obtain ⟨k, hk⟩ := ht.prices
    refine ⟨k, fun objective hobj σ hσ => ?_⟩
    cases hobj
    have hσ' := (h.equivalent.solves σ).mp hσ
    exact (h.equivalent.objective σ hσ').trans
      (hk t.objective rfl σ ((solves_arm hins σ).mp hσ').1)

/-- **A positive minimum is a refutation**: no proper assignment satisfies the system and the row.
-/
theorem Driven.not_satisfied {art : Symbol} {row : Row ℚ} (h : t.Driven art row u)
    (ht : t.Presents S c) (hins : t.Insertable art row) (hfeas : u.Feasible) {a : Row ℚ}
    (ha : u.artificial = some a) (hval : ∀ σ, u.Solves σ → a.value σ = σ art)
    (hmin : entering? a = none) (hdriven : a.constant ≠ 0) {σ : Assignment} (hσ : σ.Proper) :
    ¬ (S σ ∧ row.value σ = 0) := by
  intro hS
  have hsol : u.Solves (Function.update σ art 0) :=
    (h.equivalent.solves _).mpr ((ht.disarmed hins σ).mpr hS)
  have hproper : Assignment.Proper (Function.update σ art 0) := by
    refine ⟨fun x hx => ?_, fun x hx => ?_⟩
    · by_cases hxa : x = art
      · rw [hxa, Function.update_self]
      · rw [Function.update_of_ne hxa]
        exact hσ.nonneg x hx
    · by_cases hxa : x = art
      · rw [hxa, Function.update_self]
      · rw [Function.update_of_ne hxa]
        exact hσ.dummy x hx
  have hle := Row.constant_le_value (h.externalFree.artificial ha)
    (fun x hx => nonneg_of_entering?_eq_none hmin hx) hproper
  rw [hval _ hsol, Function.update_self] at hle
  have hfree : u.Free a := fun _ => h.toCanonical.artificial ha
  have hpoint : a.constant = u.point art := by
    rw [← hfree.value_point]
    exact hval _ h.toCanonical.solves_point
  refine hdriven (le_antisymm hle ?_)
  rw [hpoint]
  exact hfeas.point_nonneg hins.restricted

/-- **A basic artificial symbol has a pivotable symbol in its row**, unless the inserted row was
over dummies alone: with a symbol of that row that is no dummy the artificial one moves, while all
dummies stay at zero. -/
theorem Driven.exists_pivotable {art : Symbol} {row : Row ℚ} (h : t.Driven art row u)
    (ht : t.Presents S c) (hins : t.Insertable art row) (hpure : t.DummyPure)
    (hover : u.Over fun x => x.kind ≠ .placeholder) {y : Symbol} (hy : row.Mentions y)
    (hydum : y.isDummy = false) {r : Row ℚ} (hr : u.rows.get? art = some r) :
    ∃ x, r.Mentions x ∧ x.isPivotable := by
  by_contra hnone
  have hdum : ∀ x, r.Mentions x → x.isDummy := by
    intro x hx
    have hpiv : ¬ x.isPivotable = true := fun hpiv => hnone ⟨x, hx, hpiv⟩
    have hres := h.externalFree.rows hr hins.restricted x hx
    have hkind := hover.rows hr hx
    cases x with
    | mk id kind => cases kind <;> simp_all [Symbol.isPivotable, Symbol.isRestricted,
        Symbol.isExternal, Symbol.isDummy]
  -- two solutions that differ in `y` and have all dummies at zero
  have hsolves : ∀ σ : Assignment, (t.arm art row).Solves ((t.arm art row).extend σ) :=
    (ht.toSound.arm hins).toCanonical.solves_extend
  have hzero : ∀ σ : Assignment, (∀ x, x.isDummy → σ x = 0) →
      r.value ((t.arm art row).extend σ) = r.constant := by
    intro σ hσ
    rw [← Row.value_zero]
    refine Row.value_congr fun x hx => ?_
    exact (hpure.arm hins).extend_eq_zero hσ (hdum x hx)
  have hart : ∀ σ : Assignment, (∀ x, x.isDummy → σ x = 0) →
      row.value σ = r.constant := by
    intro σ hσ
    have hsol := (h.equivalent.solves _).mpr (hsolves σ)
    rw [← hzero σ hσ, ← hsol art r hr, extend_basic (by rw [get?_arm, if_pos rfl])]
  have h0 := hart (fun _ => 0) fun _ _ => rfl
  have h1 := hart (Function.update (fun _ => 0) y 1) fun x hx => by
    refine Function.update_of_ne ?_ _ _
    rintro rfl
    rw [hydum] at hx
    cases hx
  rw [Row.value_update, h0] at h1
  refine hins.reduced.coefficient_ne_zero hy ?_
  simp only [sub_zero, mul_one] at h1
  linarith

/-! ## 5. Phase one -/

/-- **Phase one** inserts the row, or refutes it, or stops at its limit. -/
theorem Presents.phaseOne (h : t.Presents S c) {art : Symbol} {row : Row ℚ}
    (hins : t.Insertable art row) (hcart : ∀ σ q, c (Function.update σ art q) = c σ)
    (limit : Nat) :
    ((t.phaseOne limit art row).outcome = .ok true ∧
      (t.phaseOne limit art row).tableau.Presents (fun σ => S σ ∧ row.value σ = 0) c ∧
      (t.Feasible → 0 ≤ row.constant → (t.phaseOne limit art row).tableau.Feasible) ∧
      (t.DummyPure → (t.phaseOne limit art row).tableau.DummyPure)) ∨
    ((t.phaseOne limit art row).outcome = .ok false ∧
      (t.Feasible → 0 ≤ row.constant → t.DummyPure → t.Over (fun x => x.kind ≠ .placeholder) →
        (∃ y, row.Mentions y ∧ y.isDummy = false) →
        (∀ y, row.Mentions y → y.kind ≠ .placeholder) →
        ∀ σ : Assignment, σ.Proper → ¬ (S σ ∧ row.value σ = 0))) ∨
    (t.phaseOne limit art row).outcome = .error (.refused (.iterationLimit limit)) := by
  have hstart : t.Driven art row (t.arm art row) :=
    ⟨h.toSound.arm hins, .refl _, fun hfeas hrow => hfeas.arm hrow, fun hpure => hpure.arm hins⟩
  obtain ⟨last, ⟨hlast, hover⟩, hend⟩ := minimize_ends
    (P := fun u => t.Driven art row u ∧ (t.Over (fun x => x.kind ≠ .placeholder) →
      (∀ y, row.Mentions y → y.kind ≠ .placeholder) → u.Over fun x => x.kind ≠ .placeholder))
    (fun u v ⟨hu, hover⟩ (hs : PrimalStep .artificial u v) =>
      ⟨hu.step hs, fun ht hrow => hs.over (hover ht hrow)⟩)
    ⟨hstart, fun ht hrow => ht.arm (by rw [hins.slack]; decide) hrow⟩ limit
  obtain ⟨a, ha, hval⟩ := hlast.artificial_value hins
  have htab := hend.tableau_eq_of_artificial
  rcases hend.cases_outcome hlast.toCanonical with ⟨ho, hmin⟩ | ho | ⟨-, b, e, hb, he, hl⟩
  · obtain ⟨hout, hres⟩ := phaseOne_of_ok htab ho
    rw [hout, hres]
    have hdriven : last.driven = true ↔ a.constant = 0 := by
      rw [driven, ha]
      exact decide_eq_true_iff
    have hpoint : a.constant = last.point art := by
      have hfree : last.Free a := fun _ => hlast.toCanonical.artificial ha
      rw [← hfree.value_point]
      exact hval _ hlast.toCanonical.solves_point
    rcases (hlast.presents h hins).retire hins.restricted hcart
      (fun hd => hpoint.symm.trans (hdriven.mp hd)) with
      ⟨hok, hpres, hfeas, hpure⟩ | ⟨hok, hwhy⟩
    · exact .inl ⟨hok, hpres.congr (h.disarmed hins) fun _ => rfl,
        fun ht hrow => hfeas (hlast.feasible ht hrow), fun ht => hpure (hlast.pure ht)⟩
    · refine .inr (.inl ⟨hok, fun ht hrow hpure hkinds ⟨y, hy, hydum⟩ hrowkinds σ hσ => ?_⟩)
      rcases hwhy with hd | ⟨r, hr, hnopiv⟩
      · refine hlast.not_satisfied h hins (hlast.feasible ht hrow) ha hval (hmin a ha)
          (fun hzero => ?_) hσ
        rw [hdriven.mpr hzero] at hd
        cases hd
      · obtain ⟨x, hx, hpiv⟩ := hlast.exists_pivotable h hins hpure (hover hkinds hrowkinds)
          hy hydum hr
        rw [hnopiv x hx] at hpiv
        cases hpiv
  · exact .inr (.inr (phaseOne_of_error ho).1)
  · exact absurd hl (leaving?_ne_none hlast.toCanonical (hlast.equivalent.prices (prices_arm hins))
      (fun σ τ hle => hle art hins.restricted) hb he)

end Tableau

end IncrementalSimplex
