/-
# Expelling a marker

A constraint is removed by taking its marker out of the tableau.  In terms of the system the marker
is PROJECTED away (`Presents.expel`): what is presented afterwards are the assignments that become
solutions for some value of it, and since the marker is in one equation only, with coefficient one
or minus one, these are the solutions of the other equations.

**Three tiers, one result.**  Whichever row the marker is exchanged with, the system and feasibility
come out the same.  They differ in what the detour may do.  A restricted row brings in no external
symbol.  An external row would, but it is taken only if no restricted row has the marker, and then
the objective does not have it either, because the cost does not depend on external symbols
(`Presents.not_mentions_objective`).

Rows of dummies are another matter: an exchange with a row that is not a dummy's moves every row
that has the marker, also those of dummies, which must stay at zero.  `ExpelsCleanly` says that this
does not happen; it always holds of a marker that is no dummy itself (`DummyPure.expelsCleanly`).
For a single dummy there is an exact condition (`Undisturbed`): its row does not have the marker, or
the row that the marker is exchanged with has the constant zero.
-/
import IncrementalSimplex.Proofs.Presentation

namespace IncrementalSimplex

namespace Tableau

variable {t u : Tableau ℚ} {S : Assignment → Prop} {c : Assignment → ℚ}

/-! ## 1. Taking a row out -/

/-- To put a row in place of a free symbol is to enter the symbol and take its row out. -/
theorem substitute_eq_dropRow_enter {α : Type} [Scalar α] {t : Tableau α} {x : Symbol}
    (hx : t.Nonbasic x) (row : Row α) : t.substitute x row = (t.enter x row).dropRow x := by
  have hrows : (t.substitute x row).rows = ((t.enter x row).dropRow x).rows := by
    refine SymbolMap.ext fun y => ?_
    rw [get?_dropRow, get?_enter, get?_substitute]
    by_cases hyx : y = x
    · subst hyx
      rw [if_pos rfl, show t.rows.get? y = none from hx]
      rfl
    · rw [if_neg hyx, if_neg hyx]
  exact congrArg (fun rows => { t.substitute x row with rows := rows }) hrows

/-- Entering a symbol that occurs in external rows only, and taking its row out again, brings no
external symbol into a restricted row. -/
theorem ExternalFree.enter_dropRow (h : t.ExternalFree) (hart : t.artificial = none) {m : Symbol}
    (habs : ∀ b old, t.rows.get? b = some old → b.isRestricted → ¬ old.Mentions m)
    (hobj : ¬ t.objective.Mentions m) (row : Row ℚ) :
    ((t.enter m row).dropRow m).ExternalFree := by
  refine ⟨fun {b new} hb hres => ?_, ?_, fun {new} ha => ?_⟩
  · obtain ⟨hbm, hb⟩ := get?_of_dropRow hb
    rcases get?_of_enter hb with ⟨hbm', -⟩ | ⟨-, old, hold, rfl⟩
    · exact absurd hbm' hbm
    · rw [Row.substitute_of_not_mentions (habs b old hold hres)]
      exact h.rows hold hres
  · show (t.objective.substitute m row).ExternalFree
    rw [Row.substitute_of_not_mentions hobj]
    exact h.objective
  · have hnone : ((t.enter m row).dropRow m).artificial = none := by
      show t.artificial.map _ = none
      rw [hart]
      rfl
    rw [hnone] at ha
    cases ha

/-! ## 2. The expulsion -/

section Any

variable {α : Type} [Scalar α]

/-- **What an expulsion does**: it drops the marker's row, or nothing, or it puts the marker in
place of a basic symbol and drops that row. -/
theorem expel_cases {t u : Tableau α} {m : Symbol} (hu : t.expel m = .ok u) :
    (∃ row, t.rows.get? m = some row ∧ u = t.dropRow m) ∨
    (t.rows.get? m = none ∧ t.leavingForMarker? m = none ∧ u = t) ∨
    (t.rows.get? m = none ∧ ∃ l row solved, t.leavingForMarker? m = some l ∧
      t.rows.get? l = some row ∧ row.exchange? l m = some solved ∧
      u = (t.dropRow l).substitute m solved) := by
  unfold Tableau.expel at hu
  split at hu
  · rename_i row hrow
    cases hu
    exact .inl ⟨row, hrow, rfl⟩
  · rename_i hm
    split at hu
    · rename_i hl
      cases hu
      exact .inr (.inl ⟨hm, hl, rfl⟩)
    · rename_i l hl
      split at hu
      · cases hu
      · rename_i row hrow
        split at hu
        · cases hu
        · rename_i solved hsolved
          cases hu
          exact .inr (.inr ⟨hm, l, row, solved, hl, hrow, hsolved, rfl⟩)

/-- **An expulsion never fails**, whatever the arithmetic: the row found for the marker has it. -/
theorem exists_expel [Scalar.LawfulUnits α] (t : Tableau α) (m : Symbol) :
    ∃ u, t.expel m = .ok u := by
  unfold Tableau.expel
  cases hm : t.rows.get? m with
  | some row => exact ⟨_, rfl⟩
  | none =>
    cases hl : t.leavingForMarker? m with
    | none => exact ⟨_, rfl⟩
    | some l =>
      obtain ⟨row, hrow, hc⟩ := of_leavingForMarker? hl
      obtain ⟨solved, hsolved⟩ :=
        Row.exists_exchange? (Nonbasic.ne hm hrow) (Row.mentions_of_coefficient_bne hc)
      simp only [hrow, hsolved]
      exact ⟨_, rfl⟩

end Any

/-- **A symbol without a price that moves no restricted row is not in the objective.** -/
theorem Presents.not_mentions_objective (h : t.Presents S c) (hmono : MonotoneCost c) {m : Symbol}
    (hm : t.Nonbasic m) (hcm : ∀ σ q, c (Function.update σ m q) = c σ)
    (habs : ∀ b row, t.rows.get? b = some row → b.isRestricted → row.coefficient m = 0) :
    ¬ t.objective.Mentions m := by
  intro hmen
  obtain ⟨k, hk⟩ := h.prices
  set up : Assignment := Function.update (fun _ => 0) m 1
  have hagree : ∀ x : Symbol, x.isRestricted →
      Function.update (t.extend up) m 0 x = t.extend (fun _ => 0) x := by
    intro x hx
    by_cases hxm : x = m
    · subst hxm
      rw [Function.update_self, extend_nonbasic hm]
    · rw [Function.update_of_ne hxm]
      cases hrow : t.rows.get? x with
      | some row =>
        rw [extend_basic hrow, extend_basic hrow, Row.value_update, habs x row hrow hx]
        ring
      | none =>
        rw [extend_nonbasic hrow, extend_nonbasic hrow]
        exact Function.update_of_ne hxm _ _
  have hcost : c (t.extend up) = c (t.extend fun _ => 0) := by
    rw [← hcm _ 0]
    exact le_antisymm (hmono _ _ fun x hx => (hagree x hx).le)
      (hmono _ _ fun x hx => (hagree x hx).ge)
  have h1 := hk t.objective rfl _ (h.toCanonical.solves_extend up)
  have h0 := hk t.objective rfl _ (h.toCanonical.solves_extend fun _ => 0)
  have hfree : t.Free t.objective := fun _ => h.objective
  rw [hfree.value_extend] at h0 h1
  rw [Row.value_update, hcost] at h1
  refine h.objective_reduced.coefficient_ne_zero hmen ?_
  simp only [sub_zero, mul_one] at h1
  linarith

/-- **Expelling a marker projects it away**, and keeps feasible rows feasible. -/
theorem Presents.expel (h : t.Presents S c) (hmono : MonotoneCost c) {m : Symbol}
    (hcm : ∀ σ q, c (Function.update σ m q) = c σ) (hu : t.expel m = .ok u) :
    u.Presents (fun σ => ∃ q, S (Function.update σ m q)) c ∧ (t.Feasible → u.Feasible) := by
  rcases expel_cases hu with ⟨row, hrow, rfl⟩ | ⟨hrow, hl, rfl⟩ |
    ⟨hrow, l, row, solved, hl, hlrow, hsolved, rfl⟩
  · refine ⟨?_, fun hfeas => hfeas.dropRow m⟩
    exact h.toRegular.presents_dropRow h.noArtificial h.solves h.prices h.queueRestricted hrow
      hcm (h.externalFree.dropRow m)
  · refine ⟨h.congr (fun σ => ?_) fun _ => rfl, id⟩
    have habs : ∀ b row, u.rows.get? b = some row → ¬ row.Mentions m := by
      intro b row hb hmen
      exact (h.reduced hb).coefficient_ne_zero hmen
        (coefficient_of_leavingForMarker?_eq_none hl hb)
    constructor
    · intro hS
      exact ⟨0, (h.update_of_absent hrow habs σ 0).mpr hS⟩
    · rintro ⟨q, hq⟩
      exact (h.update_of_absent hrow habs σ q).mp hq
  · obtain ⟨row', hlrow', hchoice⟩ := leavingForMarker?_spec hl
    rw [hlrow] at hlrow'
    cases hlrow'
    have hpivot : t.pivot ⟨m, l⟩ = .ok ((t.dropRow l).enter m solved) :=
      pivot_eq_ok_iff.mpr ⟨row, solved, hlrow, hsolved, rfl⟩
    have hext : (((t.dropRow l).enter m solved).dropRow m).ExternalFree := by
      cases hchoice with
      | falling hlres => exact (h.externalFree.pivot hlres hpivot).dropRow m
      | rising hlres => exact (h.externalFree.pivot hlres hpivot).dropRow m
      | external _ _ habs =>
        refine (h.externalFree.dropRow l).enter_dropRow h.noArtificial ?_
          (h.not_mentions_objective hmono hrow hcm habs) solved
        intro b old hold hbres hmen
        have hold := (get?_of_dropRow hold).2
        exact (h.reduced hold).coefficient_ne_zero hmen (habs b old hold hbres)
    have heq := h.toRegular.pivot_equivalent hrow hpivot
    have hart : ((t.dropRow l).enter m solved).artificial = none := by
      show t.artificial.map _ = none
      rw [h.noArtificial]
      rfl
    have hmrow : ((t.dropRow l).enter m solved).rows.get? m = some solved := by
      rw [get?_enter, if_pos rfl]
    rw [substitute_eq_dropRow_enter (nonbasic_dropRow hrow)]
    refine ⟨?_, fun hfeas => hfeas.expel hrow hlrow hchoice hpivot⟩
    exact (h.toRegular.pivot hpivot).presents_dropRow hart
      (fun σ => (heq.solves σ).trans (h.solves σ)) (heq.prices h.prices)
      (h.queueRestricted.pivot hpivot) hmrow hcm hext

/-! ## 3. Rows of dummies -/

/-- **Expelling `m` leaves the redundant rows alone**: it is exchanged with a row of a dummy, or no
row of a dummy has it. -/
def ExpelsCleanly (t : Tableau ℚ) (m : Symbol) : Prop :=
  ∀ l, t.rows.get? m = none → t.leavingForMarker? m = some l →
    l.isDummy ∨ ∀ d row, t.rows.get? d = some row → d.isDummy → ¬ row.Mentions m

/-- A marker that is no dummy is in no row of a dummy. -/
theorem DummyPure.expelsCleanly (h : t.DummyPure) {m : Symbol} (hm : m.isDummy = false) :
    t.ExpelsCleanly m := by
  refine fun l _ _ => .inr fun d row hd hdum hmen => ?_
  have := (h d row hd hdum).2 m hmen
  rw [hm] at this
  cases this

theorem DummyPure.expel (h : t.DummyPure) {m : Symbol} (hclean : t.ExpelsCleanly m)
    (hu : t.expel m = .ok u) : u.DummyPure := by
  rcases expel_cases hu with ⟨-, -, rfl⟩ | ⟨-, -, rfl⟩ |
    ⟨hm, l, row, solved, hl, hlrow, hsolved, rfl⟩
  · exact h.dropRow m
  · exact h
  · have hml : m ≠ l := Nonbasic.ne hm hlrow
    obtain ⟨row', hlrow', hchoice⟩ := leavingForMarker?_spec hl
    rw [hlrow] at hlrow'
    cases hlrow'
    intro d new hd hdum
    rw [get?_substitute] at hd
    obtain ⟨old, hold, rfl⟩ := Option.map_eq_some_iff.mp hd
    obtain ⟨hdl, hold⟩ := get?_of_dropRow hold
    obtain ⟨hzero, hpure⟩ := h d old hold hdum
    rcases hclean l hm hl with hldum | habs
    · obtain ⟨hlzero, hlpure⟩ := h l row hlrow hldum
      have hconst := Row.constant_exchange? hml hsolved hchoice.coefficient_ne_zero
      refine ⟨?_, fun x hx => ?_⟩
      · rw [Row.constant_substitute, hzero, hconst, hlzero]
        simp
      · rcases Row.mentions_substitute hx with ⟨-, hx⟩ | ⟨-, hx⟩
        · exact hpure x hx
        · rcases (Row.mentions_exchange? hsolved hx).2 with rfl | hx
          · exact hldum
          · exact hlpure x hx
    · rw [Row.substitute_of_not_mentions (habs d old hold hdum)]
      exact ⟨hzero, hpure⟩

/-- **Expelling `m` leaves the dummy `d` at zero.** -/
def Undisturbed (t : Tableau ℚ) (m d : Symbol) : Prop :=
  ∀ l row old, t.rows.get? m = none → t.leavingForMarker? m = some l →
    t.rows.get? l = some row → t.rows.get? d = some old → row.constant = 0 ∨ ¬ old.Mentions m

/-- The value of another basic symbol once `m` was exchanged with `l` and dropped. -/
theorem point_substitute_dropRow {m l d : Symbol} {row old solved : Row ℚ} (hml : m ≠ l)
    (hsolved : row.exchange? l m = some solved) (hc : row.coefficient m ≠ 0) (hdl : d ≠ l)
    (hold : t.rows.get? d = some old) : ((t.dropRow l).substitute m solved).point d =
      old.constant + old.coefficient m * (-row.constant / row.coefficient m) := by
  have hnew : ((t.dropRow l).substitute m solved).rows.get? d =
      some (old.substitute m solved) := by
    rw [get?_substitute, get?_dropRow, if_neg hdl, hold]
    rfl
  rw [point_basic hnew, Row.constant_substitute, Row.constant_exchange? hml hsolved hc]

/-- **The condition is exact.** -/
theorem DummyPure.point_expel_eq_zero_iff (h : t.DummyPure) (hreg : t.Regular) {m d : Symbol}
    (hu : t.expel m = .ok u) (hd : d.isDummy) (hdm : d ≠ m) :
    u.point d = 0 ↔ t.Undisturbed m d := by
  cases hold : t.rows.get? d with
  | none =>
    have hnone : u.rows.get? d = none := by
      rcases expel_cases hu with ⟨-, -, rfl⟩ | ⟨-, -, rfl⟩ | ⟨-, l, row, solved, -, -, -, rfl⟩
      · rw [get?_dropRow, if_neg hdm, hold]
      · exact hold
      · rw [get?_substitute, get?_dropRow]
        split
        · rfl
        · rw [hold]
          rfl
    refine ⟨fun _ l row old _ _ _ hd => ?_, fun _ => point_nonbasic hnone⟩
    rw [hold] at hd
    cases hd
  | some old =>
    obtain ⟨hzero, -⟩ := h d old hold hd
    rcases expel_cases hu with ⟨row, hm, rfl⟩ | ⟨hm, hl, rfl⟩ |
      ⟨hm, l, row, solved, hl, hlrow, hsolved, rfl⟩
    · refine ⟨fun _ l row old hno => ?_, fun _ => ?_⟩
      · rw [hm] at hno
        cases hno
      · rw [point_basic ((get?_dropRow _ _ _).trans (by rw [if_neg hdm, hold])), hzero]
    · refine ⟨fun _ l row old _ hno => ?_, fun _ => ?_⟩
      · rw [hl] at hno
        cases hno
      · rw [point_basic hold, hzero]
    · have hdist : t.Undisturbed m d ↔ row.constant = 0 ∨ ¬ old.Mentions m := by
        constructor
        · exact fun hun => hun l row old hm hl hlrow hold
        · intro hun l' row' old' _ hl' hrow' hold'
          rw [hl] at hl'
          cases hl'
          rw [hlrow] at hrow'
          cases hrow'
          rw [hold] at hold'
          cases hold'
          exact hun
      rw [hdist]
      by_cases hdl : d = l
      · subst hdl
        rw [hold] at hlrow
        cases hlrow
        refine ⟨fun _ => .inl hzero, fun _ => point_nonbasic ?_⟩
        show ((t.dropRow d).substitute m solved).rows.get? d = none
        rw [get?_substitute, get?_dropRow, if_pos rfl]
        rfl
      · obtain ⟨row', hlrow', hchoice⟩ := leavingForMarker?_spec hl
        rw [hlrow] at hlrow'
        cases hlrow'
        have hc := hchoice.coefficient_ne_zero
        rw [point_substitute_dropRow (Nonbasic.ne hm hlrow) hsolved hc hdl hold, hzero, zero_add,
          mul_eq_zero, div_eq_zero_iff, neg_eq_zero, or_iff_left hc,
          (hreg.reduced hold).mentions_iff, not_not]
        exact or_comm

end Tableau

end IncrementalSimplex
