/-
# Rows as affine forms

In the exact reading a row is an affine form: a constant plus a linear combination of symbols.
`Row.value` is the number it takes at an assignment of rationals to the symbols, and each operation
on rows has ONE equation that says what it does to that number.  From here on no proof looks at the
list of cells.

**Coefficients are differences of values** (`value_update`), so an equation for the values of an
operation is an equation for its coefficients as well; none of them is proved twice.

A row is `Reduced` if none of its cells is zero.  The solver keeps all its rows reduced, and it has
to: "has a cell" and "has a coefficient other than zero" are then the same (`Reduced.mentions_iff`),
and a reduced row can be solved for any symbol that it mentions.
-/
import Mathlib.Algebra.Order.Field.Rat
import Mathlib.Algebra.BigOperators.Group.List.Basic
import Mathlib.Tactic.Linarith
import Mathlib.Tactic.Ring
import Mathlib.Tactic.FieldSimp
import IncrementalSimplex.Scalar.Rational
import IncrementalSimplex.Proofs.Occurrence

namespace IncrementalSimplex

/-- A number for every symbol. -/
abbrev Assignment : Type := Symbol → ℚ

/-! ## 1. Linear combinations over entries -/

/-- **A sum over entries** loses one term with a key that is dropped. -/
theorem Entries.sum_filter_ne {κ ν : Type} [DecidableEq κ] (k : κ) (f : κ × ν → ℚ) :
    ∀ {l : List (κ × ν)} {v : ν}, (l.map (·.1)).Nodup → l.lookup k = some v →
      (l.map f).sum = ((l.filter fun e => e.1 != k).map f).sum + f (k, v)
  | [], _, _, h => by simp at h
  | (j, w) :: rest, v, hl, h => by
    obtain ⟨hj, hrest⟩ := List.nodup_cons.mp hl
    by_cases hjk : j = k
    · subst hjk
      have hw : w = v := by simpa using h
      subst hw
      have hall : (rest.filter fun e => e.1 != j) = rest :=
        filter_eq_self (Option.not_isSome_iff_eq_none.mp (mt mem_keys_iff.mpr hj))
      simp [hall]
      ring
    · have hb : (k == j) = false := by simpa using fun h : k = j => hjk h.symm
      simp only [List.lookup_cons, hb] at h
      rw [List.filter_cons_of_pos (by simpa using hjk)]
      simp only [List.map_cons, List.sum_cons, sum_filter_ne k f hrest h]
      ring

namespace SymbolMap

/-- The linear combination that a list of entries stands for. -/
def combination (σ : Assignment) (l : List (Symbol × ℚ)) : ℚ :=
  (l.map fun e => e.2 * σ e.1).sum

@[simp] theorem combination_nil (σ : Assignment) : combination σ [] = 0 := rfl

@[simp] theorem combination_cons (σ : Assignment) (e : Symbol × ℚ) (l : List (Symbol × ℚ)) :
    combination σ (e :: l) = e.2 * σ e.1 + combination σ l := by
  simp [combination]

theorem combination_insertEntry (σ : Assignment) (s : Symbol) (b : ℚ) :
    ∀ {l : List (Symbol × ℚ)}, l.Pairwise (fun a b => a.1 < b.1) →
      combination σ (insertEntry s b l) = combination σ l + (b - (l.lookup s).getD 0) * σ s
  | [], _ => by simp [insertEntry]
  | (t, c) :: rest, h => by
    obtain ⟨ht, hrest⟩ := List.pairwise_cons.mp h
    unfold insertEntry
    split
    · rename_i hst
      have hnone : List.lookup s ((t, c) :: rest) = none := by
        refine lookup_eq_none_of_lt fun e he => ?_
        rcases List.mem_cons.mp he with rfl | he
        · exact hst
        · exact Symbol.lt_trans hst (ht e he)
      rw [hnone]
      simp only [combination_cons, Option.getD_none]
      ring
    · split
      · rename_i hst
        subst hst
        simp only [combination_cons, List.lookup_cons, beq_self_eq_true, Option.getD_some]
        ring
      · rename_i hne
        have hb : (s == t) = false := by simpa using hne
        have ih := combination_insertEntry σ s b hrest
        simp only [combination_cons, List.lookup_cons, hb, ih]
        ring

theorem combination_filter_ne (σ : Assignment) (s : Symbol) {l : List (Symbol × ℚ)}
    (hl : (l.map (·.1)).Nodup) :
    combination σ (l.filter fun e => e.1 != s) = combination σ l - (l.lookup s).getD 0 * σ s := by
  cases hs : l.lookup s with
  | none => rw [Entries.filter_eq_self hs, Option.getD_none, zero_mul, sub_zero]
  | some c =>
    rw [Option.getD_some]
    exact eq_sub_of_add_eq (Entries.sum_filter_ne s (fun e => e.2 * σ e.1) hl hs).symm

theorem combination_map (σ : Assignment) (m : ℚ) : ∀ l : List (Symbol × ℚ),
    combination σ (l.map fun e => (e.1, e.2 * m)) = combination σ l * m
  | [] => by simp
  | e :: l => by
    simp only [List.map_cons, combination_cons, combination_map σ m l]
    ring

theorem combination_congr {σ τ : Assignment} : ∀ {l : List (Symbol × ℚ)},
    (∀ e ∈ l, σ e.1 = τ e.1) → combination σ l = combination τ l
  | [], _ => rfl
  | e :: l, h => by
    rw [combination_cons, combination_cons, h e List.mem_cons_self,
      combination_congr fun f hf => h f (List.mem_cons_of_mem _ hf)]

end SymbolMap

/-! ## 2. The value of a row -/

namespace Row

/-- **The value of a row at an assignment.** -/
def value (r : Row ℚ) (σ : Assignment) : ℚ :=
  r.constant + SymbolMap.combination σ r.cells.entries

@[simp] theorem value_ofConstant (c : ℚ) (σ : Assignment) : (ofConstant c).value σ = c := by
  simp [value, ofConstant, SymbolMap.empty]

/-- Only the symbols of a row matter for its value. -/
theorem value_congr {r : Row ℚ} {σ τ : Assignment} (h : ∀ x, r.Mentions x → σ x = τ x) :
    r.value σ = r.value τ := by
  unfold value
  rw [SymbolMap.combination_congr fun e he =>
    h e.1 (mentions_iff.mpr ⟨e.2, SymbolMap.mem_entries_iff.mp he⟩)]

/-- The constant is the value at zero. -/
theorem value_zero (r : Row ℚ) : r.value (fun _ => 0) = r.constant := by
  have h : ∀ l : List (Symbol × ℚ), SymbolMap.combination (fun _ => 0) l = 0 := by
    intro l
    induction l with
    | nil => rfl
    | cons e l ih => simp [ih]
  rw [value, h, add_zero]

theorem value_addConstant (r : Row ℚ) (c : ℚ) (σ : Assignment) :
    (r.addConstant c).value σ = r.value σ + c := by
  show r.constant + c + SymbolMap.combination σ r.cells.entries = r.constant + _ + c
  ring

theorem value_dropCell (r : Row ℚ) (s : Symbol) (σ : Assignment) :
    (r.dropCell s).value σ = r.value σ - r.coefficient s * σ s := by
  show r.constant + _ = r.constant + _ - _
  rw [show (r.dropCell s).cells.entries = r.cells.entries.filter (fun e => e.1 != s) from rfl,
    SymbolMap.combination_filter_ne σ s r.cells.nodup_keys]
  show r.constant + (_ - r.coefficient s * σ s) = _
  ring

/-- **Adding to a cell** adds that much of the symbol, also when the cell cancels. -/
theorem value_addCell (r : Row ℚ) (s : Symbol) (c : ℚ) (σ : Assignment) :
    (r.addCell s c).value σ = r.value σ + c * σ s := by
  unfold addCell
  dsimp only
  split
  · rename_i hzero
    have hz : r.coefficient s + c = 0 := by simpa using of_decide_eq_true hzero
    have hc : c = -r.coefficient s := by linarith
    show (r.dropCell s).value σ = _
    rw [value_dropCell, hc]
    ring
  · show r.constant + SymbolMap.combination σ (SymbolMap.insertEntry s _ r.cells.entries) = _
    rw [SymbolMap.combination_insertEntry σ s _ r.cells.sorted]
    show r.constant + (_ + ((r.coefficient s + c) - r.coefficient s) * σ s) = r.constant + _ + _
    ring

theorem value_foldl_addCell (c : ℚ) (σ : Assignment) : ∀ (l : List (Symbol × ℚ)) (r : Row ℚ),
    (l.foldl (fun acc e => acc.addCell e.1 (e.2 * c)) r).value σ =
      r.value σ + SymbolMap.combination σ l * c
  | [], r => by simp
  | e :: l, r => by
    rw [List.foldl_cons, value_foldl_addCell c σ l, value_addCell, SymbolMap.combination_cons]
    ring

theorem value_addRow (r t : Row ℚ) (c : ℚ) (σ : Assignment) :
    (r.addRow t c).value σ = r.value σ + t.value σ * c := by
  unfold addRow
  rw [value_foldl_addCell c σ, value_addConstant]
  show _ = _ + (t.constant + _) * c
  ring

theorem value_scale (r : Row ℚ) (m : ℚ) (σ : Assignment) :
    (r.scale m).value σ = r.value σ * m := by
  show r.constant * m + SymbolMap.combination σ (r.cells.entries.map fun e => (e.1, e.2 * m)) = _
  rw [SymbolMap.combination_map]
  show _ = (r.constant + _) * m
  ring

theorem value_negate (r : Row ℚ) (σ : Assignment) : r.negate.value σ = -r.value σ := by
  have hcells : r.cells.map (fun c : ℚ => -c) = r.cells.map (fun c : ℚ => c * (-1)) := by
    congr 1
    funext c
    ring
  have h : r.negate = r.scale (-1) := by
    show Row.mk (-r.constant) (r.cells.map fun c => -c) =
      Row.mk (r.constant * (-1)) (r.cells.map fun c => c * (-1))
    rw [hcells]
    congr 1
    ring
  rw [h, value_scale]
  ring

/-- Putting a form in place of a symbol changes the value by as much as the two differ. -/
theorem value_substitute (r : Row ℚ) (s : Symbol) (t : Row ℚ) (σ : Assignment) :
    (r.substitute s t).value σ = r.value σ + r.coefficient s * (t.value σ - σ s) := by
  unfold substitute
  split
  · rename_i c hc
    have hcoef : r.coefficient s = c := by rw [coefficient, hc]; rfl
    rw [value_addRow, value_dropCell, hcoef]
    ring
  · rename_i hnone
    have hcoef : r.coefficient s = 0 := coefficient_of_not_mentions (not_mentions_iff.mpr hnone)
    rw [hcoef]
    ring

/-- Where a symbol equals a form, the form may be put in its place. -/
theorem value_substitute_of_eq {r t : Row ℚ} {s : Symbol} {σ : Assignment}
    (h : σ s = t.value σ) : (r.substitute s t).value σ = r.value σ := by
  rw [value_substitute, h]
  ring

/-! ## 3. Coefficients -/

/-- **A coefficient is a slope.** -/
theorem value_update (r : Row ℚ) (σ : Assignment) (x : Symbol) (q : ℚ) :
    r.value (Function.update σ x q) = r.value σ + r.coefficient x * (q - σ x) := by
  have hcongr : (r.dropCell x).value (Function.update σ x q) = (r.dropCell x).value σ := by
    refine value_congr fun y hy => ?_
    rw [Function.update_of_ne (mentions_dropCell.mp hy).1]
  rw [value_dropCell, value_dropCell, Function.update_self] at hcongr
  linarith

/-- A symbol that does not occur does not matter. -/
theorem value_update_of_not_mentions {r : Row ℚ} {x : Symbol} (h : ¬ r.Mentions x)
    (σ : Assignment) (q : ℚ) : r.value (Function.update σ x q) = r.value σ := by
  rw [value_update, coefficient_of_not_mentions h, zero_mul, add_zero]

theorem coefficient_eq_value_sub (r : Row ℚ) (σ : Assignment) (x : Symbol) :
    r.coefficient x = r.value (Function.update σ x (σ x + 1)) - r.value σ := by
  rw [value_update]
  ring

/-- **Forms with equal values have equal coefficients.** -/
theorem coefficient_congr {r t : Row ℚ} {k : ℚ} (h : ∀ σ, r.value σ = t.value σ + k)
    (x : Symbol) : r.coefficient x = t.coefficient x := by
  rw [coefficient_eq_value_sub r (fun _ => 0) x, coefficient_eq_value_sub t (fun _ => 0) x, h, h]
  ring

theorem coefficient_addCell (r : Row ℚ) (s : Symbol) (c : ℚ) (x : Symbol) :
    (r.addCell s c).coefficient x = r.coefficient x + if x = s then c else 0 := by
  rw [coefficient_eq_value_sub _ (fun _ => 0) x, coefficient_eq_value_sub r (fun _ => 0) x,
    value_addCell, value_addCell]
  by_cases hxs : x = s
  · subst hxs
    simp
    ring
  · simp [hxs, Function.update_of_ne (Ne.symm hxs)]

theorem coefficient_negate (r : Row ℚ) (x : Symbol) :
    r.negate.coefficient x = -r.coefficient x := by
  rw [coefficient_eq_value_sub _ (fun _ => 0) x, coefficient_eq_value_sub r (fun _ => 0) x,
    value_negate, value_negate]
  ring

/-- Of a substitution by a form without the symbol, every other coefficient follows the form. -/
theorem coefficient_substitute (r : Row ℚ) {s x : Symbol} (t : Row ℚ) (hxs : x ≠ s) :
    (r.substitute s t).coefficient x = r.coefficient x + r.coefficient s * t.coefficient x := by
  rw [coefficient_eq_value_sub _ (fun _ => 0) x, coefficient_eq_value_sub r (fun _ => 0) x,
    coefficient_eq_value_sub t (fun _ => 0) x, value_substitute, value_substitute,
    Function.update_of_ne (Ne.symm hxs)]
  ring

theorem constant_substitute (r : Row ℚ) (s : Symbol) (t : Row ℚ) :
    (r.substitute s t).constant = r.constant + r.coefficient s * t.constant := by
  rw [← value_zero, ← value_zero, value_substitute, value_zero t]
  ring

/-! ## 4. Solving and exchanging -/

theorem coefficient_of_get? {r : Row ℚ} {x : Symbol} {c : ℚ} (h : r.cells.get? x = some c) :
    r.coefficient x = c := by
  rw [coefficient, h]
  rfl

/-- The solved form differs from its symbol by the row, divided by the coefficient. -/
theorem value_solveFor? {r t : Row ℚ} {s : Symbol} (h : r.solveFor? s = some t)
    (hc : r.coefficient s ≠ 0) (σ : Assignment) :
    r.coefficient s * (σ s - t.value σ) = r.value σ := by
  obtain ⟨c, hget, rfl⟩ := Option.map_eq_some_iff.mp h
  have hcoef : r.coefficient s = c := by rw [coefficient, hget]; rfl
  rw [hcoef] at hc
  rw [value_scale, value_dropCell, hcoef]
  show c * (σ s - (r.value σ - c * σ s) * (-1 / c)) = r.value σ
  field_simp
  ring

/-- **The row is zero where the symbol equals the solved form.** -/
theorem eq_value_solveFor?_iff {r t : Row ℚ} {s : Symbol} (h : r.solveFor? s = some t)
    (hc : r.coefficient s ≠ 0) (σ : Assignment) : σ s = t.value σ ↔ r.value σ = 0 := by
  rw [← value_solveFor? h hc σ, mul_eq_zero, sub_eq_zero, or_iff_right hc]

theorem constant_solveFor? {r t : Row ℚ} {s : Symbol} (h : r.solveFor? s = some t)
    (hc : r.coefficient s ≠ 0) : t.constant = -r.constant / r.coefficient s := by
  have hval := value_solveFor? h hc (fun _ => 0)
  rw [value_zero, value_zero] at hval
  field_simp
  linarith

theorem value_exchange? {r t : Row ℚ} {l e : Symbol} (hel : e ≠ l)
    (h : r.exchange? l e = some t) (hc : r.coefficient e ≠ 0) (σ : Assignment) :
    r.coefficient e * (σ e - t.value σ) = r.value σ - σ l := by
  have hcoef : (r.addCell l (-1)).coefficient e = r.coefficient e := by
    rw [coefficient_addCell, if_neg hel, add_zero]
  have := value_solveFor? h (hcoef.symm ▸ hc) σ
  rw [show (r.addCell l (-1)).coefficient e = r.coefficient e from hcoef] at this
  rw [this]
  have hadd := value_addCell r l (-1) σ
  rw [show (-1 : ℚ) * σ l = -σ l by ring] at hadd
  exact hadd.trans (sub_eq_add_neg _ _).symm

/-- **An exchange reads the same equation from the other side.** -/
theorem eq_value_exchange?_iff {r t : Row ℚ} {l e : Symbol} (hel : e ≠ l)
    (h : r.exchange? l e = some t) (hc : r.coefficient e ≠ 0) (σ : Assignment) :
    σ e = t.value σ ↔ σ l = r.value σ := by
  have hval := value_exchange? hel h hc σ
  constructor
  · intro heq
    rw [heq, sub_self, mul_zero] at hval
    linarith
  · intro heq
    rw [heq, sub_self, mul_eq_zero, or_iff_right hc] at hval
    linarith

theorem constant_exchange? {r t : Row ℚ} {l e : Symbol} (hel : e ≠ l)
    (h : r.exchange? l e = some t) (hc : r.coefficient e ≠ 0) :
    t.constant = -r.constant / r.coefficient e := by
  have hval := value_exchange? hel h hc (fun _ => 0)
  rw [value_zero, value_zero] at hval
  field_simp
  linarith

theorem coefficient_exchange? {r t : Row ℚ} {l e x : Symbol} (hel : e ≠ l) (hxe : x ≠ e)
    (h : r.exchange? l e = some t) (hc : r.coefficient e ≠ 0) :
    t.coefficient x = ((if x = l then 1 else 0) - r.coefficient x) / r.coefficient e := by
  have h0 := value_exchange? hel h hc (fun _ => 0)
  have h1 := value_exchange? hel h hc (Function.update (fun _ => 0) x 1)
  rw [value_update, value_update, Function.update_of_ne (Ne.symm hxe)] at h1
  have hl : Function.update (fun _ => (0 : ℚ)) x 1 l = if x = l then 1 else 0 := by
    by_cases hxl : x = l
    · subst hxl; simp
    · simp [hxl, Function.update_of_ne (Ne.symm hxl)]
  rw [hl] at h1
  field_simp
  linarith

/-! ## 5. Reduced rows -/

/-- **No cell is zero.** -/
def Reduced (r : Row ℚ) : Prop := ∀ x c, r.cells.get? x = some c → c ≠ 0

theorem reduced_ofConstant (c : ℚ) : (ofConstant c).Reduced := by
  intro x d h
  simp [ofConstant] at h

theorem Reduced.coefficient_ne_zero {r : Row ℚ} (h : r.Reduced) {x : Symbol}
    (hx : r.Mentions x) : r.coefficient x ≠ 0 := by
  obtain ⟨c, hc⟩ := mentions_iff.mp hx
  rw [coefficient_of_get? hc]
  exact h x c hc

theorem mentions_of_coefficient_ne_zero {r : Row ℚ} {x : Symbol} (h : r.coefficient x ≠ 0) :
    r.Mentions x := by
  by_contra hx
  exact h (coefficient_of_not_mentions hx)

/-- In a reduced row a symbol has a cell exactly if its coefficient is not zero. -/
theorem Reduced.mentions_iff {r : Row ℚ} (h : r.Reduced) {x : Symbol} :
    r.Mentions x ↔ r.coefficient x ≠ 0 :=
  ⟨h.coefficient_ne_zero, mentions_of_coefficient_ne_zero⟩

theorem Reduced.dropCell {r : Row ℚ} (h : r.Reduced) (s : Symbol) : (r.dropCell s).Reduced := by
  intro x c hc
  rw [get?_dropCell] at hc
  split at hc
  · cases hc
  · exact h x c hc

theorem Reduced.addConstant {r : Row ℚ} (h : r.Reduced) (c : ℚ) : (r.addConstant c).Reduced := h

/-- A cell that cancels is dropped, so adding keeps a row reduced. -/
theorem Reduced.addCell {r : Row ℚ} (h : r.Reduced) (s : Symbol) (c : ℚ) :
    (r.addCell s c).Reduced := by
  intro x d hd
  by_cases hxs : x = s
  · subst hxs
    rw [get?_addCell_self] at hd
    split at hd
    · cases hd
    · rename_i hne
      cases hd
      intro hzero
      exact hne (decide_eq_true hzero)
  · rw [get?_addCell_of_ne r c hxs] at hd
    exact h x d hd

theorem Reduced.foldl_addCell (c : ℚ) : ∀ (l : List (Symbol × ℚ)) {r : Row ℚ}, r.Reduced →
    (l.foldl (fun acc e => acc.addCell e.1 (e.2 * c)) r).Reduced
  | [], _, h => h
  | e :: l, _, h => foldl_addCell c l (h.addCell e.1 (e.2 * c))

theorem Reduced.addRow {r : Row ℚ} (h : r.Reduced) (t : Row ℚ) (c : ℚ) :
    (r.addRow t c).Reduced := foldl_addCell c t.cells.entries (h.addConstant _)

theorem Reduced.negate {r : Row ℚ} (h : r.Reduced) : r.negate.Reduced := by
  intro x c hc
  rw [get?_negate] at hc
  obtain ⟨d, hd, rfl⟩ := Option.map_eq_some_iff.mp hc
  exact neg_ne_zero.mpr (h x d hd)

theorem Reduced.scale {r : Row ℚ} (h : r.Reduced) {m : ℚ} (hm : m ≠ 0) : (r.scale m).Reduced := by
  intro x c hc
  rw [get?_scale] at hc
  obtain ⟨d, hd, rfl⟩ := Option.map_eq_some_iff.mp hc
  exact mul_ne_zero (h x d hd) hm

theorem Reduced.solveFor? {r t : Row ℚ} (h : r.Reduced) {s : Symbol}
    (hs : r.solveFor? s = some t) : t.Reduced := by
  obtain ⟨c, hc, rfl⟩ := Option.map_eq_some_iff.mp hs
  exact (h.dropCell s).scale (div_ne_zero (by norm_num) (h s c hc))

theorem Reduced.exchange? {r t : Row ℚ} (h : r.Reduced) {l e : Symbol}
    (he : r.exchange? l e = some t) : t.Reduced := (h.addCell l (-1)).solveFor? he

theorem Reduced.substitute {r : Row ℚ} (h : r.Reduced) (s : Symbol) (t : Row ℚ) :
    (r.substitute s t).Reduced := by
  unfold Row.substitute
  split
  · exact (h.dropCell s).addRow t _
  · exact h

end Row

end IncrementalSimplex
