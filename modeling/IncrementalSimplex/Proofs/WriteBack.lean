/-
# What a flush writes

A flush goes through the variables that the solver has met.  It writes a value to a slot and reads
the owner and the context of the same slot, in a space that its earlier writes have changed already;
and the slots are the caller's, of any mix: free-standing or owned by a param, with a context or
without.

What it comes to is said without the loop.  `Space.assign` is the space with other values in the
slots of some variables, all else as it was, and **a flush assigns the solved values**
(`Solver.flush?_eq`).  The updates are read off the space BEFORE the flush, since a write changes
neither owners nor contexts (`Space.reportedAs?_modify`).  Assigning twice is assigning once, so a
second flush does nothing (`Space.assign_assign`).

**In which order.**  The registry of symbols lists a variable when it first counts in a term, and
from then on its entry stays where it is and as it is: later calls list their newcomers behind it,
removed and rejected constraints take nothing back, and only a reset clears the list
(`symbols_prefix_perform`).
-/
import IncrementalSimplex.Solver.Flush
import IncrementalSimplex.Proofs.Outcomes

namespace IncrementalSimplex

variable {α γ : Type}

/-! ## 1. Assigning values -/

namespace Space

/-- Two spaces with the same slots. -/
theorem ext_slot? {s t : Space α γ} (h : ∀ v, s.slot? v = t.slot? v) : s = t := by
  cases s
  cases t
  exact congrArg _ (List.ext_getElem? fun i => h ⟨i⟩)

/-- **Values for some variables**, one after the other. -/
def assign (space : Space α γ) (vs : List Variable) (val : Variable → α) : Space α γ :=
  vs.foldl (fun space v => space.modify v ({ · with value := val v })) space

/-- **A slot after assigning**: its value may be another, and that is all. -/
theorem slot?_assign (space : Space α γ) (vs : List Variable) (val : Variable → α) (w : Variable) :
    (space.assign vs val).slot? w =
      if w ∈ vs then (space.slot? w).map ({ · with value := val w }) else space.slot? w := by
  induction vs generalizing space with
  | nil => rfl
  | cons v vs ih =>
    rw [assign, List.foldl_cons]
    refine (ih _).trans ?_
    rw [slot?_modify]
    by_cases hwv : w = v
    · subst hwv
      rw [if_pos rfl, if_pos List.mem_cons_self]
      split
      · rw [Option.map_map]
        rfl
      · rfl
    · rw [if_neg hwv]
      simp only [List.mem_cons, hwv, false_or]

/-- Assigning the same values again changes nothing. -/
theorem assign_assign (space : Space α γ) (vs : List Variable) (val : Variable → α) :
    (space.assign vs val).assign vs val = space.assign vs val := by
  refine ext_slot? fun w => ?_
  rw [slot?_assign, slot?_assign]
  split
  · rw [Option.map_map]
    rfl
  · rfl

@[simp] theorem size_assign (space : Space α γ) (vs : List Variable) (val : Variable → α) :
    (space.assign vs val).size = space.size := by
  induction vs generalizing space with
  | nil => rfl
  | cons v vs ih => exact (ih _).trans (space.size_modify v _)

/-- What is reported about a slot: the context, if a param owns the slot. -/
theorem reportedAs?_eq (space : Space α γ) (v : Variable) :
    space.reportedAs? v = (space.slot? v).bind fun t => if t.owned then t.context else none := by
  unfold reportedAs? owner? context?
  cases hslot : space.slot? v with
  | none => rfl
  | some t => cases hown : t.owned <;> simp [Option.filter, hown, hslot]

/-- Storing a value changes neither owners nor contexts. -/
theorem reportedAs?_modify (space : Space α γ) (v w : Variable) (x : α) :
    (space.modify v ({ · with value := x })).reportedAs? w = space.reportedAs? w := by
  rw [reportedAs?_eq, reportedAs?_eq, slot?_modify]
  split
  · rw [Option.bind_map]
    rfl
  · rfl

theorem reportedAs?_assign (space : Space α γ) (vs : List Variable) (val : Variable → α)
    (w : Variable) : (space.assign vs val).reportedAs? w = space.reportedAs? w := by
  induction vs generalizing space with
  | nil => rfl
  | cons v vs ih => exact (ih _).trans (space.reportedAs?_modify v w _)

end Space

/-! ## 2. Writing -/

variable [Scalar α]

/-- **One write.** -/
theorem Flush.write_eq {f : Flush α γ} {v : Variable} (h : (f.space.slot? v).isSome) (x : α) :
    f.write v x = some
      { space := f.space.modify v ({ · with value := x })
        updates := f.updates ++ ((f.space.reportedAs? v).map (⟨·, x⟩)).toList } := by
  obtain ⟨t, ht⟩ := Option.isSome_iff_exists.mp h
  unfold write Space.setValue? Space.value?
  rw [ht]
  simp only [Option.map_some, Space.reportedAs?_modify]
  cases f.space.reportedAs? v with
  | none => simp
  | some context => rfl

/-- **Writes to slots that exist** assign the values, and report those slots that ask for it. -/
theorem Flush.foldlM_write (val : Variable → α) (vs : List Variable) {f : Flush α γ}
    (h : ∀ v ∈ vs, (f.space.slot? v).isSome) :
    vs.foldlM (fun f v => f.write v (val v)) f = some
      { space := f.space.assign vs val
        updates := f.updates ++
          vs.filterMap fun v => (f.space.reportedAs? v).map (⟨·, val v⟩) } := by
  induction vs generalizing f with
  | nil => simp [Space.assign]
  | cons v vs ih =>
    have hrest : ∀ w ∈ vs,
        ((f.space.modify v ({ · with value := val v })).slot? w).isSome := by
      intro w hw
      rw [Space.slot?_modify]
      split
      · rw [Option.isSome_map]
        exact h w (List.mem_cons_of_mem v hw)
      · exact h w (List.mem_cons_of_mem v hw)
    rw [List.foldlM_cons, Flush.write_eq (h v List.mem_cons_self)]
    refine (ih hrest).trans ?_
    simp only [Space.reportedAs?_modify, List.append_assoc, List.filterMap_cons]
    cases f.space.reportedAs? v <;> rfl

/-- Writing by entry is writing by variable, if the entries have the values of their variables. -/
theorem Flush.foldlM_entries {ι : Type} (val : Variable → α) (g : ι → α)
    (l : List (Variable × ι)) (h : ∀ e ∈ l, g e.2 = val e.1) (f : Flush α γ) :
    l.foldlM (fun f (v, x) => f.write v (g x)) f =
      (l.map (·.1)).foldlM (fun f v => f.write v (val v)) f := by
  induction l generalizing f with
  | nil => rfl
  | cons e l ih =>
    obtain ⟨v, x⟩ := e
    have hx : g x = val v := h (v, x) List.mem_cons_self
    rw [List.map_cons, List.foldlM_cons, List.foldlM_cons]
    dsimp only
    rw [hx]
    exact congrArg _ (funext fun f' => ih (fun e he => h e (List.mem_cons_of_mem _ he)) f')

namespace Solver

/-- **A flush assigns the solved values**, if all variables met have slots. -/
theorem flush?_eq (s : Solver α) {space : Space α γ}
    (h : ∀ v ∈ s.symbols.keys, (space.slot? v).isSome) :
    s.flush? space = some
      { space := space.assign s.symbols.keys s.value
        updates := s.symbols.keys.filterMap fun v =>
          (space.reportedAs? v).map (⟨·, s.value v⟩) } := by
  have hvalue : ∀ e ∈ s.symbols.entries, s.symbolValue e.2 = s.value e.1 := by
    intro e he
    rw [value, Registry.mem_entries_iff.mp he]
  have hwrite := Flush.foldlM_write (f := ⟨space, []⟩) s.value s.symbols.keys h
  rw [List.nil_append] at hwrite
  exact (Flush.foldlM_entries s.value s.symbolValue s.symbols.entries hvalue _).trans hwrite

/-- A second flush does nothing. -/
theorem flush?_assign (s : Solver α) {space : Space α γ}
    (h : ∀ v ∈ s.symbols.keys, (space.slot? v).isSome) :
    s.flush? (space.assign s.symbols.keys s.value) = s.flush? space := by
  have hslots : ∀ v ∈ s.symbols.keys,
      ((space.assign s.symbols.keys s.value).slot? v).isSome := by
    intro v hv
    rw [Space.slot?_assign, if_pos hv, Option.isSome_map]
    exact h v hv
  rw [s.flush?_eq hslots, s.flush?_eq h, Space.assign_assign]
  simp only [Space.reportedAs?_assign]

/-! ## 3. The order of the variables -/

theorem keys_naming (n : Nat) (vs : List Variable) : (naming n vs).map (·.1) = vs := by
  induction vs generalizing n with
  | nil => rfl
  | cons v vs ih => rw [naming, List.map_cons, ih]

/-- **An addition lists its newcomers last**, in the order in which they first count. -/
theorem keys_symbols_add (s : Solver α) (c : Constraint α) :
    (s.add c).solver.symbols.keys = s.symbols.keys ∨
      (s.add c).solver.symbols.keys =
        s.symbols.keys ++ newcomers s.symbols.keys c.expression.terms := by
  rcases s.symbols_add c with hsame | hencode
  · exact .inl (congrArg Registry.keys hsame)
  · refine .inr ?_
    rw [hencode, Registry.keys, entries_symbols_encode, List.map_append, keys_naming]
    rfl

/-- **No call changes or moves the entry of a variable** but a reset, which begins anew. -/
theorem symbols_prefix_perform (s : Solver α) {c : Call α} (hc : c ≠ .reset) :
    s.symbols.entries <+: (s.perform c).solver.symbols.entries := by
  refine perform_keeps (P := fun u => s.symbols.entries <+: u.symbols.entries)
    (fun u c hu => hu.trans ?_) (fun u c hu => ?_) (fun u c v hu => ?_) (fun _ _ hu => hu)
    (fun u v x hu => ?_) List.prefix_rfl hc
  · rcases u.symbols_add c with hsame | hencode
    · exact hsame ▸ List.prefix_rfl
    · rw [hencode, entries_symbols_encode]
      exact List.prefix_append _ _
  · rw [symbols_remove]
    exact hu
  · unfold recordEdit
    split <;> exact hu
  · unfold suggest
    split <;> exact hu

end Solver

/-! ## 4. Any state -/

/-- **What a flush does**, in any state and for any space in which all variables met have a slot.
Each of them gets its solved value, nothing else of the space changes, and reported are those whose
slot is owned by a param and has a context, once each and in the order in which they were met; so a
second flush reports the same and leaves the space as it is.  Each variable has a symbol of its own,
for as long as the solver lives: a call lists new variables behind the others, an addition those of
its terms in their order. -/
theorem Attained.flush_assigns_values {s : Solver α} (h : Attained s) {space : Space α γ}
    (hslots : ∀ v ∈ s.symbols.keys, (space.slot? v).isSome) :
    (∃ f, s.flush? space = some f ∧
      (∀ v ∈ s.symbols.keys, f.space.value? v = some (s.value v)) ∧
      (∀ v, v ∉ s.symbols.keys → f.space.slot? v = space.slot? v) ∧
      (∀ v, (f.space.slot? v).map (fun t => (t.name, t.owned, t.context)) =
        (space.slot? v).map fun t => (t.name, t.owned, t.context)) ∧
      f.space.size = space.size ∧
      (f.updates = s.symbols.keys.filterMap fun v => (space.slot? v).bind fun t =>
        if t.owned then t.context.map (⟨·, s.value v⟩) else none) ∧
      s.flush? f.space = some f) ∧
    s.symbols.keys.Nodup ∧
    (∀ v w x, s.symbols.get? v = some x → s.symbols.get? w = some x → v = w) ∧
    (∀ c : Constraint α, (s.add c).solver.symbols.keys = s.symbols.keys ∨
      (s.add c).solver.symbols.keys =
        s.symbols.keys ++ Solver.newcomers s.symbols.keys c.expression.terms) ∧
    ∀ c : Call α, c ≠ .reset → s.symbols.entries <+: (s.perform c).solver.symbols.entries := by
  obtain ⟨P, hP⟩ := h.exists_ledger
  refine ⟨⟨_, s.flush?_eq hslots, fun v hv => ?_, fun v hv => ?_, fun v => ?_,
    space.size_assign _ _, ?_, (s.flush?_assign hslots).trans (s.flush?_eq hslots)⟩,
    s.symbols.nodup, hP.names.inj, s.keys_symbols_add, fun c hc => s.symbols_prefix_perform hc⟩
  · obtain ⟨t, ht⟩ := Option.isSome_iff_exists.mp (hslots v hv)
    rw [Space.value?, Space.slot?_assign, if_pos hv, ht]
    rfl
  · rw [Space.slot?_assign, if_neg hv]
  · rw [Space.slot?_assign]
    split
    · rw [Option.map_map]
      rfl
    · rfl
  · refine List.filterMap_congr fun v _ => ?_
    rw [Space.reportedAs?_eq, Option.map_bind]
    refine congrArg _ (funext fun t => ?_)
    cases hown : t.owned <;> simp [hown]

/-! `w == v`, then `v >= 3`, then `u - u >= 1`, which is turned down; the variables were met in the
order `w`, `v`, `u`. -/

def pairLast : Constraint ℚ := ⟨⟨0⟩, ⟨[.ofVariable ⟨1⟩, ⟨⟨0⟩, -1⟩], 0⟩, .equal, .required⟩

def firstThree : Constraint ℚ := ⟨⟨1⟩, ⟨[.ofVariable ⟨0⟩], -3⟩, .atLeast, .required⟩

def cancelledThird : Constraint ℚ :=
  ⟨⟨2⟩, ⟨[.ofVariable ⟨2⟩, ⟨⟨2⟩, -1⟩], -1⟩, .atLeast, .required⟩

def matched : Solver ℚ :=
  ((((Solver.new : Solver ℚ).perform (.add pairLast)).solver.perform
    (.add firstThree)).solver.perform (.add cancelledThird)).solver

/-- Slots for `v`, `w`, `u` and one more: those of `v` and `w` belong to params with a context, that
of `u` is free and has a context all the same, and the last one was never met. -/
def mixedSpace : Space ℚ String :=
  ⟨[{ value := 7, owned := true, context := some "v" },
    { value := 8, owned := true, context := some "w" },
    { value := 9, context := some "u" },
    { value := 10, owned := true, context := some "t" }]⟩

/-- The params are reported, `w` before `v`; the free slot gets the zero of its variable in silence,
and the last one keeps its ten. -/
theorem matched_flush :
    Attained matched ∧ ∃ f, matched.flush? mixedSpace = some f ∧
      f.updates = [⟨"w", 3⟩, ⟨"v", 3⟩] ∧
      f.space.value? ⟨0⟩ = some 3 ∧ f.space.value? ⟨2⟩ = some 0 ∧
      f.space.slot? ⟨3⟩ = mixedSpace.slot? ⟨3⟩ ∧
      matched.flush? f.space = some f := by
  have hmatched : Attained matched := .call _ (.call _ (.call _ (.new {})))
  have hmet : matched.symbols.keys = [⟨1⟩, ⟨0⟩, ⟨2⟩] := by decide +kernel
  have hvalue : [⟨1⟩, ⟨0⟩, ⟨2⟩].map matched.value = [3, 3, 0] := by decide +kernel
  simp only [List.map_cons, List.map_nil, List.cons.injEq, and_true] at hvalue
  obtain ⟨hw, hv, hu⟩ := hvalue
  have hslots : ∀ v ∈ matched.symbols.keys, (mixedSpace.slot? v).isSome := by
    rw [hmet]
    decide
  obtain ⟨⟨f, hf, hval, hother, -, -, hupdates, hagain⟩, -⟩ :=
    hmatched.flush_assigns_values hslots
  rw [hmet] at hval hother hupdates
  refine ⟨hmatched, f, hf, ?_, ?_, ?_, hother ⟨3⟩ (by decide), hagain⟩
  · rw [hupdates]
    simp only [List.filterMap_cons, List.filterMap_nil, hv, hw]
    rfl
  · rw [hval ⟨0⟩ (by decide), hv]
  · rw [hval ⟨2⟩ (by decide), hu]

end IncrementalSimplex
