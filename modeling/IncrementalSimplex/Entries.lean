/-
# Lists of entries

A `Registry` and a `SymbolMap` are both lists of entries with distinct keys, read by looking a key
up.  They differ in where a new entry goes.  What does not depend on that holds of any such list and
stands here: what dropping a key and changing the values do to look-ups, that an entry is the same
as a look-up (`mem_iff_lookup`), and what dropping a key does to the length.
-/

namespace IncrementalSimplex

namespace Entries

variable {κ ν μ : Type} [DecidableEq κ]

theorem lookup_filter_ne (k j : κ) : ∀ l : List (κ × ν),
    (l.filter fun e => e.1 != k).lookup j = if j = k then none else l.lookup j
  | [] => by simp
  | (i, v) :: rest => by
    have ih := lookup_filter_ne k j rest
    by_cases hik : i = k
    · subst hik
      by_cases hji : j = i
      · simp [hji] at ih ⊢
        exact ih
      · have hb : (j == i) = false := by simpa using hji
        simp [List.lookup_cons, hji, hb] at ih ⊢
        exact ih
    · have hkeep : (i != k) = true := by simpa using hik
      by_cases hji : j = i
      · subst hji
        simp [hkeep, hik]
      · have hb : (j == i) = false := by simpa using hji
        simp [hkeep, List.lookup_cons, hb, ih]

/-- A key that is not there is not missed. -/
theorem filter_eq_self {k : κ} {l : List (κ × ν)} (h : l.lookup k = none) :
    (l.filter fun e => e.1 != k) = l := by
  refine List.filter_eq_self.mpr fun e he => ?_
  have hne : (k == e.1) = false := by simpa using List.lookup_eq_none_iff.mp h e he
  exact bne_iff_ne.mpr fun heq => beq_eq_false_iff_ne.mp hne heq.symm

theorem lookup_map (f : ν → μ) (k : κ) (l : List (κ × ν)) :
    (l.map fun e => (e.1, f e.2)).lookup k = (l.lookup k).map f := by
  induction l with
  | nil => rfl
  | cons e l ih =>
    rw [List.map_cons, List.lookup_cons, List.lookup_cons, ih]
    cases k == e.1 <;> rfl

/-- A key is what looks up. -/
theorem mem_keys_iff {k : κ} {l : List (κ × ν)} : k ∈ l.map (·.1) ↔ (l.lookup k).isSome := by
  simp only [List.mem_map, List.lookup_isSome_iff, beq_iff_eq]
  exact ⟨fun ⟨e, he, hk⟩ => ⟨e, he, hk.symm⟩, fun ⟨e, he, hk⟩ => ⟨e, he, hk.symm⟩⟩

/-- **An entry is a look-up**, where keys are distinct. -/
theorem mem_iff_lookup {k : κ} {v : ν} : ∀ {l : List (κ × ν)}, (l.map (·.1)).Nodup →
    ((k, v) ∈ l ↔ l.lookup k = some v)
  | [], _ => by simp
  | (j, w) :: rest, hl => by
    obtain ⟨hj, hrest⟩ := List.nodup_cons.mp hl
    by_cases hkj : k = j
    · subst hkj
      have hnone : (k, v) ∉ rest := fun hmem => hj (List.mem_map.mpr ⟨(k, v), hmem, rfl⟩)
      simp [hnone, eq_comm]
    · have hb : (k == j) = false := by simpa using hkj
      simp [List.lookup_cons, hb, mem_iff_lookup hrest, hkj]

/-- Dropping a key that is there leaves one entry less. -/
theorem length_filter_ne {l : List (κ × ν)} {k : κ} (hl : (l.map (·.1)).Nodup)
    (hk : k ∈ l.map (·.1)) : (l.filter fun e => e.1 != k).length + 1 = l.length := by
  have hkeys : (l.filter fun e => e.1 != k).map (·.1) = (l.map (·.1)).erase k := by
    rw [hl.erase_eq_filter, List.filter_map]
    rfl
  have hlength := List.length_erase_of_mem hk
  have hpos := List.length_pos_of_mem hk
  rw [← hkeys, List.length_map, List.length_map] at hlength
  rw [List.length_map] at hpos
  omega

end Entries

end IncrementalSimplex
