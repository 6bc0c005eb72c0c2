/-
# Registries: maps that remember the order of arrival

What the caller put into the solver -- constraints, edits, the variables met so far -- is listed
in the order of arrival, and a flush walks the variables in that order.  A `Registry` is a map
that keeps it: a new key goes to the end, an old key keeps its place when its value changes, and
erasing a key leaves the order of the others alone.

Keys are distinct by type (`Registry.nodup`).  The look-ups are `get?_insert` and `get?_erase`,
the order is `keys_insert` and `keys_erase`.  Erasing an entry that is new undoes its insertion, order
and all (`erase_insert_self`); erasing an old one and inserting it again does not, since it goes to
the end then.
-/
import IncrementalSimplex.Entries

namespace IncrementalSimplex

/-- A finite map whose entries are in order of arrival. -/
structure Registry (κ ν : Type) where
  entries : List (κ × ν)
  nodup : (entries.map (·.1)).Nodup

namespace Registry

variable {κ ν : Type}

/-! ## 1. Operations -/

/-- The registry without entries. -/
def empty : Registry κ ν := ⟨[], .nil⟩

instance : Inhabited (Registry κ ν) := ⟨empty⟩

/-- The keys, oldest first. -/
def keys (r : Registry κ ν) : List κ := r.entries.map (·.1)

/-- How many entries there are. -/
def size (r : Registry κ ν) : Nat := r.entries.length

/-- Change every value; keys and order stay. -/
def map {μ : Type} (f : ν → μ) (r : Registry κ ν) : Registry κ μ :=
  ⟨r.entries.map fun e => (e.1, f e.2), by simpa [Function.comp_def] using r.nodup⟩

variable [DecidableEq κ]

/-- The value under a key. -/
def get? (r : Registry κ ν) (k : κ) : Option ν := r.entries.lookup k

/-- Whether a key has a value. -/
def contains (r : Registry κ ν) (k : κ) : Bool := (r.get? k).isSome

/-- Give `k` the value `v`: where `k` stands, or else at the end. -/
def insertEntry (k : κ) (v : ν) : List (κ × ν) → List (κ × ν)
  | [] => [(k, v)]
  | (j, w) :: rest => if j = k then (k, v) :: rest else (j, w) :: insertEntry k v rest

/-- A key that is there keeps its place; one that is not goes to the end. -/
theorem keys_insertEntry (k : κ) (v : ν) : ∀ l : List (κ × ν),
    (insertEntry k v l).map (·.1) =
      if k ∈ l.map (·.1) then l.map (·.1) else l.map (·.1) ++ [k]
  | [] => rfl
  | (j, w) :: rest => by
    have ih := keys_insertEntry k v rest
    by_cases hjk : j = k
    · simp [insertEntry, hjk]
    · have hkj : ¬ k = j := fun h => hjk h.symm
      simp only [insertEntry, if_neg hjk, List.map_cons, ih, List.mem_cons, hkj, false_or]
      split <;> rfl

theorem nodup_insertEntry (k : κ) (v : ν) {l : List (κ × ν)} (h : (l.map (·.1)).Nodup) :
    ((insertEntry k v l).map (·.1)).Nodup := by
  rw [keys_insertEntry]
  split
  · exact h
  · rename_i hmem
    refine List.nodup_append.mpr ⟨h, by simp, ?_⟩
    intro a ha b hb
    cases List.mem_singleton.mp hb
    exact fun hab => hmem (hab ▸ ha)

/-- Give `k` the value `v`, in its old place if it has one and at the end if not. -/
def insert (r : Registry κ ν) (k : κ) (v : ν) : Registry κ ν :=
  ⟨insertEntry k v r.entries, nodup_insertEntry k v r.nodup⟩

/-- Drop the entry of `k`, if there is one. -/
def erase (r : Registry κ ν) (k : κ) : Registry κ ν :=
  ⟨r.entries.filter (fun e => e.1 != k),
    r.nodup.sublist (List.filter_sublist.map _)⟩

/-! ## 2. Look-ups and order -/

@[simp] theorem get?_empty (k : κ) : (empty : Registry κ ν).get? k = none := rfl

theorem lookup_insertEntry (k : κ) (v : ν) (j : κ) : ∀ l : List (κ × ν),
    (insertEntry k v l).lookup j = if j = k then some v else l.lookup j
  | [] => by
    by_cases hjk : j = k
    · simp [insertEntry, hjk]
    · have hb : (j == k) = false := by simpa using hjk
      simp [insertEntry, List.lookup_cons, hjk, hb]
  | (i, w) :: rest => by
    have ih := lookup_insertEntry k v j rest
    by_cases hik : i = k
    · subst hik
      by_cases hji : j = i
      · simp [insertEntry, hji]
      · have hb : (j == i) = false := by simpa using hji
        simp [insertEntry, List.lookup_cons, hji, hb]
    · by_cases hji : j = i
      · subst hji
        simp [insertEntry, hik]
      · have hb : (j == i) = false := by simpa using hji
        simp [insertEntry, hik, List.lookup_cons, hb, ih]

theorem get?_insert (r : Registry κ ν) (k j : κ) (v : ν) :
    (r.insert k v).get? j = if j = k then some v else r.get? j :=
  lookup_insertEntry k v j r.entries

theorem get?_erase (r : Registry κ ν) (k j : κ) :
    (r.erase k).get? j = if j = k then none else r.get? j :=
  Entries.lookup_filter_ne k j r.entries

omit [DecidableEq κ] in
theorem eq_of_entries {r t : Registry κ ν} (h : r.entries = t.entries) : r = t := by
  cases r
  cases t
  cases h
  rfl

/-- **An entry is a look-up.** -/
theorem mem_entries_iff {r : Registry κ ν} {k : κ} {v : ν} :
    (k, v) ∈ r.entries ↔ r.get? k = some v := Entries.mem_iff_lookup r.nodup

theorem contains_iff {r : Registry κ ν} {k : κ} :
    r.contains k = true ↔ ∃ v, r.get? k = some v := Option.isSome_iff_exists

theorem contains_eq_false_iff {r : Registry κ ν} {k : κ} :
    r.contains k = false ↔ r.get? k = none := by
  simp [contains]

/-- What holds of every value and of a new one holds of every value then ... -/
theorem forall_get?_insert {r : Registry κ ν} {P : ν → Prop}
    (h : ∀ k v, r.get? k = some v → P v) {k : κ} {v : ν} (hv : P v) :
    ∀ j w, (r.insert k v).get? j = some w → P w := by
  intro j w hw
  rw [get?_insert] at hw
  split at hw
  · cases hw
    exact hv
  · exact h j w hw

/-- ... and so it does with a value less. -/
theorem forall_get?_erase {r : Registry κ ν} {P : ν → Prop}
    (h : ∀ k v, r.get? k = some v → P v) (k : κ) :
    ∀ j w, (r.erase k).get? j = some w → P w := by
  intro j w hw
  rw [get?_erase] at hw
  split at hw
  · cases hw
  · exact h j w hw

/-- A new key goes to the end; an old one keeps its place. -/
theorem keys_insert (r : Registry κ ν) (k : κ) (v : ν) :
    (r.insert k v).keys = if k ∈ r.keys then r.keys else r.keys ++ [k] :=
  keys_insertEntry k v r.entries

/-- Erasing keeps the order of the rest. -/
theorem keys_erase (r : Registry κ ν) (k : κ) :
    (r.erase k).keys = r.keys.filter (fun j => j != k) := by
  simp only [keys, erase, List.filter_map]
  rfl

/-- A key that was there and one that looks up are the same thing. -/
theorem mem_keys_iff {r : Registry κ ν} {k : κ} : k ∈ r.keys ↔ (r.get? k).isSome :=
  Entries.mem_keys_iff

/-! ## 3. Inserting and erasing -/

/-- **A new key goes to the end**, with its value. -/
theorem entries_insert_of_new {r : Registry κ ν} {k : κ} (h : r.get? k = none) (v : ν) :
    (r.insert k v).entries = r.entries ++ [(k, v)] := by
  suffices hlist : ∀ l : List (κ × ν), l.lookup k = none → insertEntry k v l = l ++ [(k, v)] from
    hlist r.entries h
  intro l
  induction l with
  | nil => exact fun _ => rfl
  | cons e l ih =>
    obtain ⟨j, w⟩ := e
    intro hnone
    have hkj : (k == j) = false := by
      simpa using List.lookup_eq_none_iff.mp hnone _ List.mem_cons_self
    have hjk : j ≠ k := by
      rintro rfl
      simp at hkj
    rw [List.lookup_cons, hkj] at hnone
    rw [insertEntry, if_neg hjk, ih hnone, List.cons_append]

theorem insertEntry_self {k : κ} {v : ν} {l : List (κ × ν)} (h : l.lookup k = some v) :
    insertEntry k v l = l := by
  induction l with
  | nil => cases h
  | cons e l ih =>
    obtain ⟨j, w⟩ := e
    by_cases hjk : j = k
    · simp_all [insertEntry]
    · have hkj : (k == j) = false := by simpa using fun hkj : k = j => hjk hkj.symm
      rw [List.lookup_cons, hkj] at h
      simp [insertEntry, hjk, ih h]

/-- Inserting what is there changes nothing. -/
theorem insert_self {r : Registry κ ν} {k : κ} {v : ν} (h : r.get? k = some v) :
    r.insert k v = r := eq_of_entries (insertEntry_self h)

/-- A key that is not there is not missed. -/
theorem erase_eq_self {r : Registry κ ν} {k : κ} (h : r.get? k = none) : r.erase k = r :=
  eq_of_entries (Entries.filter_eq_self h)

theorem filter_insertEntry_of_ne {j k : κ} (h : k ≠ j) (v : ν) (l : List (κ × ν)) :
    (insertEntry k v l).filter (fun e => e.1 != j) =
      insertEntry k v (l.filter fun e => e.1 != j) := by
  induction l with
  | nil => simp [insertEntry, h]
  | cons e l ih =>
    obtain ⟨i, w⟩ := e
    by_cases hik : i = k
    · simp [insertEntry, hik, h]
    · by_cases hij : i = j
      · have hjk : j ≠ k := h.symm
        simp [insertEntry, hij, hjk, ih]
      · simp [insertEntry, hik, hij, ih]

/-- **Erasing a new entry gives the old registry back**, order and all ... -/
theorem erase_insert_self {r : Registry κ ν} {k : κ} (h : r.get? k = none) (v : ν) :
    (r.insert k v).erase k = r := by
  refine eq_of_entries ?_
  show (r.insert k v).entries.filter (fun e => e.1 != k) = r.entries
  rw [entries_insert_of_new h, List.filter_append, Entries.filter_eq_self h]
  simp

/-- ... and erasing another entry comes to the same before and after. -/
theorem erase_insert_of_ne (r : Registry κ ν) {j k : κ} (h : k ≠ j) (v : ν) :
    (r.insert k v).erase j = (r.erase j).insert k v :=
  eq_of_entries (filter_insertEntry_of_ne h v r.entries)

/-! ## 4. Changing the values -/

variable {μ : Type}

theorem insertEntry_map (f : ν → μ) (k : κ) (v : ν) (l : List (κ × ν)) :
    insertEntry k (f v) (l.map fun e => (e.1, f e.2)) =
      (insertEntry k v l).map fun e => (e.1, f e.2) := by
  induction l with
  | nil => rfl
  | cons e l ih =>
    simp only [insertEntry, List.map_cons, ih]
    split <;> rfl

@[simp] theorem get?_map (f : ν → μ) (r : Registry κ ν) (k : κ) :
    (r.map f).get? k = (r.get? k).map f := Entries.lookup_map f k r.entries

@[simp] theorem contains_map (f : ν → μ) (r : Registry κ ν) (k : κ) :
    (r.map f).contains k = r.contains k := by simp [contains]

@[simp] theorem insert_map (f : ν → μ) (r : Registry κ ν) (k : κ) (v : ν) :
    (r.map f).insert k (f v) = (r.insert k v).map f := by
  simp only [insert, map, insertEntry_map]

@[simp] theorem erase_map (f : ν → μ) (r : Registry κ ν) (k : κ) :
    (r.map f).erase k = (r.erase k).map f := by
  simp [erase, map, List.filter_map, Function.comp_def]

/-- A change that changes no value. -/
theorem map_eq_self {r : Registry κ ν} {f : ν → ν} (h : ∀ k v, r.get? k = some v → f v = v) :
    r.map f = r := by
  refine eq_of_entries ((List.map_congr_left fun e he => ?_).trans (List.map_id _))
  rw [h e.1 e.2 (mem_entries_iff.mp he)]
  rfl

/-! ## 5. Sizes -/

theorem size_erase {r : Registry κ ν} {k : κ} {v : ν} (h : r.get? k = some v) :
    (r.erase k).size + 1 = r.size :=
  Entries.length_filter_ne r.nodup (List.mem_map.mpr ⟨(k, v), mem_entries_iff.mpr h, rfl⟩)

theorem get?_eq_none_of_size {r : Registry κ ν} (h : r.size = 0) (k : κ) : r.get? k = none := by
  rw [get?, List.length_eq_zero_iff.mp h]
  rfl

end Registry

end IncrementalSimplex
