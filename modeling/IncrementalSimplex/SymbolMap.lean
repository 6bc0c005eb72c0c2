/-
# Maps ordered by symbol

The cells of a row and the rows of a tableau are finite maps keyed by symbols.  Both are walked
in symbol order, and the order shows: it decides which symbol enters, which leaves, and in which
order sums are formed.  So the map IS the strictly increasing list of its entries, and the order
is part of the type (`SymbolMap.sorted`).

**The view is `get?`.**  Each operation has one equation that says what it does to look-ups
(`get?_insert`, `get?_erase`, `get?_map`), and `SymbolMap.ext` says that nothing else can be
seen: two maps with the same look-ups are the same map.
-/
import IncrementalSimplex.Entries
import IncrementalSimplex.Symbol

namespace IncrementalSimplex

/-- A finite map from symbols, held as its entries in increasing symbol order. -/
structure SymbolMap (β : Type) where
  entries : List (Symbol × β)
  sorted : entries.Pairwise (fun a b => a.1 < b.1)

namespace SymbolMap

variable {β γ : Type}

/-! ## 1. Operations -/

/-- The map without entries. -/
def empty : SymbolMap β := ⟨[], .nil⟩

instance : Inhabited (SymbolMap β) := ⟨empty⟩

/-- The value under a symbol. -/
def get? (m : SymbolMap β) (s : Symbol) : Option β := m.entries.lookup s

/-- Whether a symbol has a value. -/
def contains (m : SymbolMap β) (s : Symbol) : Bool := (m.get? s).isSome

/-- The keys, in order. -/
def keys (m : SymbolMap β) : List Symbol := m.entries.map (·.1)

/-- How many entries there are. -/
def size (m : SymbolMap β) : Nat := m.entries.length

/-- Put a value under `s` in an increasing list of entries. -/
def insertEntry (s : Symbol) (b : β) : List (Symbol × β) → List (Symbol × β)
  | [] => [(s, b)]
  | (t, c) :: rest =>
    if s < t then (s, b) :: (t, c) :: rest
    else if s = t then (s, b) :: rest
    else (t, c) :: insertEntry s b rest

theorem mem_insertEntry {s : Symbol} {b : β} {e : Symbol × β} :
    ∀ {l : List (Symbol × β)}, e ∈ insertEntry s b l → e = (s, b) ∨ e ∈ l
  | [], h => by simpa [insertEntry] using h
  | (t, c) :: rest, h => by
    unfold insertEntry at h
    split at h
    · simpa using h
    · split at h
      · rcases List.mem_cons.mp h with h | h
        · exact .inl h
        · exact .inr (List.mem_cons_of_mem _ h)
      · rcases List.mem_cons.mp h with h | h
        · exact .inr (h ▸ List.mem_cons_self)
        · rcases mem_insertEntry h with h | h
          · exact .inl h
          · exact .inr (List.mem_cons_of_mem _ h)

theorem insertEntry_sorted (s : Symbol) (b : β) : ∀ {l : List (Symbol × β)},
    l.Pairwise (fun a b => a.1 < b.1) → (insertEntry s b l).Pairwise (fun a b => a.1 < b.1)
  | [], _ => by simp [insertEntry]
  | (t, c) :: rest, h => by
    obtain ⟨ht, hrest⟩ := List.pairwise_cons.mp h
    unfold insertEntry
    split
    · rename_i hst
      refine List.pairwise_cons.mpr ⟨fun e he => ?_, h⟩
      rcases List.mem_cons.mp he with rfl | he
      · exact hst
      · exact Symbol.lt_trans hst (ht e he)
    · rename_i hst
      split
      · rename_i heq
        subst heq
        exact List.pairwise_cons.mpr ⟨ht, hrest⟩
      · rename_i hne
        refine List.pairwise_cons.mpr ⟨fun e he => ?_, insertEntry_sorted s b hrest⟩
        rcases mem_insertEntry he with rfl | he
        · exact Symbol.lt_of_not_lt_of_ne hst hne
        · exact ht e he

/-- Put a value under `s`, replacing the one that was there. -/
def insert (m : SymbolMap β) (s : Symbol) (b : β) : SymbolMap β :=
  ⟨insertEntry s b m.entries, insertEntry_sorted s b m.sorted⟩

/-- Drop the entry of `s`, if there is one. -/
def erase (m : SymbolMap β) (s : Symbol) : SymbolMap β :=
  ⟨m.entries.filter (fun e => e.1 != s), m.sorted.filter _⟩

/-- Change every value; the keys stay. -/
def map (f : β → γ) (m : SymbolMap β) : SymbolMap γ :=
  ⟨m.entries.map (fun e => (e.1, f e.2)), List.pairwise_map.mpr m.sorted⟩

/-! ## 2. Look-ups in an increasing list -/

theorem lookup_eq_none_of_lt {s : Symbol} {l : List (Symbol × β)} (h : ∀ e ∈ l, s < e.1) :
    l.lookup s = none := by
  refine List.lookup_eq_none_iff.mpr fun e he => ?_
  have := Symbol.ne_of_lt (h e he)
  simpa using this

theorem lookup_insertEntry (s : Symbol) (b : β) (t : Symbol) : ∀ {l : List (Symbol × β)},
    l.Pairwise (fun a b => a.1 < b.1) →
      (insertEntry s b l).lookup t = if t = s then some b else l.lookup t
  | [], _ => by
    by_cases hts : t = s
    · simp [insertEntry, hts]
    · have hb : (t == s) = false := by simpa using hts
      simp [insertEntry, List.lookup_cons, hts, hb]
  | (u, c) :: rest, h => by
    obtain ⟨hu, hrest⟩ := List.pairwise_cons.mp h
    unfold insertEntry
    split
    · by_cases hts : t = s
      · simp [hts]
      · have hb : (t == s) = false := by simpa using hts
        simp [List.lookup_cons, hts, hb]
    · split
      · rename_i hsu
        subst hsu
        by_cases hts : t = s
        · simp [hts]
        · have hb : (t == s) = false := by simpa using hts
          simp [List.lookup_cons, hts, hb]
      · rename_i hsu
        have ih := lookup_insertEntry s b t hrest
        by_cases htu : t = u
        · subst htu
          have : t ≠ s := fun h => hsu h.symm
          simp [this]
        · have hb : (t == u) = false := by simpa using htu
          simp [List.lookup_cons, hb, ih]

/-! ## 3. One equation per operation -/

@[simp] theorem get?_empty (s : Symbol) : (empty : SymbolMap β).get? s = none := rfl

theorem get?_insert (m : SymbolMap β) (s t : Symbol) (b : β) :
    (m.insert s b).get? t = if t = s then some b else m.get? t :=
  lookup_insertEntry s b t m.sorted

theorem get?_erase (m : SymbolMap β) (s t : Symbol) :
    (m.erase s).get? t = if t = s then none else m.get? t :=
  Entries.lookup_filter_ne s t m.entries

@[simp] theorem get?_map (f : β → γ) (m : SymbolMap β) (s : Symbol) :
    (m.map f).get? s = (m.get? s).map f :=
  Entries.lookup_map f s m.entries

theorem nodup_keys (m : SymbolMap β) : (m.entries.map (·.1)).Nodup :=
  List.pairwise_map.mpr (m.sorted.imp fun hlt => Symbol.ne_of_lt hlt)

/-- **An entry is a look-up.** -/
theorem mem_entries_iff {m : SymbolMap β} {s : Symbol} {b : β} :
    (s, b) ∈ m.entries ↔ m.get? s = some b := Entries.mem_iff_lookup m.nodup_keys

/-- A key is a symbol that looks up. -/
theorem mem_keys_iff {m : SymbolMap β} {s : Symbol} : s ∈ m.keys ↔ (m.get? s).isSome :=
  Entries.mem_keys_iff

/-! ## 4. Nothing but look-ups can be seen -/

theorem entries_eq_of_mem_iff : ∀ {l m : List (Symbol × β)},
    l.Pairwise (fun a b => a.1 < b.1) → m.Pairwise (fun a b => a.1 < b.1) →
      (∀ e, e ∈ l ↔ e ∈ m) → l = m
  | [], [], _, _, _ => rfl
  | [], e :: _, _, _, h => absurd ((h e).mpr List.mem_cons_self) (by simp)
  | e :: _, [], _, _, h => absurd ((h e).mp List.mem_cons_self) (by simp)
  | d :: l, e :: m, hl, hm, h => by
    obtain ⟨hd, hltail⟩ := List.pairwise_cons.mp hl
    obtain ⟨he, hmtail⟩ := List.pairwise_cons.mp hm
    have hde : d = e := by
      rcases List.mem_cons.mp ((h d).mp List.mem_cons_self) with hde | hdm
      · exact hde
      · rcases List.mem_cons.mp ((h e).mpr List.mem_cons_self) with hed | hel
        · exact hed.symm
        · exact absurd (Symbol.lt_trans (he d hdm) (hd e hel)) (Symbol.lt_irrefl _)
    subst hde
    refine congrArg (d :: ·) (entries_eq_of_mem_iff hltail hmtail fun f => ?_)
    constructor
    · intro hf
      rcases List.mem_cons.mp ((h f).mp (List.mem_cons_of_mem _ hf)) with rfl | hf'
      · exact absurd (hd f hf) (Symbol.lt_irrefl _)
      · exact hf'
    · intro hf
      rcases List.mem_cons.mp ((h f).mpr (List.mem_cons_of_mem _ hf)) with rfl | hf'
      · exact absurd (he f hf) (Symbol.lt_irrefl _)
      · exact hf'

theorem eq_of_entries {m n : SymbolMap β} (h : m.entries = n.entries) : m = n := by
  cases m
  cases n
  cases h
  rfl

/-- **Extensionality.**  Two maps with the same look-ups are equal, entries and all. -/
theorem ext {m n : SymbolMap β} (h : ∀ s, m.get? s = n.get? s) : m = n :=
  eq_of_entries (entries_eq_of_mem_iff m.sorted n.sorted fun e => by
    rw [show e = (e.1, e.2) from rfl, mem_entries_iff, mem_entries_iff, h e.1])

/-- Inserting what is there changes nothing. -/
theorem insert_self {m : SymbolMap β} {s : Symbol} {b : β} (h : m.get? s = some b) :
    m.insert s b = m := by
  refine ext fun t => ?_
  rw [get?_insert]
  split
  · rename_i hts
    rw [hts, h]
  · rfl

theorem map_map {δ : Type} (f : β → γ) (g : γ → δ) (m : SymbolMap β) :
    (m.map f).map g = m.map fun b => g (f b) :=
  eq_of_entries (by simp [map])

theorem map_insert (f : β → γ) (m : SymbolMap β) (s : Symbol) (b : β) :
    (m.insert s b).map f = (m.map f).insert s (f b) := by
  refine ext fun t => ?_
  rw [get?_map, get?_insert, get?_insert, get?_map]
  split <;> rfl

theorem map_erase (f : β → γ) (m : SymbolMap β) (s : Symbol) :
    (m.erase s).map f = (m.map f).erase s := by
  refine ext fun t => ?_
  rw [get?_map, get?_erase, get?_erase, get?_map]
  split <;> rfl

/-! ## 5. Sizes -/

theorem size_map (f : β → γ) (m : SymbolMap β) : (m.map f).size = m.size := List.length_map _

theorem size_erase {m : SymbolMap β} {s : Symbol} {b : β} (h : m.get? s = some b) :
    (m.erase s).size + 1 = m.size :=
  Entries.length_filter_ne m.nodup_keys (List.mem_map.mpr ⟨(s, b), mem_entries_iff.mpr h, rfl⟩)

/-- A new key makes one entry more. -/
theorem size_insert {m : SymbolMap β} {s : Symbol} {b : β} (h : m.get? s = none) :
    (m.insert s b).size = m.size + 1 := by
  have hback : (m.insert s b).erase s = m := ext fun t => by
    rw [get?_erase, get?_insert]
    split
    · rename_i hts
      rw [hts, h]
    · rfl
  rw [← size_erase (b := b) (m := m.insert s b) (by rw [get?_insert, if_pos rfl]), hback]

end SymbolMap

end IncrementalSimplex
