/-
# Symbols: the unknowns of the tableau

A tableau is written over SYMBOLS, not over the caller's variables.  A variable gets one
`external` symbol when a constraint first mentions it; every constraint brings one or two
symbols of its own, which together are its `Tag`.

**The order is the policy.**  A symbol carries its number of creation, and symbols are ordered
by that number, then by kind.  Rows and cells are kept in this order and every choice of the
simplex passes is "the first that ...", so the order is what makes the solver deterministic and
what its tie-breaks are.  It is given here by one injective natural number, `Symbol.rank`, from
which totality and transitivity are inherited (`Symbol.rank_inj`).
-/

namespace IncrementalSimplex

/-! ## 1. Kinds -/

/-- The part a symbol plays. -/
inductive SymbolKind where
  /-- Stands for "no symbol" in a tag that needs only one. -/
  | placeholder
  /-- A variable of the caller, free in sign. -/
  | external
  /-- The slack of an inequality, at least zero. -/
  | slack
  /-- The violation of a soft constraint in one direction, at least zero. -/
  | error
  /-- The marker of a required equality, which stays at zero. -/
  | dummy
  deriving DecidableEq

namespace SymbolKind

/-- The place of a kind among symbols with one number. -/
def index : SymbolKind → Nat
  | placeholder => 0
  | external => 1
  | slack => 2
  | error => 3
  | dummy => 4

/-- The letter that a symbol's text starts with. -/
def letter : SymbolKind → String
  | placeholder => "i"
  | external => "x"
  | slack => "s"
  | error => "e"
  | dummy => "d"

/-- The name of the kind in an event. -/
def name : SymbolKind → String
  | placeholder => "Invalid"
  | external => "External"
  | slack => "Slack"
  | error => "Error"
  | dummy => "Dummy"

theorem index_lt (k : SymbolKind) : k.index < 5 := by cases k <;> decide

theorem index_inj {j k : SymbolKind} (h : j.index = k.index) : j = k := by
  cases j <;> cases k <;> first | rfl | exact absurd h (by decide)

end SymbolKind

/-! ## 2. Symbols and their order -/

/-- An unknown of the tableau: its number of creation and its kind. -/
structure Symbol where
  id : Nat
  kind : SymbolKind
  deriving DecidableEq

namespace Symbol

/-- Stands for "no symbol"; numbers of creation start at one, so it is no symbol of a solver. -/
def placeholder : Symbol := ⟨0, .placeholder⟩

def isExternal (s : Symbol) : Bool := s.kind == .external
def isError (s : Symbol) : Bool := s.kind == .error
def isDummy (s : Symbol) : Bool := s.kind == .dummy

/-- All symbols but the external ones are held at or above zero. -/
def isRestricted (s : Symbol) : Bool := !s.isExternal

/-- Slack and error symbols are at least zero and may enter the basis for an artificial one. -/
def isPivotable (s : Symbol) : Bool := s.kind == .slack || s.kind == .error

/-- Symbols in order of creation, then of kind, counted by one number. -/
def rank (s : Symbol) : Nat := 5 * s.id + s.kind.index

/-- **The rank forgets nothing**, so the order below is total. -/
theorem rank_inj {s t : Symbol} (h : s.rank = t.rank) : s = t := by
  have hs := s.kind.index_lt
  have ht := t.kind.index_lt
  unfold rank at h
  have hid : s.id = t.id := by omega
  have hk : s.kind.index = t.kind.index := by omega
  cases s
  cases t
  cases hid
  cases SymbolKind.index_inj hk
  rfl

instance : LT Symbol := ⟨fun s t => s.rank < t.rank⟩

instance : DecidableLT Symbol := fun s t => inferInstanceAs (Decidable (s.rank < t.rank))

theorem lt_irrefl (s : Symbol) : ¬ s < s := Nat.lt_irrefl s.rank

theorem lt_trans {s t u : Symbol} (hst : s < t) (htu : t < u) : s < u :=
  Nat.lt_trans (n := s.rank) hst htu

theorem ne_of_lt {s t : Symbol} (h : s < t) : s ≠ t := fun hst => lt_irrefl t (hst ▸ h)

/-- Of two symbols, one comes first unless they are the same. -/
theorem lt_of_not_lt_of_ne {s t : Symbol} (hlt : ¬ s < t) (hne : s ≠ t) : t < s := by
  have h : ¬ s.rank < t.rank := hlt
  have hr : s.rank ≠ t.rank := fun hr => hne (rank_inj hr)
  exact Nat.lt_of_le_of_ne (Nat.le_of_not_lt h) hr.symm

/-- The letter of the kind and the number. -/
def text (s : Symbol) : String := s.kind.letter ++ toString s.id

end Symbol

/-! ## 3. Tags -/

/-- The symbols that a constraint brought into the tableau.  The MARKER is always there and
identifies the constraint's row; the OTHER one is the second error of a soft equality or the
error of a soft inequality. -/
structure Tag where
  marker : Symbol
  other : Symbol := .placeholder
  deriving DecidableEq

end IncrementalSimplex
