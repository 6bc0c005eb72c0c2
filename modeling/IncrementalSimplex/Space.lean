/-
# Spaces: where the values of variables live

A variable is the index of a slot in a `Space`, and nothing else: two variables with the same
value are still different unknowns.  The space belongs to the caller.  The solver holds only
handles, which the caller may form for any index, so every access says what it does on an index
without a slot:

* reading or writing a VALUE there has no answer (`value?` and `setValue?` are `none`);
* names, contexts and ownership are looked up and set leniently: nothing is found, nothing
  happens.

A slot made as a `Param` is owned by that param.  It may carry a context, which a flush of the
solver reports back together with the new value; a context on a slot that no param owns is kept
but never reported.
-/
import IncrementalSimplex.Scalar

namespace IncrementalSimplex

/-! ## 1. Handles -/

/-- The handle of a slot. -/
structure Variable where
  index : Nat
  deriving DecidableEq

/-- A handle that claims to own the slot of its variable. -/
structure Param where
  var : Variable
  deriving DecidableEq

/-! ## 2. Slots and spaces -/

/-- What is stored for one variable. -/
structure Slot (α γ : Type) where
  value : α
  name : Option String := none
  /-- Set when the slot was made as a param. -/
  owned : Bool := false
  context : Option γ := none

/-- The slots, in order of creation. -/
structure Space (α γ : Type) where
  slots : List (Slot α γ) := []

namespace Space

variable {α γ : Type}

instance : Inhabited (Space α γ) := ⟨{}⟩

/-- The space without slots. -/
def empty : Space α γ := {}

/-- How many slots there are. -/
def size (s : Space α γ) : Nat := s.slots.length

/-- The variables, in order of creation. -/
def allVariables (s : Space α γ) : List Variable := (List.range s.size).map Variable.mk

/-! ## 3. New slots

Each returns the space with one more slot, and its handle. -/

/-- One more slot, at the end. -/
def push (s : Space α γ) (slot : Slot α γ) : Space α γ × Variable :=
  ({ slots := s.slots ++ [slot] }, ⟨s.size⟩)

/-- A free-standing variable. -/
def newVariable (s : Space α γ) (value : α) : Space α γ × Variable :=
  s.push { value }

/-- A free-standing variable with a name. -/
def newNamedVariable (s : Space α γ) (name : String) (value : α) : Space α γ × Variable :=
  s.push { value, name := some name }

/-- A param without a context. -/
def newParam (s : Space α γ) (value : α) : Space α γ × Param :=
  let (s, v) := s.push { value, owned := true }
  (s, ⟨v⟩)

/-- A param with a context. -/
def newParamWithContext (s : Space α γ) (value : α) (context : γ) : Space α γ × Param :=
  let (s, v) := s.push { value, owned := true, context := some context }
  (s, ⟨v⟩)

/-! ## 4. Values -/

/-- The slot of a variable. -/
def slot? (s : Space α γ) (v : Variable) : Option (Slot α γ) := s.slots[v.index]?

/-- Change the slot of a variable, if there is one. -/
def modify (s : Space α γ) (v : Variable) (f : Slot α γ → Slot α γ) : Space α γ :=
  { slots := s.slots.modify v.index f }

/-- The value of a variable; `none` when it has no slot. -/
def value? (s : Space α γ) (v : Variable) : Option α := (s.slot? v).map (·.value)

/-- Store a value, and tell whether it differs from the old one.  The new value is stored either
way; numbers that compare equal need not be the same bits.  `none` when there is no slot. -/
def setValue? [BEq α] (s : Space α γ) (v : Variable) (value : α) : Option (Space α γ × Bool) :=
  (s.value? v).map fun old => (s.modify v ({ · with value }), old != value)

/-! ## 5. Names, owners, contexts -/

/-- The name of a variable, if it has one. -/
def name? (s : Space α γ) (v : Variable) : Option String := (s.slot? v).bind (·.name)

/-- Name a variable, or name it anew. -/
def setName (s : Space α γ) (v : Variable) (name : String) : Space α γ :=
  s.modify v ({ · with name := some name })

/-- The param that owns a variable, if its slot was made as a param. -/
def owner? (s : Space α γ) (v : Variable) : Option Param :=
  ((s.slot? v).filter (·.owned)).map fun _ => ⟨v⟩

/-- The context in the slot of a param. -/
def context? (s : Space α γ) (p : Param) : Option γ := (s.slot? p.var).bind (·.context)

/-- Put a context into the slot of a param, or replace it. -/
def setContext (s : Space α γ) (p : Param) (context : γ) : Space α γ :=
  s.modify p.var ({ · with context := some context })

/-! ## 6. One equation per access -/

theorem slot?_modify (s : Space α γ) (v w : Variable) (f : Slot α γ → Slot α γ) :
    (s.modify v f).slot? w = if w = v then (s.slot? w).map f else s.slot? w := by
  by_cases hwv : w = v
  · subst hwv
    simp [slot?, modify]
  · have hne : v.index ≠ w.index := fun h => hwv (by cases v; cases w; simp_all)
    simp [slot?, modify, hwv, hne]

@[simp] theorem size_modify (s : Space α γ) (v : Variable) (f : Slot α γ → Slot α γ) :
    (s.modify v f).size = s.size := by
  simp [size, modify]

/-- Values can be written exactly where they can be read. -/
theorem setValue?_isSome [BEq α] (s : Space α γ) (v : Variable) (value : α) :
    (s.setValue? v value).isSome = (s.value? v).isSome := by
  simp [setValue?]

end Space

end IncrementalSimplex
