/-
# The interchange form of the plain values

Handles, terms, expressions, relations, priorities and the configuration can be written as documents
and read back.  A `Document` is a tree of the usual kind -- null, truth values, numbers, texts, lists
and objects -- in which whole numbers are kept apart from the others, because the two are not read
alike:

* an INDEX or a PRIORITY is read from a whole number only, and only within 64 bits (without a sign
  and with one);
* a COEFFICIENT or a CONSTANT is read from any number.

A structure is read from an object, whose other fields do not matter, or from the list of its fields
in order.  Reading fails with `none` and says no more; writing always uses the object.
-/
import IncrementalSimplex.Constraint
import IncrementalSimplex.Solver

namespace IncrementalSimplex

/-! ## 1. Documents -/

/-- A tree of plain values. -/
inductive Document (α : Type) where
  | null
  | truth (b : Bool)
  | whole (n : Int)
  | number (x : α)
  | text (s : String)
  | list (items : List (Document α))
  | object (fields : List (String × Document α))

namespace Document

variable {α : Type}

/-- A whole number of 64 bits without a sign: from zero to below `2⁶⁴`. -/
def index? : Document α → Option Nat
  | whole n => if 0 ≤ n ∧ n < 18446744073709551616 then some n.toNat else none
  | _ => none

/-- A whole number of 64 bits with a sign: from `-2⁶³` to below `2⁶³`. -/
def signed? : Document α → Option Int
  | whole n =>
    if -9223372036854775808 ≤ n ∧ n < 9223372036854775808 then some n else none
  | _ => none

/-- Any number. -/
def scalar? [Scalar α] : Document α → Option α
  | whole n => some (n : α)
  | number x => some x
  | _ => none

/-- The two fields of a structure, by name or by place. -/
def pair? (first second : String) : Document α → Option (Document α × Document α)
  | object fields => do return (← fields.lookup first, ← fields.lookup second)
  | list [a, b] => some (a, b)
  | _ => none

end Document

/-! ## 2. Handles, priorities and relations -/

namespace Variable

variable {α : Type}

def ofDocument? (d : Document α) : Option Variable := d.index?.map .mk

def toDocument (v : Variable) : Document α := .whole v.index

end Variable

namespace Param

variable {α : Type}

def ofDocument? (d : Document α) : Option Param := (Variable.ofDocument? d).map .mk

def toDocument (p : Param) : Document α := p.var.toDocument

end Param

namespace Priority

variable {α : Type}

def ofDocument? (d : Document α) : Option Priority := d.signed?.map .mk

def toDocument (p : Priority) : Document α := .whole p.value

end Priority

namespace Relation

variable {α : Type}

/-- The name of a relation in a document. -/
def documentName : Relation → String
  | equal => "EqualTo"
  | atMost => "LessThanOrEqualTo"
  | atLeast => "GreaterThanOrEqualTo"

/-- The relation of a name. -/
def ofName? (name : String) : Option Relation :=
  [equal, atMost, atLeast].find? fun r => r.documentName == name

/-- A name, alone or as the only key of an object with nothing under it. -/
def ofDocument? : Document α → Option Relation
  | .text name => ofName? name
  | .object [(name, .null)] => ofName? name
  | _ => none

def toDocument (r : Relation) : Document α := .text r.documentName

/-- Every relation is found under its own name. -/
theorem ofName?_documentName (r : Relation) : ofName? r.documentName = some r := by
  cases r <;> decide

end Relation

/-! ## 3. Terms and expressions -/

namespace Term

variable {α : Type} [Scalar α]

def ofDocument? (d : Document α) : Option (Term α) := do
  let (v, c) ← d.pair? "variable" "coefficient"
  return ⟨← Variable.ofDocument? v, ← c.scalar?⟩

def toDocument (t : Term α) : Document α :=
  .object [("variable", t.var.toDocument), ("coefficient", .number t.coefficient)]

end Term

namespace Expression

variable {α : Type} [Scalar α]

def ofDocument? (d : Document α) : Option (Expression α) := do
  let (ts, c) ← d.pair? "terms" "constant"
  match ts with
  | .list items => return ⟨← items.mapM Term.ofDocument?, ← c.scalar?⟩
  | _ => none

def toDocument (e : Expression α) : Document α :=
  .object [("terms", .list (e.terms.map Term.toDocument)), ("constant", .number e.constant)]

end Expression

/-! ## 4. The configuration -/

namespace SolverConfig

variable {α : Type}

/-- A field that is not given keeps its default. -/
def ofDocument? : Document α → Option SolverConfig
  | .object fields =>
    match fields.lookup "max_iterations" with
    | none => some {}
    | some d => d.index?.map .mk
  | .list [] => some {}
  | .list [d] => d.index?.map .mk
  | _ => none

def toDocument (c : SolverConfig) : Document α :=
  .object [("max_iterations", .whole c.maxIterations)]

end SolverConfig

end IncrementalSimplex
