/-
# Flushing the solved values into a space

A flush writes the solved value of every variable that the solver has met into its slot, in the
order in which they were met, and reports those slots that belong to a param with a context.  The
solver itself does not change.

A variable without a slot stops the flush, and there is no answer then.
-/
import IncrementalSimplex.Event
import IncrementalSimplex.Solver

namespace IncrementalSimplex

/-- A new value for a param that carries a context. -/
structure Update (α γ : Type) where
  context : γ
  value : α

/-- The space after a flush, and the updates, in the order of the variables. -/
structure Flush (α γ : Type) where
  space : Space α γ
  updates : List (Update α γ)

variable {α γ : Type} [Scalar α]

/-- The context under which a variable is reported, if it is. -/
def Space.reportedAs? (s : Space α γ) (v : Variable) : Option γ :=
  (s.owner? v).bind s.context?

/-- Write one value, and report it if its slot asks for it. -/
def Flush.write (f : Flush α γ) (v : Variable) (x : α) : Option (Flush α γ) :=
  (f.space.setValue? v x).map fun (space, _) =>
    { space
      updates :=
        match space.reportedAs? v with
        | some context => f.updates ++ [⟨context, x⟩]
        | none => f.updates }

/-- **Write all solved values.** -/
def Solver.flush? (s : Solver α) (space : Space α γ) : Option (Flush α γ) :=
  s.symbols.entries.foldlM (fun f (v, x) => f.write v (s.symbolValue x)) ⟨space, []⟩

/-- What is reported about a flush. -/
def Solver.flushed (s : Solver α) (f : Flush α γ) : Event :=
  .flushed s.symbols.size f.updates.length

end IncrementalSimplex
