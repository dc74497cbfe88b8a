import MinConflicts.Path

/-!
# Constraints and evaluators

A search asks an evaluator two questions about a model: how many constraints it violates, and
how far each variable takes part in the violations. A constraint system answers them from a list
of predicates, each with the variables it refers to.
-/
namespace MinConflicts

/-- What a search asks about a model in a state. A report may be missing as a whole. -/
structure Evaluator (M S : Type) where
  count : M → S → Except Fault Value
  report : M → S → Except Fault (Option (Table Value))

structure Constraint (M S : Type) where
  predicate : M → S → Except Fault Value
  paths : List String
  name : String

def Constraint.holds {M S : Type} (c : Constraint M S) (model : M) (state : S) :
    Except Fault Bool := do
  return (← c.predicate model state).truthy

structure ConstraintSystem (M S : Type) where
  constraints : List (Constraint M S)

namespace ConstraintSystem

variable {M S : Type}

def empty : ConstraintSystem M S := ⟨[]⟩

def nameFor (cs : ConstraintSystem M S) (name : Option String) : String :=
  (name.filter (!·.isEmpty)).getD
    ("constraint_" ++ String.ofList (Decimal.digitList cs.constraints.length))

def add (cs : ConstraintSystem M S) (predicate : M → S → Except Fault Value)
    (paths : List String) (name : Option String) :
    Constraint M S × ConstraintSystem M S :=
  let c : Constraint M S := ⟨predicate, paths, cs.nameFor name⟩
  (c, ⟨cs.constraints ++ [c]⟩)

def violatedOf (model : M) (state : S) :
    List (Constraint M S) → Except Fault (List (Constraint M S))
  | [] => .ok []
  | c :: cs => do
    let holds ← c.holds model state
    let rest ← violatedOf model state cs
    return if holds then rest else c :: rest

def violated (cs : ConstraintSystem M S) (model : M) (state : S) :
    Except Fault (List (Constraint M S)) :=
  violatedOf model state cs.constraints

def count (cs : ConstraintSystem M S) (model : M) (state : S) : Except Fault Nat := do
  return (← cs.violated model state).length

def tally (t : Table Nat) (path : String) : Table Nat :=
  t.insert path ((t.get? path).getD 0 + 1)

def statistics (cs : ConstraintSystem M S) (model : M) (state : S) :
    Except Fault (Table Nat) := do
  return ((← cs.violated model state).flatMap (·.paths)).foldl tally Table.empty

def evaluator (cs : ConstraintSystem M S) : Evaluator M S where
  count model state := do return .int (← cs.count model state)
  report model state := do
    return some ((← cs.statistics model state).map fun (n : Nat) => .int n)

end ConstraintSystem

end MinConflicts
