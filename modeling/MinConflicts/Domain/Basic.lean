import MinConflicts.Domain.Range
import MinConflicts.Sort

/-!
# Domains

A domain gives the values that a variable may take, and a preference for each of them. A
preference is a number from 0 to 10, whatever the user's function answers.
-/
namespace MinConflicts

inductive Choices where
  | constant (v : Value)
  | distinct (vs : List Value)
  | range (r : Range)
  | listed (vs : List Value)

abbrev Rating := Value → Except Fault Value

def Rating.uniform : Rating := fun _ => .ok (.float (.ofNat 1))

structure Domain where
  choices : Choices
  rating : Rating := Rating.uniform

structure Slot where
  value : Value
  preference : Binary64

namespace Domain

def constant (v : Value) : Domain := { choices := .constant v }

def ofMembers (v : Value) (rating : Rating) : Except Fault Domain := do
  return ⟨.distinct (Value.distinct (← v.members)), rating⟩

def ofRange (start stop step : Value) (rating : Rating) : Except Fault Domain := do
  return ⟨.range (← Range.make start stop step), rating⟩

def kindName (d : Domain) : String :=
  match d.choices with
  | .constant _ => "Constant"
  | .distinct _ => "Set"
  | .range _ => "Range"
  | .listed _ => "CustomDomain"

def values (d : Domain) : Except Fault (List Value) :=
  match d.choices with
  | .constant v => .ok [v]
  | .distinct vs => .ok vs
  | .range r => r.values
  | .listed vs => .ok vs

def maxPreference : Binary64 := .ofNat 10

def clampPreference (x : Binary64) : Binary64 :=
  if x.isNaN then .zero false
  else
    let y := if maxPreference.lt x then maxPreference else x
    if (Binary64.zero false).lt y then y else .zero false

def preference (d : Domain) (v : Value) : Except Fault Binary64 := do
  return clampPreference (← (← d.rating v).toReal)

def slots (d : Domain) : Except Fault (List Slot) := do
  (← d.values).mapM fun v => do return ⟨v, ← d.preference v⟩

/-- The slots from the most to the least preferred; slots of equal preference keep their order. -/
def ranked (ss : List Slot) : List Slot :=
  sortBy (fun t s => !s.preference.lt t.preference) ss

def preferredValues (d : Domain) : Except Fault (List Value) := do
  return (ranked (← d.slots)).map (·.value)

def repr (d : Domain) : String :=
  match d.choices with
  | .constant v => "Constant(" ++ v.repr ++ ")"
  | .distinct vs => "Set(" ++ (Value.list vs).repr ++ ")"
  | .range r => r.repr
  | .listed _ => d.kindName

end Domain

end MinConflicts
