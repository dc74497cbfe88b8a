import MinConflicts.Constraint
import MinConflicts.Domain.Basic

/-!
# Scores

The score of a candidate is the harmonic mean of two scores. One falls with the number of
violated constraints; the other rises with the preference of the value, by as much as the
preference factor allows. The formulas are stated over any arithmetic: a search reads them over
values, and over the rationals they show what they mean exactly.
-/
namespace MinConflicts

class Arith (α : Type) where
  zero : α
  one : α
  two : α
  ten : α
  count : Nat → α
  add : α → α → Except Fault α
  sub : α → α → Except Fault α
  mul : α → α → Except Fault α
  div : α → α → Except Fault α
  lt : α → α → Except Fault Bool
  isZero : α → Bool

instance : Arith Value where
  zero := .float (.zero false)
  one := .float (.ofNat 1)
  two := .float (.ofNat 2)
  ten := .float (.ofNat 10)
  count n := .int n
  add := Value.add
  sub := Value.sub
  mul := Value.mul
  div := Value.div
  lt := Value.lt
  isZero v := (v.number?.map Number.isZero).getD false

instance : Arith Rat where
  zero := 0
  one := 1
  two := 2
  ten := 10
  count n := n
  add a b := .ok (a + b)
  sub a b := .ok (a - b)
  mul a b := .ok (a * b)
  div a b := if b = 0 then .error .zeroDivision else .ok (a / b)
  lt a b := .ok (decide (a < b))
  isZero a := a == 0

namespace Score

open Arith

variable {α : Type} [Arith α]

def conflict (count : α) : Except Fault α := do
  div one (← add one count)

def preference (pref factor : α) : Except Fault α := do
  let base ← sub one factor
  add base (← mul (← div pref ten) factor)

def harmonicMean (a b : α) : Except Fault α := do
  let total ← add a b
  if isZero total then return zero
  else div (← mul (← mul two a) b) total

def candidate (count pref factor : α) : Except Fault α := do
  harmonicMean (← conflict count) (← preference pref factor)

end Score

/-- A count that an evaluator reports: a number that is finite and not negative. A truth value is
no number here. -/
def checkedCount (what : String) (v : Value) : Except Fault Value :=
  match v with
  | .int z => do
    if (← (Number.int z).toReal).isFinite && 0 ≤ z then return v
    else .error (.contract (.outOfRange what v))
  | .float x =>
    if x.isFinite && !x.lt (.zero false) then .ok v
    else .error (.contract (.outOfRange what v))
  | _ => .error (.contract (.notNumber what v))

def countName : String := "inconsistent constraint count"

def influenceName (path : String) : String := "inconsistent influence of '" ++ path ++ "'"

namespace Evaluator

variable {M S : Type}

def checked (e : Evaluator M S) (model : M) (state : S) : Except Fault Value := do
  checkedCount countName (← e.count model state)

def influence (e : Evaluator M S) (model : M) (state : S) : Except Fault (Table Value) := do
  ((← e.report model state).getD Table.empty).mapM fun path v =>
    checkedCount (influenceName path) v

def feasible (e : Evaluator M S) (model : M) (state : S) : Except Fault Bool := do
  return (← e.checked model state).eq (.int 0)

def score (e : Evaluator M S) (model : M) (state : S) (pref factor : Value) :
    Except Fault Value := do
  Score.candidate (← e.checked model state) pref factor

end Evaluator

end MinConflicts
