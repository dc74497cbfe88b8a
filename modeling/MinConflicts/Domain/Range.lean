import MinConflicts.Value.Arith

/-!
# Ranges

A range steps from its lower to its upper bound. The number of its values is the floor of the
quotient `(high - low) / step`, rounded as a double-precision number, plus one. When all three
bounds are integers the values are 64-bit integers, which wrap around; otherwise they are
double-precision numbers, none above the upper bound.
-/
namespace MinConflicts

structure Range where
  low : Value
  high : Value
  step : Value

namespace Range

def checkFinite (bound : String) (v : Value) : Except Fault Unit := do
  if (← (← v.toNumber).toReal).isFinite then return ()
  else .error (.invalidDomain (.notFinite bound v))

def make (start stop step : Value) : Except Fault Range := do
  checkFinite "start" start
  checkFinite "end" stop
  checkFinite "step" step
  if step.eq (.int 0) then .error (.invalidDomain .zeroStep)
  else return ⟨← start.least stop, ← start.greatest stop, ← step.abs⟩

def count (r : Range) : Except Fault Int := do
  return (← (← (← (← r.high.sub r.low).div r.step).toNumber).floor) + 1

def size (r : Range) : Except Fault Nat := do
  let n ← r.count
  if n < 0x8000000000000000 then return n.toNat else .error .overflow

def integer? (v : Value) : Option Int :=
  match v.number? with
  | some (.int z) => some z
  | _ => none

def fits64 (z : Int) : Bool :=
  decide (-0x8000000000000000 ≤ z ∧ z < 0x8000000000000000)

def wrap64 (z : Int) : Int :=
  z.bmod 0x10000000000000000

def integerAt (low step : Int) (k : Nat) : Value :=
  .int (wrap64 (low + step * k))

/-- The `k`-th value of a range of double-precision numbers; the upper bound stands in for a
value that is not below it. -/
def realAt (low high step : Binary64) (k : Nat) : Value :=
  let x := low.add (step.mul (.ofNat k))
  .float (if x.lt high then x else high)

def listable (r : Range) : Except Fault Nat := do
  let n ← r.size
  if n < 0x1000000000000000 then return n else .error .badValue

def values (r : Range) : Except Fault (List Value) := do
  let n ← r.listable
  match integer? r.low, integer? r.high, integer? r.step with
  | some low, some _, some step =>
    if fits64 low && fits64 step then return (List.range n).map (integerAt low step)
    else .error .overflow
  | _, _, _ =>
    return (List.range n).map (realAt (← r.low.toReal) (← r.high.toReal) (← r.step.toReal))

def repr (r : Range) : String :=
  "Range(" ++ r.low.repr ++ ", " ++ r.high.repr ++ ", " ++ r.step.repr ++ ")"

end Range

end MinConflicts
