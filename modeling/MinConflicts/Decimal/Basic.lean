import MinConflicts.Binary64.Basic

/-!
# Decimal numbers

A decimal is a sign, a natural number and a power of ten. `toBinary64` rounds it once.
-/
namespace MinConflicts

structure Decimal where
  neg : Bool
  digits : Nat
  exp : Int
deriving DecidableEq

namespace Decimal

def tenPower (k : Int) : Nat := Nat.pow 10 k.toNat

/-- The nearest double-precision number. An exponent that puts the value beyond all finite
numbers, or below half of the least one, is settled before any power of ten is formed. -/
def toBinary64 (d : Decimal) : Binary64 :=
  if d.digits = 0 then .zero d.neg
  else if 400 < d.exp then .infinity d.neg
  else if d.exp < -(400 + d.digits.log2 : Int) then .zero d.neg
  else .ofRatio d.neg (d.digits * tenPower d.exp) (tenPower (-d.exp))

def dropZeros : Nat → Decimal → Decimal
  | 0, d => d
  | fuel + 1, d =>
    if d.digits ≠ 0 ∧ d.digits % 10 = 0 then dropZeros fuel ⟨d.neg, d.digits / 10, d.exp + 1⟩
    else d

end Decimal

end MinConflicts
