import MinConflicts.Decimal.Basic

/-!
# The shortest decimal of a number

Of all decimals that read back as a given finite number, the shortest one is the one with the
fewest digits, and of those the nearest. For each count of digits the two neighbours of the
number on that decimal grid are tried; seventeen digits always suffice.
-/
namespace MinConflicts.Decimal

/-- The greatest `d` with `10 ^ d * den ≤ num`, for positive `num` and `den`. The estimate from
the binary magnitude is off by at most one. -/
def tenMagnitude (num den : Nat) : Int :=
  let d := Binary64.magnitude num den * 30103 / 100000
  if num * tenPower (-d) < den * tenPower d then d - 1
  else if den * tenPower (d + 1) ≤ num * tenPower (-(d + 1)) then d + 1
  else d

/-- The nearest decimal with `count` digits that reads back as `x = ± num / den`, if one does. -/
def withDigits (x : Binary64) (neg : Bool) (num den count : Nat) : Option Decimal :=
  let k := tenMagnitude num den - (count - 1 : Nat)
  let n := num * tenPower (-k)
  let d := den * tenPower k
  let low : Decimal := ⟨neg, n / d, k⟩
  let high : Decimal := ⟨neg, n / d + 1, k⟩
  match decide (low.toBinary64 = x), decide (high.toBinary64 = x) with
  | true, true =>
    some (if 2 * (n % d) < d ∨ (2 * (n % d) = d ∧ n / d % 2 = 0) then low else high)
  | true, false => some low
  | false, true => some high
  | false, false => none

def shortest (x : Binary64.Finite) : Decimal :=
  if x.mant = 0 then ⟨x.neg, 0, 0⟩
  else
    let num := Binary64.scaleUp x.mant x.exp.toNat
    let den := Binary64.scaleUp 1 (-x.exp).toNat
    let found := (List.range 17).findSome? fun i => withDigits (.finite x) x.neg num den (i + 1)
    dropZeros 17 (found.getD ⟨x.neg, num / den, 0⟩)

end MinConflicts.Decimal
