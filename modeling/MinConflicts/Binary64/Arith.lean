import MinConflicts.Binary64.Basic

/-!
# Arithmetic and order of double-precision numbers

Sums, products and quotients are exact ratios rounded once by `ofRatio`. A NaN that arithmetic
makes has the label 0. The order is partial: `compare?` has no answer when a NaN takes part.
-/
namespace MinConflicts.Binary64

def neg : Binary64 → Binary64
  | .nan _ => .nan 0
  | .infinity s => .infinity (!s)
  | .finite x => .finite { x with neg := !x.neg }

def abs : Binary64 → Binary64
  | .nan _ => .nan 0
  | .infinity _ => .infinity false
  | .finite x => .finite { x with neg := false }

/-- The sum is exact on the finer of the two grids, and is then rounded. Opposite numbers add up
to `+0`. -/
def Finite.add (x y : Finite) : Binary64 :=
  let e := min x.exp y.exp
  let m := scaleUp x.mant (x.exp - e).toNat
  let n := scaleUp y.mant (y.exp - e).toNat
  if x.neg = y.neg then round x.neg (m + n) 1 e
  else if n < m then round x.neg (m - n) 1 e
  else if m < n then round y.neg (n - m) 1 e
  else zero false

def add : Binary64 → Binary64 → Binary64
  | .finite x, .finite y => x.add y
  | .nan _, _ => .nan 0
  | _, .nan _ => .nan 0
  | .infinity s, .infinity t => if s = t then .infinity s else .nan 0
  | .infinity s, .finite _ => .infinity s
  | .finite _, .infinity t => .infinity t

def sub (x y : Binary64) : Binary64 :=
  x.add y.neg

def Finite.mul (x y : Finite) : Binary64 :=
  round (x.neg != y.neg) (x.mant * y.mant) 1 (x.exp + y.exp)

def mul : Binary64 → Binary64 → Binary64
  | .finite x, .finite y => x.mul y
  | .nan _, _ => .nan 0
  | _, .nan _ => .nan 0
  | .infinity s, .infinity t => .infinity (s != t)
  | .infinity s, .finite y => if y.mant = 0 then .nan 0 else .infinity (s != y.neg)
  | .finite x, .infinity t => if x.mant = 0 then .nan 0 else .infinity (x.neg != t)

def Finite.div (x y : Finite) : Binary64 :=
  round (x.neg != y.neg) x.mant y.mant (x.exp - y.exp)

def div : Binary64 → Binary64 → Binary64
  | .finite x, .finite y =>
    if y.mant = 0 then (if x.mant = 0 then .nan 0 else .infinity (x.neg != y.neg)) else x.div y
  | .nan _, _ => .nan 0
  | _, .nan _ => .nan 0
  | .infinity _, .infinity _ => .nan 0
  | .infinity s, .finite y => .infinity (s != y.neg)
  | .finite x, .infinity t => zero (x.neg != t)

def Finite.remainder (x y : Finite) : Binary64 :=
  let e := min x.exp y.exp
  round x.neg (scaleUp x.mant (x.exp - e).toNat % scaleUp y.mant (y.exp - e).toNat) 1 e

def remainder : Binary64 → Binary64 → Binary64
  | .finite x, .finite y => if y.mant = 0 then .nan 0 else x.remainder y
  | .finite x, .infinity _ => .finite x
  | _, _ => .nan 0

def Finite.compare (x y : Finite) : Ordering :=
  match x.neg, y.neg with
  | false, false => Ord.compare x.rank y.rank
  | true, true => Ord.compare y.rank x.rank
  | false, true => if x.rank = 0 ∧ y.rank = 0 then .eq else .gt
  | true, false => if x.rank = 0 ∧ y.rank = 0 then .eq else .lt

def compare? : Binary64 → Binary64 → Option Ordering
  | .finite x, .finite y => some (x.compare y)
  | .nan _, _ => none
  | _, .nan _ => none
  | .infinity s, .infinity t => some (compare (!s) (!t))
  | .infinity s, .finite _ => some (if s then .lt else .gt)
  | .finite _, .infinity t => some (if t then .gt else .lt)

def lt (x y : Binary64) : Bool :=
  x.compare? y == some .lt

def compareInt? (z : Int) : Binary64 → Option Ordering
  | .nan _ => none
  | .infinity neg => some (if neg then .gt else .lt)
  | .finite x => some (compareScaled z 0 x.signed x.exp)

def floor : Binary64 → Binary64
  | .finite x => if x.mant = 0 then .finite x else round x.neg x.floor.natAbs 1 0
  | x => x

def floorMod (x y : Binary64) : Binary64 :=
  let m := x.remainder y
  if m.isZero then zero y.signBit
  else if y.signBit != m.signBit then m.add y
  else m

/-- The floored quotient, computed from the exact remainder: `(x - x mod y) / y`, lowered by one
when the remainder is moved to the sign of the divisor, and brought to the nearest integer. -/
def floorDiv (x y : Binary64) : Binary64 :=
  let m := x.remainder y
  let q := (x.sub m).div y
  let q := if !m.isZero && y.signBit != m.signBit then q.sub (ofNat 1) else q
  if q.isZero then zero (x.div y).signBit
  else
    let f := q.floor
    if (ofRatio false 1 2).lt (q.sub f) then f.add (ofNat 1) else f

end MinConflicts.Binary64
