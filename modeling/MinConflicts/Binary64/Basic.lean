/-!
# Double-precision numbers

A finite number is a sign, a mantissa of at most 53 bits and a binary exponent. The mantissa is
full (53 bits) unless the exponent is the least one, so each number apart from zero's sign has
one form. Every arithmetic result is first an exact ratio of naturals and is rounded once, to
the nearest number, a tie going to the even mantissa.

A NaN carries a label. Labels tell apart the NaNs that were read at different places, which a
search needs to recognise a value it took from one slot of a domain; arithmetic never reads them.
-/
namespace MinConflicts

namespace Binary64

/-- The mantissa and the exponent of a finite number in its only form: the mantissa is below
`2 ^ 53`, and from `2 ^ 52` on unless the exponent is the least one. -/
def Canonical (mant : Nat) (exp : Int) : Prop :=
  mant < 0x20000000000000 ∧ -1074 ≤ exp ∧ exp ≤ 971 ∧ (0x10000000000000 ≤ mant ∨ exp = -1074)

instance (mant : Nat) (exp : Int) : Decidable (Canonical mant exp) :=
  inferInstanceAs (Decidable (_ ∧ _))

structure Finite where
  neg : Bool
  mant : Nat
  exp : Int
  canonical : Canonical mant exp
deriving DecidableEq

end Binary64

inductive Binary64 where
  | nan (label : Nat)
  | infinity (neg : Bool)
  | finite (x : Binary64.Finite)
deriving DecidableEq

namespace Binary64

def zero (neg : Bool) : Binary64 :=
  .finite ⟨neg, 0, -1074, by decide⟩

instance : Inhabited Binary64 := ⟨zero false⟩

def scaleUp (n k : Nat) : Nat := if k = 0 then n else n <<< k

theorem scaleUp_eq (n k : Nat) : scaleUp n k = n <<< k := by
  unfold scaleUp
  split
  · next h => rw [h, Nat.shiftLeft_zero]
  · rfl

def halfEven (num den : Nat) : Nat :=
  let q := num / den
  let r := num % den
  if 2 * r < den ∨ (2 * r = den ∧ q % 2 = 0) then q else q + 1

def magnitude (num den : Nat) : Int :=
  let e : Int := (num.log2 : Int) - (den.log2 : Int)
  if scaleUp num (-e).toNat < scaleUp den e.toNat then e - 1 else e

/-- The number with these parts. A mantissa that rounding carried to `2 ^ 53` moves to the next
exponent, and what lies beyond the greatest exponent is infinite. -/
def pack (neg : Bool) (mant : Nat) (exp : Int) : Binary64 :=
  if h : Canonical mant exp then .finite ⟨neg, mant, exp, h⟩
  else if h : mant = 0x20000000000000 ∧ Canonical 0x10000000000000 (exp + 1) then
    .finite ⟨neg, 0x10000000000000, exp + 1, h.2⟩
  else .infinity neg

def gridExponent (num den : Nat) (e : Int) : Int :=
  max (-1074) (magnitude num den + e - 52)

def round (neg : Bool) (num den : Nat) (e : Int) : Binary64 :=
  if num = 0 then zero neg
  else
    let g := gridExponent num den e
    pack neg (halfEven (scaleUp num (e - g).toNat) (scaleUp den (g - e).toNat)) g

def ofRatio (neg : Bool) (num den : Nat) : Binary64 :=
  round neg num den 0

def ofInt (z : Int) : Binary64 :=
  round (z < 0) z.natAbs 1 0

def ofNat (n : Nat) : Binary64 :=
  round false n 1 0

def greatest : Binary64 :=
  .finite ⟨false, 0x1fffffffffffff, 971, by decide⟩

def isNaN : Binary64 → Bool
  | .nan _ => true
  | _ => false

def isFinite : Binary64 → Bool
  | .finite _ => true
  | _ => false

def signBit : Binary64 → Bool
  | .nan _ => false
  | .infinity neg => neg
  | .finite x => x.neg

def isZero : Binary64 → Bool
  | .finite x => x.mant == 0
  | _ => false

def Finite.signed (x : Finite) : Int :=
  if x.neg then -(x.mant : Int) else x.mant

/-- The place of the magnitude in the order of all magnitudes. Neighbours have consecutive
ranks, and the rank of zero is 0. -/
def Finite.rank (x : Finite) : Nat :=
  (x.exp + 1074).toNat * 0x10000000000000 + x.mant

def compareScaled (m e n f : Int) : Ordering :=
  compare (m <<< (e - f).toNat) (n <<< (f - e).toNat)

def Finite.truncate (x : Finite) : Int :=
  let n := scaleUp x.mant x.exp.toNat >>> (-x.exp).toNat
  if x.neg then -(n : Int) else n

def Finite.floor (x : Finite) : Int :=
  x.signed <<< x.exp.toNat >>> (-x.exp).toNat

def signMask (neg : Bool) : Nat := if neg then 0x8000000000000000 else 0

/-- The 64 bits of a number: the sign bit, and below it the rank. Every NaN has the quiet
pattern. -/
def toBits : Binary64 → Nat
  | .nan _ => 0x7ff8000000000000
  | .infinity neg => signMask neg + 0x7ff0000000000000
  | .finite x => signMask x.neg + x.rank

def ofBits (label bits : Nat) : Binary64 :=
  let neg := bits.testBit 63
  let field : Nat := bits >>> 52 % 0x800
  let frac := bits % 0x10000000000000
  if field = 0 then pack neg frac (-1074)
  else if field = 2047 then (if frac = 0 then .infinity neg else .nan label)
  else pack neg (0x10000000000000 + frac) ((field : Int) - 1075)

end Binary64

end MinConflicts
