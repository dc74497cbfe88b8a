import MinConflicts.Binary64.Arith
import MinConflicts.Decimal.Shortest

/-!
# Writing numbers

A layout says which decimal exponents are written with a plain point, and how wide an exponent
is otherwise. A number written with a point always shows a fraction.
-/
namespace MinConflicts.Decimal

/-- Where the point notation ends, and the least count of exponent digits. -/
structure Layout where
  pointFrom : Int
  pointBelow : Int
  exponentWidth : Nat

def digitList (n : Nat) : List Char :=
  Nat.toDigits 10 n

def integerText (z : Int) : List Char :=
  if z < 0 then '-' :: digitList z.natAbs else digitList z.natAbs

def Layout.exponentText (l : Layout) (e : Int) : List Char :=
  let ds := digitList e.natAbs
  (if e < 0 then '-' else '+') :: (List.replicate (l.exponentWidth - ds.length) '0' ++ ds)

def pointText (ds : List Char) (e : Int) : List Char :=
  if e < 0 then '0' :: '.' :: (List.replicate (-e - 1).toNat '0' ++ ds)
  else
    let n := e.toNat + 1
    let frac := ds.drop n
    ds.take n ++ List.replicate (n - ds.length) '0' ++ '.' :: (if frac.isEmpty then ['0'] else frac)

def Layout.exponentForm (l : Layout) (ds : List Char) (e : Int) : List Char :=
  let frac := ds.drop 1
  ds.take 1 ++ (if frac.isEmpty then [] else '.' :: frac) ++ 'e' :: l.exponentText e

def Layout.decimal (l : Layout) (d : Decimal) : List Char :=
  let ds := digitList d.digits
  let e := d.exp + (ds.length : Int) - 1
  let body := if l.pointFrom ≤ e ∧ e < l.pointBelow then pointText ds e else l.exponentForm ds e
  if d.neg then '-' :: body else body

def Layout.real (l : Layout) : Binary64 → List Char
  | .nan _ => ['n', 'a', 'n']
  | .infinity neg => if neg then ['-', 'i', 'n', 'f'] else ['i', 'n', 'f']
  | .finite x => l.decimal (shortest x)

end MinConflicts.Decimal
