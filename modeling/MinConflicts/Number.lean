import MinConflicts.Binary64.Arith

/-!
# Numbers

A number is an exact integer or a double-precision number. Numbers of both kinds are compared by
their exact values.
-/
namespace MinConflicts

inductive Number where
  | int (z : Int)
  | float (x : Binary64)
deriving DecidableEq

namespace Number

def compare? : Number → Number → Option Ordering
  | .int a, .int b => some (compare a b)
  | .int a, .float y => Binary64.compareInt? a y
  | .float x, .int b => (Binary64.compareInt? b x).map Ordering.swap
  | .float x, .float y => x.compare? y

def lt (x y : Number) : Bool :=
  x.compare? y == some .lt

def le (x y : Number) : Bool :=
  x.compare? y == some .lt || x.compare? y == some .eq

def eq (x y : Number) : Bool :=
  x.compare? y == some .eq

/-- Equality by value, where in addition a NaN is the same as a NaN with its label. -/
def same : Number → Number → Bool
  | .float (.nan a), .float (.nan b) => a == b
  | x, y => x.eq y

def isZero : Number → Bool
  | .int z => z == 0
  | .float x => x.isZero

end Number

end MinConflicts
