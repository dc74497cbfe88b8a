import MinConflicts.Value.Arith

/-!
# Sources of randomness

A source is the sequence of its draws, which are meant to lie in the unit interval. A search
keeps how many draws it has made, so a source has no state of its own.
-/
namespace MinConflicts

abbrev Draws := Nat → Binary64

namespace Draws

def after (n : Nat) (source : Draws) : Draws := fun k => source (n + k)

def cycle (xs : Array Binary64) : Draws := fun k => xs.getD (k % xs.size) (.zero false)

def scramble (state : UInt64) : UInt64 :=
  let z := (state ^^^ (state >>> 30)) * 0xBF58476D1CE4E5B9
  let z := (z ^^^ (z >>> 27)) * 0x94D049BB133111EB
  z ^^^ (z >>> 31)

/-- The generator whose state grows by a fixed odd number with each draw. A draw is the upper 53
bits of the scrambled state, as a fraction of `2 ^ 53`. -/
def seeded (seed : Int) : Draws := fun k =>
  let start := UInt64.ofNat (seed % 0x10000000000000000).toNat
  let z := scramble (start + 0x9E3779B97F4A7C15 * UInt64.ofNat (k + 1))
  .ofRatio false (z >>> 11).toNat 0x20000000000000

end Draws

/-- The size of a collection as a factor of a draw. A size beyond all finite numbers, which no
collection has, counts as the greatest of them. -/
def sizeFactor (n : Nat) : Binary64 :=
  match Binary64.ofNat n with
  | .finite x => .finite x
  | _ => .greatest

/-- The position that a draw stands for among `n`: the integer part of `r * n`, but the last
position at most. -/
def position (r : Binary64) (n : Nat) : Except Fault Int := do
  return min (← (r.mul (sizeFactor n)).truncate) (n - 1)

def place (n : Nat) (i : Int) : Except Fault Nat :=
  let j := if i < 0 then i + n else i
  if 0 ≤ j ∧ j < n then .ok j.toNat else .error .badIndex

def nth (xs : List α) (i : Int) : Except Fault α := do
  match xs[← place xs.length i]? with
  | some a => return a
  | none => .error .badIndex

end MinConflicts
