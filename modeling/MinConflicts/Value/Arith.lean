import MinConflicts.Decimal.Reading
import MinConflicts.Fault

/-!
# Arithmetic of values

Integers stay exact under all operations but division; a number of the other kind turns the
result into a double-precision number. An integer beyond the range of such numbers cannot take
part in a mixed operation.
-/
namespace MinConflicts

namespace Number

def toReal : Number → Except Fault Binary64
  | .int z => match Binary64.ofInt z with
    | .finite x => .ok (.finite x)
    | _ => .error .overflow
  | .float x => .ok x

def onReals (op : Binary64 → Binary64 → Binary64) (x y : Number) : Except Fault Number := do
  return .float (op (← x.toReal) (← y.toReal))

def onRealsDividing (op : Binary64 → Binary64 → Binary64) (x y : Number) :
    Except Fault Number := do
  let a ← x.toReal
  let b ← y.toReal
  if b.isZero then .error .zeroDivision else return .float (op a b)

def combine (exact : Int → Int → Int) (op : Binary64 → Binary64 → Binary64) :
    Number → Number → Except Fault Number
  | .int a, .int b => .ok (.int (exact a b))
  | x, y => onReals op x y

def combineDividing (exact : Int → Int → Int) (op : Binary64 → Binary64 → Binary64) :
    Number → Number → Except Fault Number
  | .int a, .int b => if b = 0 then .error .zeroDivision else .ok (.int (exact a b))
  | x, y => onRealsDividing op x y

def add : Number → Number → Except Fault Number := combine (· + ·) Binary64.add

def sub : Number → Number → Except Fault Number := combine (· - ·) Binary64.sub

def mul : Number → Number → Except Fault Number := combine (· * ·) Binary64.mul

def floorDiv : Number → Number → Except Fault Number := combineDividing Int.fdiv Binary64.floorDiv

def floorMod : Number → Number → Except Fault Number := combineDividing Int.fmod Binary64.floorMod

/-- The quotient as a double-precision number. That of two integers is rounded once. -/
def div : Number → Number → Except Fault Number
  | .int a, .int b =>
    if b = 0 then .error .zeroDivision
    else match Binary64.ofRatio ((a < 0) != (b < 0)) a.natAbs b.natAbs with
      | .finite x => .ok (.float (.finite x))
      | _ => .error .overflow
  | x, y => onRealsDividing Binary64.div x y

def neg : Number → Number
  | .int z => .int (-z)
  | .float x => .float x.neg

def abs : Number → Number
  | .int z => .int z.natAbs
  | .float x => .float x.abs

def floor : Number → Except Fault Int
  | .int z => .ok z
  | .float (.finite x) => .ok x.floor
  | .float (.infinity _) => .error .overflow
  | .float (.nan _) => .error .badValue

end Number

def Binary64.truncate : Binary64 → Except Fault Int
  | .finite x => .ok x.truncate
  | .infinity _ => .error .overflow
  | .nan _ => .error .badValue

namespace Value

def toNumber (v : Value) : Except Fault Number :=
  match v.number? with
  | some x => .ok x
  | none => .error .wrongType

def onNumbers (op : Number → Number → Except Fault Number) (a b : Value) : Except Fault Value :=
  match a.number?, b.number? with
  | some x, some y => ofNumber <$> op x y
  | _, _ => .error .wrongType

def add : Value → Value → Except Fault Value
  | .str s, .str t => .ok (.str (s ++ t))
  | .list xs, .list ys => .ok (.list (xs ++ ys))
  | a, b => onNumbers Number.add a b

def sub : Value → Value → Except Fault Value := onNumbers Number.sub

def repetitions? : Value → Option Int
  | .bool b => some (if b then 1 else 0)
  | .int z => some z
  | _ => none

/-- The count of repetitions as a size: a negative one repeats nothing, and one of more than 64
bits overflows, as does a size that it makes of `length` parts. -/
def repetitionSize (z : Int) (length : Nat) : Except Fault Nat :=
  if z < -0x8000000000000000 ∨ 0x8000000000000000 ≤ z then .error .overflow
  else if 0x8000000000000000 ≤ z.toNat * length then .error .overflow
  else .ok (if length = 0 then 0 else z.toNat)

def repeated? (z : Int) : Value → Option (Except Fault Value)
  | .str s => some do
    return .str (String.join (List.replicate (← repetitionSize z s.length) s))
  | .list xs => some do
    return .list (List.replicate (← repetitionSize z xs.length) xs).flatten
  | _ => none

def mul (a b : Value) : Except Fault Value :=
  match a.repetitions?.bind (repeated? · b) <|> b.repetitions?.bind (repeated? · a) with
  | some v => v
  | none => onNumbers Number.mul a b

def div : Value → Value → Except Fault Value := onNumbers Number.div

def floorDiv : Value → Value → Except Fault Value := onNumbers Number.floorDiv

def floorMod : Value → Value → Except Fault Value := onNumbers Number.floorMod

def neg (v : Value) : Except Fault Value := do
  return ofNumber (← v.toNumber).neg

def abs (v : Value) : Except Fault Value := do
  return ofNumber (← v.toNumber).abs

def compareWith (numbers : Number → Number → Bool) (texts : String → String → Bool) :
    Value → Value → Except Fault Bool
  | .str s, .str t => .ok (texts s t)
  | a, b => match a.number?, b.number? with
    | some x, some y => .ok (numbers x y)
    | _, _ => .error .wrongType

def lt : Value → Value → Except Fault Bool :=
  compareWith Number.lt fun s t => decide (s < t)

def le : Value → Value → Except Fault Bool :=
  compareWith Number.le fun s t => !decide (t < s)

def least (a b : Value) : Except Fault Value := do
  return if ← b.lt a then b else a

def greatest (a b : Value) : Except Fault Value := do
  return if ← a.lt b then b else a

def length : Value → Except Fault Nat
  | .str s => .ok s.length
  | .list xs => .ok xs.length
  | .dict es => .ok es.length
  | _ => .error .wrongType

def startsWith : Value → Value → Except Fault Bool
  | .str s, .str t => .ok (t.toList.isPrefixOf s.toList)
  | .str _, _ => .error .wrongType
  | _, _ => .error .noAttribute

def toReal : Value → Except Fault Binary64
  | .str s => match Decimal.real? s with
    | some x => .ok x
    | none => .error .badValue
  | v => do (← v.toNumber).toReal

def toInteger : Value → Except Fault Int
  | .str s => match Decimal.integer? s with
    | some z => .ok z
    | none => .error .badValue
  | v => do match ← v.toNumber with
    | .int z => return z
    | .float x => x.truncate

def toText : Value → Except Fault String
  | .str s => .ok s
  | _ => .error .noAttribute

def members : Value → Except Fault (List Value)
  | .list xs => .ok xs
  | .str s => .ok (s.toList.map fun c => .str (String.singleton c))
  | .dict es => .ok (es.map (·.1))
  | _ => .error .wrongType

end Value

end MinConflicts
