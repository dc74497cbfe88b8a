import MinConflicts.Number

/-!
# Values

The values of variables, models, states and settings. A dictionary keeps its entries in order;
building one by `insertKey` keeps the place of a repeated key and takes its last value.

Two equalities are used. `same` is the equality of members of a collection: numbers by value,
lists by their members in order, dictionaries in any order, and a NaN is the same as a NaN with
its label. `eq` is the equality of a comparison, in which a NaN on its own equals nothing.
-/
namespace MinConflicts

inductive Value where
  | null
  | bool (b : Bool)
  | int (z : Int)
  | float (x : Binary64)
  | str (s : String)
  | list (xs : List Value)
  | dict (es : List (Value × Value))

namespace Value

instance : Inhabited Value := ⟨.null⟩

def number? : Value → Option Number
  | .bool b => some (.int (if b then 1 else 0))
  | .int z => some (.int z)
  | .float x => some (.float x)
  | _ => none

def ofNumber : Number → Value
  | .int z => .int z
  | .float x => .float x

def sameNumber (a b : Value) : Bool :=
  match a.number?, b.number? with
  | some x, some y => x.same y
  | _, _ => false

mutual

def same : Value → Value → Bool
  | .null, .null => true
  | .str s, .str t => s == t
  | .list xs, .list ys => sameList xs ys
  | .dict es, .dict fs => es.length == fs.length && sameEntries es fs
  | a, b => sameNumber a b

def sameList : List Value → List Value → Bool
  | [], [] => true
  | x :: xs, y :: ys => same x y && sameList xs ys
  | _, _ => false

def sameEntries : List (Value × Value) → List (Value × Value) → Bool
  | [], _ => true
  | (k, v) :: es, fs => fs.any (fun f => same k f.1 && same v f.2) && sameEntries es fs

end

def eq (a b : Value) : Bool :=
  match a.number?, b.number? with
  | some x, some y => x.eq y
  | _, _ => a.same b

def truthy : Value → Bool
  | .null => false
  | .bool b => b
  | .int z => z != 0
  | .float x => !x.isZero
  | .str s => !s.isEmpty
  | .list xs => !xs.isEmpty
  | .dict es => !es.isEmpty

def typeName : Value → String
  | .null => "NoneType"
  | .bool _ => "bool"
  | .int _ => "int"
  | .float _ => "float"
  | .str _ => "str"
  | .list _ => "list"
  | .dict _ => "dict"

def isKey : Value → Bool
  | .list _ => false
  | .dict _ => false
  | _ => true

def insertKey (key v : Value) : List (Value × Value) → List (Value × Value)
  | [] => [(key, v)]
  | e :: es => if e.1.same key then (e.1, v) :: es else e :: insertKey key v es

def ofEntries (es : List (Value × Value)) : Value :=
  .dict (es.foldl (fun acc e => insertKey e.1 e.2 acc) [])

def findKey? (key : String) : List (Value × Value) → Option Value
  | [] => none
  | (.str k, v) :: es => if k = key then some v else findKey? key es
  | _ :: es => findKey? key es

def setKey (key : String) (v : Value) (es : List (Value × Value)) : List (Value × Value) :=
  insertKey (.str key) v es

def distinct (vs : List Value) : List Value :=
  vs.foldl (fun kept v => if kept.any (same v) then kept else kept ++ [v]) []

end Value

end MinConflicts
