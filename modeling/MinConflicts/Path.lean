import MinConflicts.Fault
import MinConflicts.Table
import MinConflicts.Text.Split

/-!
# Paths and models

A path names a place in a model of nested dictionaries: its segments are joined by points. A
model is built from an assignment, the table from paths to values, by inserting one after another.

Models are trees: a dictionary that stands at two places is two dictionaries, and a value set in
the one is not seen in the other. Objects with shared parts are not modelled, and neither are
mappings that can be read but not written.
-/
namespace MinConflicts

abbrev Assignment := Table Value

namespace Path

def separator : Char := '.'

def segments (path : String) : List String :=
  (Text.splitOn separator path.toList).map String.ofList

def join (parent key : String) : String :=
  if parent.isEmpty then key else parent ++ String.singleton separator ++ key

/-- The path of a child when parent and key are any values: the texts of both are joined. A parent
that does not count as true is the root, whose child has its key as path. -/
def joinValues (parent key : Value) : Value :=
  if parent.truthy then .str (parent.display ++ String.singleton separator ++ key.display)
  else key

end Path

namespace Value

def item (v : Value) (key : String) : Except Fault Value :=
  match v with
  | .dict es => match findKey? key es with
    | some w => .ok w
    | none => .error (.missingKey key)
  | _ => .error .wrongType

def descend (v : Value) : List String → Except Fault Value
  | [] => .ok v
  | k :: ks => do (← v.item k).descend ks

def getPath (v : Value) (path : String) : Except Fault Value :=
  v.descend (Path.segments path)

def branch (key : String) (es : List (Value × Value)) : List (Value × Value) :=
  match findKey? key es with
  | some (.dict fs) => fs
  | _ => []

/-- The entries with a value set under the segments `k :: ks`. Dictionaries on the way are made
where there is none. -/
def setAt (w : Value) (k : String) : List String → List (Value × Value) → List (Value × Value)
  | [], es => setKey k w es
  | k' :: ks, es => setKey k (.dict (setAt w k' ks (branch k es))) es

def insertPath (model : Value) (path : String) (w : Value) : Except Fault Value :=
  match model, Path.segments path with
  | .dict es, k :: ks => .ok (.dict (setAt w k ks es))
  | .dict es, [] => .ok (.dict es)
  | _, [_] => .error .wrongType
  | _, _ => .error .noAttribute

end Value

def Assignment.nested (a : Assignment) : Value :=
  .dict (a.entries.foldl (fun es e => match Path.segments e.1 with
    | [] => es
    | k :: ks => Value.setAt e.2 k ks es) [])

def Assignment.flat (a : Assignment) : Value := a.toValue

end MinConflicts
