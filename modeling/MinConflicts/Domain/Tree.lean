import MinConflicts.Domain.Basic
import MinConflicts.Path

/-!
# Trees of domains

The variables of a model form a tree: its leaves are domains, its branches map keys to nodes.
`flatten` lists the leaves under their dotted paths, depth first. It refuses a key that is not a
non-empty text without separator, and a node that is neither a domain nor a branch.
-/
namespace MinConflicts

/-- A tree of domains. A node of another kind is kept by the name of its type only. -/
inductive Tree where
  | leaf (d : Domain)
  | branch (items : List (Value × Tree))
  | other (kind : String)

namespace Tree

def insertNode (key : Value) (t : Tree) : List (Value × Tree) → List (Value × Tree)
  | [] => [(key, t)]
  | e :: es => if e.1.same key then (e.1, t) :: es else e :: insertNode key t es

def ofItems (items : List (Value × Tree)) : Tree :=
  .branch (items.foldl (fun acc e => insertNode e.1 e.2 acc) [])

mutual

def ofValue : Value → Tree
  | .dict es => .branch (ofEntries es)
  | v => .other v.typeName

def ofEntries : List (Value × Value) → List (Value × Tree)
  | [] => []
  | (k, v) :: es => (k, ofValue v) :: ofEntries es

end

def kindName : Tree → String
  | .leaf d => d.kindName
  | .branch _ => "dict"
  | .other kind => kind

def validKey (place : String) : Value → Except Fault String
  | .str k =>
    if k.isEmpty || k.toList.contains Path.separator then
      .error (.invalidDomain (.invalidKey (.str k) place))
    else .ok k
  | key => .error (.invalidDomain (.invalidKey key place))

mutual

def flattenNode (path : String) : Tree → Except Fault (List (String × Domain))
  | .leaf d => .ok [(path, d)]
  | .branch items => flattenItems path items
  | .other kind => .error (.invalidDomain (.notDomain path kind))

def flattenItems (place : String) : List (Value × Tree) → Except Fault (List (String × Domain))
  | [] => .ok []
  | (key, t) :: items => do
    let k ← validKey place key
    let here ← flattenNode (Path.join place k) t
    return here ++ (← flattenItems place items)

end

/-- The leaves of a tree by path; of leaves at one path the last one counts. The root must be a
branch. -/
def flatten (t : Tree) (place : String) : Except Fault (Table Domain) :=
  match t with
  | .branch items => do return Table.ofList (← flattenItems place items)
  | t => .error (.invalidDomain (.notMapping place t.kindName))

end Tree

end MinConflicts
