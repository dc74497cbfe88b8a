import MinConflicts.Value.Basic

/-!
# Tables

A table maps texts to entries and keeps them in the order in which their keys first came.
Assignments, reports, flattened trees and search positions are tables.
-/
namespace MinConflicts

structure Table (α : Type u) where
  entries : List (String × α)

namespace Table

variable {α : Type u} {β : Type v}

def empty : Table α := ⟨[]⟩

instance : Inhabited (Table α) := ⟨empty⟩

def size (t : Table α) : Nat := t.entries.length

def keys (t : Table α) : List String := t.entries.map (·.1)

def values (t : Table α) : List α := t.entries.map (·.2)

def lookup? (key : String) : List (String × α) → Option α
  | [] => none
  | (k, a) :: es => if k = key then some a else lookup? key es

def get? (t : Table α) (key : String) : Option α := lookup? key t.entries

def setEntry (key : String) (a : α) : List (String × α) → List (String × α)
  | [] => [(key, a)]
  | (k, b) :: es => if k = key then (k, a) :: es else (k, b) :: setEntry key a es

/-- Sets the entry of a key. A key that is there keeps its place; another one comes last. -/
def insert (t : Table α) (key : String) (a : α) : Table α := ⟨setEntry key a t.entries⟩

def ofList (es : List (String × α)) : Table α :=
  es.foldl (fun t e => t.insert e.1 e.2) empty

def map (f : α → β) (t : Table α) : Table β := ⟨t.entries.map fun e => (e.1, f e.2)⟩

def mapM {m : Type v → Type w} [Monad m] (f : String → α → m β) (t : Table α) : m (Table β) :=
  let rec go : List (String × α) → m (List (String × β))
    | [] => pure []
    | e :: es => do
      let b ← f e.1 e.2
      return (e.1, b) :: (← go es)
  return ⟨← go t.entries⟩

def modify (t : Table α) (key : String) (f : α → α) : Table α :=
  ⟨t.entries.map fun e => if e.1 = key then (e.1, f e.2) else e⟩

def toValue (t : Table Value) : Value :=
  .dict (t.entries.map fun e => (.str e.1, e.2))

def same (s t : Table Value) : Bool :=
  s.size == t.size && s.entries.all fun e => t.entries.any fun f => e.1 == f.1 && e.2.same f.2

end Table

end MinConflicts
