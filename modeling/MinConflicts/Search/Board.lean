import MinConflicts.Domain.Tree
import MinConflicts.Search.Journal

/-!
# The position of a search

A cursor holds the slots of one variable and points to one of them. A board has a cursor for each
variable; where its cursors point is the current assignment.
-/
namespace MinConflicts

/-- The slots of a variable, the current one and the one with the greatest preference. A negative
index counts from the end. -/
structure Cursor where
  index : Int
  slots : List Slot
  preferred : Nat

namespace Cursor

def size (c : Cursor) : Nat := c.slots.length

def current (c : Cursor) : Except Fault Slot := nth c.slots c.index

def between (c : Cursor) (start stop : Nat) : List (Nat × Slot) :=
  (List.range' start (stop - start)).zip ((c.slots.drop start).take (stop - start))

def firstBest (best : Binary64) (bestPlace place : Nat) : List Slot → Nat
  | [] => bestPlace
  | s :: ss =>
    if best.lt s.preference then firstBest s.preference place (place + 1) ss
    else firstBest best bestPlace (place + 1) ss

def preferredAt : List Slot → Nat
  | [] => 0
  | s :: ss => firstBest s.preference 0 1 ss

def ofSlots (ss : List Slot) : Cursor := ⟨preferredAt ss, ss, preferredAt ss⟩

end Cursor

abbrev Board := Table Cursor

namespace Board

def cursorOf (sorted : Bool) (path : String) (d : Domain) : Except Fault Cursor := do
  let ss ← d.slots
  if ss.isEmpty then .error (.invalidDomain (.noValues path))
  else return .ofSlots (if sorted then Domain.ranked ss else ss)

def ofTree (t : Tree) (sorted : Bool) : Except Fault Board := do
  (← t.flatten "").mapM (cursorOf sorted)

def assignment (b : Board) : Except Fault Assignment :=
  b.mapM fun _ c => do return (← c.current).value

def reset (b : Board) : Board := b.map fun c => { c with index := c.preferred }

def move (b : Board) (path : String) (index : Int) : Board :=
  b.modify path fun c => { c with index := index }

/-- Moves cursors to random positions, one after another. At a draw without a position the walk
stops with a fault: the cursors before it have moved, the others stay. -/
def scatterEntries {M : Type} (source : Draws) :
    List (String × Cursor) → Search M (List (String × Cursor) × Option Fault)
  | [] => return ([], none)
  | (path, c) :: rest => do
    let r ← Search.draw source
    match position r c.size with
    | .error e => return ((path, c) :: rest, some e)
    | .ok i => do
      let (moved, fault) ← scatterEntries source rest
      return ((path, { c with index := i }) :: moved, fault)

def scatter {M : Type} (source : Draws) (b : Board) : Search M (Board × Option Fault) := do
  let (moved, fault) ← scatterEntries source b.entries
  return (⟨moved⟩, fault)

def randomize {M : Type} (source : Draws) (b : Board) : Search M Board := do
  match ← b.scatter source with
  | (moved, none) => return moved
  | (_, some e) => throw e

def largest (b : Board) : Nat := (b.values.map Cursor.size).foldl max 0

end Board

end MinConflicts
