/-!
# Stable sorting

`sortBy` puts a list in order by inserting its members one by one. A member goes before those
that may follow it, so members that may follow each other keep their order.
-/
namespace MinConflicts

variable {α : Type u}

def insertBy (follows : α → α → Bool) (x : α) : List α → List α
  | [] => [x]
  | y :: ys => if follows y x then x :: y :: ys else y :: insertBy follows x ys

def sortBy (follows : α → α → Bool) : List α → List α
  | [] => []
  | x :: xs => insertBy follows x (sortBy follows xs)

end MinConflicts
