import MinConflicts.Search.Journal

/-!
# Random choices

The shuffle swaps each place, from the last one down, with a place that is not above it. A key is
chosen with a probability in proportion to its weight: each weight is raised by a constant, so
that no key is left out, and the keys are walked in shuffled order up to a random point of their
total. Among candidates, either a random one or the first one of the best score is chosen.
-/
namespace MinConflicts

namespace Search

variable {M : Type} {α : Type}

def chooseRandom (source : Draws) (xs : List α) : Search M α := do
  let r ← draw source
  lift (do nth xs (← position r xs.length))

def drawSwaps (source : Draws) (n : Nat) : Nat → Search M (List Nat)
  | 0 => return []
  | i + 1 => do
    let r ← draw source
    let j ← lift (do place n (← position r (i + 2)))
    return j :: (← drawSwaps source n i)

def applySwaps (i : Nat) (js : List Nat) (xs : Array α) : Array α :=
  match js with
  | [] => xs
  | j :: js => applySwaps (i - 1) js (xs.swapIfInBounds i j)

def shuffle (source : Draws) (xs : List α) : Search M (List α) := do
  let js ← drawSwaps source xs.length (xs.length - 1)
  return (applySwaps (xs.length - 1) js xs.toArray).toList

end Search

namespace KeyChoice

open Arith

variable {α : Type} [Arith α]

def smoothing : Binary64 := .ofRatio false 1 10

def total (alpha : α) (weights : List α) : Except Fault α := do
  let sum ← weights.foldlM add (count 0)
  add sum (← mul alpha (count weights.length))

def walk (alpha target : α) (last : String) (running : α) :
    List (String × α) → Except Fault String
  | [] => .ok last
  | (key, w) :: rest => do
    let running ← add running (← add w alpha)
    if ← lt target running then return key
    else walk alpha target key running rest

def weigh (weights : Table α) (keys : List String) : List (String × α) :=
  keys.filterMap fun k => (weights.get? k).map (k, ·)

def pick (alpha total draw : α) (weighed : List (String × α)) : Except Fault String := do
  walk alpha (← mul draw total) "" zero weighed

end KeyChoice

namespace Search

variable {M : Type} {γ : Type}

def chooseKey (source : Draws) (weights : Table Value) (alpha : Value) :
    Search M (Option String) :=
  if weights.entries.isEmpty then return none
  else do
    let keys ← shuffle source weights.keys
    let total ← lift (KeyChoice.total alpha weights.values)
    let r ← draw source
    some <$> lift (KeyChoice.pick alpha total (.float r) (KeyChoice.weigh weights keys))

/-- The first candidate whose score is above the best so far and is not passed by a later one;
without one, the best so far. -/
def bestScored (score : γ → Search M Value) (best : Option γ) (bestScore : Value) :
    List γ → Search M (Option γ)
  | [] => return best
  | c :: cs => do
    let v ← score c
    if ← lift (bestScore.lt v) then bestScored score (some c) v cs
    else bestScored score best bestScore cs

/-- A random candidate with the probability `randomness`, and otherwise the first one of the best
score, if that is above 0. -/
def minConflicts (source : Draws) (score : γ → Search M Value) (randomness : Value)
    (cs : List γ) : Search M (Option γ) :=
  if cs.isEmpty then return none
  else do
    let r ← draw source
    if ← lift ((Value.float r).lt randomness) then some <$> chooseRandom source cs
    else bestScored score none (.float (.zero false)) cs

end Search

end MinConflicts
