import MinConflicts.Search.Board
import MinConflicts.Search.Choice
import MinConflicts.Settings.Merge

/-!
# Candidate moves

A move changes the value of one variable to another one in a window around its cursor. Moves to
a solution that is already known are left out.
-/
namespace MinConflicts

structure Window where
  start : Int
  stop : Int
deriving DecidableEq

namespace Window

/-- The window of a width around an index, inside the positions below `size`. It reaches half
the width back and, without the last position, half the width ahead. -/
def around (index size width : Int) : Window :=
  let half := width.fdiv 2
  ⟨max 0 (index - half), min size (index + half)⟩

def indices (w : Window) : List Int :=
  (List.range (w.stop - w.start).toNat).map fun (k : Nat) => w.start + k

end Window

structure Solution (M : Type) where
  assignment : Assignment
  model : M

def isKnown {M : Type} (known : List (Solution M)) (a : Assignment) : Bool :=
  known.any fun s => s.assignment.same a

structure Candidate (M : Type) where
  key : String
  index : Nat
  slot : Slot
  assignment : Assignment
  model : M

structure Context (M S : Type) where
  evaluator : Evaluator M S
  state : S
  settings : Settings
  source : Draws
  factory : Assignment → Except Fault M
  width : Int

namespace Context

variable {M S : Type}

def candidatesAt (ctx : Context M S) (known : List (Solution M)) (a : Assignment) (key : String) :
    List (Nat × Slot) → Except Fault (List (Candidate M))
  | [] => .ok []
  | (i, s) :: rest => do
    let next := a.insert key s.value
    if isKnown known next then ctx.candidatesAt known a key rest
    else do
      let model ← ctx.factory next
      return ⟨key, i, s, next, model⟩ :: (← ctx.candidatesAt known a key rest)

def candidates (ctx : Context M S) (board : Board) (known : List (Solution M)) (a : Assignment)
    (key : String) : Except Fault (List (Candidate M)) :=
  match board.get? key with
  | none => .error (.missingKey key)
  | some c =>
    let w := Window.around c.index c.size ctx.width
    ctx.candidatesAt known a key (c.between w.start.toNat w.stop.toNat)

def keyWeights (board : Board) (influence : Table Value) : Table Value :=
  ⟨board.keys.map fun path => (path, (influence.get? path).getD (.int 0))⟩

def scoreOf (ctx : Context M S) (c : Candidate M) : Search M Value :=
  Search.score ctx.evaluator c.model ctx.state (.float c.slot.preference)
    (.float ctx.settings.preference)

def nextMove (ctx : Context M S) (board : Board) (known : List (Solution M)) (a : Assignment)
    (model : M) : Search M (Option (Candidate M)) := do
  let influence ← Search.influence ctx.evaluator model ctx.state
  let weights := keyWeights board influence
  match ← Search.chooseKey ctx.source weights (.float KeyChoice.smoothing) with
  | none => return none
  | some key =>
    let cs ← Search.lift (ctx.candidates board known a key)
    Search.minConflicts ctx.source ctx.scoreOf (.float ctx.settings.randomness) cs

end Context

end MinConflicts
