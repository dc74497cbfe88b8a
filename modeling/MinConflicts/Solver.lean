import MinConflicts.Search.Candidate

/-!
# The solver

A search starts with every variable at its preferred value. In each iteration it records the
current model if that violates no constraint and is new, and goes back to the preferred values;
otherwise it makes one move. After a fixed number of iterations it starts again from random
values. It ends when enough solutions are recorded or the iterations are used up.
-/
namespace MinConflicts

structure Progress (M : Type) where
  board : Board
  assignment : Assignment
  model : M
  solutions : List (Solution M) := []
  iterations : Nat := 0
  restarts : Nat := 0

structure Outcome (M : Type) where
  paths : List String
  solutions : List (Solution M) := []
  iterations : Nat := 0
  restarts : Nat := 0

namespace Outcome

variable {M : Type}

def found (o : Outcome M) : Bool := !o.solutions.isEmpty

def models (o : Outcome M) : List M := o.solutions.map (·.model)

def assignments (o : Outcome M) : List Assignment := o.solutions.map (·.assignment)

def rows (o : Outcome M) : Nat := o.solutions.length

end Outcome

namespace Progress

variable {M S : Type}

def place (ctx : Context M S) (p : Progress M) (board : Board) : Except Fault (Progress M) := do
  let a ← board.assignment
  return { p with board := board, assignment := a, model := ← ctx.factory a }

def follow (p : Progress M) : Option (Candidate M) → Progress M
  | some c => { p with
      board := p.board.move c.key c.index
      assignment := c.assignment
      model := c.model }
  | none => p

end Progress

namespace Solver

def number (z : Int) : String := String.ofList (Decimal.integerText z)

def progressInterval : Nat := 1000

def startText (size : Nat) (limit width : Int) (settings : Settings) : String :=
  "[solve] Starting search: vars=" ++ number size ++ ", max_solutions=" ++ number limit ++
    ", look_ahead=" ++ number width ++ ", config=" ++ (Value.dict settings.entries).repr

def restartText (i restarts : Nat) : String :=
  "[solve] iter=" ++ number i ++ ": randomized all cursors (restart #" ++ number restarts ++ ")"

def solutionText (i solutions : Nat) (a : Assignment) : String :=
  "[solve] iter=" ++ number i ++ ": solution #" ++ number solutions ++ " " ++ a.toValue.repr

def progressText (iterations solutions : Nat) : String :=
  "[solve] iterations = " ++ number iterations ++ ", solutions = " ++ number solutions

/-- The time a search takes is no part of its result, and is written as 0. -/
def finishText (solutions iterations restarts : Nat) : String :=
  "[solve] Found " ++ number solutions ++ " solution(s) after " ++ number iterations ++
    " iterations (restarts=" ++ number restarts ++ ", 0.000s)"

variable {M S : Type}

def restartDue (settings : Settings) (i : Nat) : Bool :=
  decide (0 < settings.retryIterations ∧ 0 < i ∧ (i : Int) % settings.retryIterations = 0)

def restart (ctx : Context M S) (i : Nat) (p : Progress M) : Search M (Progress M) :=
  if restartDue ctx.settings i then do
    let board ← p.board.randomize ctx.source
    let p ← Search.lift (p.place ctx board)
    let p := { p with restarts := p.restarts + 1 }
    Search.note .debug (restartText i p.restarts)
    return p
  else return p

def record (ctx : Context M S) (i : Nat) (p : Progress M) : Search M (Progress M) := do
  let found : Solution M := ⟨p.assignment, p.model⟩
  let p := { p with solutions := p.solutions ++ [found] }
  Search.note .debug (solutionText i p.solutions.length p.assignment)
  Search.lift (p.place ctx p.board.reset)

def advance (ctx : Context M S) (p : Progress M) : Search M (Progress M) := do
  let p := p.follow (← ctx.nextMove p.board p.solutions p.assignment p.model)
  if p.iterations % progressInterval = 0 then
    Search.note .debug (progressText p.iterations p.solutions.length)
  return p

/-- What an iteration does once a due restart is made: it counts itself, looks at the current
model and records it or moves on. -/
def attempt (ctx : Context M S) (i : Nat) (p : Progress M) : Search M (Progress M) := do
  let p := { p with iterations := p.iterations + 1 }
  let feasible ← Search.feasible ctx.evaluator p.model ctx.state
  if feasible && !isKnown p.solutions p.assignment then record ctx i p else advance ctx p

def step (ctx : Context M S) (i : Nat) (p : Progress M) : Search M (Progress M) := do
  attempt ctx i (← restart ctx i p)

def run (ctx : Context M S) (limit : Int) : Nat → Nat → Progress M → Search M (Progress M)
  | 0, _, p => return p
  | budget + 1, i, p =>
    if limit ≤ p.solutions.length then return p
    else do
      let p ← step ctx i p
      run ctx limit budget (i + 1) p

end Solver

/-- What is settled before a search: its context, the board it starts from and the number of
solutions at which it ends. -/
structure Setup (M S : Type) where
  ctx : Context M S
  board : Board
  limit : Int

namespace Setup

variable {M S : Type}

def start (s : Setup M S) : Search M (Progress M) := do
  Search.note .info (Solver.startText s.board.size s.limit s.ctx.width s.ctx.settings)
  let a ← Search.lift s.board.assignment
  let model ← Search.lift (s.ctx.factory a)
  return { board := s.board, assignment := a, model := model }

def budget (s : Setup M S) : Nat := s.ctx.settings.maxIterations.toNat

def search (s : Setup M S) : Search M (Outcome M) := do
  let p ← Solver.run s.ctx s.limit s.budget 0 (← s.start)
  Search.note .info (Solver.finishText p.solutions.length p.iterations p.restarts)
  return ⟨s.board.keys, p.solutions, p.iterations, p.restarts⟩

end Setup

structure Solver (M S : Type) where
  evaluator : Evaluator M S
  settings : Settings
  factory : Assignment → Except Fault M

namespace Solver

variable {M S : Type}

/-- Settles a search for up to `maxSolutions` solutions, but for one at least. Overrides hold for
this search only. -/
def setup (solver : Solver M S) (maxSolutions : Value) (tree : Tree) (state : S)
    (overrides : Option Settings.Overrides) (source : Draws) : Search M (Setup M S) := do
  let settings ← Search.logged (solver.settings.merged overrides)
  let board ← Search.lift (Board.ofTree tree true)
  let ctx : Context M S :=
    ⟨solver.evaluator, state, settings, source, solver.factory,
      settings.windowWidth board.largest⟩
  return ⟨ctx, board, max 1 (← Search.lift maxSolutions.toInteger)⟩

def solve (solver : Solver M S) (maxSolutions : Value) (tree : Tree) (state : S)
    (overrides : Option Settings.Overrides) (source : Draws) : Search M (Outcome M) := do
  (← solver.setup maxSolutions tree state overrides source).search

end Solver

end MinConflicts
