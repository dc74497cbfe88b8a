import MinConflicts.Log
import MinConflicts.Score
import MinConflicts.Search.Draws

/-!
# What a search leaves behind

A search keeps a journal: how many draws and questions to the evaluator it has made, the models
it asked about and the log. The journal also holds what was done before a fault.
-/
namespace MinConflicts

structure Journal (M : Type) where
  draws : Nat := 0
  counts : Nat := 0
  reports : Nat := 0
  /-- The models whose violated constraints were counted, the latest first. -/
  counted : List M := []
  /-- The log, the latest record first. -/
  log : List Log.Record := []

abbrev Search (M : Type) := EStateM Fault (Journal M)

namespace Search

variable {M S : Type} {α : Type}

def lift : Except Fault α → Search M α
  | .ok a => pure a
  | .error e => throw e

def draw (source : Draws) : Search M Binary64 := do
  let j ← get
  set { j with draws := j.draws + 1 }
  return source j.draws

def note (level : Log.Level) (text : String) : Search M Unit :=
  modify fun j => { j with log := ⟨level, Log.base ++ ".csp.search", text⟩ :: j.log }

def logged : List Log.Record × Except Fault α → Search M α
  | (rs, result) => do
    modify fun j => { j with log := rs.reverse ++ j.log }
    lift result

def count (e : Evaluator M S) (model : M) (state : S) : Search M Value := do
  modify fun j => { j with counts := j.counts + 1, counted := model :: j.counted }
  lift (e.checked model state)

def feasible (e : Evaluator M S) (model : M) (state : S) : Search M Bool := do
  return (← count e model state).eq (.int 0)

def influence (e : Evaluator M S) (model : M) (state : S) : Search M (Table Value) := do
  modify fun j => { j with reports := j.reports + 1 }
  lift (e.influence model state)

def score (e : Evaluator M S) (model : M) (state : S) (pref factor : Value) :
    Search M Value := do
  let n ← count e model state
  lift (Score.candidate n pref factor)

end Search

def Journal.records {M : Type} (j : Journal M) : List Log.Record := j.log.reverse

end MinConflicts
