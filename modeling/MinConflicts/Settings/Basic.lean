import MinConflicts.Text.Split
import MinConflicts.Text.Title
import MinConflicts.Value.Arith

/-!
# Settings of a search

Five settings steer a search. Each is given or left to its default, and a merge of settings
looks at the given ones only. Each setting has two spellings of its key.
-/
namespace MinConflicts

inductive Setting where
  | maxIterations
  | retryIterations
  | lookAhead
  | randomness
  | preference
deriving DecidableEq

namespace Setting

def all : List Setting :=
  [.maxIterations, .retryIterations, .lookAhead, .randomness, .preference]

def key : Setting → String
  | .maxIterations => "max_iterations"
  | .retryIterations => "retry_iterations"
  | .lookAhead => "look_ahead_models"
  | .randomness => "randomness_factor"
  | .preference => "preference_factor"

def camelKey : Setting → String
  | .maxIterations => "maxIterations"
  | .retryIterations => "retryIterations"
  | .lookAhead => "lookAheadModels"
  | .randomness => "randomnessFactor"
  | .preference => "preferenceFactor"

/-- The second spelling of a name: its parts between underscores are joined, those after the
first one in title case. -/
def camelCase (name : String) : String :=
  match Text.splitOn '_' name.toList with
  | [] => ""
  | w :: ws => String.ofList (w ++ ws.flatMap Text.title)

end Setting

/-- The settings that were given. A look-ahead that was given as none is `some none`. -/
structure Settings where
  maxIterations? : Option Int := none
  retryIterations? : Option Int := none
  lookAhead? : Option (Option Int) := none
  randomness? : Option Binary64 := none
  preference? : Option Binary64 := none
deriving DecidableEq

namespace Settings

def defaultMaxIterations : Int := 10000

def defaultRetryIterations : Int := 2000

def defaultRandomness : Binary64 := .ofRatio false 3 10

def defaultPreference : Binary64 := .ofRatio false 1 10

def lookAheadMultiplier : Int := 2

def maxIterations (s : Settings) : Int := s.maxIterations?.getD defaultMaxIterations

def retryIterations (s : Settings) : Int := s.retryIterations?.getD defaultRetryIterations

def lookAhead (s : Settings) : Option Int := s.lookAhead?.getD none

def randomness (s : Settings) : Binary64 := s.randomness?.getD defaultRandomness

def preference (s : Settings) : Binary64 := s.preference?.getD defaultPreference

def given (s : Settings) : List Setting :=
  Setting.all.filter fun
    | .maxIterations => s.maxIterations?.isSome
    | .retryIterations => s.retryIterations?.isSome
    | .lookAhead => s.lookAhead?.isSome
    | .randomness => s.randomness?.isSome
    | .preference => s.preference?.isSome

def valueOf (s : Settings) : Setting → Value
  | .maxIterations => .int s.maxIterations
  | .retryIterations => .int s.retryIterations
  | .lookAhead => match s.lookAhead with
    | some n => .int n
    | none => .null
  | .randomness => .float s.randomness
  | .preference => .float s.preference

def entries (s : Settings) : List (Value × Value) :=
  Setting.all.map fun f => (.str f.key, s.valueOf f)

def agrees (s t : Settings) : Bool :=
  Setting.all.all fun f => (s.valueOf f).eq (t.valueOf f)

def windowWidth (s : Settings) (largest : Int) : Int :=
  match s.lookAhead with
  | some n => n
  | none => lookAheadMultiplier * largest

end Settings

end MinConflicts
