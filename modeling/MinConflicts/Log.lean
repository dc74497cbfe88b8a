import MinConflicts.Value.Arith

/-!
# Log records

A record has a level, the channel it was written on and a text. All channels are children of one
base channel, which gets a handler of its own unless it has one already.
-/
namespace MinConflicts.Log

inductive Level where
  | debug
  | info
  | warning
deriving DecidableEq

def Level.severity : Level → Nat
  | .debug => 10
  | .info => 20
  | .warning => 30

def Level.name : Level → String
  | .debug => "DEBUG"
  | .info => "INFO"
  | .warning => "WARNING"

structure Record where
  level : Level
  channel : String
  text : String
deriving DecidableEq

def atLeast (level : Level) (rs : List Record) : List Record :=
  rs.filter fun r => level.severity ≤ r.level.severity

def base : String := "consys_solver"

/-- The name of the channel for a name: a child of the base channel. A name that already starts
with the base channel's is not doubled, and no name stands for the base channel itself. -/
def channel : Option String → String
  | none => base
  | some name =>
    let stem := (base ++ ".").toList
    if name.isEmpty || name == base then base
    else if stem.isPrefixOf name.toList then name
    else base ++ "." ++ name

def channelFor (name : Value) : Except Fault String :=
  if name.truthy then do return channel (some (← name.toText)) else .ok base

inductive Handler where
  | silent
  | stream (format : String)
deriving DecidableEq

def defaultFormat : String := "%(asctime)s [%(levelname)s] [%(name)s] %(message)s"

structure Output where
  handlers : List Handler
  threshold : Nat
deriving DecidableEq

def Output.withDefault (o : Output) : Output :=
  if o.handlers.isEmpty then ⟨[.stream defaultFormat], Level.info.severity⟩ else o

end MinConflicts.Log
