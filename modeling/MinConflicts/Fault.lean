import MinConflicts.Value.Printer

/-!
# Causes of failure

Every operation that can fail gives a cause. The wording of a cause stands in `message` alone;
causes that come from the arithmetic and the look-ups of values have no wording.
-/
namespace MinConflicts

inductive DomainFlaw where
  | notFinite (bound : String) (got : Value)
  | zeroStep
  | notMapping (place : String) (got : String)
  | invalidKey (key : Value) (place : String)
  | notDomain (path : String) (got : String)
  | noValues (path : String)

inductive CountFlaw where
  | notNumber (what : String) (got : Value)
  | outOfRange (what : String) (got : Value)

inductive Refusal where
  | notInteger
  | unreadableInteger
  | oversizedInteger
  | notReal
  | unreadableReal
  | notMapping
  | frozen
deriving DecidableEq

/-- A refused setting, with the key as it was spelled; `none` when the whole input is refused. -/
structure Issue where
  refusal : Refusal
  key : Option String
deriving DecidableEq

inductive Fault where
  | invalidDomain (flaw : DomainFlaw)
  | contract (flaw : CountFlaw)
  | missingKey (key : String)
  | settings (issues : List Issue)
  | wrongType
  | badValue
  | overflow
  | zeroDivision
  | badIndex
  | noAttribute
  | raised (kind text : String)

inductive Family where
  | solver
  | value
  | runtime
  | key
deriving DecidableEq

inductive FailureKind where
  | any
  | invalidDomain
  | contract
deriving DecidableEq

def FailureKind.families : FailureKind → List Family
  | .any => [.solver]
  | .invalidDomain => [.solver, .value]
  | .contract => [.solver, .runtime]

def DomainFlaw.placeName (place : String) : String :=
  if place.isEmpty then "<root>" else place

def DomainFlaw.message : DomainFlaw → String
  | .notFinite bound got => "Range " ++ bound ++ " must be finite, got " ++ got.repr
  | .zeroStep => "Range step must not be 0"
  | .notMapping place got =>
    "model domain at '" ++ placeName place ++ "' must be a mapping, got " ++ got
  | .invalidKey key place =>
    "invalid model domain key " ++ key.repr ++ " under '" ++ placeName place ++ "'"
  | .notDomain path got =>
    "'" ++ path ++ "' is neither a Domain nor a nested mapping (" ++ got ++ ")"
  | .noValues path => "domain '" ++ path ++ "' has no values"

def CountFlaw.message : CountFlaw → String
  | .notNumber what got => what ++ " must be a number, got " ++ got.repr
  | .outOfRange what got =>
    what ++ " must be a finite non-negative number, got " ++ got.repr

def Refusal.code : Refusal → String
  | .notInteger => "int_type"
  | .unreadableInteger => "int_parsing"
  | .oversizedInteger => "int_parsing_size"
  | .notReal => "float_type"
  | .unreadableReal => "float_parsing"
  | .notMapping => "model_type"
  | .frozen => "frozen_instance"

def Refusal.message : Refusal → String
  | .notInteger => "Input should be a valid integer"
  | .unreadableInteger =>
    "Input should be a valid integer, unable to parse string as an integer"
  | .oversizedInteger =>
    "Unable to parse input string as an integer, exceeded maximum size"
  | .notReal => "Input should be a valid number"
  | .unreadableReal => "Input should be a valid number, unable to parse string as a number"
  | .notMapping => "Input should be a valid dictionary or instance of SolverConfig"
  | .frozen => "Instance is frozen"

def Fault.message? : Fault → Option String
  | .invalidDomain flaw => some flaw.message
  | .contract flaw => some flaw.message
  | .missingKey key => some key
  | .raised _ text => some text
  | _ => none

end MinConflicts
