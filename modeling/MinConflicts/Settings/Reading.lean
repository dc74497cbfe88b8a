import MinConflicts.Log
import MinConflicts.Settings.Basic
import MinConflicts.Sort

/-!
# Reading settings

Settings are read from a dictionary, under either spelling of a key. A number that is out of
range is brought into it, and what has no number (null, NaN or an infinite count) stands for the
default. Other values are refused, apart from a few loose spellings of numbers. Unknown keys are
passed over with a warning, which holds their texts in full (see `Value.display`).

The bound on the digits of an integer, `maxIntegerDigits`, is that of the reading of settings
itself. It is no limit on the texts that are written.
-/
namespace MinConflicts

namespace Settings

def asNumber : Value → Value
  | .str s => match Decimal.real? s with
    | some x => .float x
    | none => .str s
  | v => v

/-- The value between two bounds; a NaN counts as the lower one. Of values that are equal the
lower bound, then the value is taken. -/
def clamp (value low high : Value) : Except Fault Value := do
  if (← (← value.toNumber).toReal).isNaN then return low
  else low.greatest (← value.least high)

def maxIntegerDigits : Nat := 4300

def takeMinus : List Char → Bool × List Char
  | '-' :: cs => (true, cs)
  | cs => (false, cs)

def startsOversized (cs : List Char) : Bool :=
  let ds := (takeMinus cs).2
  ds.head? != some '0' && maxIntegerDigits < (ds.takeWhile Char.isDigit).length

def plainForm? (cs : List Char) : Option Int :=
  let (neg, ds) := takeMinus cs
  if ds.isEmpty || !ds.all Char.isDigit then none
  else if ds.head? == some '0' && ds.length != 1 then none
  else if maxIntegerDigits < ds.length then none
  else some (if neg then -(Decimal.digitsValue ds : Int) else Decimal.digitsValue ds)

def withoutUnderscores? (cs : List Char) : Option (List Char) :=
  let rec single : List Char → Bool
    | '_' :: '_' :: _ => false
    | _ :: cs => single cs
    | [] => true
  if cs.head? == some '_' || cs.getLast? == some '_' || !single cs then none
  else some (cs.filter (· != '_'))

/-- Drops zeros and underscores after a first zero, up to a digit, to a minus sign or to the zero
before a point. Fails on what is no number. -/
def withoutLeadingZeros? : List Char → Option (List Char)
  | '0' :: cs => rest '0' cs
  | c :: cs => if c.isDigit then some (c :: cs) else none
  | [] => none
where
  rest (last : Char) : List Char → Option (List Char)
    | [] => some [last]
    | c :: cs =>
      if c = '0' ∨ c = '_' then rest c cs
      else if c = '.' then some (last :: c :: cs)
      else if c.isDigit ∨ c = '-' then some (c :: cs)
      else none

def withoutZeroFraction (cs : List Char) : List Char :=
  match cs.dropWhile (· != '.') with
  | _ :: '0' :: frac => if frac.all (· == '0') then cs.takeWhile (· != '.') else cs
  | _ => cs

/-- The integer that a text spells loosely: with blanks around it, a sign, leading zeros, single
underscores and a fraction of zeros. The minus sign may also follow leading zeros. -/
def looseInteger? (s : String) : Option Int := do
  let cs ← match Text.trim s.toList with
    | '+' :: '-' :: _ => none
    | '+' :: cs => some cs
    | cs => some cs
  let (neg, cs) := takeMinus cs
  let ds ← withoutUnderscores? (withoutZeroFraction (← withoutLeadingZeros? cs))
  plainForm? (if neg then '-' :: ds else ds)

/-- The real number that a text spells loosely: underscores may stand at any inner place, and
there are no blanks. -/
def looseReal? (s : String) : Option Binary64 := do
  Decimal.plainReal? (← withoutUnderscores? s.toList)

def plainInteger : Value → Except Refusal Int
  | .bool b => .ok (if b then 1 else 0)
  | .int z => .ok z
  | .str s =>
    if startsOversized s.toList then .error .oversizedInteger
    else match looseInteger? s with
      | some z => .ok z
      | none => .error .unreadableInteger
  | _ => .error .notInteger

def readCount (default : Int) (v : Value) : Except Refusal Int :=
  match asNumber v with
  | .null => .ok default
  | .float (.finite x) => .ok (max 0 x.truncate)
  | .float _ => .ok default
  | .bool b => .ok (if b then 1 else 0)
  | .int z => .ok (max 0 z)
  | v => plainInteger v

def readLookAhead (v : Value) : Except Refusal (Option Int) :=
  match asNumber v with
  | .null => .ok none
  | .float (.finite x) => .ok (if x.truncate < 0 then none else some x.truncate)
  | .float _ => .ok none
  | .bool b => .ok (some (if b then 1 else 0))
  | .int z => .ok (if z < 0 then none else some z)
  | v => some <$> plainInteger v

def clampFactor (x : Binary64) : Binary64 :=
  if x.isNaN then .zero false
  else
    let y := if (Binary64.ofNat 1).lt x then .ofNat 1 else x
    if (Binary64.zero false).lt y then y else .zero false

/-- A factor: a number between 0 and 1. An integer beyond all double-precision numbers is a
fault and not a refusal. -/
def readFactor (default : Binary64) (v : Value) : Except Fault (Except Refusal Binary64) :=
  match asNumber v with
  | .null => .ok (.ok default)
  | .str s => match looseReal? s with
    | some x => .ok (.ok x)
    | none => .ok (.error .unreadableReal)
  | v => match v.number? with
    | some x => do return .ok (clampFactor (← x.toReal))
    | none => .ok (.error .notReal)

def find? (es : List (Value × Value)) (f : Setting) : Option (String × Value) :=
  match Value.findKey? f.key es with
  | some v => some (f.key, v)
  | none => (Value.findKey? f.camelKey es).map (f.camelKey, ·)

def readWith (read : Value → Except Refusal α) :
    Option (String × Value) → Except Issue (Option α)
  | none => .ok none
  | some (key, v) => match read v with
    | .ok a => .ok (some a)
    | .error r => .error ⟨r, some key⟩

def readFactorWith (default : Binary64) :
    Option (String × Value) → Except Fault (Except Issue (Option Binary64))
  | none => .ok (.ok none)
  | some (key, v) => do
    match ← readFactor default v with
    | .ok a => return .ok (some a)
    | .error r => return .error ⟨r, some key⟩

def issues : Except Issue α → List Issue
  | .ok _ => []
  | .error i => [i]

def ofEntries (es : List (Value × Value)) : Except Fault Settings := do
  let maxIterations := readWith (readCount defaultMaxIterations) (find? es .maxIterations)
  let retryIterations := readWith (readCount defaultRetryIterations) (find? es .retryIterations)
  let lookAhead := readWith readLookAhead (find? es .lookAhead)
  let randomness ← readFactorWith defaultRandomness (find? es .randomness)
  let preference ← readFactorWith defaultPreference (find? es .preference)
  match maxIterations, retryIterations, lookAhead, randomness, preference with
  | .ok a, .ok b, .ok c, .ok d, .ok e => return ⟨a, b, c, d, e⟩
  | a, b, c, d, e =>
    .error (.settings (issues a ++ issues b ++ issues c ++ issues d ++ issues e))

def ofValue : Value → Except Fault Settings
  | .dict es => ofEntries es
  | _ => .error (.settings [⟨.notMapping, none⟩])

def assign (key : String) : Fault := .settings [⟨.frozen, some key⟩]

def isKnown (key : Value) : Bool :=
  Setting.all.any fun f => key.same (.str f.key) || key.same (.str (Setting.camelCase f.key))

def unknownKeys (es : List (Value × Value)) : List String :=
  sortBy (fun t s => !decide (t < s)) (((es.map (·.1)).filter (!isKnown ·)).map Value.display)

def warnings : Value → List Log.Record
  | .dict es =>
    let ks := unknownKeys es
    if ks.isEmpty then []
    else [⟨.warning, Log.base ++ ".config",
      "[config] Ignoring unknown solver config key(s): " ++ (Value.list (ks.map .str)).repr⟩]
  | _ => []

end Settings

end MinConflicts
