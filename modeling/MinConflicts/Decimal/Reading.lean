import MinConflicts.Binary64.Arith
import MinConflicts.Decimal.Basic
import MinConflicts.Text.Blank
import MinConflicts.Text.Digit

/-!
# Reading numbers from text

A number may have blanks around it, digits of any script, a sign, and underscores between two
digits. A real number is a decimal with an optional fraction and exponent, or a word for infinity
or NaN in any case of letters.
-/
namespace MinConflicts.Decimal

open Text

def asciiDigits (cs : List Char) : List Char :=
  cs.map fun c => match digit? c with
    | some d => digitChar d
    | none => c

/-- Removes underscores, each of which must stand between two digits. `before` tells whether the
character before is a digit. -/
def joinGroups (before : Bool) : List Char → Option (List Char)
  | [] => some []
  | '_' :: c :: cs =>
    if before && c.isDigit then (joinGroups true cs).map (c :: ·) else none
  | '_' :: [] => none
  | c :: cs => (joinGroups c.isDigit cs).map (c :: ·)

def digitsValue (cs : List Char) : Nat :=
  cs.foldl (fun n c => 10 * n + (c.toNat - '0'.toNat)) 0

def takeSign : List Char → Bool × List Char
  | '-' :: cs => (true, cs)
  | '+' :: cs => (false, cs)
  | cs => (false, cs)

def wholeNumber? (cs : List Char) : Option Int :=
  let (neg, ds) := takeSign cs
  if ds.isEmpty || !ds.all Char.isDigit then none
  else some (if neg then -(digitsValue ds : Int) else digitsValue ds)

def exponent? : List Char → Option Int
  | [] => some 0
  | c :: cs => if c = 'e' ∨ c = 'E' then wholeNumber? cs else none

def unsigned? (neg : Bool) (cs : List Char) : Option Decimal :=
  let whole := cs.takeWhile Char.isDigit
  let rest := cs.dropWhile Char.isDigit
  let (frac, rest) := match rest with
    | '.' :: rest => (rest.takeWhile Char.isDigit, rest.dropWhile Char.isDigit)
    | rest => ([], rest)
  if whole.isEmpty && frac.isEmpty then none
  else (exponent? rest).map fun e => ⟨neg, digitsValue (whole ++ frac), e - frac.length⟩

def plainReal? (cs : List Char) : Option Binary64 :=
  let (neg, body) := takeSign cs
  let word := body.map Char.toLower
  if word = ['i', 'n', 'f'] ∨ word = ['i', 'n', 'f', 'i', 'n', 'i', 't', 'y'] then
    some (.infinity neg)
  else if word = ['n', 'a', 'n'] then some (.nan 0)
  else (unsigned? neg body).map toBinary64

def real? (s : String) : Option Binary64 :=
  (joinGroups false (trim (asciiDigits s.toList))).bind plainReal?

def integer? (s : String) : Option Int :=
  (joinGroups false (trim (asciiDigits s.toList))).bind wholeNumber?

end MinConflicts.Decimal
