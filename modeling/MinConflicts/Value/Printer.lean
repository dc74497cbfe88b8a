import MinConflicts.Decimal.Layout
import MinConflicts.Text.Printable
import MinConflicts.Value.Basic

/-!
# The text of values

Numbers are written with their shortest decimal. A text is quoted with an apostrophe, or with a
double quote when it holds an apostrophe and no double quote; the quote, the backslash and all
that is not printable are escaped.

Integers of any length are written in full. A limit that the surroundings of a program may put on
the length of the decimal text of an integer, where a longer one is refused instead of written, is
not modelled. So all that is made of these texts (paths, log records, messages of faults) is
described for integers within such a limit, if there is one.
-/
namespace MinConflicts

/-- Numbers from `10 ^ -4` up to `10 ^ 16` are written with a plain point, and exponents with two
digits at least. -/
def Value.layout : Decimal.Layout := ⟨-4, 16, 2⟩

namespace Text

def hex (width n : Nat) : List Char :=
  let ds := Nat.toDigits 16 n
  List.replicate (width - ds.length) '0' ++ ds

def escape (quote c : Char) : List Char :=
  if c = quote ∨ c = '\\' then ['\\', c]
  else if c = '\n' then ['\\', 'n']
  else if c = '\r' then ['\\', 'r']
  else if c = '\t' then ['\\', 't']
  else if isPrintable c then [c]
  else if c.toNat < 0x100 then '\\' :: 'x' :: hex 2 c.toNat
  else if c.toNat < 0x10000 then '\\' :: 'u' :: hex 4 c.toNat
  else '\\' :: 'U' :: hex 8 c.toNat

def quoteFor (cs : List Char) : Char :=
  if cs.contains '\'' && !cs.contains '"' then '"' else '\''

def quoted (cs : List Char) : List Char :=
  let q := quoteFor cs
  q :: (cs.flatMap (escape q) ++ [q])

def commaSeparated : List (List Char) → List Char
  | [] => []
  | [x] => x
  | x :: xs => x ++ ',' :: ' ' :: commaSeparated xs

end Text

namespace Value

open Text

mutual

def chars : Value → List Char
  | .null => "None".toList
  | .bool b => if b then "True".toList else "False".toList
  | .int z => Decimal.integerText z
  | .float x => layout.real x
  | .str s => quoted s.toList
  | .list xs => '[' :: (commaSeparated (listChars xs) ++ [']'])
  | .dict es => '\x7b' :: (commaSeparated (entryChars es) ++ ['\x7d'])

def listChars : List Value → List (List Char)
  | [] => []
  | x :: xs => chars x :: listChars xs

def entryChars : List (Value × Value) → List (List Char)
  | [] => []
  | (k, v) :: es => (chars k ++ ':' :: ' ' :: chars v) :: entryChars es

end

def repr (v : Value) : String :=
  String.ofList v.chars

def display : Value → String
  | .str s => s
  | v => v.repr

end Value

end MinConflicts
