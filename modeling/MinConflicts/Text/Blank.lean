/-!
# Blanks

The characters that may stand around a number: the ASCII blanks from tab to carriage return, the
space, and the white space characters outside ASCII. The ASCII separators 1C to 1F are none.
-/
namespace MinConflicts.Text

def isBlank (c : Char) : Bool :=
  let n := c.toNat
  (0x09 ≤ n && n ≤ 0x0d) || n == 0x20 || n == 0x85 || n == 0xa0 || n == 0x1680 ||
    (0x2000 ≤ n && n ≤ 0x200a) || n == 0x2028 || n == 0x2029 || n == 0x202f || n == 0x205f ||
    n == 0x3000

def trim (cs : List Char) : List Char :=
  ((cs.dropWhile isBlank).reverse.dropWhile isBlank).reverse

end MinConflicts.Text
