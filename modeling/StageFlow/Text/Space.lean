/-!
# White space

Characters with no ink that keep words or lines apart, and texts without them at either end.

## Contents
- **Test.** `isSpace`.
- **Ends.** `trimSpace`.
-/

namespace StageFlow.Text

/-- Is the character white space: a control that moves to another place, or one of the separators? -/
def isSpace (c : Char) : Bool :=
  let n := c.toNat
  (9 ≤ n && n ≤ 13) || n = 0x20 || n = 0x85 || n = 0xa0 || n = 0x1680 || (0x2000 ≤ n && n ≤ 0x200a) ||
    n = 0x2028 || n = 0x2029 || n = 0x202f || n = 0x205f || n = 0x3000

/-- A text without the white space around it. -/
def trimSpace (cs : List Char) : List Char := ((cs.dropWhile isSpace).reverse.dropWhile isSpace).reverse

end StageFlow.Text
