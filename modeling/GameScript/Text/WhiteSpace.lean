/-!
# White space

The characters with the Unicode property `White_Space`: the line and
paragraph separators, the ASCII blanks and control blanks, and the wide and
narrow spaces. Trimming a name removes these from both ends.
-/

namespace GameScript

namespace Text

/-- Whether `c` has the Unicode property `White_Space`. -/
def isWhiteSpace (c : Char) : Bool :=
  let n := c.toNat
  (0x09 ≤ n && n ≤ 0x0D) || n == 0x20 || n == 0x85 || n == 0xA0 || n == 0x1680 ||
    (0x2000 ≤ n && n ≤ 0x200A) || n == 0x2028 || n == 0x2029 || n == 0x202F ||
    n == 0x205F || n == 0x3000

/-- `s` without white space at either end. -/
def trimWhiteSpace (s : String) : String :=
  String.ofList ((s.toList.dropWhile isWhiteSpace).reverse.dropWhile isWhiteSpace).reverse

/-- ASCII letters in lower case, all else kept: names compare in this form. -/
def foldCase (s : String) : String := String.map Char.toLower s

end Text

end GameScript
