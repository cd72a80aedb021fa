/-!
# White space

The characters that Unicode counts as white space, with the four ASCII information
separators. Trimming a text drops them at both ends (`trim`).
-/

namespace Assay.Text

/-- A white space character. -/
def isBlank (c : Char) : Bool :=
  let n := c.toNat
  (9 ≤ n && n ≤ 13) || (28 ≤ n && n ≤ 32) || n == 133 || n == 160 || n == 5760 ||
    (8192 ≤ n && n ≤ 8202) || n == 8232 || n == 8233 || n == 8239 || n == 8287 || n == 12288

/-- Drop the characters that satisfy `p` at both ends. -/
def trimList (p : Char → Bool) (cs : List Char) : List Char :=
  ((cs.dropWhile p).reverse.dropWhile p).reverse

/-- Drop white space at both ends. -/
def trim (s : String) : String :=
  String.ofList (trimList isBlank s.toList)

end Assay.Text
