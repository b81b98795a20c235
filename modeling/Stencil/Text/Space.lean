/-!
White space. A character is white space when it has the White_Space property, which leaves out
the zero width spaces and the separators U+001C to U+001F.
-/
namespace Stencil

/-- Whether `c` is white space. -/
def isSpace (c : Char) : Bool :=
  let n := c.toNat
  (0x9 ≤ n && n ≤ 0xd) || n == 0x20 || n == 0x85 || n == 0xa0 || n == 0x1680 ||
    (0x2000 ≤ n && n ≤ 0x200a) || n == 0x2028 || n == 0x2029 || n == 0x202f || n == 0x205f ||
    n == 0x3000

/-- The text without the white space it starts with. -/
def trimStart (text : List Char) : List Char := text.dropWhile isSpace

/-- The text without the white space it ends with. -/
def trimEnd (text : List Char) : List Char := (text.reverse.dropWhile isSpace).reverse

end Stencil
