/-!
# Blank characters

The characters with the Unicode property `White_Space`, and the two questions asked about them:
whether a text holds anything else, and what remains of a text without the blank characters at its
end.
-/

namespace ValidatorGen.Text

/-- The characters of the Unicode property `White_Space`. -/
def isBlank (c : Char) : Bool :=
  let n := c.toNat
  (0x09 ≤ n && n ≤ 0x0D) || n == 0x20 || n == 0x85 || n == 0xA0 || n == 0x1680 ||
    (0x2000 ≤ n && n ≤ 0x200A) || n == 0x2028 || n == 0x2029 || n == 0x202F || n == 0x205F ||
    n == 0x3000

/-- Whether a text holds nothing but blank characters. -/
def allBlank (text : String) : Bool := text.toList.all isBlank

/-- The text without the blank characters at its end. -/
def trimEnd (text : String) : String :=
  String.ofList (text.toList.reverse.dropWhile isBlank).reverse

end ValidatorGen.Text
