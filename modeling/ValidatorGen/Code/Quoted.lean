import ValidatorGen.Text.Hex

/-!
# String literals of emitted code

`quote` writes a text as a literal in single quotes. The backslash, the quote, the control
characters and the two characters that end a line of code, U+2028 and U+2029, are escaped, so a
literal never leaves its line and never ends early.
-/

namespace ValidatorGen.Code

/-- The control characters: Unicode category Cc. -/
def isControl (c : Char) : Bool := c.toNat < 0x20 || (0x7F ≤ c.toNat && c.toNat ≤ 0x9F)

/-- How a character stands in a literal. -/
def escape (c : Char) : List Char :=
  match c with
  | '\\' => ['\\', '\\']
  | '\'' => ['\\', '\'']
  | '\n' => ['\\', 'n']
  | '\r' => ['\\', 'r']
  | '\t' => ['\\', 't']
  | c =>
    if isControl c || c.toNat == 0x2028 || c.toNat == 0x2029 then '\\' :: 'u' :: Text.hex4 c.toNat
    else [c]

/-- A text as a literal in single quotes. -/
def quote (text : String) : String :=
  String.ofList ('\'' :: (text.toList.flatMap escape ++ ['\'']))

end ValidatorGen.Code
