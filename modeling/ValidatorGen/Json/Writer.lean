import ValidatorGen.Json.Basic
import ValidatorGen.Json.Shortest
import ValidatorGen.Text.Hex

/-!
# Compact JSON text

`Json.text` writes a value without blanks, members in their order. Strings escape the quote, the
backslash and the characters below U+0020 and nothing else. A double is written with its shortest
decimal digits: positionally, with at least one digit after the point, while its decimal exponent
lies in the range of `Number.positional`, and with a signed exponent otherwise.
-/

namespace ValidatorGen.Json

namespace Number

/-- The decimal exponents that are written positionally. -/
structure Positional where
  least : Int
  greatest : Int

/-- A double is written positionally from `0.00001` up to, but not including, `1e+16`. -/
def positional : Positional := ⟨-5, 15⟩

/-- A text for the decimal `0.digits * 10 ^ point`, where the digits do not end in a zero. -/
def digitsText (digits : List Char) (point : Int) : List Char :=
  let exponent := point - 1
  if positional.least ≤ exponent ∧ exponent ≤ positional.greatest then
    if 0 < point then
      let count := point.toNat
      let fraction := digits.drop count
      digits.take count ++ List.replicate (count - digits.length) '0' ++
        '.' :: (if fraction.isEmpty then ['0'] else fraction)
    else '0' :: '.' :: (List.replicate (-point).toNat '0' ++ digits)
  else
    let fraction := digits.drop 1
    digits.take 1 ++ (if fraction.isEmpty then [] else '.' :: fraction) ++
      'e' :: (if exponent < 0 then '-' else '+') :: Nat.toDigits 10 exponent.natAbs

/-- The decimal digits without the zeros at their end. -/
def significant (digits : List Char) : List Char := (digits.reverse.dropWhile (· == '0')).reverse

def Decimal.text (d : Decimal) : List Char :=
  let digits := Nat.toDigits 10 d.digits
  digitsText (significant digits) (d.scale + digits.length)

def Binary.text (b : Binary) : List Char :=
  (if b.negative then ['-'] else []) ++
    if b.mantissa = 0 then ['0', '.', '0'] else b.shortest.text

/-- The digits of an integer behind its sign. -/
def intChars (value : Int) : List Char :=
  (if value < 0 then ['-'] else []) ++ Nat.toDigits 10 value.natAbs

def chars : Number → List Char
  | .int value => intChars value
  | .float bits => (Binary.ofBits bits).text

def text (number : Number) : String := String.ofList number.chars

end Number

/-- How a character stands in a JSON string. -/
def escape (c : Char) : List Char :=
  match c with
  | '"' => ['\\', '"']
  | '\\' => ['\\', '\\']
  | '\x08' => ['\\', 'b']
  | '\x0c' => ['\\', 'f']
  | '\n' => ['\\', 'n']
  | '\r' => ['\\', 'r']
  | '\t' => ['\\', 't']
  | c => if c.toNat < 0x20 then '\\' :: 'u' :: Text.hex4 c.toNat else [c]

def quote (text : String) : List Char := '"' :: (text.toList.flatMap escape ++ ['"'])

mutual

def chars : Json → List Char
  | .null => ['n', 'u', 'l', 'l']
  | .bool true => ['t', 'r', 'u', 'e']
  | .bool false => ['f', 'a', 'l', 's', 'e']
  | .number value => value.chars
  | .string value => quote value
  | .array items => '[' :: (itemChars items ++ [']'])
  | .object members => '\x7b' :: (memberChars members ++ ['\x7d'])

/-- The characters of the elements of an array, with commas between them. -/
def itemChars : List Json → List Char
  | [] => []
  | [item] => item.chars
  | item :: items => item.chars ++ ',' :: itemChars items

/-- The characters of the members of an object, with commas between them. -/
def memberChars : List (String × Json) → List Char
  | [] => []
  | [(name, value)] => quote name ++ ':' :: value.chars
  | (name, value) :: members => quote name ++ ':' :: (value.chars ++ ',' :: memberChars members)

end

/-- The compact text of a value. -/
def text (json : Json) : String := String.ofList json.chars

end ValidatorGen.Json
