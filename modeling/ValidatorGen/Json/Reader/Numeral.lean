import ValidatorGen.Json.Reader.Basic

/-!
# Reading JSON numbers

A number without fraction and exponent is an integer if a word of 64 bits holds it. Any other is a
double, and so are `-0` and the integers that no word holds. The double is computed from as many
digits as a word holds, multiplied or divided once by the power of ten that is left; only powers
beyond those that a double holds take several divisions.
-/

namespace ValidatorGen.Json.Reader

/-- The number of values of a word of 64 bits. -/
def wordSize : Nat := 0x10000000000000000

/-- Appends digits to a word of 64 bits as long as it holds them, and counts those appended and
those left over. -/
def absorb (word : Nat) : List Nat → Nat × Nat × Nat
  | [] => (word, 0, 0)
  | digit :: rest =>
    if word * 10 + digit < wordSize then
      let (word, taken, left) := absorb (word * 10 + digit) rest
      (word, taken + 1, left)
    else (word, 0, rest.length + 1)

/-- The greatest power of ten that a double holds. -/
def greatestPower : Nat := 308

def powerOfTen (exponent : Nat) : Float := Float.ofScientific 1 false exponent

/-- Divides by a power of ten, in several steps if no double holds the power. -/
def divideByPower (value : Float) (exponent : Nat) : Float :=
  if exponent ≤ greatestPower then value / powerOfTen exponent
  else if value == 0 then value
  else divideByPower (value / powerOfTen greatestPower) (exponent - greatestPower)
termination_by exponent
decreasing_by unfold greatestPower at *; omega

/-- The double for `word * 10 ^ exponent`, if it is finite. -/
def scaled? (word : Nat) (exponent : Int) : Option Float :=
  let value := Number.floatOfInt word
  if exponent < 0 then some (divideByPower value exponent.natAbs)
  else if exponent.natAbs ≤ greatestPower then
    let value := value * powerOfTen exponent.natAbs
    if value.isInf then none else some value
  else if value == 0 then some value
  else none

/-- The double for `word * 10 ^ exponent` with a sign. -/
def double (negative : Bool) (word : Nat) (exponent : Int) : Reader Number :=
  match scaled? word exponent with
  | none => stopHere .outOfRange
  | some value => pure (.ofFloat (if negative then -value else value))

def greatestExponent : Nat := 0x7FFFFFFF

/-- The number of digits that reach beyond the greatest exponent, if they do. -/
def beyondExponent? (value count : Nat) : List Nat → Option Nat
  | [] => none
  | digit :: rest =>
    let value := value * 10 + digit
    if greatestExponent < value then some (count + 1) else beyondExponent? value (count + 1) rest

/-- Reads an exponent after its letter. An exponent that is out of all bounds makes the number
zero, or puts it out of range. -/
def exponentTail (negative : Bool) (word : Nat) (exponent : Int) : Reader Number := do
  let sign ← peek
  if sign = some '+' || sign = some '-' then advance
  match ← peek with
  | none => stopHere .endInValue
  | some c =>
    if isDigit c then
      let start ← get
      let written ← digits
      match beyondExponent? 0 0 written with
      | some count =>
        -- no digit is taken beyond the one that exceeds the bound
        if word ≠ 0 && sign ≠ some '-' then
          set (Cursor.mk (start.rest.drop count) (start.position.skip count start.rest))
          stopHere .outOfRange
        else pure (.ofFloat (if negative then -0.0 else 0.0))
      | none =>
        let size : Nat := written.foldl (fun value digit => value * 10 + digit) 0
        double negative word (if sign = some '-' then exponent - size else exponent + size)
    else stopNext .badNumber

def isExponentMark (c : Option Char) : Bool := c = some 'e' || c = some 'E'

/-- Reads the fraction after its point, and what follows it. -/
def fractionTail (negative : Bool) (word : Nat) (exponent : Int) : Reader Number := do
  let fraction ← digits
  -- a point has to be followed by a digit
  if fraction.isEmpty then
    match ← peek with
    | none => stopNext .endInValue
    | some _ => stopNext .badNumber
  else
    -- digits that no longer fit are dropped, they do not move the point
    let (word, taken, _) := absorb word fraction
    let exponent := exponent - taken
    if isExponentMark (← peek) then
      advance
      exponentTail negative word exponent
    else double negative word exponent

/-- The number for an integer without fraction and exponent: exact if a word holds it. -/
def integer (negative : Bool) (word left : Nat) : Reader Number :=
  if left = 0 && !negative then pure (.int word)
  else if left = 0 && word ≠ 0 && 2 * word ≤ wordSize then pure (.int (-word))
  else double negative word left

/-- Reads a number after its sign. -/
def numberTail (negative : Bool) : Reader Number := do
  match ← peek with
  | none => stopHere .endInValue
  | some c =>
    if !isDigit c then stopNext .badNumber
    else
      let written ← (if c = '0' then do advance; return [0] else digits)
      if c = '0' && (← peek).any isDigit then stopNext .badNumber
      else
        let (word, _, left) := absorb 0 written
        let mark ← peek
        if mark = some '.' then
          advance
          fractionTail negative word left
        else if isExponentMark mark then
          advance
          exponentTail negative word left
        else integer negative word left

end ValidatorGen.Json.Reader
