/-!
# Numbers of a JSON text

A number is an integer or a double. An integer keeps its exact value; a double is kept as its bit
pattern, so that numbers have a decidable equality that tells `0.0` from `-0.0`. Where numbers are
compared as values, `toFloat` is compared.
-/

namespace ValidatorGen.Json

/-- A number as it is read: `float` holds the bits of a double. -/
inductive Number where
  | int (value : Int)
  | float (bits : UInt64)
  deriving DecidableEq, Repr, Inhabited

namespace Number

/-- The integers that are kept exactly: those of a signed or an unsigned 64-bit word. -/
def IsWord (value : Int) : Prop :=
  -0x8000000000000000 ≤ value ∧ value < 0x10000000000000000

instance (value : Int) : Decidable (IsWord value) := inferInstanceAs (Decidable (_ ∧ _))

/-- The double nearest to an integer. -/
def floatOfInt : Int → Float
  | .ofNat n => Float.ofScientific n false 0
  | .negSucc n => -Float.ofScientific (n + 1) false 0

def toFloat : Number → Float
  | .int value => floatOfInt value
  | .float bits => Float.ofBits bits

def ofFloat (value : Float) : Number := .float value.toBits

/-- The parts of a finite double: whether its sign bit is set, and a mantissa and an exponent of
two whose product is its absolute value. -/
structure Binary where
  negative : Bool
  mantissa : Nat
  exponent : Int
  deriving DecidableEq, Repr

def leastExponent : Int := -1074

/-- The mantissa of a power of two, where the doubles below lie twice as dense. -/
def powerMantissa : Nat := 0x10000000000000

/-- Takes a finite double apart. -/
def Binary.ofBits (bits : UInt64) : Binary :=
  let exponent := bits.toNat / powerMantissa % 0x800
  let fraction := bits.toNat % powerMantissa
  { negative := 0x8000000000000000 ≤ bits.toNat
    mantissa := if exponent = 0 then fraction else powerMantissa + fraction
    exponent := leastExponent + ((exponent - 1 : Nat) : Int) }

/-- The absolute value of a finite double if it has no fraction. -/
def Binary.whole? (b : Binary) : Option Nat :=
  if 0 ≤ b.exponent then some (b.mantissa * Nat.pow 2 b.exponent.toNat)
  else
    let divisor := Nat.pow 2 (-b.exponent).toNat
    if b.mantissa % divisor = 0 then some (b.mantissa / divisor) else none

end Number

end ValidatorGen.Json
