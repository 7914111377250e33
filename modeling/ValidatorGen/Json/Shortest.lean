import ValidatorGen.Json.Number

/-!
# The shortest decimal of a double

A double stands for every real number that is nearer to it than to any other double. `shortest`
finds the decimal with the fewest digits among those numbers and, of several with that many digits,
the one nearest to the double itself; a tie goes to the even digit.

## Strategy

All comparisons are between natural numbers. For each count of digits from 1 to 17 the decimals
with that many digits form a grid around the value; if any point of the grid reads back as the
double, one of the two points beside the value does, so only those are tried.
-/

namespace ValidatorGen.Json.Number

/-- The decimal `digits * 10 ^ scale`. -/
structure Decimal where
  digits : Nat
  scale : Int
  deriving DecidableEq, Repr

/-- The positive rational `numerator / denominator` of which a double is the nearest. `half` gives
half the distance to the doubles beside it, over the same denominator: below and above. -/
structure Neighbourhood where
  numerator : Nat
  denominator : Nat
  below : Nat
  above : Nat
  closed : Bool
  deriving DecidableEq, Repr

/-- The neighbourhood of a positive double. A half distance counts in quarters of the last binary
place; below a power of two the doubles lie twice as dense, save at the very least exponent. The
ends belong to it where the mantissa is even, because a tie goes to the even mantissa. -/
def Binary.neighbourhood (b : Binary) : Neighbourhood :=
  let scale := b.exponent - 2
  let up := Nat.pow 2 scale.toNat
  let dense := b.mantissa = powerMantissa ∧ leastExponent < b.exponent
  { numerator := 4 * b.mantissa * up
    denominator := Nat.pow 2 (-scale).toNat
    below := (if dense then 1 else 2) * up
    above := 2 * up
    closed := b.mantissa % 2 = 0 }

namespace Neighbourhood

/-- Compares the distance of a rational to the value with a bound over the common denominator. -/
def contains (n : Neighbourhood) (digits : Nat) (up down : Nat) : Bool :=
  let point := digits * up * n.denominator
  let value := n.numerator * down
  let slack := if n.closed then 1 else 0
  if value ≤ point then point - value < n.above * down + slack
  else value - point < n.below * down + slack

/-- The exponent of ten of the first digit: `10 ^ magnitude ≤ value < 10 ^ (magnitude + 1)`. The
estimate from the binary lengths is one too small at most. -/
def magnitude (n : Neighbourhood) : Int :=
  let bits : Int := (n.numerator.log2 : Int) - (n.denominator.log2 : Int)
  -- the logarithm of two to base ten lies just below 30103 / 100000
  let estimate : Int := Int.fdiv ((bits - 1) * 30103) 100000
  let reached (e : Int) : Bool :=
    n.denominator * Nat.pow 10 e.toNat ≤ n.numerator * Nat.pow 10 (-e).toNat
  if reached (estimate + 1) then estimate + 1
  else if reached estimate then estimate
  else estimate - 1

/-- Of the two points of the grid of `10 ^ scale` beside the value, the one that reads back as the
double; if both do, the nearer. -/
def onGrid? (n : Neighbourhood) (scale : Int) : Option Decimal :=
  let up := Nat.pow 10 scale.toNat
  let down := Nat.pow 10 (-scale).toNat
  let unit := up * n.denominator
  let value := n.numerator * down
  let low := value / unit
  let rest := value % unit
  let hasLow := low ≠ 0 && n.contains low up down
  let hasHigh := n.contains (low + 1) up down
  let preferLow := 2 * rest < unit || (2 * rest = unit && low % 2 = 0)
  if hasLow && (preferLow || !hasHigh) then some ⟨low, scale⟩
  else if hasHigh then some ⟨low + 1, scale⟩
  else none

end Neighbourhood

/-- The shortest decimal of a positive double. Seventeen digits are always enough. -/
def Binary.shortest (b : Binary) : Decimal :=
  let n := b.neighbourhood
  let first := n.magnitude
  let grids := (List.range 17).map fun (i : Nat) => first - (i : Int)
  (grids.findSome? n.onGrid?).getD ⟨n.numerator, 0⟩

end ValidatorGen.Json.Number
