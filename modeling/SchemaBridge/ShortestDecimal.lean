import SchemaBridge.Binary64

/-!
The shortest decimal of a number: the fewest significant digits that read back as the same number,
and among those the ones nearest to its value. On the grid of `n`-digit decimals the interval of
reals that round to the number either contains one of the value's two neighbours or no grid point
at all, so only those two are tried.
-/

namespace SchemaBridge

/-- The decimal `coefficient * 10 ^ exponent`. -/
structure Decimal where
  coefficient : Nat
  exponent : Int
deriving DecidableEq

namespace Decimal

def digits (d : Decimal) : List Char :=
  Nat.toDigits 10 d.coefficient

def leadExponent (d : Decimal) : Int :=
  d.exponent + d.digits.length - 1

/-- Removes trailing zeros of the coefficient, at most `count` of them. -/
def trim (d : Decimal) : Nat → Decimal
  | 0 => d
  | count + 1 =>
    if d.coefficient % 10 = 0 then trim ⟨d.coefficient / 10, d.exponent + 1⟩ count else d

end Decimal

/-- The reals that round to a magnitude, in quarter units of `2 ^ -1074`. -/
structure RoundingInterval where
  low : Nat
  value : Nat
  high : Nat
  closed : Bool

namespace RoundingInterval

/-- The gap below a power of two is half the gap above it, except at the smallest scale. -/
def ofBinary64 (x : Binary64) : RoundingInterval :=
  let gap := 2 * 2 ^ x.shift
  let gapBelow := if x.significand = 2 ^ 52 ∧ 0 < x.shift then gap / 2 else gap
  { low := 4 * x.units - gapBelow
    value := 4 * x.units
    high := 4 * x.units + gap
    closed := x.significand % 2 == 0 }

/-- Whether the interval contains `c * num / den` quarter units. -/
def contains (i : RoundingInterval) (c num den : Nat) : Bool :=
  if i.closed then i.low * den ≤ c * num && c * num ≤ i.high * den
  else i.low * den < c * num && c * num < i.high * den

/-- The best coefficient with exponent `exponent` whose decimal lies in the interval. -/
def onGrid? (i : RoundingInterval) (exponent : Int) : Option Nat :=
  let num := 10 ^ exponent.toNat * 2 ^ 1076
  let den := 10 ^ (-exponent).toNat
  let c := i.value * den / num
  let below := i.value * den - c * num
  let above := (c + 1) * num - i.value * den
  match i.contains c num den, i.contains (c + 1) num den with
  | true, true =>
    if below < above ∨ (below = above ∧ c % 2 = 0) then some c else some (c + 1)
  | true, false => some c
  | false, true => some (c + 1)
  | false, false => none

/-- The exponent of the first decimal digit of the value. The estimate from the binary logarithm is
at most one too small. -/
def leadExponent (i : RoundingInterval) : Int :=
  let estimate := (((i.value.log2 : Int) - 1076) * 30103).fdiv 100000
  let next := estimate + 1
  if 10 ^ next.toNat * 2 ^ 1076 ≤ i.value * 10 ^ (-next).toNat then next else estimate

/-- The first decimal in the interval on the grids of exponent `exponent`, `exponent - 1` and so on.
Seventeen grids are enough for a hit; the value cut off at the last one stands for the impossible
case. -/
def search (i : RoundingInterval) : Nat → Int → Decimal
  | 0, exponent => ⟨i.value * 10 ^ (-exponent).toNat / (10 ^ exponent.toNat * 2 ^ 1076), exponent⟩
  | steps + 1, exponent =>
    match i.onGrid? exponent with
    | some c => ⟨c, exponent⟩
    | none => i.search steps (exponent - 1)

end RoundingInterval

/-- The shortest decimal of the magnitude of a number. -/
def Binary64.shortestDecimal (x : Binary64) : Decimal :=
  if x.rank = 0 then ⟨0, 0⟩
  else
    let i := RoundingInterval.ofBinary64 x
    (i.search 17 i.leadExponent).trim 17

end SchemaBridge
