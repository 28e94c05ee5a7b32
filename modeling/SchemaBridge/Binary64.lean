/-!
Finite 64-bit floating-point numbers as exact data. A number is a sign and the rank of its magnitude
in the increasing list of the finite magnitudes, so every value has one representation, and every
magnitude is a whole number of units of `2 ^ -1074`. Rounding to the nearest number, a tie going to
the even significand, is integer arithmetic on these units.
-/

namespace SchemaBridge

-- powers are those of the core library, whatever else a module imports
attribute [instance (high), default_instance high + 1] instPowNat

/-- The quotient `num / den` rounded to the nearest integer, a half going to the even one. -/
def roundHalfEven (num den : Nat) : Nat :=
  let q := num / den
  let r := num % den
  if 2 * r < den then q
  else if den < 2 * r then q + 1
  else q + q % 2

theorem roundHalfEven_of_dvd {num den : Nat} (hd : 0 < den) (h : num % den = 0) :
    roundHalfEven num den = num / den := by
  simp [roundHalfEven, h, hd]

/-- A finite number: its sign, and how many finite magnitudes are smaller than its own. -/
structure Binary64 where
  negative : Bool
  rank : Nat
  rank_lt : rank < 2047 * 2 ^ 52
deriving DecidableEq

namespace Binary64

/-- The integer multiplied by a power of two to give the magnitude, below `2 ^ 53`. -/
def significand (x : Binary64) : Nat :=
  if x.rank < 2 ^ 52 then x.rank else 2 ^ 52 + x.rank % 2 ^ 52

/-- The power of two that scales the significand, counted from the smallest one. -/
def shift (x : Binary64) : Nat :=
  x.rank / 2 ^ 52 - 1

/-- The magnitude, counted in units of `2 ^ -1074`. -/
def units (x : Binary64) : Nat :=
  x.significand * 2 ^ x.shift

/-- Zero, with a sign. -/
def zero (negative : Bool) : Binary64 :=
  ⟨negative, 0, by decide⟩

/-- The rank of the magnitude nearest to `num / den` units. It may exceed every finite rank. -/
def nearestRank (num den : Nat) : Nat :=
  let shift := (num / den).log2 - 52
  shift * 2 ^ 52 + roundHalfEven num (den * 2 ^ shift)

/-- The number nearest to `num / den` units with the given sign, unless it overflows. -/
def nearest? (negative : Bool) (num den : Nat) : Option Binary64 :=
  if h : nearestRank num den < 2047 * 2 ^ 52 then some ⟨negative, nearestRank num den, h⟩ else none

/-- The number nearest to an integer. -/
def ofInt? (i : Int) : Option Binary64 :=
  nearest? (decide (i < 0)) (i.natAbs * 2 ^ 1074) 1

/-- The number nearest to `coefficient * 10 ^ exponent`. Exponents far outside the range are
decided by the count of digits alone, since their powers of ten are too large to write down. -/
def ofDecimal? (negative : Bool) (coefficient : Nat) (exponent : Int) : Option Binary64 :=
  let top : Int := (Nat.toDigits 10 coefficient).length + exponent
  if coefficient = 0 ∨ top < -400 then some (zero negative)
  else if 400 < top then none
  else nearest? negative (coefficient * 10 ^ exponent.toNat * 2 ^ 1074) (10 ^ (-exponent).toNat)

def isIntegral (x : Binary64) : Bool :=
  x.units % 2 ^ 1074 == 0

/-- Equality of values: the two zeros are equal. -/
def sameValue (x y : Binary64) : Bool :=
  x.rank == y.rank && (x.rank == 0 || x.negative == y.negative)

theorem sameValue_refl (x : Binary64) : x.sameValue x = true := by
  simp [sameValue]

theorem sameValue_comm (x y : Binary64) : x.sameValue y = y.sameValue x := by
  rw [Bool.eq_iff_iff]
  simp only [sameValue, Bool.and_eq_true, Bool.or_eq_true, beq_iff_eq]
  constructor <;> rintro ⟨h, h'⟩ <;> exact ⟨h.symm, by rw [← h]; exact h'.imp id Eq.symm⟩

end Binary64

end SchemaBridge
