import SchemaBridge.Json

/-!
Decimal spellings of numbers: a sign, digits before and after the point, and a power of ten. An
integer spelling that fits 64 bits keeps its exact value and every other spelling is rounded.
-/

namespace SchemaBridge

/-- A decimal spelling. Without a point or an exponent it spells an integer. -/
structure Numeral where
  negative : Bool
  whole : List Char
  fraction : Option (List Char)
  exponent : Option Int

namespace Numeral

/-- The digits at the front of a text, and the rest of it. -/
def spanDigits (cs : List Char) : List Char × List Char :=
  (cs.takeWhile Char.isDigit, cs.dropWhile Char.isDigit)

def digitsValue (digits : List Char) : Nat :=
  Nat.ofDigitChars 10 digits 0

/-- A sign and at least one digit, as an exponent is spelled. -/
def scanExponent? (cs : List Char) : Option (Int × List Char) :=
  let (negative, body) := match cs with
    | '-' :: rest => (true, rest)
    | '+' :: rest => (false, rest)
    | _ => (false, cs)
  match spanDigits body with
  | ([], _) => none
  | (digits, rest) =>
    some (if negative then -(digitsValue digits : Int) else digitsValue digits, rest)

/-- The floating-point number nearest to the spelled quantity, unless it overflows. -/
def toReal? (n : Numeral) : Option Binary64 :=
  let fraction := n.fraction.getD []
  Binary64.ofDecimal? n.negative (digitsValue (n.whole ++ fraction))
    (n.exponent.getD 0 - fraction.length)

/-- The spelled number. Minus zero is a floating-point number, as it has no exact integer. -/
def toNumber? (n : Numeral) : Option JsonNumber :=
  let magnitude := digitsValue n.whole
  if n.fraction.isNone ∧ n.exponent.isNone then
    if ¬n.negative ∧ magnitude < 2 ^ 64 then some (.integer magnitude)
    else if n.negative ∧ 0 < magnitude ∧ magnitude ≤ 2 ^ 63 then some (.integer (-magnitude))
    else n.toReal?.map .real
  else n.toReal?.map .real

end Numeral

end SchemaBridge
