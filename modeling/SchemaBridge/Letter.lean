import SchemaBridge.LetterTable

/-!
Classes and case mappings of characters in every script. A case mapping may give several
characters.
-/

namespace SchemaBridge

namespace Letter

def isAlphanumeric (c : Char) : Bool :=
  LetterTable.alphanumeric.any fun (first, last) => first ≤ c.toNat && c.toNat ≤ last

def isUpper (c : Char) : Bool :=
  LetterTable.upperCase.any (·.contains c.toNat)

def isLower (c : Char) : Bool :=
  LetterTable.lowerCase.any (·.contains c.toNat)

/-- Maps a character by a list of exceptions and shifts. A character in neither stays. -/
def mapBy (several : List (Nat × List Nat)) (shifts : List LetterTable.Shift) (c : Char) :
    List Char :=
  match several.lookup c.toNat with
  | some points => points.map Char.ofNat
  | none =>
    match shifts.find? (·.contains c.toNat) with
    | some shift => [Char.ofNat (c.toNat + shift.distance).toNat]
    | none => [c]

def upper (c : Char) : List Char :=
  mapBy LetterTable.toUpperSeveral LetterTable.toUpper c

def lower (c : Char) : List Char :=
  mapBy LetterTable.toLowerSeveral LetterTable.toLower c

end Letter

end SchemaBridge
