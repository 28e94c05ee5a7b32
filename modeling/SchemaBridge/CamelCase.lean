import SchemaBridge.Letter

/-!
Names in upper camel case. A text is cut into words at every character that is neither letter nor
digit, between a lower-case and an upper-case letter, and before the last capital of a run that a
lower-case letter follows. Each word is then capitalised and the words are joined.
-/

namespace SchemaBridge

namespace CamelCase

/-- The case of the last letter of the word so far. Digits leave it as it was. -/
inductive Mode where
  | start
  | lower
  | upper
deriving DecidableEq

/-- The mode after a character that goes on with the word. -/
def Mode.next (mode : Mode) (c : Char) : Mode :=
  if Letter.isLower c then .lower else if Letter.isUpper c then .upper else mode

/-- Cuts letters and digits into words. The word so far is held last character first. -/
def splitCase (mode : Mode) (word : List Char) : List Char → List (List Char)
  | [] => if word.isEmpty then [] else [word.reverse]
  | [c] => [(c :: word).reverse]
  | c :: d :: rest =>
    if mode.next c = .lower ∧ Letter.isUpper d then
      (c :: word).reverse :: splitCase .start [] (d :: rest)
    else if mode = .upper ∧ Letter.isUpper c ∧ Letter.isLower d then
      word.reverse :: splitCase .start [c] (d :: rest)
    else splitCase (mode.next c) (c :: word) (d :: rest)

/-- The runs of letters and digits in a text. -/
def pieces : List Char → List (List Char)
  | [] => [[]]
  | c :: rest =>
    if Letter.isAlphanumeric c then
      match pieces rest with
      | [] => [[c]]
      | piece :: more => (c :: piece) :: more
    else [] :: pieces rest

def words (text : List Char) : List (List Char) :=
  (pieces text).flatMap (splitCase .start [])

/-- A text in lower case. A capital sigma at the end takes its final form. -/
def lowerWord : List Char → List Char
  | [] => []
  | ['Σ'] => ['ς']
  | c :: rest => Letter.lower c ++ lowerWord rest

/-- A word with its first character in upper case and the others in lower case. -/
def capitalize : List Char → List Char
  | [] => []
  | c :: rest => Letter.upper c ++ lowerWord rest

def ofText (text : String) : String :=
  String.ofList ((words text.toList).flatMap capitalize)

end CamelCase

end SchemaBridge
