import SchemaBridge.Json

/-!
Pointers into a JSON document. A pointer is a text of tokens, each after a slash; a tilde in a token
is written `~0` and a slash `~1`. Looking a pointer up follows the tokens as object keys and array
indexes. Main statement: a written token is read back.
-/

namespace SchemaBridge

namespace Pointer

/-- A token as it is written in a pointer. -/
def encode : List Char → List Char
  | [] => []
  | '~' :: rest => '~' :: '0' :: encode rest
  | '/' :: rest => '~' :: '1' :: encode rest
  | c :: rest => c :: encode rest

/-- The token that is written in a pointer. A tilde before any other character stands for
itself. -/
def decode : List Char → List Char
  | [] => []
  | '~' :: '0' :: rest => '~' :: decode rest
  | '~' :: '1' :: rest => '/' :: decode rest
  | c :: rest => c :: decode rest

theorem decode_encode (token : List Char) : decode (encode token) = token := by
  fun_induction encode token with
  | case1 => rfl
  | case2 rest ih => simp [decode, ih]
  | case3 rest ih => simp [decode, ih]
  | case4 c rest hc _ ih =>
    rw [decode.eq_4]
    · rw [ih]
    · rintro _ rfl; exact (hc rfl).elim
    · rintro _ rfl; exact (hc rfl).elim

theorem slash_not_mem_encode (token : List Char) : '/' ∉ encode token := by
  fun_induction encode token with
  | case1 => simp
  | case2 rest ih => simp [ih]
  | case3 rest ih => simp [ih]
  | case4 c rest _ hc ih => simp only [List.mem_cons, not_or]; exact ⟨fun h => hc h.symm, ih⟩

/-- The pointer to a part of the value that `base` points to. -/
def child (base token : String) : String :=
  base ++ "/" ++ String.ofList (encode token.toList)

def element (base : String) (index : Nat) : String :=
  child base (toString index)

def splitSlashes : List Char → List (List Char)
  | [] => [[]]
  | c :: rest =>
    if c = '/' then [] :: splitSlashes rest
    else match splitSlashes rest with
      | [] => [[c]]
      | part :: parts => (c :: part) :: parts

/-- The tokens of a pointer. The empty pointer has none, and every other one starts with a
slash. -/
def tokens? (pointer : String) : Option (List String) :=
  match pointer.toList with
  | [] => some []
  | '/' :: rest => some ((splitSlashes rest).map fun part => String.ofList (decode part))
  | _ => none

/-- The array index that a token spells: decimal digits without a leading zero. -/
def index? (token : String) : Option Nat :=
  match token.toList with
  | [] => none
  | ['0'] => some 0
  | '0' :: _ => none
  | digits => if digits.all Char.isDigit then some (Nat.ofDigitChars 10 digits 0) else none

/-- The pointer in a reference within the same document: what follows the number sign. -/
def ofReference? (reference : String) : Option String :=
  match reference.toList with
  | ['#'] => some ""
  | '#' :: '/' :: rest => some (String.ofList ('/' :: rest))
  | _ => none

end Pointer

namespace Json

/-- The part of a value that one token leads to. -/
def step? (v : Json) (token : String) : Option Json :=
  match v with
  | object members => members.lookup token
  | array elements => do elements[← Pointer.index? token]?
  | _ => none

/-- The part of a value that a list of tokens leads to. -/
def follow? (v : Json) (tokens : List String) : Option Json :=
  tokens.foldlM step? v

/-- The part of a value that a pointer denotes. -/
def at? (v : Json) (pointer : String) : Option Json := do
  v.follow? (← Pointer.tokens? pointer)

@[simp] theorem at?_empty (v : Json) : v.at? "" = some v := rfl

end Json

end SchemaBridge
