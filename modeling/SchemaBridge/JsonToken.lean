import SchemaBridge.Numeral

/-!
Tokens of JSON text: brackets, separators, texts, and the scalars that are not texts. Each token
takes at least one character, so a text is cut into tokens from front to back.
-/

namespace SchemaBridge

/-- A token of JSON text. -/
inductive JsonToken where
  | beginArray
  | endArray
  | beginObject
  | endObject
  | colon
  | comma
  | text (content : String)
  | scalar (value : Json)

namespace JsonToken

/-- Space, tab, line feed and carriage return. -/
def isBlank (c : Char) : Bool :=
  c == ' ' || c == '\t' || c == '\n' || c == '\r'

def hexDigit? (c : Char) : Option Nat :=
  if c.isDigit then some (c.toNat - '0'.toNat)
  else if 'a' ≤ c ∧ c ≤ 'f' then some (c.toNat - 'a'.toNat + 10)
  else if 'A' ≤ c ∧ c ≤ 'F' then some (c.toNat - 'A'.toNat + 10)
  else none

def hexUnit? (a b c d : Char) : Option Nat := do
  return 4096 * (← hexDigit? a) + 256 * (← hexDigit? b) + 16 * (← hexDigit? c) + (← hexDigit? d)

def escaped? : Char → Option Char
  | '"' => some '"'
  | '\\' => some '\\'
  | '/' => some '/'
  | 'b' => some '\x08'
  | 'f' => some '\x0c'
  | 'n' => some '\n'
  | 'r' => some '\r'
  | 't' => some '\t'
  | _ => none

/-- The character beyond the basic plane that a pair of surrogates encodes. -/
def surrogatePair? (high low : Nat) : Option Char :=
  if 0xD800 ≤ high ∧ high < 0xDC00 ∧ 0xDC00 ≤ low ∧ low < 0xE000 then
    some (Char.ofNat (0x10000 + (high - 0xD800) * 0x400 + (low - 0xDC00)))
  else none

/-- Reads what follows a backslash. A character beyond the basic plane takes two escapes, and a
surrogate that is not one of such a pair is refused. -/
def scanEscape? : List Char → Option (Char × List Char)
  | 'u' :: a :: b :: c :: d :: rest => do
    let unit ← hexUnit? a b c d
    if unit < 0xD800 ∨ 0xE000 ≤ unit then some (Char.ofNat unit, rest)
    else match rest with
      | '\\' :: 'u' :: a' :: b' :: c' :: d' :: rest' => do
        return (← surrogatePair? unit (← hexUnit? a' b' c' d'), rest')
      | _ => none
  | c :: rest => (escaped? c).map fun e => (e, rest)
  | [] => none

theorem length_scanEscape? {cs : List Char} {c : Char} {rest : List Char}
    (h : scanEscape? cs = some (c, rest)) : rest.length < cs.length := by
  unfold scanEscape? at h
  split at h
  · simp only [Option.bind_eq_bind, Option.bind_eq_some_iff] at h
    obtain ⟨unit, -, h⟩ := h
    split at h
    · cases h; simp; omega
    · split at h
      · simp only [Option.pure_def, Option.bind_eq_some_iff, Option.some.injEq, Prod.mk.injEq] at h
        obtain ⟨-, -, -, -, -, rfl⟩ := h
        simp; omega
      · cases h
  · simp only [Option.map_eq_some_iff, Prod.mk.injEq] at h
    obtain ⟨-, -, -, rfl⟩ := h
    simp
  · cases h

/-- Reads the inside of a quoted text up to its closing quote. The characters read so far are held
last first. -/
def scanText? (done : List Char) : List Char → Option (String × List Char)
  | [] => none
  | c :: rest =>
    if c = '"' then some (String.ofList done.reverse, rest)
    else if c = '\\' then
      match _h : scanEscape? rest with
      | some (e, rest') => scanText? (e :: done) rest'
      | none => none
    else if c < ' ' then none
    else scanText? (c :: done) rest
termination_by cs => cs.length
decreasing_by
  · have := length_scanEscape? _h; simp; omega
  · simp

/-- Reads the digits before the point: a zero alone, or digits that start with no zero. -/
def scanWhole? : List Char → Option (List Char × List Char)
  | '0' :: rest => some (['0'], rest)
  | cs =>
    match Numeral.spanDigits cs with
    | ([], _) => none
    | (digits, rest) => some (digits, rest)

/-- Reads a point and the digits after it, if there is a point. -/
def scanFraction? : List Char → Option (Option (List Char) × List Char)
  | '.' :: rest =>
    match Numeral.spanDigits rest with
    | ([], _) => none
    | (digits, rest) => some (some digits, rest)
  | cs => some (none, cs)

/-- Reads an exponent, if there is one. -/
def scanPower? : List Char → Option (Option Int × List Char)
  | 'e' :: rest | 'E' :: rest => (Numeral.scanExponent? rest).map fun (e, rest) => (some e, rest)
  | cs => some (none, cs)

def scanNumeral? (negative : Bool) (cs : List Char) : Option (Numeral × List Char) := do
  let (whole, rest) ← scanWhole? cs
  let (fraction, rest) ← scanFraction? rest
  let (exponent, rest) ← scanPower? rest
  return (⟨negative, whole, fraction, exponent⟩, rest)

/-- Reads the token at the front of a text that starts with no blank. -/
def next? : List Char → Option (JsonToken × List Char)
  | '[' :: rest => some (beginArray, rest)
  | ']' :: rest => some (endArray, rest)
  | '{' :: rest => some (beginObject, rest)
  | '}' :: rest => some (endObject, rest)
  | ':' :: rest => some (colon, rest)
  | ',' :: rest => some (comma, rest)
  | '"' :: rest => (scanText? [] rest).map fun (s, rest) => (text s, rest)
  | 'n' :: 'u' :: 'l' :: 'l' :: rest => some (scalar .null, rest)
  | 't' :: 'r' :: 'u' :: 'e' :: rest => some (scalar (.bool true), rest)
  | 'f' :: 'a' :: 'l' :: 's' :: 'e' :: rest => some (scalar (.bool false), rest)
  | '-' :: rest => do
    let (numeral, rest) ← scanNumeral? true rest
    return (scalar (.number (← numeral.toNumber?)), rest)
  | cs => do
    let (numeral, rest) ← scanNumeral? false cs
    return (scalar (.number (← numeral.toNumber?)), rest)

/-- Cuts a text into tokens. Each takes at least one character, which the length check states. -/
def ofChars? (cs : List Char) : Option (List JsonToken) :=
  match next? (cs.dropWhile isBlank) with
  | some (token, rest) =>
    if rest.length < cs.length then (ofChars? rest).map (token :: ·) else none
  | none => if cs.all isBlank then some [] else none
termination_by cs.length

/-- The tokens of a text. -/
def ofText? (text : String) : Option (List JsonToken) :=
  ofChars? text.toList

end JsonToken

end SchemaBridge
