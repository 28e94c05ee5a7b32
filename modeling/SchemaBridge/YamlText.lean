/-!
The characters of a YAML text, each with its line and column. Every line break is read as a line
feed, except the separators of lines and paragraphs, which stand for themselves. The list ends with
a mark for the end of the text, which no text may contain.
-/

namespace SchemaBridge

structure YamlChar where
  char : Char
  line : Nat
  column : Nat

namespace YamlText

/-- The mark for the end of a text. -/
def endMark : Char := '\x00'

def byteOrderMark : Char := '\uFEFF'

def isAllowed (c : Char) : Bool :=
  c == '\t' || c == '\n' || c == '\r' || (' ' ≤ c && c ≤ '~') || c == '\x85'
    || ('\xa0' ≤ c && c.toNat ≤ 0xFFFD) || 0x10000 ≤ c.toNat

def isBreak (c : Char) : Bool :=
  c == '\n' || c == '\u2028' || c == '\u2029'

/-- Reads every line break that is not a separator as a line feed. -/
def unifyBreaks : List Char → List Char
  | [] => []
  | '\r' :: '\n' :: rest => '\n' :: unifyBreaks rest
  | '\r' :: rest => '\n' :: unifyBreaks rest
  | '\x85' :: rest => '\n' :: unifyBreaks rest
  | c :: rest => c :: unifyBreaks rest

/-- Gives each character its place, and marks the end. -/
def place (line column : Nat) : List Char → List YamlChar
  | [] => [⟨endMark, line, column⟩]
  | c :: rest =>
    ⟨c, line, column⟩
      :: (if isBreak c then place (line + 1) 0 rest else place line (column + 1) rest)

/-- The characters of a text. A byte order mark at its start is skipped. -/
def ofText? (text : String) : Option (List YamlChar) :=
  let cs := match text.toList with
    | '\uFEFF' :: rest => rest
    | cs => cs
  if cs.all isAllowed then some (place 0 0 (unifyBreaks cs)) else none

end YamlText

namespace YamlChar

def isBlank (c : YamlChar) : Bool :=
  c.char == ' ' || c.char == '\t'

def isBreak (c : YamlChar) : Bool :=
  YamlText.isBreak c.char

def isSpace (c : YamlChar) : Bool :=
  c.isBlank || c.isBreak

def isEnd (c : YamlChar) : Bool :=
  c.char == YamlText.endMark

def endsLine (c : YamlChar) : Bool :=
  c.isBreak || c.isEnd

/-- The end of a word: a blank, a line break, or the end of the text. -/
def endsWord (c : YamlChar) : Bool :=
  c.isSpace || c.isEnd

/-- A character of a name: an ASCII letter or digit, a hyphen, or an underscore. -/
def isNameChar (c : YamlChar) : Bool :=
  c.char.isAlphanum || c.char == '-' || c.char == '_'

end YamlChar

namespace YamlText

/-- The first character of the rest of a text, which is the end mark when nothing is left. -/
def front : List YamlChar → Char
  | [] => endMark
  | c :: _ => c.char

/-- The column that the rest of a text starts in. -/
def column : List YamlChar → Nat
  | [] => 0
  | c :: _ => c.column

/-- The line that the rest of a text starts in. -/
def line : List YamlChar → Nat
  | [] => 0
  | c :: _ => c.line

/-- Whether the rest of a text starts with the end of a word. -/
def endsWord : List YamlChar → Bool
  | [] => true
  | c :: _ => c.endsWord

/-- Skips a byte order mark at the start of a line. -/
def skipByteOrderMark : List YamlChar → List YamlChar
  | [] => []
  | c :: rest => if c.char == byteOrderMark && c.column == 0 then rest else c :: rest

/-- Whether the rest of a text starts with three equal characters at the start of a line, and
nothing more in that word. -/
def startsMarker (mark : Char) : List YamlChar → Bool
  | a :: b :: c :: rest =>
    a.column == 0 && a.char == mark && b.char == mark && c.char == mark && endsWord rest
  | _ => false

/-- Whether the rest of a text starts with a marker of the start or the end of a document. -/
def startsDocumentMarker (cs : List YamlChar) : Bool :=
  startsMarker '-' cs || startsMarker '.' cs

theorem length_dropWhile_le {α : Type} (p : α → Bool) (cs : List α) :
    (cs.dropWhile p).length ≤ cs.length :=
  (List.dropWhile_sublist p).length_le

end YamlText

end SchemaBridge
