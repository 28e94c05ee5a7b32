import SchemaBridge.YamlText
import SchemaBridge.JsonToken

/-!
The content of YAML scalars. A plain or quoted scalar may run over several lines: a single line
break between two parts is read as a space, and of several breaks all but the first are kept. A
block scalar keeps its line breaks or folds them likewise, and its header says what becomes of the
breaks at its end.
-/

namespace SchemaBridge

/-- How a scalar is written. -/
inductive ScalarStyle where
  | plain
  | quoted
  | literal
  | folded
deriving DecidableEq

namespace YamlScalar

open YamlText

/-- What a run of blanks and line breaks between two parts of a scalar contributes. -/
def fold (gap : List YamlChar) : List Char :=
  match gap.filter YamlChar.isBreak with
  | [] => gap.map YamlChar.char
  | first :: others =>
    if first.char = '\n' then
      if others.isEmpty then [' '] else others.map YamlChar.char
    else (first :: others).map YamlChar.char

/-- The indicators that end a plain scalar inside brackets. -/
def flowIndicators : List Char := [',', '[', ']', '{', '}']

/-- Reads one word of a plain scalar. A colon ends it before the end of a word; inside brackets so
does an indicator, but a colon may not stand before one. -/
def plainWord? (inFlow : Bool) : List YamlChar → Option (List Char × List YamlChar)
  | c :: d :: rest =>
    if c.endsWord then some ([], c :: d :: rest)
    else if inFlow ∧ c.char = ':' ∧ d.char ∈ '?' :: flowIndicators then none
    else if (c.char = ':' ∧ d.endsWord) ∨ (inFlow ∧ c.char ∈ flowIndicators) then
      some ([], c :: d :: rest)
    else (plainWord? inFlow (d :: rest)).map fun (word, rest) => (c.char :: word, rest)
  | cs => some ([], cs)

/-- A plain scalar that was read: its content, whether a line break follows it, and the rest of the
text behind the blanks that follow. -/
structure Plain where
  content : List Char
  endsLine : Bool
  rest : List YamlChar

/-- Whether a gap holds a tab behind a line break and left of an indentation. -/
def hasMisplacedTab (indent : Int) (gap : List YamlChar) : Bool :=
  (gap.dropWhile YamlChar.isBlank).any fun c => c.char == '\t' && (c.column : Int) < indent

/-- Reads a plain scalar. Outside brackets its further lines reach at least to the given
indentation. -/
def plain? (inFlow : Bool) (indent : Int) (cs : List YamlChar) : Option Plain :=
  if startsDocumentMarker cs ∨ front cs = '#' then some ⟨[], false, cs⟩
  else match plainWord? inFlow cs with
    | none => none
    | some (word, rest) =>
      let gap := rest.takeWhile YamlChar.isSpace
      let next := rest.dropWhile YamlChar.isSpace
      let ended : Plain := ⟨word, gap.any YamlChar.isBreak, next⟩
      if gap.isEmpty then some ended
      else if hasMisplacedTab indent gap then none
      else if ¬inFlow ∧ (column next : Int) < indent then some ended
      else if next.length < cs.length then
        match plain? inFlow indent next with
        | none => none
        | some more =>
          if more.content.isEmpty then some ended
          else some { more with content := word ++ fold gap ++ more.content }
      else none
termination_by cs.length

def hexValue? (digits : List YamlChar) : Option Nat :=
  digits.foldlM (fun n c => do return 16 * n + (← JsonToken.hexDigit? c.char)) 0

/-- Reads a character given by a count of hexadecimal digits. -/
def hexEscape? (count : Nat) (cs : List YamlChar) : Option (Char × List YamlChar) := do
  if cs.length < count then none
  let n ← hexValue? (cs.take count)
  if (0xD800 ≤ n ∧ n ≤ 0xDFFF) ∨ 0x10FFFF < n then none
  return (Char.ofNat n, cs.drop count)

def escaped? : Char → Option Char
  | '0' => some '\x00'
  | 'a' => some '\x07'
  | 'b' => some '\x08'
  | 't' | '\t' => some '\t'
  | 'n' => some '\n'
  | 'v' => some '\x0b'
  | 'f' => some '\x0c'
  | 'r' => some '\r'
  | 'e' => some '\x1b'
  | ' ' => some ' '
  | '"' => some '"'
  | '/' => some '/'
  | '\\' => some '\\'
  | 'N' => some '\x85'
  | '_' => some '\xa0'
  | 'L' => some '\u2028'
  | 'P' => some '\u2029'
  | _ => none

def escape? : List YamlChar → Option (Char × List YamlChar)
  | [] => none
  | c :: rest =>
    match c.char with
    | 'x' => hexEscape? 2 rest
    | 'u' => hexEscape? 4 rest
    | 'U' => hexEscape? 8 rest
    | e => (escaped? e).map fun e => (e, rest)

def prepend (text : List Char) :
    Option (List Char × List YamlChar) → Option (List Char × List YamlChar) :=
  Option.map fun (content, rest) => (text ++ content, rest)

/-- Reads the inside of a scalar between single quotes, where a quote is written twice. -/
def singleQuoted? : List YamlChar → Option (List Char × List YamlChar)
  | [] => none
  | c :: rest =>
    if c.isEnd ∨ startsDocumentMarker (c :: rest) then none
    else if c.isSpace then
      prepend (fold (c :: rest.takeWhile YamlChar.isSpace))
        (singleQuoted? (rest.dropWhile YamlChar.isSpace))
    else if c.char = '\x27' then
      match rest with
      | [] => some ([], [])
      | d :: rest' =>
        if d.char = '\x27' then prepend ['\x27'] (singleQuoted? rest') else some ([], d :: rest')
    else prepend [c.char] (singleQuoted? rest)
termination_by cs => cs.length
decreasing_by
  · have := length_dropWhile_le YamlChar.isSpace rest; simp only [List.length_cons]; omega
  · simp only [List.length_cons]; omega
  · simp

/-- Reads the inside of a scalar between double quotes. A backslash at the end of a line joins it
with the next one. -/
def doubleQuoted? : List YamlChar → Option (List Char × List YamlChar)
  | [] => none
  | c :: rest =>
    if c.isEnd ∨ startsDocumentMarker (c :: rest) then none
    else if c.isSpace then
      prepend (fold (c :: rest.takeWhile YamlChar.isSpace))
        (doubleQuoted? (rest.dropWhile YamlChar.isSpace))
    else if c.char = '"' then some ([], rest)
    else if c.char = '\\' then
      match rest with
      | [] => none
      | d :: rest' =>
        if d.isBreak then
          let gap := rest'.takeWhile YamlChar.isSpace
          prepend ((gap.filter YamlChar.isBreak).map YamlChar.char)
            (doubleQuoted? (rest'.dropWhile YamlChar.isSpace))
        else match escape? (d :: rest') with
          | some (e, next) =>
            if next.length ≤ rest'.length then prepend [e] (doubleQuoted? next) else none
          | none => none
    else prepend [c.char] (doubleQuoted? rest)
termination_by cs => cs.length
decreasing_by
  · have := length_dropWhile_le YamlChar.isSpace rest; simp only [List.length_cons]; omega
  · have := length_dropWhile_le YamlChar.isSpace rest'; simp; omega
  · simp only [List.length_cons]; omega
  · simp

/-- What becomes of the line breaks at the end of a block scalar. -/
inductive Chomping where
  | strip
  | clip
  | keep

/-- The header of a block scalar: what becomes of its last breaks, and the extra indentation if it
is given. -/
structure BlockHeader where
  chomping : Chomping
  increment : Option Nat

def chomping? : List YamlChar → Option (Chomping × List YamlChar)
  | [] => none
  | c :: rest =>
    if c.char = '+' then some (.keep, rest)
    else if c.char = '-' then some (.strip, rest)
    else none

/-- Reads the digit of a block header, which is not zero. -/
def increment? : List YamlChar → Option (Option Nat × List YamlChar)
  | [] => some (none, [])
  | c :: rest =>
    if c.char = '0' then none
    else if c.char.isDigit then some (some (c.char.toNat - '0'.toNat), rest)
    else some (none, c :: rest)

/-- Reads the sign and the digit of a block header, in either order. -/
def blockHeader? (cs : List YamlChar) : Option (BlockHeader × List YamlChar) :=
  match chomping? cs with
  | some (chomping, rest) => do
    let (increment, rest) ← increment? rest
    return (⟨chomping, increment⟩, rest)
  | none => do
    let (increment, rest) ← increment? cs
    match increment, chomping? rest with
    | some _, some (chomping, rest) => return (⟨chomping, increment⟩, rest)
    | _, _ => return (⟨.clip, increment⟩, rest)

/-- Reads the blanks, the comment and the break that end a line with nothing else on it. -/
def endOfLine? (cs : List YamlChar) : Option (List YamlChar) :=
  let cs := cs.dropWhile YamlChar.isBlank
  let cs := if front cs = '#' then cs.dropWhile (! ·.endsLine) else cs
  match cs with
  | [] => some []
  | c :: rest => if c.isBreak then some rest else if c.isEnd then some (c :: rest) else none

/-- The start of a block scalar line: the breaks of the empty lines before it, the widest
indentation of these lines, and the rest of the text. -/
structure BlockIndent where
  breaks : List Char
  widest : Nat
  rest : List YamlChar

/-- Skips empty lines and the indentation of the next line, up to the given column if there is one.
A tab may not take the place of indentation. -/
def blockIndent? (indent : Option Nat) (cs : List YamlChar) : Option BlockIndent :=
  let inIndent (c : YamlChar) : Bool := indent.all (c.column < ·)
  match cs.dropWhile fun c => c.char == ' ' && inIndent c with
  | [] => some ⟨[], 0, []⟩
  | c :: rest =>
    if c.char = '\t' ∧ inIndent c then none
    else if c.isBreak then
      if rest.length < cs.length then
        (blockIndent? indent rest).map fun b =>
          { b with breaks := c.char :: b.breaks, widest := max c.column b.widest }
      else none
    else some ⟨[], c.column, c :: rest⟩
termination_by cs.length

/-- The content of a block scalar so far: its text, the break after the last line, the breaks of the
empty lines after that, and whether the last line starts with a blank. -/
structure BlockContent where
  text : List Char := []
  lastBreak : List Char := []
  emptyBreaks : List Char := []
  startsBlank : Bool := false

/-- The text with the breaks before a next line. In a folded scalar the break between two lines that
start with no blank becomes a space, unless empty lines follow it. -/
def BlockContent.join (literal : Bool) (b : BlockContent) (startsBlank : Bool) : List Char :=
  if ¬literal ∧ b.lastBreak = ['\n'] ∧ ¬b.startsBlank ∧ ¬startsBlank then
    b.text ++ (if b.emptyBreaks.isEmpty then [' '] else b.emptyBreaks)
  else b.text ++ b.lastBreak ++ b.emptyBreaks

/-- The text with the breaks at the end as the header says. -/
def BlockContent.chomp (b : BlockContent) : Chomping → List Char
  | .strip => b.text
  | .clip => b.text ++ b.lastBreak
  | .keep => b.text ++ b.lastBreak ++ b.emptyBreaks

/-- Reads the lines of a block scalar at an indentation. -/
def blockLines? (literal : Bool) (indent : Nat) (b : BlockContent) (cs : List YamlChar) :
    Option (BlockContent × List YamlChar) :=
  match cs.head? with
  | none => some (b, [])
  | some c =>
    if c.column ≠ indent ∨ c.isEnd then some (b, cs)
    else
      let content := (cs.takeWhile (! ·.endsLine)).map YamlChar.char
      let rest := cs.dropWhile (! ·.endsLine)
      let (lastBreak, rest) := match rest with
        | d :: rest' => if d.isBreak then ([d.char], rest') else ([], rest)
        | [] => ([], [])
      match blockIndent? (some indent) rest with
      | none => none
      | some next =>
        if next.rest.length < cs.length then
          blockLines? literal indent
            { text := b.join literal c.isBlank ++ content
              lastBreak
              emptyBreaks := next.breaks
              startsBlank := c.isBlank } next.rest
        else none
termination_by cs.length

/-- Reads a block scalar behind its indicator, inside a block of the given indentation. Unless the
header gives it, the first line that is not empty shows the indentation of the content. -/
def block? (literal : Bool) (parentIndent : Int) (cs : List YamlChar) :
    Option (List Char × List YamlChar) := do
  let (header, rest) ← blockHeader? cs
  let rest ← endOfLine? rest
  let given := header.increment.map fun n => (max parentIndent 0).toNat + n
  let first ← blockIndent? given rest
  let indent := given.getD (max first.widest (max (parentIndent + 1) 1).toNat)
  let (content, rest) ← blockLines? literal indent { emptyBreaks := first.breaks } first.rest
  return (content.chomp header.chomping, rest)

end YamlScalar

end SchemaBridge
