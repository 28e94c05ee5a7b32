import SchemaBridge.Entries

/-!
A tree of files, folders and links, and how paths lead through it: from the top, or from the folder
in which a program runs. A location is the list of names that leads to it from the top. Main
statement: what a write leaves is the tree with one text saved, at the location that its path leads
to.
-/

namespace SchemaBridge

/-- Why a path cannot be read or written. The last case carries what a system refuses for reasons
beyond the shape of its tree. -/
inductive AccessFault where
  | notFound
  | notFolder
  | isFolder
  | tooManyLinks
  | notText
  | other (description : String) (code : Nat)
deriving DecidableEq

namespace AccessFault

def message : AccessFault → String
  | notFound => "No such file or directory (os error 2)"
  | notFolder => "Not a directory (os error 20)"
  | isFolder => "Is a directory (os error 21)"
  | tooManyLinks => "Too many levels of symbolic links (os error 40)"
  | notText => "stream did not contain valid UTF-8"
  | other description code => description ++ " (os error " ++ toString code ++ ")"

/-- Whether a path with this fault leads to nothing that exists. -/
def isAbsence : AccessFault → Bool
  | notFound | notFolder | tooManyLinks => true
  | _ => false

end AccessFault

/-- The names on the way from the top to a file or a folder. -/
abbrev Location := List String

/-- The content of a file: a text, or bytes that spell none. -/
inductive Content where
  | text (text : String)
  | bytes (bytes : List UInt8) (invalid : ¬ bytes.toByteArray.IsValidUTF8)
deriving DecidableEq

/-- What a location can hold. A link holds a path, which is followed in its place. -/
inductive TreeEntry where
  | folder
  | file (content : Content)
  | link (path : String)
deriving DecidableEq

inductive Access where
  | read
  | write
deriving DecidableEq

/-- A tree: what its locations hold, in the order in which they were made; the folder in which a
program runs; and which accesses the system refuses, with its description and code. -/
structure FileTree where
  entries : List (Location × TreeEntry) := []
  start : Location := []
  refusals : List ((Access × Location) × (String × Nat)) := []
deriving DecidableEq

namespace FileTree

/-- What is at a location. The start, the top and all locations on the way to an entry are folders,
listed or not. -/
def at? (f : FileTree) (l : Location) : Option TreeEntry :=
  if l.isPrefixOf f.start then some .folder
  else match f.entries.lookup l with
    | some entry => some entry
    | none => if f.entries.any fun (other, _) => l.isPrefixOf other then some .folder else none

/-- Why a location is no folder, if it is none. -/
def enter (f : FileTree) (l : Location) : Except AccessFault Unit :=
  match f.at? l with
  | some .folder => .ok ()
  | some _ => .error .notFolder
  | none => .error .notFound

/-- The names of a path. A path from the top begins with an empty one. -/
def names (path : String) : List String :=
  (path.toList.splitOn '/').map String.ofList

/-- Where the names of a path begin, if it is met at a location. -/
def origin (l : Location) (path : String) : Location :=
  if path.toList.head? = some '/' then [] else l

/-- Where one name leads from a folder. An empty name and a dot stay there, and two dots lead back,
where the top leads to itself. -/
def step (f : FileTree) (l : Location) (name : String) : Except AccessFault Location := do
  f.enter l
  if name = "" ∨ name = "." then return l
  else if name = ".." then return l.dropLast
  else return l ++ [name]

/-- Follows names from a location on. At a link, its own names and the rest behind them lead on by
`jump`. -/
def walk (f : FileTree) (jump : Location → List String → Except AccessFault Location)
    (l : Location) : List String → Except AccessFault Location
  | [] => .ok l
  | name :: rest => do
    let next ← f.step l name
    match f.at? next with
    | some (.link path) => jump (origin l path) (names path ++ rest)
    | _ => walk f jump next rest

/-- Follows names, over a limited number of links. -/
def follow (f : FileTree) : Nat → Location → List String → Except AccessFault Location
  | 0 => f.walk fun _ _ => .error .tooManyLinks
  | links + 1 => f.walk (follow f links)

/-- How many links one path may lead over. -/
def maxLinks : Nat :=
  40

/-- Follows names that belong to a path of the program. -/
def resolve (f : FileTree) (path : String) (names : List String) :
    Except AccessFault Location :=
  f.follow maxLinks (origin f.start path) names

def permit (f : FileTree) (access : Access) (l : Location) : Except AccessFault Unit :=
  match f.refusals.lookup (access, l) with
  | some (description, code) => .error (.other description code)
  | none => .ok ()

def read (f : FileTree) (path : String) : Except AccessFault String := do
  let l ← f.resolve path (names path)
  match f.at? l with
  | none => throw .notFound
  | some entry =>
    f.permit .read l
    match entry with
    | .file (.text text) => return text
    | .file (.bytes _ _) => throw .notText
    | _ => throw .isFolder

/-- The location that can be written at the end of a path. A slash at the end asks for a folder. -/
def target (f : FileTree) (path : String) : Except AccessFault Location := do
  let l ← f.resolve path ((names path).reverse.dropWhile (· = "")).reverse
  if (names path).getLast? = some "" ∨ f.at? l = some .folder then throw .isFolder
  f.permit .write l
  return l

def save (f : FileTree) (l : Location) (text : String) : FileTree :=
  { f with entries := Entries.put l (.file (.text text)) f.entries }

def write (f : FileTree) (path text : String) : Except AccessFault FileTree := do
  return f.save (← f.target path) text

theorem write_eq_ok_iff {f g : FileTree} {path text : String} :
    f.write path text = .ok g ↔ ∃ l, f.target path = .ok l ∧ g = f.save l text := by
  cases h : f.target path <;> simp [write, h, bind, Except.bind, pure, Except.pure, eq_comm]

end FileTree

end SchemaBridge
