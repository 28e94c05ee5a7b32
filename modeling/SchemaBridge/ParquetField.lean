/-!
Fields of a Parquet message, and the text of a message: one line for a column, and a bracketed block
for a group, each level indented by two spaces.
-/

namespace SchemaBridge

inductive Repetition where
  | required
  | optional
  | repeated
deriving DecidableEq

def Repetition.word : Repetition → String
  | required => "required"
  | optional => "optional"
  | repeated => "repeated"

inductive PhysicalType where
  | boolean
  | int32
  | double
  | binary
deriving DecidableEq

def PhysicalType.word : PhysicalType → String
  | boolean => "boolean"
  | int32 => "int32"
  | double => "double"
  | binary => "binary"

inductive LogicalType where
  | utf8
  | enumeration
deriving DecidableEq

def LogicalType.word : LogicalType → String
  | utf8 => "UTF8"
  | enumeration => "ENUM"

/-- A field of a message: a column, or a group of fields. -/
inductive ParquetField where
  | column (repetition : Repetition) (physical : PhysicalType) (logical : Option LogicalType)
      (name : String)
  | group (repetition : Repetition) (name : String) (fields : List ParquetField)

namespace ParquetField

def name : ParquetField → String
  | column _ _ _ name => name
  | group _ name _ => name

def repetition : ParquetField → Repetition
  | column repetition _ _ _ => repetition
  | group repetition _ _ => repetition

def annotation : Option LogicalType → String
  | some logical => " (" ++ logical.word ++ ")"
  | none => ""

mutual
def linesAt (indent : String) : ParquetField → List String
  | column repetition physical logical name =>
    [indent ++ repetition.word ++ " " ++ physical.word ++ " " ++ name ++ annotation logical ++ ";"]
  | group repetition name fields =>
    (indent ++ repetition.word ++ " group " ++ name ++ " \x7b")
      :: (linesOfAll (indent ++ "  ") fields ++ [indent ++ "\x7d"])

def linesOfAll (indent : String) : List ParquetField → List String
  | [] => []
  | field :: rest => linesAt indent field ++ linesOfAll indent rest
end

def lines (field : ParquetField) : List String :=
  linesAt "" field

end ParquetField

/-- A message: its name and its fields. -/
structure ParquetMessage where
  name : String
  fields : List ParquetField

namespace ParquetMessage

/-- Wraps lines in the name of a message, each indented by two spaces. -/
def wrap (name : String) (lines : List String) : String :=
  "\n".intercalate (["message " ++ name ++ " \x7b"] ++ lines.map ("  " ++ ·) ++ ["\x7d"])

def lines (m : ParquetMessage) : List String :=
  ParquetField.linesOfAll "" m.fields

/-- The text of a message. -/
def text (m : ParquetMessage) : String :=
  wrap m.name m.lines

end ParquetMessage

end SchemaBridge
