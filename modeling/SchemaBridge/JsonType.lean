import SchemaBridge.Json

/-!
The type names of a schema language, and the type of a JSON value. A number without a fractional
part has type integer, and every number matches the type number.
-/

namespace SchemaBridge

/-- The types whose values have no parts. -/
inductive Primitive where
  | null
  | boolean
  | integer
  | number
  | string
deriving DecidableEq

inductive JsonType where
  | primitive (type : Primitive)
  | array
  | object
deriving DecidableEq

def Primitive.name : Primitive → String
  | null => "null"
  | boolean => "boolean"
  | integer => "integer"
  | number => "number"
  | string => "string"

namespace JsonType

def name : JsonType → String
  | primitive type => type.name
  | array => "array"
  | object => "object"

/-- Every type, from the simplest on. -/
def all : List JsonType :=
  [primitive .null, primitive .boolean, primitive .integer, primitive .number, primitive .string,
    array, object]

def ofName? (name : String) : Option JsonType :=
  all.find? fun t => t.name == name

theorem ofName?_name (t : JsonType) : ofName? t.name = some t := by
  cases t with
  | primitive p => cases p <;> rfl
  | array => rfl
  | object => rfl

/-- The names of several types, in brackets. -/
def listText (types : List JsonType) : String :=
  "[" ++ ", ".intercalate (types.map name) ++ "]"

def of : Json → JsonType
  | .null => primitive .null
  | .bool _ => primitive .boolean
  | .number n => if n.isIntegral then primitive .integer else primitive .number
  | .string _ => primitive .string
  | .array _ => array
  | .object _ => object

def accepts : JsonType → Json → Bool
  | primitive .number, .number _ => true
  | primitive .number, _ => false
  | t, v => of v == t

end JsonType

end SchemaBridge
