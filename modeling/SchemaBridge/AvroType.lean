import SchemaBridge.JsonText
import SchemaBridge.JsonType

/-!
Types of Avro, and their form as JSON. A name stands for a primitive type or for a record or
enumeration that is defined elsewhere in the same schema.
-/

namespace SchemaBridge

structure AvroField (α : Type) where
  name : String
  type : α
  doc : Option String

inductive AvroType where
  | named (name : String)
  | union (members : List AvroType)
  | array (items : AvroType)
  | enumeration (name : String) (symbols : List String)
  | record (name : String) (doc : Option String) (fields : List (AvroField AvroType))

/-- The name of a primitive type in Avro. -/
def Primitive.avroName : Primitive → String
  | null => "null"
  | boolean => "boolean"
  | integer => "long"
  | number => "double"
  | string => "string"

/-- The Avro name of a type without parts. -/
def JsonType.avroName? : JsonType → Option String
  | primitive type => some type.avroName
  | _ => none

namespace AvroType

mutual
/-- Whether two types are written alike. -/
def same : AvroType → AvroType → Bool
  | named a, named b => a == b
  | union xs, union ys => sameAll xs ys
  | array x, array y => same x y
  | enumeration a xs, enumeration b ys => a == b && xs == ys
  | record a d xs, record b e ys => a == b && d == e && sameFields xs ys
  | _, _ => false

def sameAll : List AvroType → List AvroType → Bool
  | [], [] => true
  | x :: xs, y :: ys => same x y && sameAll xs ys
  | _, _ => false

def sameFields : List (AvroField AvroType) → List (AvroField AvroType) → Bool
  | [], [] => true
  | ⟨a, x, d⟩ :: xs, ⟨b, y, e⟩ :: ys => a == b && same x y && d == e && sameFields xs ys
  | _, _ => false
end

mutual
theorem same_iff : ∀ x y : AvroType, x.same y = true ↔ x = y
  | named a, y => by cases y <;> simp [same]
  | union xs, y => by cases y <;> simp [same, sameAll_iff xs]
  | array x, y => by cases y <;> simp [same, same_iff x]
  | enumeration a xs, y => by cases y <;> simp [same]
  | record a d xs, y => by cases y <;> simp [same, sameFields_iff xs, and_assoc]

theorem sameAll_iff : ∀ xs ys : List AvroType, sameAll xs ys = true ↔ xs = ys
  | [], ys => by cases ys <;> simp [sameAll]
  | x :: xs, ys => by cases ys <;> simp [sameAll, same_iff x, sameAll_iff xs]

theorem sameFields_iff : ∀ xs ys : List (AvroField AvroType), sameFields xs ys = true ↔ xs = ys
  | [], ys => by cases ys <;> simp [sameFields]
  | ⟨a, x, d⟩ :: xs, ys => by
    cases ys with
    | nil => simp [sameFields]
    | cons y ys => cases y; simp [sameFields, same_iff x, sameFields_iff xs, and_assoc]
end

instance : DecidableEq AvroType := fun x y => decidable_of_iff _ (same_iff x y)

/-- The `doc` member, if there is a description. -/
def docMember : Option String → Members
  | some doc => [("doc", .string doc)]
  | none => []

mutual
def toJson : AvroType → Json
  | named name => .string name
  | union members => .array (toJsonAll members)
  | array items => .object [("type", .string "array"), ("items", items.toJson)]
  | enumeration name symbols =>
    .object [("type", .string "enum"), ("name", .string name),
      ("symbols", .array (symbols.map .string))]
  | record name doc fields =>
    .object ([("type", .string "record"), ("name", .string name)] ++ docMember doc
      ++ [("fields", .array (toJsonFields fields))])

def toJsonAll : List AvroType → List Json
  | [] => []
  | x :: xs => x.toJson :: toJsonAll xs

def toJsonFields : List (AvroField AvroType) → List Json
  | [] => []
  | ⟨name, type, doc⟩ :: rest =>
    .object ([("type", type.toJson), ("name", .string name)] ++ docMember doc)
      :: toJsonFields rest
end

end AvroType

/-- An Avro schema: the type at its top, the namespace of its names, and the warnings about what was
left out of it. -/
structure AvroSchema where
  type : AvroType
  nameSpace : Option String
  warnings : List String

namespace AvroSchema

/-- The `namespace` member, if there is a namespace. -/
def spaceMember : Option String → Members
  | some nameSpace => [("namespace", .string nameSpace)]
  | none => []

/-- The JSON form of a schema. The namespace follows the name of the record at the top. -/
def toJson (a : AvroSchema) : Json :=
  match a.type with
  | .record name doc fields =>
    .object ([("type", .string "record"), ("name", .string name)] ++ spaceMember a.nameSpace
      ++ AvroType.docMember doc ++ [("fields", .array (AvroType.toJsonFields fields))])
  | type => type.toJson

/-- The text of a schema, laid out over lines or compact. -/
def text (a : AvroSchema) (pretty : Bool) : String :=
  if pretty then a.toJson.pretty 0 else a.toJson.compact

end AvroSchema

end SchemaBridge
