import SchemaBridge.Pointer
import SchemaBridge.SchemaError

/-!
Keywords of a schema object that are read without looking into other schemas: texts, and the type
names that a `type` declares.
-/

namespace SchemaBridge

namespace Keyword

def isIn (keyword : String) (members : Members) : Bool :=
  (members.lookup keyword).isSome

def text? (members : Members) (keyword pointer : String) : Except SchemaError (Option String) :=
  match members.lookup keyword with
  | none => .ok none
  | some (.string s) => .ok (some s)
  | some _ => .error (.invalidKeyword pointer keyword .text)

def typeNamed (pointer name : String) : Except SchemaError JsonType :=
  match JsonType.ofName? name with
  | some type => .ok type
  | none => .error (.unknownType pointer name)

def addType (types : List JsonType) (type : JsonType) : List JsonType :=
  if type ∈ types then types else types ++ [type]

/-- The distinct types that the elements of a `type` list name, after those found before. -/
def addTypesNamed (pointer : String) : List Json → List JsonType →
    Except SchemaError (List JsonType)
  | [], types => .ok types
  | .string name :: rest, types => do
    addTypesNamed pointer rest (addType types (← typeNamed pointer name))
  | _ :: _, _ => .error (.invalidKeyword pointer "type" .textOrTexts)

def typesNamed (pointer : String) (names : List Json) : Except SchemaError (List JsonType) :=
  if names.isEmpty then .error (.invalidKeyword pointer "type" .nonEmptyTexts)
  else addTypesNamed pointer names []

def referencePointer (reference : String) : Except SchemaError String :=
  match Pointer.ofReference? reference with
  | some pointer => .ok pointer
  | none => .error (.reference (.invalidFormat reference))

theorem nodup_addType {types : List JsonType} {type : JsonType} (h : types.Nodup) :
    (addType types type).Nodup := by
  unfold addType
  split
  · exact h
  · rename_i hn
    exact List.nodup_append.2 ⟨h, by simp, fun a ha b hb e => by simp_all⟩

end Keyword

end SchemaBridge
