import SchemaBridge.JsonType

/-!
The ways in which a document fails to be a schema. Each error but those of references carries the
pointer to the value at fault, and the message shows that pointer as a reference.
-/

namespace SchemaBridge

/-- Why a reference has no target. -/
inductive ReferenceError where
  | invalidFormat (reference : String)
  | targetNotFound (reference : String)
  | circular (reference : String)
deriving DecidableEq

def ReferenceError.message : ReferenceError → String
  | invalidFormat reference => "invalid reference format: " ++ reference
  | targetNotFound reference => "reference target not found: " ++ reference
  | circular reference => "circular reference detected: " ++ reference

/-- The form that the value of a keyword must have. -/
inductive KeywordForm where
  | text
  | object
  | array
  | nonEmptyArray
  | texts
  | nonEmptyTexts
  | textOrTexts
deriving DecidableEq

def KeywordForm.phrase : KeywordForm → String
  | text => "a string"
  | object => "an object"
  | array => "an array"
  | nonEmptyArray => "a non-empty array"
  | texts => "an array of strings"
  | nonEmptyTexts => "a non-empty array of strings"
  | textOrTexts => "a string or an array of strings"

/-- Why a document is no schema. The last case stands for a reading that went deeper than the
document allows, which never happens. -/
inductive SchemaError where
  | notASchema (pointer : String) (found : JsonType)
  | invalidKeyword (pointer keyword : String) (expected : KeywordForm)
  | unknownType (pointer name : String)
  | conflictingKeywords (pointer : String) (keywords : List String)
  | undeclaredRequired (pointer name : String)
  | untypedUnionBranch (pointer : String)
  | reference (error : ReferenceError)
  | tooDeep
deriving DecidableEq

namespace SchemaError

/-- A name in backticks. -/
def ticked (name : String) : String :=
  "`" ++ name ++ "`"

def message : SchemaError → String
  | notASchema pointer found =>
    "#" ++ pointer ++ ": expected a schema object, found " ++ found.name
  | invalidKeyword pointer keyword expected =>
    "#" ++ pointer ++ ": " ++ ticked keyword ++ " must be " ++ expected.phrase
  | unknownType pointer name => "#" ++ pointer ++ ": unknown type " ++ ticked name
  | conflictingKeywords pointer keywords =>
    "#" ++ pointer ++ ": conflicting keywords " ++ ", ".intercalate keywords
  | undeclaredRequired pointer name =>
    "#" ++ pointer ++ ": required property " ++ ticked name ++ " is not declared in "
      ++ ticked "properties"
  | untypedUnionBranch pointer => "#" ++ pointer ++ ": union branch has no declared type"
  | reference error => "resolve error: " ++ error.message
  | tooDeep => "the document nests deeper than its size"

end SchemaError

end SchemaBridge
