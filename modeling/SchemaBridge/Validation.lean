import SchemaBridge.InstancePath
import SchemaBridge.JsonText
import SchemaBridge.Schema

/-!
Validation of an instance against a schema. Checking stops at the first violation in the order of
the schema. References may lead round in a circle as long as each round descends into the instance:
the targets entered at a location are remembered until the next descent, and to enter one again is
an error of its own.
-/

namespace SchemaBridge

inductive Violation where
  | typeMismatch (expected found : JsonType)
  | notInEnum (value : Json) (allowed : List Json)
  | missingRequired (name : String)
  | arityMismatch (expected found : Nat)
  | noUnionMatch (allowed : List JsonType) (found : JsonType)
  | brokenReference (target : String)

namespace Violation

/-- The keyword whose constraint is broken. -/
def keyword : Violation → String
  | typeMismatch _ _ => "type"
  | notInEnum _ _ => "enum"
  | missingRequired _ => "required"
  | arityMismatch _ _ => "items"
  | noUnionMatch _ _ => "oneOf"
  | brokenReference _ => "$ref"

def message : Violation → String
  | typeMismatch expected found => "expected " ++ expected.name ++ ", found " ++ found.name
  | notInEnum value allowed =>
    value.compact ++ " is not one of [" ++ ", ".intercalate (allowed.map Json.compact) ++ "]"
  | missingRequired name => "missing required property `" ++ name ++ "`"
  | arityMismatch expected found =>
    "expected exactly " ++ toString expected ++ " items, found " ++ toString found
  | noUnionMatch allowed found => found.name ++ " matches none of " ++ JsonType.listText allowed
  | brokenReference target => "reference `" ++ target ++ "` was never resolved"

end Violation

/-- Why an instance is not accepted. The last case stands for a check that goes deeper than any
well-formed schema allows. -/
inductive ValidationError where
  | invalid (path : InstancePath) (violation : Violation)
  | cycle (path : InstancePath) (target : String)
  | tooDeep

/-- The message of a reference that is entered twice. -/
def cycleMessage (target : String) : String :=
  "reference `" ++ target ++ "` recurses into itself"

namespace ValidationError

def message : ValidationError → String
  | invalid path violation => path.text ++ ": " ++ violation.message
  | cycle path target => path.text ++ ": " ++ cycleMessage target
  | tooDeep => "the check goes deeper than a well-formed schema allows"

end ValidationError

/-- A location of the instance: its value, the path to it, and the reference targets that were
entered there. -/
structure Frame where
  value : Json
  path : InstancePath := []
  entered : List NodeId := []

namespace Frame

/-- The frame of a part of the value. -/
def descend (f : Frame) (segment : Segment) (value : Json) : Frame :=
  { value, path := f.path.child segment }

/-- The frame after the target of a reference is entered. -/
def enter (f : Frame) (target : NodeId) : Frame :=
  { f with entered := f.entered ++ [target] }

/-- Fails at a location. -/
def fail (f : Frame) (violation : Violation) : Except ValidationError Unit :=
  .error (.invalid f.path violation)

def expect (f : Frame) (type : JsonType) : Except ValidationError Unit :=
  if type.accepts f.value then .ok () else f.fail (.typeMismatch type (JsonType.of f.value))

end Frame

namespace Validation

/-- How the value of a frame is checked against a node. -/
abbrev Checker := NodeId → Frame → Except ValidationError Unit

/-- Checks each element of an array against one node. The first has the given index. -/
def checkElements (check : Checker) (f : Frame) (items : NodeId) :
    Nat → List Json → Except ValidationError Unit
  | _, [] => .ok ()
  | index, value :: rest => do
    check items (f.descend (.index index) value)
    checkElements check f items (index + 1) rest

/-- Checks each element of an array against the node of its position. -/
def checkTuple (check : Checker) (f : Frame) :
    Nat → List NodeId → List Json → Except ValidationError Unit
  | index, id :: ids, value :: rest => do
    check id (f.descend (.index index) value)
    checkTuple check f (index + 1) ids rest
  | _, _, _ => .ok ()

/-- Checks the declared properties that are present, in declaration order. -/
def checkProperties (check : Checker) (f : Frame) (members : Members) :
    List (String × NodeId) → Except ValidationError Unit
  | [] => .ok ()
  | (name, id) :: rest => do
    match members.lookup name with
    | some value => check id (f.descend (.key name) value)
    | none => .ok ()
    checkProperties check f members rest

/-- Checks the value against every branch, each starting from the same frame. -/
def checkBranches (check : Checker) (f : Frame) : List NodeId → Except ValidationError Unit
  | [] => .ok ()
  | id :: rest => do
    check id f
    checkBranches check f rest

/-- Checks the value of a frame against a kind of node. -/
def checkKind (check : Checker) (kind : Kind) (f : Frame) : Except ValidationError Unit :=
  match kind with
  | .untyped => .ok ()
  | .primitive type => f.expect (.primitive type)
  | .enumeration literals =>
    if literals.any (·.same f.value) then .ok () else f.fail (.notInEnum f.value literals)
  | .array items =>
    match f.value with
    | .array values => checkElements check f items 0 values
    | _ => f.expect .array
  | .tuple ids =>
    match f.value with
    | .array values =>
      if values.length = ids.length then checkTuple check f 0 ids values
      else f.fail (.arityMismatch ids.length values.length)
    | _ => f.expect .array
  | .object shape =>
    match f.value with
    | .object members =>
      match shape.required.find? fun name => (members.lookup name).isNone with
      | some name => f.fail (.missingRequired name)
      | none => do
        checkProperties check f members shape.properties
        checkBranches check f shape.allOf
    | _ => f.expect .object
  | .reference target resolved =>
    match resolved with
    | none => f.fail (.brokenReference target)
    | some id =>
      if id ∈ f.entered then .error (.cycle f.path target) else check id (f.enter id)
  | .union types =>
    if types.any (·.accepts f.value) then .ok ()
    else f.fail (.noUnionMatch types (JsonType.of f.value))

/-- Checks the value of a frame against a node. The budget bounds the nesting of checks. -/
def check (s : Schema) : Nat → Checker
  | 0, _, _ => .error .tooDeep
  | budget + 1, id, f => checkKind (check s budget) (s.node id).kind f

/-- A depth that checks against a well-formed schema never reach. Between two descents into the
instance each target is entered at most once, and between two targets the node numbers fall. -/
def maxDepth (s : Schema) (value : Json) : Nat :=
  (value.size + 1) * ((s.nodes.size + 1) * (s.nodes.size + 1))

end Validation

/-- Checks an instance against a schema. -/
def Schema.validate (s : Schema) (value : Json) : Except ValidationError Unit :=
  Validation.check s (Validation.maxDepth s value) s.root { value }

end SchemaBridge
