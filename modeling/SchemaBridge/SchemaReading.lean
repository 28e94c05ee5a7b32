import SchemaBridge.Outline

/-!
Reading a schema from a document. The parts of an object are read before the object itself gets its
number, references wait on a stack, and the number of every location that has been read is kept, so
that a reference to it finds its node. A target that has not been read yet is read on demand, which
may add references to the stack. At last no chain of references may run in a circle.
-/

namespace SchemaBridge

/-- A schema while it is read: the nodes so far, the node of each pointer with the latest entry
first, and the references that wait for their targets, the latest first. -/
structure Draft where
  nodes : Arena := #[]
  locations : List (String × NodeId) := []
  pending : List NodeId := []

namespace Draft

/-- Adds a node that no pointer leads to. -/
def push (d : Draft) (node : Node) : NodeId × Draft :=
  (d.nodes.size, { d with nodes := d.nodes.push node })

/-- Adds the node read at a pointer. -/
def place (d : Draft) (pointer : String) (node : Node) : NodeId × Draft :=
  let id := d.nodes.size
  (id, { nodes := d.nodes.push node
         locations := (pointer, id) :: d.locations
         pending := if node.kind.isReference then id :: d.pending else d.pending })

/-- Gives the reference with a number its target. -/
def bind (d : Draft) (id target : NodeId) : Draft :=
  { d with
    nodes := d.nodes.modify id fun node =>
      match node.kind with
      | .reference reference _ => { node with kind := .reference reference (some target) }
      | _ => node }

end Draft

/-- A step of reading: it extends the draft or fails. -/
abbrev Reader := StateT Draft (Except SchemaError)

namespace Reader

/-- The names that must be present. Each has to be a declared property. -/
def requiredNames (pointer : String) (properties : List (String × NodeId)) :
    List Json → List String → Except SchemaError (List String)
  | [], names => .ok names
  | .string name :: rest, names =>
    if (properties.lookup name).isNone then .error (.undeclaredRequired pointer name)
    else requiredNames pointer properties rest (if name ∈ names then names else names ++ [name])
  | _ :: _, _ => .error (.invalidKeyword pointer "required" .texts)

def required (members : Members) (pointer : String) (properties : List (String × NodeId)) :
    Except SchemaError (List String) :=
  match members.lookup "required" with
  | none => .ok []
  | some (.array names) => requiredNames pointer properties names []
  | some _ => .error (.invalidKeyword pointer "required" .texts)

mutual
/-- Reads the schema that a value of the document spells. -/
def schema (document : Json) (pointer : String) : Json → Reader NodeId
  | .bool true => modifyGet (·.place pointer { kind := .untyped })
  | .object members => do
    let title ← Keyword.text? members "title" pointer
    let description ← Keyword.text? members "description" pointer
    let kind ← match ← Outline.read document members pointer with
      | .leaf kind => pure kind
      | .object => object document pointer members
      | .array => array document pointer members
    modifyGet (·.place pointer { title, description, kind })
  | value => throw (.notASchema pointer (JsonType.of value))
termination_by value => 4 * value.size
decreasing_by all_goals simp only [Json.size]; omega

def object (document : Json) (pointer : String) (members : Members) : Reader Kind := do
  let properties ← declaredProperties document pointer members
  let required ← required members pointer properties
  let allOf ← branches document pointer members
  return .object { properties, required, allOf }
termination_by 4 * Json.sizeMembers members + 3

def declaredProperties (document : Json) (pointer : String) (members : Members) :
    Reader (List (String × NodeId)) :=
  match _h : members.lookup "properties" with
  | none => pure []
  | some (.object named) => properties document (Pointer.child pointer "properties") named
  | some _ => throw (.invalidKeyword pointer "properties" .object)
termination_by 4 * Json.sizeMembers members + 2
decreasing_by
  have := Json.size_le_sizeMembers _h
  simp only [Json.size] at this
  omega

/-- Reads the branches that must all hold. -/
def branches (document : Json) (pointer : String) (members : Members) : Reader (List NodeId) :=
  match _h : members.lookup "allOf" with
  | none => pure []
  | some (.array values) => elements document (Pointer.child pointer "allOf") 0 values
  | some _ => throw (.invalidKeyword pointer "allOf" .array)
termination_by 4 * Json.sizeMembers members + 2
decreasing_by
  have := Json.size_le_sizeMembers _h
  simp only [Json.size] at this
  omega

def array (document : Json) (pointer : String) (members : Members) : Reader Kind := do
  match _h : members.lookup "items" with
  | none => return .array (← modifyGet (·.push { kind := .untyped }))
  | some (.array parts) =>
    return .tuple (← elements document (Pointer.child pointer "items") 0 parts)
  | some items => return .array (← schema document (Pointer.child pointer "items") items)
termination_by 4 * Json.sizeMembers members + 2
decreasing_by
  · have := Json.size_le_sizeMembers _h
    simp only [Json.size] at this
    omega
  · have := Json.size_le_sizeMembers _h
    omega

/-- Reads the schemas of named properties, in order. -/
def properties (document : Json) (base : String) : Members → Reader (List (String × NodeId))
  | [] => pure []
  | (name, value) :: rest => do
    let id ← schema document (Pointer.child base name) value
    return (name, id) :: (← properties document base rest)
termination_by members => 4 * Json.sizeMembers members + 1
decreasing_by
  · simp only [Json.sizeMembers]; omega
  · have := value.size_pos; simp only [Json.sizeMembers]; omega

/-- Reads a list of schemas, whose first has the given index. -/
def elements (document : Json) (base : String) (index : Nat) : List Json → Reader (List NodeId)
  | [] => pure []
  | value :: rest => do
    let id ← schema document (Pointer.element base index) value
    return id :: (← elements document base (index + 1) rest)
termination_by values => 4 * Json.sizeElements values + 1
decreasing_by
  · simp only [Json.sizeElements]; omega
  · have := value.size_pos; simp only [Json.sizeElements]; omega
end

/-- The node that a reference denotes. A location that has not been read yet is read now. -/
def target (document : Json) (reference : String) : Reader NodeId := do
  let pointer ← Keyword.referencePointer reference
  match (← get).locations.lookup pointer with
  | some id => return id
  | none =>
    match document.at? pointer with
    | some value => schema document pointer value
    | none => throw (.reference (.targetNotFound reference))

/-- Gives the waiting references their targets, the latest first. The budget bounds their
number. -/
def resolve (document : Json) : Nat → Reader Unit
  | 0 => throw .tooDeep
  | budget + 1 => do
    let draft ← get
    match draft.pending with
    | [] => return
    | id :: rest =>
      set { draft with pending := rest }
      if let .reference reference _ := (draft.nodes.node id).kind then
        let found ← target document reference
        modify (·.bind id found)
      resolve document budget

/-- A number that the references waiting during one reading never reach: fewer locations than
values are read on demand, and each reading adds fewer references than there are values. -/
def maxReferences (document : Json) : Nat :=
  (document.size + 1) * (document.size + 1)

/-- Refuses a chain of references that never reaches another node. -/
def checkChains (nodes : Arena) : List NodeId → Except SchemaError Unit
  | [] => .ok ()
  | id :: rest =>
    match nodes.dereference id with
    | .loop reference => .error (.reference (.circular reference))
    | _ => checkChains nodes rest

end Reader

/-- Reads the schema that a document spells. -/
def Schema.read (document : Json) : Except SchemaError Schema := do
  let (root, draft) ← (do
    let root ← Reader.schema document "" document
    Reader.resolve document (Reader.maxReferences document)
    return root : Reader NodeId).run {}
  Reader.checkChains draft.nodes (List.range draft.nodes.size)
  return { nodes := draft.nodes, root }

end SchemaBridge
