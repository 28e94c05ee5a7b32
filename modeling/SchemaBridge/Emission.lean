import SchemaBridge.Validation

/-!
What can go wrong when a schema is turned into the schema of another format: the root is no object,
a reference leads nowhere or back to itself, or the format has no counterpart for a part.
-/

namespace SchemaBridge

inductive TargetFormat where
  | avro
  | parquet
deriving DecidableEq

namespace TargetFormat

def name : TargetFormat → String
  | avro => "avro"
  | parquet => "parquet"

def title : TargetFormat → String
  | avro => "Avro"
  | parquet => "Parquet"

end TargetFormat

/-- A part of a schema without a counterpart in a format. -/
inductive Obstacle where
  | nonTextSymbol (literal : Json)
  | typeInUnion (type : JsonType)
  | emptyTuple
  | nonRecordBranch (kind : String)
  | repeatedRecordField (field record : String)
  | nullField (field : String)
  | nestedArray (field : String)
  | tupleField (field : String)
  | unionField (field : String) (types : List JsonType)
  | nonObjectBranch (kind : String)
  | repeatedField (field : String)

namespace Obstacle

def phrase : Obstacle → String
  | nonTextSymbol literal => "non-string enum symbol " ++ literal.compact
  | typeInUnion type => "`" ++ type.name ++ "` inside a union"
  | emptyTuple => "an empty tuple"
  | nonRecordBranch kind => "a non-record allOf branch (" ++ kind ++ ")"
  | repeatedRecordField field record =>
    "duplicate field `" ++ field ++ "` in record " ++ record
  | nullField field => "null field `" ++ field ++ "`"
  | nestedArray field => "nested array `" ++ field ++ "`"
  | tupleField field => "tuple `" ++ field ++ "`"
  | unionField field types =>
    "union field `" ++ field ++ "` (" ++ " | ".intercalate (types.map JsonType.name) ++ ")"
  | nonObjectBranch kind => "a non-object allOf branch (" ++ kind ++ ")"
  | repeatedField field => "duplicate field `" ++ field ++ "`"

end Obstacle

/-- Why a schema has no counterpart. The last case stands for a conversion that goes deeper than any
well-formed schema allows. -/
inductive EmissionError where
  | rootNotObject (kind : String)
  | unresolved (target : String)
  | cycle (target : String)
  | unsupported (format : TargetFormat) (what : Obstacle)
  | untyped (format : TargetFormat) (location : String)
  | tooDeep

namespace EmissionError

def message : EmissionError → String
  | rootNotObject kind => "schema must be of type \"object\", found " ++ kind
  | unresolved target => "unresolved reference: " ++ target
  | cycle target => cycleMessage target
  | unsupported format what => format.title ++ " cannot represent " ++ what.phrase
  | untyped format location =>
    format.title ++ " cannot represent an untyped schema at `" ++ location ++ "`"
  | tooDeep => "the conversion goes deeper than a well-formed schema allows"

end EmissionError

namespace Schema

/-- The node that a chain of references from a node leads to. -/
def dereference (s : Schema) (id : NodeId) : Except EmissionError NodeId :=
  match s.nodes.dereference id with
  | .node id => .ok id
  | .unresolved target => .error (.unresolved target)
  | .loop target => .error (.cycle target)

def rootObject (s : Schema) : Except EmissionError (NodeId × ObjectShape) := do
  let root ← s.dereference s.root
  match (s.node root).kind with
  | .object shape => return (root, shape)
  | kind => throw (.rootNotObject kind.name)

/-- A depth that a conversion of a well-formed schema never reaches: a step leads to a definition
without a name so far, or to the target of a reference that is not in progress, or else to a node
with a smaller number. -/
def maxEmissionDepth (s : Schema) : Nat :=
  4 * (s.nodes.size + 1) ^ 3

end Schema

/-- The first text of a list that occurs before. -/
def firstRepeated? (seen : List String) : List String → Option String
  | [] => none
  | s :: rest => if s ∈ seen then some s else firstRepeated? (s :: seen) rest

theorem firstRepeated?_eq_none {seen names : List String} :
    firstRepeated? seen names = none ↔ names.Nodup ∧ ∀ s ∈ names, s ∉ seen := by
  induction names generalizing seen with
  | nil => simp [firstRepeated?]
  | cons s rest ih =>
    by_cases h : s ∈ seen
    · simp [firstRepeated?, h]
    · rw [firstRepeated?, if_neg h, ih, List.nodup_cons]
      constructor
      · rintro ⟨hn, hs⟩
        refine ⟨⟨fun hm => hs s hm (by simp), hn⟩, fun t ht => ?_⟩
        rcases List.mem_cons.1 ht with rfl | ht
        · exact h
        · exact fun hm => hs t ht (by simp [hm])
      · rintro ⟨⟨hs, hn⟩, hall⟩
        refine ⟨hn, fun t ht hm => ?_⟩
        rcases List.mem_cons.1 hm with rfl | hm
        · exact hs ht
        · exact hall t (by simp [ht]) hm

end SchemaBridge
