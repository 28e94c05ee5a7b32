import SchemaBridge.Schema

/-!
The summary of a schema: its root, how many nodes it has, how many of each kind, and where each
reference leads.
-/

namespace SchemaBridge

structure ReferenceEntry where
  node : NodeId
  target : String
  resolved : Option NodeId
deriving DecidableEq

/-- The summary of a schema. -/
structure Summary where
  title : Option String
  kind : String
  nodes : Nat
  kinds : List (String × Nat)
  references : List ReferenceEntry
deriving DecidableEq

namespace Summary

def count (kinds : List (String × Nat)) (kind : String) : List (String × Nat) :=
  Entries.put kind ((kinds.lookup kind).getD 0 + 1) kinds

/-- The entry of a node, if it is a reference. -/
def entry? (id : NodeId) (node : Node) : Option ReferenceEntry :=
  match node.kind with
  | .reference target resolved => some ⟨id, target, resolved⟩
  | _ => none

end Summary

/-- The summary of a schema. Kinds come in the order of their first nodes, and references in the
order of theirs. -/
def Schema.summary (s : Schema) : Summary where
  title := (s.node s.root).title
  kind := (s.node s.root).kind.name
  nodes := s.nodes.size
  kinds := (s.nodes.toList.map fun node => node.kind.name).foldl Summary.count []
  references := (List.range s.nodes.size).filterMap fun id => Summary.entry? id (s.node id)

def NodeId.text (id : NodeId) : String :=
  "#" ++ toString id

/-- A text, or null. -/
def Json.stringOrNull (text : Option String) : Json :=
  match text with
  | some text => .string text
  | none => .null

def Json.ofNat (n : Nat) : Json :=
  .number (.integer n)

def ReferenceEntry.toJson (r : ReferenceEntry) : Json :=
  .object [
    ("node", .string (NodeId.text r.node)),
    ("target", .string r.target),
    ("resolved", .stringOrNull (r.resolved.map NodeId.text))]

def Summary.toJson (s : Summary) : Json :=
  .object [
    ("root", .object [("title", .stringOrNull s.title), ("kind", .string s.kind)]),
    ("nodes", .ofNat s.nodes),
    ("kinds", .object (s.kinds.map fun (kind, n) => (kind, .ofNat n))),
    ("references", .array (s.references.map ReferenceEntry.toJson))]

end SchemaBridge
