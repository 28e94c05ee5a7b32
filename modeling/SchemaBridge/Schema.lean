import SchemaBridge.JsonType

/-!
Schemas as arenas of nodes. A node names its parts and the target of a reference by their numbers in
the arena, so a schema that refers to itself is plain data. In a well-formed arena the parts of a
node come before it, and only references lead forward.
-/

namespace SchemaBridge

/-- The number of a node in its arena. -/
abbrev NodeId := Nat

namespace NodeId

/-- How many of the numbers below `bound` are not in a list. -/
def unseen (bound : Nat) (seen : List NodeId) : Nat :=
  (List.range bound).countP fun i => decide (i ∉ seen)

theorem countP_lt_of_mem {p q : NodeId → Bool} {ids : List NodeId} {id : NodeId}
    (hpq : ∀ i, p i → q i) (hmem : id ∈ ids) (hp : p id = false) (hq : q id = true) :
    ids.countP p < ids.countP q := by
  induction ids with
  | nil => simp at hmem
  | cons i rest ih =>
    have hle := List.countP_mono_left (l := rest) fun i _ => hpq i
    rw [List.countP_cons, List.countP_cons]
    rcases List.mem_cons.1 hmem with rfl | hmem
    · simp only [hp, hq]; simp; omega
    · have := ih hmem
      have := hpq i
      grind

theorem unseen_cons_lt {bound : Nat} {seen : List NodeId} {id : NodeId} (hb : id < bound)
    (hs : id ∉ seen) : unseen bound (id :: seen) < unseen bound seen := by
  refine countP_lt_of_mem (fun i h => ?_) (List.mem_range.2 hb) (by simp) (by simp [hs])
  simp only [List.mem_cons, not_or, decide_eq_true_eq] at h ⊢
  exact h.2

end NodeId

/-- The parts of an object schema: its properties in declaration order, the names that must be
present, and the branches that must all hold. -/
structure ObjectShape where
  properties : List (String × NodeId) := []
  required : List String := []
  allOf : List NodeId := []
deriving DecidableEq

namespace ObjectShape

/-- The nodes that are parts of the object, in order. -/
def children (shape : ObjectShape) : List NodeId :=
  shape.properties.map Prod.snd ++ shape.allOf

end ObjectShape

/-- What a node demands of a value. -/
inductive Kind where
  | untyped
  | primitive (type : Primitive)
  | enumeration (literals : List Json)
  | array (items : NodeId)
  | tuple (elements : List NodeId)
  | object (shape : ObjectShape)
  | reference (target : String) (resolved : Option NodeId)
  | union (types : List JsonType)

namespace Kind

def name : Kind → String
  | untyped => "empty"
  | primitive type => type.name
  | enumeration _ => "enumeration"
  | array _ => "array"
  | tuple _ => "array-list"
  | object _ => "object"
  | reference _ _ => "reference"
  | union _ => "union"

/-- The nodes that are parts of a node, in order. The target of a reference is no part of it. -/
def children : Kind → List NodeId
  | array items => [items]
  | tuple elements => elements
  | object shape => shape.children
  | _ => []

def isReference : Kind → Bool
  | reference _ _ => true
  | _ => false

end Kind

/-- A node: what it demands, and its annotations. -/
structure Node where
  title : Option String := none
  description : Option String := none
  kind : Kind

instance : Inhabited Node := ⟨{ kind := .untyped }⟩

/-- The nodes of a schema, in the order in which they were made. -/
abbrev Arena := Array Node

namespace Arena

/-- The node with a given number. A number out of range stands for a node without demands. -/
def node (arena : Arena) (id : NodeId) : Node :=
  arena.getD id default

theorem lt_size_of_reference {arena : Arena} {id : NodeId} {target : String}
    {resolved : Option NodeId} (h : (arena.node id).kind = .reference target resolved) :
    id < arena.size := by
  refine Decidable.byContradiction fun hn => ?_
  simp [node, Array.getD, hn, default] at h

/-- Where a chain of references ends: at a node that is no reference, at a reference without a
target, or never, in which case it comes back to the reference that is given. -/
inductive ChainEnd where
  | node (id : NodeId)
  | unresolved (target : String)
  | loop (target : String)
deriving DecidableEq

/-- Follows references from a node on, remembering the ones that were passed. -/
def chase (arena : Arena) (passed : List NodeId) (id : NodeId) : ChainEnd :=
  match _h : (arena.node id).kind with
  | .reference target resolved =>
    if _hp : id ∈ passed then .loop target
    else match resolved with
      | some next => chase arena (id :: passed) next
      | none => .unresolved target
  | _ => .node id
termination_by NodeId.unseen arena.size passed
decreasing_by exact NodeId.unseen_cons_lt (lt_size_of_reference _h) _hp

/-- Where the chain of references from a node ends. -/
def dereference (arena : Arena) (id : NodeId) : ChainEnd :=
  arena.chase [] id

end Arena

/-- A schema: its nodes, and the node that a whole instance has to satisfy. -/
structure Schema where
  nodes : Arena
  root : NodeId

namespace Schema

def node (s : Schema) (id : NodeId) : Node :=
  s.nodes.node id

/-- The parts of every node come before it, and every number is in range. -/
structure WellFormed (s : Schema) : Prop where
  root_lt : s.root < s.nodes.size
  child_lt : ∀ id, ∀ c ∈ (s.node id).kind.children, c < id
  target_lt : ∀ id target t, (s.node id).kind = .reference target (some t) → t < s.nodes.size

def Resolved (s : Schema) : Prop :=
  ∀ id target, (s.node id).kind ≠ .reference target none

end Schema

end SchemaBridge
