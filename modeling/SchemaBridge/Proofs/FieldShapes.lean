import SchemaBridge.Proofs.AvroBranches

/-!
The shapes of fields, in terms that an Avro record and a Parquet message share: columns, groups of
named fields, and repetitions. A type has a shape once every mention in it stands for its
definition, and a node has one if what it describes can be unfolded in finitely many steps. Main
statement: a type has at most one shape, and so has a node, however far it is unfolded.
-/

namespace SchemaBridge

/-- What a field holds. -/
inductive FieldShape where
  | column (physical : PhysicalType) (logical : Option LogicalType)
  | group (fields : List (String × FieldShape))
  | repeated (item : FieldShape)

namespace FieldShape

/-- What a field of a given repetition holds if each of its values has the shape. -/
def under : Repetition → FieldShape → FieldShape
  | .repeated, shape => repeated shape
  | _, shape => shape

theorem under_of_ne {repetition : Repetition} (h : repetition ≠ .repeated) (shape : FieldShape) :
    shape.under repetition = shape := by
  cases repetition with
  | repeated => exact (h rfl).elim
  | _ => rfl

end FieldShape

/-- What a column of a primitive type holds. There is none for null. -/
def Primitive.fieldShape? : Primitive → Option FieldShape
  | null => none
  | boolean => some (.column .boolean none)
  | integer => some (.column .int32 none)
  | number => some (.column .double none)
  | string => some (.column .binary (some .utf8))

namespace ParquetField

mutual
def shape : ParquetField → FieldShape
  | column repetition physical logical _ => .under repetition (.column physical logical)
  | group repetition _ fields => .under repetition (.group (shapesOf fields))

/-- The names and shapes of fields, in order. -/
def shapesOf : List ParquetField → List (String × FieldShape)
  | [] => []
  | field :: rest => (field.name, field.shape) :: shapesOf rest
end

theorem shapesOf_append (xs ys : List ParquetField) :
    shapesOf (xs ++ ys) = shapesOf xs ++ shapesOf ys := by
  induction xs with
  | nil => rfl
  | cons x rest ih => rw [List.cons_append, shapesOf, shapesOf, ih, List.cons_append]

theorem map_fst_shapesOf (fields : List ParquetField) :
    (shapesOf fields).map Prod.fst = fields.map name := by
  induction fields with
  | nil => rfl
  | cons field rest ih => rw [shapesOf, List.map_cons, ih, List.map_cons]

end ParquetField

namespace AvroType

mutual
/-- The definitions in a type by their names, in the order of its text. -/
def table : AvroType → List (String × AvroType)
  | named _ => []
  | union members => tableOfAll members
  | array items => items.table
  | enumeration name symbols => [(name, enumeration name symbols)]
  | record name doc fields => (name, record name doc fields) :: tableOfFields fields

def tableOfAll : List AvroType → List (String × AvroType)
  | [] => []
  | type :: rest => type.table ++ tableOfAll rest

def tableOfFields : List (AvroField AvroType) → List (String × AvroType)
  | [] => []
  | ⟨_, type, _⟩ :: rest => type.table ++ tableOfFields rest
end

theorem tableOfFields_append (xs ys : List (AvroField AvroType)) :
    tableOfFields (xs ++ ys) = tableOfFields xs ++ tableOfFields ys := by
  induction xs with
  | nil => rfl
  | cons x rest ih => rw [List.cons_append, tableOfFields, tableOfFields, ih, List.append_assoc]

mutual
/-- The table has the names that the text defines. -/
theorem map_fst_table : ∀ type : AvroType, type.table.map Prod.fst = definitions type.events
  | named _ => rfl
  | union members => map_fst_tableOfAll members
  | array items => map_fst_table items
  | enumeration _ _ => rfl
  | record name doc fields => by
    rw [table, events, List.map_cons, map_fst_tableOfFields fields, definitions_define]

theorem map_fst_tableOfAll :
    ∀ types : List AvroType, (tableOfAll types).map Prod.fst = definitions (eventsOfAll types)
  | [] => rfl
  | type :: rest => by
    rw [tableOfAll, eventsOfAll, List.map_append, map_fst_table type, map_fst_tableOfAll rest,
      definitions_append]

theorem map_fst_tableOfFields : ∀ fields : List (AvroField AvroType),
    (tableOfFields fields).map Prod.fst = definitions (eventsOfFields fields)
  | [] => rfl
  | ⟨_, type, _⟩ :: rest => by
    rw [tableOfFields, eventsOfFields, List.map_append, map_fst_table type,
      map_fst_tableOfFields rest, definitions_append]
end

mutual
/-- A type stands for a shape, where a name that is not primitive stands for its definition. -/
inductive Denotes (defs : List (String × AvroType)) : AvroType → FieldShape → Prop
  | primitive {name : String} {type : Primitive} {shape : FieldShape}
      (hname : name = type.avroName) (hshape : type.fieldShape? = some shape) :
      Denotes defs (.named name) shape
  | mention {name : String} {type : AvroType} {shape : FieldShape} (hname : name ∉ tokens)
      (htype : defs.lookup name = some type) (hshape : Denotes defs type shape) :
      Denotes defs (.named name) shape
  | enumeration {name : String} {symbols : List String} :
      Denotes defs (.enumeration name symbols) (.column .binary (some .enumeration))
  | record {name : String} {doc : Option String} {fields : List (AvroField AvroType)}
      {shapes : List (String × FieldShape)} (hfields : DenotesFields defs fields shapes) :
      Denotes defs (.record name doc fields) (.group shapes)
  | array {items : AvroType} {shape : FieldShape} (hitems : Denotes defs items shape) :
      Denotes defs (.array items) (.repeated shape)

/-- The fields of a record stand for the fields of a group, one by one. -/
inductive DenotesFields (defs : List (String × AvroType)) :
    List (AvroField AvroType) → List (String × FieldShape) → Prop
  | nil : DenotesFields defs [] []
  | cons {name : String} {type : AvroType} {doc : Option String}
      {rest : List (AvroField AvroType)} {shape : FieldShape}
      {shapes : List (String × FieldShape)} (htype : Denotes defs type shape)
      (hrest : DenotesFields defs rest shapes) :
      DenotesFields defs (⟨name, type, doc⟩ :: rest) ((name, shape) :: shapes)
end

variable {defs : List (String × AvroType)}

theorem DenotesFields.append {xs ys : List (AvroField AvroType)}
    {shapes shapes' : List (String × FieldShape)} (hxs : DenotesFields defs xs shapes)
    (hys : DenotesFields defs ys shapes') : DenotesFields defs (xs ++ ys) (shapes ++ shapes') := by
  induction xs generalizing shapes with
  | nil =>
      cases hxs
      exact hys
  | cons x rest ih =>
      cases hxs with
      | cons htype hrest => exact .cons htype (ih hrest)

mutual
/-- A type stands for one shape at most. -/
theorem Denotes.unique : ∀ {type : AvroType} {shape shape' : FieldShape},
    Denotes defs type shape → Denotes defs type shape' → shape = shape'
  | _, _, _, .primitive hname hshape, h => by
    cases h with
    | primitive hname' hshape' =>
        rw [AvroEmission.avroName_injective (hname.symm.trans hname'), hshape'] at hshape
        exact (Option.some.inj hshape).symm
    | mention hmention => exact (hmention (AvroEmission.mem_tokens.mpr ⟨_, hname⟩)).elim
  | _, _, _, .mention hmention htype hshape, h => by
    cases h with
    | primitive hname => exact (hmention (AvroEmission.mem_tokens.mpr ⟨_, hname⟩)).elim
    | mention _ htype' hshape' =>
        rw [htype] at htype'
        cases htype'
        exact hshape.unique hshape'
  | _, _, _, .enumeration, .enumeration => rfl
  | _, _, _, .record hfields, .record hfields' => by rw [hfields.unique hfields']
  | _, _, _, .array hitems, .array hitems' => by rw [hitems.unique hitems']

theorem DenotesFields.unique : ∀ {fields : List (AvroField AvroType)}
    {shapes shapes' : List (String × FieldShape)},
    DenotesFields defs fields shapes → DenotesFields defs fields shapes' → shapes = shapes'
  | _, _, _, .nil, .nil => rfl
  | _, _, _, .cons htype hrest, .cons htype' hrest' => by
    rw [htype.unique htype', hrest.unique hrest']
end

end AvroType

namespace Schema

variable {s : Schema}

/-- A node that the root leads to, through parts and references. -/
inductive Reached (s : Schema) : NodeId → Prop
  | root : Reached s s.root
  | part {id c : NodeId} (h : Reached s id) (hchild : c ∈ (s.node id).kind.children) : Reached s c
  | target {id next : NodeId} {text : String} (h : Reached s id)
      (hkind : (s.node id).kind = .reference text (some next)) : Reached s next

theorem Reached.lt_size {id : NodeId} (hs : s.WellFormed) (h : s.Reached id) :
    id < s.nodes.size := by
  induction h with
  | root => exact hs.root_lt
  | part _ hchild ih => exact Nat.lt_trans (hs.child_lt _ _ hchild) ih
  | target _ hkind => exact hs.target_lt _ _ _ hkind

theorem Reached.dereference {id target : NodeId} (h : s.Reached id)
    (htarget : s.dereference id = .ok target) : s.Reached target := by
  obtain ⟨steps, hleads⟩ := dereference_eq_ok_iff.mp htarget
  induction hleads with
  | here => exact h
  | next hkind hleads ih => exact ih (h.target hkind) (dereference_eq_ok_iff.mpr ⟨_, hleads⟩)

/-! ### Unfolding a node -/

/-- The typed properties in order, each with the shape of its node. -/
inductive Lists (R : NodeId → Option FieldShape → Prop) :
    List (String × NodeId) → List (String × FieldShape) → Prop
  | nil : Lists R [] []
  | dropped {name : String} {id : NodeId} {rest : List (String × NodeId)}
      {shapes : List (String × FieldShape)} (huntyped : R id none) (hrest : Lists R rest shapes) :
      Lists R ((name, id) :: rest) shapes
  | kept {name : String} {id : NodeId} {rest : List (String × NodeId)} {shape : FieldShape}
      {shapes : List (String × FieldShape)} (htyped : R id (some shape))
      (hrest : Lists R rest shapes) : Lists R ((name, id) :: rest) ((name, shape) :: shapes)

/-- What a branch adds to an object: the fields of a group, or none if it is untyped. -/
inductive AddsFields : Option FieldShape → List (String × FieldShape) → Prop
  | untyped : AddsFields none []
  | group {fields : List (String × FieldShape)} : AddsFields (some (.group fields)) fields

/-- The fields of branches, one after the other. -/
inductive Inherits (s : Schema) (R : NodeId → Option FieldShape → Prop) :
    List NodeId → List (String × FieldShape) → Prop
  | nil : Inherits s R [] []
  | cons {branch target : NodeId} {rest : List NodeId} {result : Option FieldShape}
      {own shapes : List (String × FieldShape)} (htarget : s.dereference branch = .ok target)
      (hresult : R target result) (hadds : AddsFields result own)
      (hrest : Inherits s R rest shapes) : Inherits s R (branch :: rest) (own ++ shapes)

/-- The fields of an object: those of its properties and of its branches, no two of one name. -/
structure HasFields (s : Schema) (R : NodeId → Option FieldShape → Prop) (shape : ObjectShape)
    (own inherited : List (String × FieldShape)) : Prop where
  lists : Lists R shape.properties own
  inherits : Inherits s R shape.allOf inherited
  names : ((own ++ inherited).map Prod.fst).Nodup

/-- The shape that a kind describes in terms of the shapes of other nodes: none if it is untyped. -/
inductive ShapedBy (s : Schema) (R : NodeId → Option FieldShape → Prop) :
    Kind → Option FieldShape → Prop
  | untyped : ShapedBy s R .untyped none
  | primitive {type : Primitive} {shape : FieldShape} (hshape : type.fieldShape? = some shape) :
      ShapedBy s R (.primitive type) (some shape)
  | enumeration {literals : List Json} :
      ShapedBy s R (.enumeration literals) (some (.column .binary (some .enumeration)))
  | array {items : NodeId} {shape : FieldShape} (hitems : R items (some shape)) :
      ShapedBy s R (.array items) (some (.repeated shape))
  | object {shape : ObjectShape} {own inherited : List (String × FieldShape)}
      (hfields : HasFields s R shape own inherited) :
      ShapedBy s R (.object shape) (some (.group (own ++ inherited)))
  | reference {text : String} {next : NodeId} {result : Option FieldShape}
      (hnext : R next result) : ShapedBy s R (.reference text (some next)) result

/-- The shape of a node that is unfolded at most so many times. -/
def ShapedWithin (s : Schema) : Nat → NodeId → Option FieldShape → Prop
  | 0, _, _ => False
  | n + 1, id, result => s.ShapedBy (s.ShapedWithin n) (s.node id).kind result

section

variable {R R' : NodeId → Option FieldShape → Prop}

theorem AddsFields.unique {result : Option FieldShape} {own own' : List (String × FieldShape)}
    (h : AddsFields result own) (h' : AddsFields result own') : own = own' := by
  cases h <;> cases h' <;> rfl

theorem Lists.imp (hR : ∀ id result, R id result → R' id result)
    {properties : List (String × NodeId)} {shapes : List (String × FieldShape)}
    (h : Lists R properties shapes) : Lists R' properties shapes := by
  induction h with
  | nil => exact .nil
  | dropped huntyped _ ih => exact .dropped (hR _ _ huntyped) ih
  | kept htyped _ ih => exact .kept (hR _ _ htyped) ih

theorem Inherits.imp (hR : ∀ id result, R id result → R' id result) {ids : List NodeId}
    {shapes : List (String × FieldShape)} (h : s.Inherits R ids shapes) :
    s.Inherits R' ids shapes := by
  induction h with
  | nil => exact .nil
  | cons htarget hresult hadds _ ih => exact .cons htarget (hR _ _ hresult) hadds ih

theorem HasFields.imp (hR : ∀ id result, R id result → R' id result) {shape : ObjectShape}
    {own inherited : List (String × FieldShape)} (h : s.HasFields R shape own inherited) :
    s.HasFields R' shape own inherited :=
  ⟨h.lists.imp hR, h.inherits.imp hR, h.names⟩

theorem ShapedBy.imp (hR : ∀ id result, R id result → R' id result) {kind : Kind}
    {result : Option FieldShape} (h : s.ShapedBy R kind result) : s.ShapedBy R' kind result := by
  cases h with
  | untyped => exact .untyped
  | primitive hshape => exact .primitive hshape
  | enumeration => exact .enumeration
  | array hitems => exact .array (hR _ _ hitems)
  | object hfields => exact .object (hfields.imp hR)
  | reference hnext => exact .reference (hR _ _ hnext)

end

theorem ShapedWithin.succ {n : Nat} : ∀ {id : NodeId} {result : Option FieldShape},
    s.ShapedWithin n id result → s.ShapedWithin (n + 1) id result := by
  induction n with
  | zero => exact fun h => h.elim
  | succ n ih => exact fun h => h.imp fun _ _ => ih

theorem ShapedWithin.mono {n m : Nat} (hnm : n ≤ m) {id : NodeId} {result : Option FieldShape}
    (h : s.ShapedWithin n id result) : s.ShapedWithin m id result := by
  induction hnm with
  | refl => exact h
  | step _ ih => exact ih.succ

section

variable {R : NodeId → Option FieldShape → Prop}
  (hunique : ∀ id result result', R id result → R id result' → result = result')

include hunique

theorem Lists.unique {properties : List (String × NodeId)}
    {shapes shapes' : List (String × FieldShape)} (h : Lists R properties shapes)
    (h' : Lists R properties shapes') : shapes = shapes' := by
  induction h generalizing shapes' with
  | nil =>
      cases h'
      rfl
  | dropped huntyped _ ih =>
      cases h' with
      | dropped _ hrest => exact ih hrest
      | kept htyped => cases hunique _ _ _ huntyped htyped
  | kept htyped _ ih =>
      cases h' with
      | dropped huntyped => cases hunique _ _ _ htyped huntyped
      | kept htyped' hrest =>
          cases hunique _ _ _ htyped htyped'
          rw [ih hrest]

theorem Inherits.unique {ids : List NodeId} {shapes shapes' : List (String × FieldShape)}
    (h : s.Inherits R ids shapes) (h' : s.Inherits R ids shapes') : shapes = shapes' := by
  induction h generalizing shapes' with
  | nil =>
      cases h'
      rfl
  | cons htarget hresult hadds _ ih =>
      cases h' with
      | cons htarget' hresult' hadds' hrest =>
          rw [htarget] at htarget'
          cases htarget'
          cases hunique _ _ _ hresult hresult'
          rw [hadds.unique hadds', ih hrest]

theorem ShapedBy.unique {kind : Kind} {result result' : Option FieldShape}
    (h : s.ShapedBy R kind result) (h' : s.ShapedBy R kind result') : result = result' := by
  cases h with
  | untyped =>
      cases h'
      rfl
  | primitive hshape =>
      cases h' with
      | primitive hshape' => exact hshape.symm.trans hshape'
  | enumeration =>
      cases h'
      rfl
  | array hitems =>
      cases h' with
      | array hitems' =>
          cases hunique _ _ _ hitems hitems'
          rfl
  | object hfields =>
      cases h' with
      | object hfields' =>
          rw [hfields.lists.unique hunique hfields'.lists,
            hfields.inherits.unique hunique hfields'.inherits]
  | reference hnext =>
      cases h' with
      | reference hnext' => exact hunique _ _ _ hnext hnext'

end

/-- A node has one shape at most, however far it is unfolded. -/
theorem ShapedWithin.unique {n m : Nat} {id : NodeId} {result result' : Option FieldShape}
    (h : s.ShapedWithin n id result) (h' : s.ShapedWithin m id result') : result = result' := by
  have hsame : ∀ (k : Nat) (id : NodeId) (result result' : Option FieldShape),
      s.ShapedWithin k id result → s.ShapedWithin k id result' → result = result' := by
    intro k
    induction k with
    | zero => exact fun _ _ _ h => h.elim
    | succ k ih => exact fun _ _ _ h h' => ShapedBy.unique ih h h'
  exact hsame (max n m) id result result' (h.mono (le_max_left n m)) (h'.mono (le_max_right n m))

/-- A node with a shape has it by unfolding it once and other nodes less often than it takes to
unfold the node itself. -/
theorem ShapedWithin.least {n : Nat} {id : NodeId} {result : Option FieldShape}
    (h : s.ShapedWithin n id result) :
    ∃ m < n, s.ShapedBy (s.ShapedWithin m) (s.node id).kind result ∧
      ∀ result', ¬s.ShapedWithin m id result' := by
  induction n with
  | zero => exact h.elim
  | succ n ih =>
      by_cases hbelow : s.ShapedWithin n id result
      · obtain ⟨m, hm, hleast⟩ := ih hbelow
        exact ⟨m, by omega, hleast⟩
      · refine ⟨n, by omega, h, fun result' hwithin => hbelow ?_⟩
        rwa [h.unique hwithin]

end Schema

end SchemaBridge
