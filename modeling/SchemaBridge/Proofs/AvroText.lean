import SchemaBridge.AvroType

/-!
The grammar of Avro types as JSON values, with the names in the order in which they stand in the
text: a record or an enumeration defines its name before what is inside it, and a text in the place
of a type mentions a name. Main statement: the JSON form of a type follows the grammar, as long as
no union stands directly in a union.
-/

namespace SchemaBridge

/-- What a text of Avro types does with a name. -/
inductive NameEvent where
  | define (name : String)
  | mention (name : String)
deriving DecidableEq

def NameEvent.defined? : NameEvent → Option String
  | define name => some name
  | mention _ => none

/-- The names that are defined, in the order of the text. -/
def definitions (events : List NameEvent) : List String :=
  events.filterMap NameEvent.defined?

@[simp] theorem definitions_define (name : String) (rest : List NameEvent) :
    definitions (.define name :: rest) = name :: definitions rest := rfl

@[simp] theorem definitions_mention (name : String) (rest : List NameEvent) :
    definitions (.mention name :: rest) = definitions rest := rfl

@[simp] theorem definitions_append (xs ys : List NameEvent) :
    definitions (xs ++ ys) = definitions xs ++ definitions ys :=
  List.filterMap_append

mutual
/-- A value in the place of a type, with the names in it. -/
inductive WritesType : Json → List NameEvent → Prop
  | name (name : String) : WritesType (.string name) [.mention name]
  | union {members : List Json} {events : List NameEvent} (hmembers : WritesMembers members events) :
      WritesType (.array members) events
  | array {items : Json} {events : List NameEvent} (hitems : WritesType items events) :
      WritesType (.object [("type", .string "array"), ("items", items)]) events
  | enumeration (name : String) (symbols : List String) :
      WritesType (.object [("type", .string "enum"), ("name", .string name),
        ("symbols", .array (symbols.map .string))]) [.define name]
  | record {name : String} {doc : Option String} {fields : List Json} {events : List NameEvent}
      (hfields : WritesFields fields events) :
      WritesType (.object ([("type", .string "record"), ("name", .string name)]
        ++ AvroType.docMember doc ++ [("fields", .array fields)])) (.define name :: events)

/-- The members of a union, none of which is a list. -/
inductive WritesMembers : List Json → List NameEvent → Prop
  | nil : WritesMembers [] []
  | cons {member : Json} {rest : List Json} {events later : List NameEvent}
      (hmember : WritesType member events) (hflat : ∀ list, member ≠ .array list)
      (hrest : WritesMembers rest later) : WritesMembers (member :: rest) (events ++ later)

/-- The fields of a record, each with a type and a name. -/
inductive WritesFields : List Json → List NameEvent → Prop
  | nil : WritesFields [] []
  | cons {name : String} {type : Json} {doc : Option String} {rest : List Json}
      {events later : List NameEvent} (htype : WritesType type events)
      (hrest : WritesFields rest later) :
      WritesFields (.object ([("type", type), ("name", .string name)] ++ AvroType.docMember doc)
        :: rest) (events ++ later)
end

/-- The value of a whole schema: a record whose name may be followed by a namespace. -/
inductive WritesSchema : Json → List NameEvent → Prop
  | record {name : String} {nameSpace doc : Option String} {fields : List Json}
      {events : List NameEvent} (hfields : WritesFields fields events) :
      WritesSchema (.object ([("type", .string "record"), ("name", .string name)]
        ++ AvroSchema.spaceMember nameSpace ++ AvroType.docMember doc
        ++ [("fields", .array fields)])) (.define name :: events)

namespace AvroType

mutual
/-- The names in a type, in the order of its text. -/
def events : AvroType → List NameEvent
  | named name => [.mention name]
  | union members => eventsOfAll members
  | array items => items.events
  | enumeration name _ => [.define name]
  | record name _ fields => .define name :: eventsOfFields fields

def eventsOfAll : List AvroType → List NameEvent
  | [] => []
  | type :: rest => type.events ++ eventsOfAll rest

def eventsOfFields : List (AvroField AvroType) → List NameEvent
  | [] => []
  | ⟨_, type, _⟩ :: rest => type.events ++ eventsOfFields rest
end

def isUnion : AvroType → Bool
  | union _ => true
  | _ => false

/-- No union stands directly in a union. -/
inductive Flat : AvroType → Prop
  | named (name : String) : Flat (.named name)
  | union {members : List AvroType} (hmembers : ∀ m ∈ members, Flat m)
      (hflat : ∀ m ∈ members, m.isUnion = false) : Flat (.union members)
  | array {items : AvroType} (hitems : Flat items) : Flat (.array items)
  | enumeration (name : String) (symbols : List String) : Flat (.enumeration name symbols)
  | record {name : String} {doc : Option String} {fields : List (AvroField AvroType)}
      (hfields : ∀ f ∈ fields, Flat f.type) : Flat (.record name doc fields)

@[simp] theorem eventsOfAll_append (xs ys : List AvroType) :
    eventsOfAll (xs ++ ys) = eventsOfAll xs ++ eventsOfAll ys := by
  induction xs with
  | nil => rfl
  | cons x rest ih => rw [List.cons_append, eventsOfAll, eventsOfAll, ih, List.append_assoc]

@[simp] theorem eventsOfFields_append (xs ys : List (AvroField AvroType)) :
    eventsOfFields (xs ++ ys) = eventsOfFields xs ++ eventsOfFields ys := by
  induction xs with
  | nil => rfl
  | cons x rest ih => rw [List.cons_append, eventsOfFields, eventsOfFields, ih, List.append_assoc]

theorem toJson_ne_array {type : AvroType} (h : type.isUnion = false) (list : List Json) :
    type.toJson ≠ .array list := by
  cases type with
  | union members => cases h
  | _ => simp [toJson]

mutual
/-- The JSON form of a type follows the grammar. -/
theorem writesType : ∀ {type : AvroType}, type.Flat → WritesType type.toJson type.events
  | named name, _ => by
    rw [toJson, events]
    exact .name name
  | union members, h => by
    rw [toJson, events]
    cases h with
    | union hmembers hflat => exact .union (writesMembers hmembers hflat)
  | array items, h => by
    rw [toJson, events]
    cases h with
    | array hitems => exact .array (writesType hitems)
  | enumeration name symbols, _ => by
    rw [toJson, events]
    exact .enumeration name symbols
  | record name doc fields, h => by
    rw [toJson, events]
    cases h with
    | record hfields => exact .record (writesFields hfields)

theorem writesMembers : ∀ {types : List AvroType}, (∀ t ∈ types, t.Flat) →
    (∀ t ∈ types, t.isUnion = false) → WritesMembers (toJsonAll types) (eventsOfAll types)
  | [], _, _ => by
    rw [toJsonAll, eventsOfAll]
    exact .nil
  | type :: rest, htypes, hflat => by
    rw [toJsonAll, eventsOfAll]
    obtain ⟨htype, hrest⟩ := List.forall_mem_cons.mp htypes
    obtain ⟨hunion, hflat⟩ := List.forall_mem_cons.mp hflat
    exact .cons (writesType htype) (toJson_ne_array hunion) (writesMembers hrest hflat)

theorem writesFields : ∀ {fields : List (AvroField AvroType)}, (∀ f ∈ fields, f.type.Flat) →
    WritesFields (toJsonFields fields) (eventsOfFields fields)
  | [], _ => by
    rw [toJsonFields, eventsOfFields]
    exact .nil
  | ⟨name, type, doc⟩ :: rest, hfields => by
    rw [toJsonFields, eventsOfFields]
    obtain ⟨htype, hrest⟩ := List.forall_mem_cons.mp hfields
    exact .cons (writesType htype) (writesFields hrest)
end

end AvroType

end SchemaBridge
