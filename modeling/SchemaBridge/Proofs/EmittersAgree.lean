import SchemaBridge.Proofs.AvroShapes
import SchemaBridge.Proofs.ParquetShapes

/-!
What the two conversions of a schema have in common. Both unfold the root: a message has the fields
that it unfolds to, and so has the record at the top of an Avro schema, where mentions stand for
their definitions. Main statement: a schema with a message has an Avro schema as well, unless it
leads to an enumeration with a literal that is no text, and the record has the shape of the message,
unless a definition has the name of a primitive type.
-/

namespace SchemaBridge

open AvroEmission Steps

namespace Schema

variable {s : Schema}

theorem unseen_nil (n : Nat) : NodeId.unseen n [] = n := by
  simp [NodeId.unseen]

theorem demand_lt_maxEmissionDepth (s : Schema) : demand s [] + 2 ≤ s.maxEmissionDepth := by
  rw [demand, unseen_nil, maxEmissionDepth]
  have hcube : s.nodes.size + 1 ≤ (s.nodes.size + 1) ^ 3 := Nat.le_self_pow (by decide) _
  omega

theorem Reached.of_rootObject {root : NodeId} {shape : ObjectShape}
    (h : s.rootObject = .ok (root, shape)) : s.Reached root :=
  Reached.root.dereference (dereference_root h)

/-- The conversion of a schema whose root unfolds to a group ends in a type of that shape. -/
theorem emit_root_ends (hs : s.WellFormed) (defaultName : String) {root : NodeId}
    {shape : ObjectShape} {n : Nat} {result : Option FieldShape}
    (hroot : s.rootObject = .ok (root, shape)) (hshape : s.ShapedWithin n root result) :
    Ends s.HasNonTextSymbol (emit s defaultName s.maxEmissionDepth root none) {} fun type p =>
      Represents s {} p type result := by
  have hstart : ({} : Progress).Tidy s := tidy_start
  have habove : Above s n [] := fun _ hmem => (List.not_mem_nil hmem).elim
  have hwrites := (ends hs defaultName s.maxEmissionDepth).1 habove (demand_lt_maxEmissionDepth s)
  exact (hwrites.ends hstart rfl (.of_rootObject hroot) hshape).imp fun _ _ h => h.2

/-- The definitions of an Avro schema are in their own table, unless one has the name of a primitive
type. -/
theorem avroSchema_defines {settings : AvroSettings} {a : AvroSchema}
    (h : s.avroSchema settings = .ok a) (hfree : ∀ e ∈ a.type.table, e.1 ∉ AvroType.tokens) :
    Defines a.type.table a.type.table := by
  obtain ⟨_, _, _, root, shape, p, -, -, hrun⟩ := avroSchema_run h
  obtain ⟨hissues, -⟩ := (emits_all s settings.defaultName s.maxEmissionDepth).1 hrun
  have hstart : ({} : Progress).Sound := by simp [Progress.Sound]
  obtain ⟨-, hgrounded⟩ := hissues hstart
  replace hgrounded : Grounded [] a.type.events p.issued := hgrounded
  have hnodup : (a.type.table.map Prod.fst).Nodup := by
    rw [AvroType.map_fst_table]
    exact hgrounded.definitions_nodup.1
  exact fun e he => ⟨hfree e he, lookup_of_mem hnodup he⟩

/-- The Avro schema of a schema is the record that its root is converted to. -/
theorem avroSchema_eq_ok {settings : AvroSettings} {a : AvroSchema} {root : NodeId}
    {shape : ObjectShape} (hroot : s.rootObject = .ok (root, shape))
    (h : s.avroSchema settings = .ok a) :
    ∃ name doc record p, a.type = .record name doc record ∧
      (emit s settings.defaultName s.maxEmissionDepth root none).run {} = .ok (some a.type, p) := by
  rw [avroSchema] at h
  obtain ⟨r, hr, h⟩ := of_bind_ok h
  rw [hroot] at hr
  cases hr
  obtain ⟨⟨type, p⟩, hrun, h⟩ := of_bind_ok h
  obtain ⟨name, doc, record, rfl⟩ := emit_object ⟨shape, rootObject_ok hroot⟩ hrun rfl
  cases h
  exact ⟨name, doc, record, p, rfl, hrun⟩

/-- The two conversions of a schema agree. If it has a message, then it has an Avro schema as well,
unless it leads to an enumeration with a literal that is no text; and if no definition has the name
of a primitive type, then the fields of the record stand for the shapes of the fields of the message
and for nothing else, where every mention stands for its definition. -/
theorem read_emissions_agree {document : Json} {fields : List ParquetField}
    (settings : AvroSettings) (hdistinct : document.DistinctKeys)
    (hread : Schema.read document = .ok s) (h : s.parquetFields = .ok fields) :
    ((∃ a, s.avroSchema settings = .ok a) ∨ s.HasNonTextSymbol) ∧
    ∀ a, s.avroSchema settings = .ok a → (∀ e ∈ a.type.table, e.1 ∉ AvroType.tokens) →
      ∃ name doc record, a.type = .record name doc record ∧
        ∀ shapes, AvroType.DenotesFields a.type.table record shapes ↔
          shapes = ParquetField.shapesOf fields := by
  have hs := read_wellFormed hdistinct hread
  obtain ⟨root, shape, n, hroot, hshape⟩ := parquetFields_shaped h
  have hends := emit_root_ends hs settings.defaultName hroot hshape
  constructor
  · rcases hends with ⟨result, p, hrun, hrepresents⟩ | ⟨-, hsymbol⟩
    · left
      cases hrepresents with
      | @typed type _ _ =>
          refine ⟨⟨type, settings.nameSpace, p.warnings⟩, ?_⟩
          rw [avroSchema, hroot]
          simp only [bind, Except.bind, hrun]
          rfl
    · exact .inr hsymbol
  · intro a ha hfree
    obtain ⟨name, doc, record, p', htype, hrun'⟩ := avroSchema_eq_ok hroot ha
    rcases hends with ⟨result, p, hrun, hrepresents⟩ | ⟨⟨e, herror⟩, -⟩
    · rw [hrun'] at hrun
      cases hrun
      cases hrepresents with
      | typed hdenotes =>
          have hstart : Known s a.type.table {} :=
            fun _ _ _ _ hname => (List.not_mem_nil hname).elim
          have hrecord := (hdenotes _ (avroSchema_defines ha hfree) hstart).2
          refine ⟨name, doc, record, htype, fun shapes => ?_⟩
          generalize a.type.table = defs at hrecord ⊢
          rw [htype] at hrecord
          cases hrecord with
          | record hfields =>
              exact ⟨fun hshapes => hshapes.unique hfields, fun heq => heq ▸ hfields⟩
    · rw [hrun'] at herror
      cases herror

/-- Two references to one definition, and an array of an enumeration. -/
def tripDocument : Json :=
  .object [("title", .string "Trip"), ("properties", .object [
      ("from", .object [("$ref", .string "#/definitions/place")]),
      ("to", .object [("$ref", .string "#/definitions/place")]),
      ("marks", .object [("type", .string "array"),
        ("items", .object [("enum", .array [.string "low", .string "high"])])])]),
    ("definitions", .object [("place", .object [("title", .string "Place"),
      ("properties", .object [("name", .object [("type", .string "string")])])])])]

def tripSchema : Schema where
  nodes := #[{ kind := .reference "#/definitions/place" (some 6) },
    { kind := .reference "#/definitions/place" (some 6) },
    { kind := .enumeration [.string "low", .string "high"] }, { kind := .array 2 },
    { title := some "Trip", kind := .object {
      properties := [("from", 0), ("to", 1), ("marks", 3)] } },
    { kind := .primitive .string },
    { title := some "Place", kind := .object { properties := [("name", 5)] } }]
  root := 4

def tripRecord : List (AvroField AvroType) :=
  [⟨"from", .record "Place" none [⟨"name", .named "string", none⟩], none⟩,
    ⟨"to", .named "Place", none⟩,
    ⟨"marks", .array (.enumeration "Marks" ["low", "high"]), none⟩]

def tripAvroSchema : AvroSchema where
  type := .record "Trip" none tripRecord
  nameSpace := none
  warnings := []

def tripFields : List ParquetField :=
  [.group .optional "from" [.column .optional .binary (some .utf8) "name"],
    .group .optional "to" [.column .optional .binary (some .utf8) "name"],
    .column .repeated .binary (some .enumeration) "marks"]

theorem read_trip : Schema.read tripDocument = .ok tripSchema := by
  cbv

theorem rootObject_trip : tripSchema.rootObject =
    .ok (4, { properties := [("from", 0), ("to", 1), ("marks", 3)] }) := by
  cbv

theorem avroSchema_trip : tripSchema.avroSchema {} = .ok tripAvroSchema := by
  rw [avroSchema, rootObject_trip]
  rfl

theorem parquetFields_trip : tripSchema.parquetFields = .ok tripFields := by
  rw [parquetFields, rootObject_trip]
  rfl

theorem read_emissions_agree_trip :
    tripDocument.DistinctKeys ∧ Schema.read tripDocument = .ok tripSchema ∧
      tripSchema.parquetFields = .ok tripFields ∧
      (∃ a, tripSchema.avroSchema {} = .ok a) ∧
      (∀ e ∈ tripAvroSchema.type.table, e.1 ∉ AvroType.tokens) ∧
      AvroType.DenotesFields tripAvroSchema.type.table tripRecord
        (ParquetField.shapesOf tripFields) := by
  have hdistinct : tripDocument.DistinctKeys := by decide
  have hfree : ∀ e ∈ tripAvroSchema.type.table, e.1 ∉ AvroType.tokens := by decide
  obtain ⟨-, hshapes⟩ := read_emissions_agree {} hdistinct read_trip parquetFields_trip
  obtain ⟨name, doc, record, htype, hdenotes⟩ := hshapes _ avroSchema_trip hfree
  refine ⟨hdistinct, read_trip, parquetFields_trip, ⟨_, avroSchema_trip⟩, hfree, ?_⟩
  cases htype
  exact (hdenotes _).mpr rfl

/-- A definition with the title of a primitive type, beside a property of that type. -/
def walkDocument : Json :=
  .object [("title", .string "Walk"), ("properties", .object [
      ("there", .object [("$ref", .string "#/definitions/way")]),
      ("back", .object [("$ref", .string "#/definitions/way")]),
      ("steps", .object [("type", .string "integer")])]),
    ("definitions", .object [("way", .object [("title", .string "long"),
      ("properties", .object [("metres", .object [("type", .string "number")])])])])]

def walkSchema : Schema where
  nodes := #[{ kind := .reference "#/definitions/way" (some 5) },
    { kind := .reference "#/definitions/way" (some 5) }, { kind := .primitive .integer },
    { title := some "Walk", kind := .object {
      properties := [("there", 0), ("back", 1), ("steps", 2)] } },
    { kind := .primitive .number },
    { title := some "long", kind := .object { properties := [("metres", 4)] } }]
  root := 3

def walkRecord : List (AvroField AvroType) :=
  [⟨"there", .record "long" none [⟨"metres", .named "double", none⟩], none⟩,
    ⟨"back", .named "long", none⟩, ⟨"steps", .named "long", none⟩]

def walkAvroSchema : AvroSchema where
  type := .record "Walk" none walkRecord
  nameSpace := none
  warnings := []

def walkFields : List ParquetField :=
  [.group .optional "there" [.column .optional .double none "metres"],
    .group .optional "back" [.column .optional .double none "metres"],
    .column .optional .int32 none "steps"]

theorem read_walk : Schema.read walkDocument = .ok walkSchema := by
  cbv

theorem rootObject_walk : walkSchema.rootObject =
    .ok (3, { properties := [("there", 0), ("back", 1), ("steps", 2)] }) := by
  cbv

/-- A definition can have the name of a primitive type, and then no reading of the types gives the
record the shape of the message. -/
theorem emissions_disagree_walk :
    walkDocument.DistinctKeys ∧ Schema.read walkDocument = .ok walkSchema ∧
      walkSchema.parquetFields = .ok walkFields ∧
      walkSchema.avroSchema {} = .ok walkAvroSchema ∧
      walkAvroSchema.type = .record "Walk" none walkRecord ∧
      ¬∃ meaning : AvroType → FieldShape,
        walkRecord.map (fun f => (f.name, meaning f.type)) = ParquetField.shapesOf walkFields := by
  refine ⟨by decide, read_walk, ?_, ?_, rfl, ?_⟩
  · rw [parquetFields, rootObject_walk]
    rfl
  · rw [avroSchema, rootObject_walk]
    rfl
  · rintro ⟨meaning, hmeaning⟩
    simp only [walkRecord, walkFields, List.map_cons, List.map_nil, ParquetField.shapesOf,
      ParquetField.shape, FieldShape.under, List.cons.injEq, Prod.mk.injEq] at hmeaning
    obtain ⟨-, ⟨-, hback⟩, ⟨-, hsteps⟩, -⟩ := hmeaning
    rw [hback] at hsteps
    cases hsteps

end Schema

end SchemaBridge
