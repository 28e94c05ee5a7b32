import SchemaBridge.Proofs.AvroFields

/-!
The fields of the groups in a Parquet message. A field renders a node place by place: an object
becomes a group of the fields that it declares, and an array what its items become. Main statement:
both conversions keep just the declared fields, in order and at every depth, and both fail if an
object that the root leads to declares a name twice.
-/

namespace SchemaBridge

namespace ParquetEmission

open Steps Schema

mutual
/-- The field renders the node that the references from a node lead to. -/
inductive Renders (s : Schema) : NodeId → ParquetField → Prop
  | intro {id target : NodeId} {field : ParquetField} (htarget : s.dereference id = .ok target)
      (h : RendersNode s target field) : Renders s id field

/-- The field renders the node. -/
inductive RendersNode (s : Schema) : NodeId → ParquetField → Prop
  | column {id : NodeId} {type : Primitive} {slot : Slot} {field : ParquetField}
      (hkind : (s.node id).kind = .primitive type) (hcolumn : column slot type = .ok field) :
      RendersNode s id field
  | enumeration {id : NodeId} {literals : List Json} {repetition : Repetition} {name : String}
      (hkind : (s.node id).kind = .enumeration literals) :
      RendersNode s id (.column repetition .binary (some .enumeration) name)
  | array {id items : NodeId} {field : ParquetField} (hkind : (s.node id).kind = .array items)
      (hitems : Renders s items field) : RendersNode s id field
  | group {id : NodeId} {repetition : Repetition} {name : String}
      {entries : List (String × NodeId)} {fields : List ParquetField}
      (hentries : s.Expands id entries)
      (hfields : Matches ParquetField.name (Renders s) entries fields)
      (hnames : (fields.map ParquetField.name).Nodup) :
      RendersNode s id (.group repetition name fields)
end

variable {s : Schema}

/-- The field renders the node in a slot, so it has the name of the slot. -/
structure RendersIn (s : Schema) (slot : Slot) (id : NodeId) (field : ParquetField) : Prop where
  renders : Renders s id field
  name : field.name = slot.name

theorem Renders.of_reference {id next : NodeId} {text : String} {field : ParquetField}
    (hkind : (s.node id).kind = .reference text (some next)) (h : Renders s next field) :
    Renders s id field := by
  cases h with
  | intro htarget h => exact .intro (dereference_reference hkind htarget) h

/-! ### What a conversion finds -/

theorem emitProperties_matches {emit : FieldEmitter}
    (hemit : ∀ {id slot result}, emit id slot = .ok result → s.Finds (RendersIn s slot) id result)
    {shape : ObjectShape} {properties : List (String × NodeId)} {fields : List ParquetField}
    (h : emitProperties emit shape properties = .ok fields) :
    Matches ParquetField.name (Renders s) (s.typedProperties properties) fields := by
  induction properties generalizing fields with
  | nil =>
      cases h
      exact .nil
  | cons property rest ih =>
      obtain ⟨name, id⟩ := property
      rw [emitProperties] at h
      obtain ⟨result, hresult, h⟩ := of_bind_ok h
      obtain ⟨later, hlater, h⟩ := of_bind_ok h
      cases h
      have hfound := hemit hresult
      cases result with
      | none =>
          rw [typedProperties, List.filter_cons_of_neg (by simp [hfound.leadsToUntyped])]
          exact ih hlater
      | some field =>
          rw [typedProperties, List.filter_cons_of_pos (by simp [hfound.leadsToUntyped])]
          cases hfound with
          | typed _ _ hfield =>
              obtain ⟨hrenders, rfl⟩ := hfield
              exact .cons hrenders (ih hlater)

/-- The fields are those that the branches declare. -/
def MatchesBranches (s : Schema) (ids : List NodeId) (fields : List ParquetField) : Prop :=
  ∃ entries, s.ExpandsAll ids entries ∧ Matches ParquetField.name (Renders s) entries fields

theorem emitBranches_matches {emit : NodeId → Except EmissionError (List ParquetField)}
    (hemit : ∀ {branch fields}, emit branch = .ok fields → MatchesBranches s [branch] fields)
    {ids : List NodeId} {fields : List ParquetField} (h : emitBranches emit ids = .ok fields) :
    MatchesBranches s ids fields := by
  induction ids generalizing fields with
  | nil =>
      cases h
      exact ⟨[], .nil, .nil⟩
  | cons id rest ih =>
      rw [emitBranches] at h
      obtain ⟨first, hfirst, h⟩ := of_bind_ok h
      obtain ⟨later, hlater, h⟩ := of_bind_ok h
      cases h
      obtain ⟨entries, hentries, hmatches⟩ := hemit hfirst
      obtain ⟨more, hmore, hmatches'⟩ := ih hlater
      exact ⟨entries ++ more, hentries.append hmore, hmatches.append hmatches'⟩

section

variable {budget : Nat} {active : List NodeId}

theorem emit_finds {id : NodeId} {slot : Slot} {result : Option ParquetField}
    (hemit : ∀ {active id slot result}, emit s budget active id slot = .ok result →
      s.Finds (RendersIn s slot) id result)
    (hfields : ∀ {active shape found}, fields s budget active shape = .ok found →
      ∀ id, (s.node id).kind = .object shape → s.FieldsOf ParquetField.name (Renders s) id found)
    (h : emit s (budget + 1) active id slot = .ok result) :
    s.Finds (RendersIn s slot) id result := by
  have hstep := emit_step h
  generalize hkind : (s.node id).kind = kind at hstep
  have hself (hreference : kind.isReference = false) : s.dereference id = .ok id :=
    dereference_self (hkind ▸ hreference)
  have htyped {field : ParquetField} (hreference : kind.isReference = false)
      (huntyped : kind ≠ .untyped) (hrenders : RendersNode s id field)
      (hname : field.name = slot.name) : s.Finds (RendersIn s slot) id (some field) :=
    .typed (hself hreference) (hkind ▸ huntyped) ⟨.intro (hself hreference) hrenders, hname⟩
  cases hstep with
  | untyped => exact .untyped (hself rfl) hkind
  | primitive hcolumn =>
      exact htyped rfl nofun (.column hkind hcolumn) (column_ok hcolumn).1
  | enumeration => exact htyped rfl nofun (.enumeration hkind) rfl
  | array _ hitems =>
      cases hemit hitems with
      | typed _ _ hfield => exact htyped rfl nofun (.array hkind hfield.renders) hfield.name
  | object hfound =>
      cases hfields hfound id hkind with
      | intro hentries hmatches hnames =>
          exact htyped rfl nofun (.group hentries hmatches hnames) rfl
  | reference hnext =>
      refine (hemit hnext).of_reference hkind fun field hfield => ?_
      exact ⟨hfield.renders.of_reference hkind, hfield.name⟩

theorem fields_fieldsOf {shape : ObjectShape} {found : List ParquetField}
    (hemit : ∀ {active id slot result}, emit s budget active id slot = .ok result →
      s.Finds (RendersIn s slot) id result)
    (hbranch : ∀ {active branch found}, branchFields s budget active branch = .ok found →
      MatchesBranches s [branch] found)
    (h : fields s (budget + 1) active shape = .ok found) {id : NodeId}
    (hkind : (s.node id).kind = .object shape) :
    s.FieldsOf ParquetField.name (Renders s) id found := by
  obtain ⟨own, inherited, hown, hinherited, rfl, hnames⟩ := fields_step h
  have hmatches := emitProperties_matches (s := s) hemit hown
  obtain ⟨entries, hentries, hmatches'⟩ := emitBranches_matches hbranch hinherited
  exact .intro (.object hkind hentries) (hmatches.append hmatches') hnames

theorem branchFields_matches {branch : NodeId} {found : List ParquetField}
    (hfields : ∀ {active shape found}, fields s budget active shape = .ok found →
      ∀ id, (s.node id).kind = .object shape → s.FieldsOf ParquetField.name (Renders s) id found)
    (h : branchFields s (budget + 1) active branch = .ok found) :
    MatchesBranches s [branch] found := by
  cases branch_step h with
  | object htarget hkind hfound =>
      cases hfields hfound _ hkind with
      | intro hentries hmatches => exact ⟨_, .single htarget hentries, hmatches⟩
  | untyped htarget hkind => exact ⟨[], .untyped htarget hkind .nil, .nil⟩

/-- Whatever is emitted renders its node, whatever the budget. -/
theorem finds (s : Schema) (budget : Nat) :
    (∀ {active id slot result}, emit s budget active id slot = .ok result →
      s.Finds (RendersIn s slot) id result) ∧
    (∀ {active shape found}, fields s budget active shape = .ok found →
      ∀ id, (s.node id).kind = .object shape →
        s.FieldsOf ParquetField.name (Renders s) id found) ∧
    ∀ {active branch found}, branchFields s budget active branch = .ok found →
      MatchesBranches s [branch] found := by
  induction budget with
  | zero => refine ⟨fun h => ?_, fun h => ?_, fun h => ?_⟩ <;> cases h
  | succ budget ih =>
      obtain ⟨hemit, hfields, hbranch⟩ := ih
      exact ⟨emit_finds hemit hfields, fun h _ => fields_fieldsOf hemit hbranch h,
        branchFields_matches hfields⟩

end

/-! ### What is rendered -/

/-- A node that some field renders. -/
def Rendered (s : Schema) (id : NodeId) : Prop :=
  ∃ field, RendersNode s id field

theorem Renders.endsIn {id : NodeId} {field : ParquetField} (h : Renders s id field) :
    s.EndsIn (Rendered s) id := by
  cases h with
  | intro htarget h => exact ⟨_, htarget, _, h⟩

/-- A rendering goes on to the parts of a node. A tuple has none. -/
theorem goesOn (s : Schema) : s.GoesOn (Rendered s) where
  object id shape hrendered hkind := by
    obtain ⟨_, hrenders⟩ := hrendered
    cases hrenders with
    | group hentries hfields hnames =>
        refine ⟨_, hentries, hfields.names ▸ hnames, fun entry hentry => ?_⟩
        obtain ⟨field, hfield⟩ := hfields.exists_of_mem hentry
        exact hfield.endsIn
    | column hkind' => rw [hkind'] at hkind; cases hkind
    | enumeration hkind' => rw [hkind'] at hkind; cases hkind
    | array hkind' => rw [hkind'] at hkind; cases hkind
  array id items hrendered hkind := by
    obtain ⟨_, hrenders⟩ := hrendered
    cases hrenders with
    | array hkind' hitems =>
        rw [hkind'] at hkind
        cases hkind
        exact hitems.endsIn
    | group hentries =>
        cases hentries with
        | object hkind' => rw [hkind'] at hkind; cases hkind
    | column hkind' => rw [hkind'] at hkind; cases hkind
    | enumeration hkind' => rw [hkind'] at hkind; cases hkind
  tuple id ids hrendered hkind := by
    obtain ⟨_, hrenders⟩ := hrendered
    cases hrenders with
    | group hentries =>
        cases hentries with
        | object hkind' => rw [hkind'] at hkind; cases hkind
    | column hkind' => rw [hkind'] at hkind; cases hkind
    | enumeration hkind' => rw [hkind'] at hkind; cases hkind
    | array hkind' => rw [hkind'] at hkind; cases hkind

end ParquetEmission

namespace Schema

open Steps

variable {s : Schema}

/-- The fields of a message are those that the root declares. -/
theorem parquetFields_renders {fields : List ParquetField} (h : s.parquetFields = .ok fields) :
    ∃ root shape, s.rootObject = .ok (root, shape) ∧
      s.FieldsOf ParquetField.name (ParquetEmission.Renders s) root fields := by
  unfold parquetFields at h
  obtain ⟨⟨root, shape⟩, hroot, h⟩ := of_bind_ok h
  have hfields := (ParquetEmission.finds s s.maxEmissionDepth).2.1 h root (rootObject_ok hroot)
  exact ⟨root, shape, hroot, hfields⟩

/-- If there is a message, then no object that the root leads to declares a name twice. -/
theorem parquetFields_names_nodup {fields : List ParquetField} (h : s.parquetFields = .ok fields)
    {id : NodeId} {entries : List (String × NodeId)} (hreached : s.Reached id)
    (hentries : s.Expands id entries) : (entries.map Prod.fst).Nodup := by
  obtain ⟨root, shape, hroot, hfields⟩ := parquetFields_renders h
  cases hfields with
  | intro hdeclared hmatches hnames =>
      have hrenders : ParquetEmission.RendersNode s root (.group .required "" fields) :=
        .group hdeclared hmatches hnames
      exact hreached.names_nodup (ParquetEmission.goesOn s)
        ⟨root, dereference_root hroot, _, hrenders⟩ hentries

/-- Both conversions keep the declared fields, in order. An Avro schema renders the schema that it
is made from, at every depth, and so do the fields of a message; and if an object that the root
leads to declares a name twice, then both conversions fail. -/
theorem conversions_keep_fields (s : Schema) (settings : AvroSettings) :
    (∀ a, s.avroSchema settings = .ok a → ∃ named, AvroEmission.RendersSchema s named a.type) ∧
    (∀ fields, s.parquetFields = .ok fields → ∃ root shape,
      s.rootObject = .ok (root, shape) ∧
        s.FieldsOf ParquetField.name (ParquetEmission.Renders s) root fields) ∧
    ∀ id entries, s.Reached id → s.Expands id entries → ¬(entries.map Prod.fst).Nodup →
      (∃ e, s.avroSchema settings = .error e) ∧ ∃ e, s.parquetFields = .error e := by
  refine ⟨fun a h => avroSchema_renders h, fun fields h => parquetFields_renders h,
    fun id entries hreached hentries htwice => ⟨?_, ?_⟩⟩
  · cases h : s.avroSchema settings with
    | error e => exact ⟨e, rfl⟩
    | ok a => exact (htwice (avroSchema_names_nodup h hreached hentries)).elim
  · cases h : s.parquetFields with
    | error e => exact ⟨e, rfl⟩
    | ok fields => exact (htwice (parquetFields_names_nodup h hreached hentries)).elim

/-- A parcel with a label and, from a branch, a weight, beside two fields that are untyped. -/
def parcelSchema : Schema where
  nodes := #[{ kind := .untyped }, { kind := .reference "#/definitions/label" (some 8) },
    { kind := .reference "#/definitions/weighed" (some 6) },
    { title := some "Parcel", kind := .object {
      properties := [("note", 0), ("label", 1)], allOf := [2] } },
    { kind := .primitive .number }, { kind := .untyped },
    { kind := .object { properties := [("grams", 4), ("extra", 5)] } },
    { kind := .primitive .string },
    { title := some "Label", kind := .object { properties := [("text", 7)] } }]
  root := 3

def parcelAvroSchema : AvroSchema where
  type := .record "Parcel" none
    [⟨"label", .record "Label" none [⟨"text", .named "string", none⟩], none⟩,
      ⟨"grams", .named "double", none⟩]
  nameSpace := none
  warnings := ["dropping untyped field `note` from record Parcel",
    "dropping untyped field `extra` from record Record"]

def parcelFields : List ParquetField :=
  [.group .optional "label" [.column .optional .binary (some .utf8) "text"],
    .column .optional .double none "grams"]

/-- An object and its branch that declare one name. -/
def clashSchema : Schema where
  nodes := #[{ kind := .primitive .string }, { kind := .primitive .integer },
    { kind := .object { properties := [("id", 1)] } },
    { title := some "Clash", kind := .object { properties := [("id", 0)], allOf := [2] } }]
  root := 3

theorem rootObject_parcel : parcelSchema.rootObject =
    .ok (3, { properties := [("note", 0), ("label", 1)], allOf := [2] }) := by
  cbv

unseal Arena.chase in
theorem avroSchema_parcel : parcelSchema.avroSchema {} = .ok parcelAvroSchema := by
  rw [avroSchema, rootObject_parcel]
  rfl

theorem parquetFields_parcel : parcelSchema.parquetFields = .ok parcelFields := by
  cbv

theorem expands_clash : clashSchema.Expands 3 [("id", 0), ("id", 1)] := by
  have hown : clashSchema.typedProperties [("id", 0)] = [("id", 0)] := by cbv
  have hinherited : clashSchema.typedProperties [("id", 1)] = [("id", 1)] := by cbv
  have hkind : (clashSchema.node 2).kind = .object { properties := [("id", 1)] } := rfl
  have hbranch := Expands.object hkind .nil
  have htarget : clashSchema.dereference 2 = .ok 2 := by cbv
  have hroot : (clashSchema.node 3).kind =
      .object { properties := [("id", 0)], allOf := [2] } := rfl
  have hobject := Expands.object hroot (.single htarget hbranch)
  rwa [hown, hinherited] at hobject

/-- The fields of a parcel are its label and its weight in both formats, and a clash between an
object and its branch makes both conversions fail. -/
theorem conversions_keep_fields_parcel :
    (parcelSchema.avroSchema {} = .ok parcelAvroSchema ∧
      ∃ named, AvroEmission.RendersSchema parcelSchema named parcelAvroSchema.type) ∧
    (parcelSchema.parquetFields = .ok parcelFields ∧ ∃ root shape entries,
      parcelSchema.rootObject = .ok (root, shape) ∧ parcelSchema.Expands root entries ∧
        parcelFields.map ParquetField.name = entries.map Prod.fst ∧
        entries.map Prod.fst = ["label", "grams"]) ∧
    clashSchema.Reached 3 ∧ clashSchema.Expands 3 [("id", 0), ("id", 1)] ∧ ¬["id", "id"].Nodup ∧
      (∃ e, clashSchema.avroSchema {} = .error e) ∧ ∃ e, clashSchema.parquetFields = .error e := by
  have htwice : ¬["id", "id"].Nodup := by decide
  obtain ⟨havro, hparquet, -⟩ := conversions_keep_fields parcelSchema {}
  obtain ⟨-, -, hfails⟩ := conversions_keep_fields clashSchema {}
  refine ⟨⟨avroSchema_parcel, havro _ avroSchema_parcel⟩, ⟨parquetFields_parcel, ?_⟩, .root,
    expands_clash, htwice, hfails 3 _ .root expands_clash htwice⟩
  obtain ⟨root, shape, hroot, hfields⟩ := hparquet _ parquetFields_parcel
  obtain ⟨entries, hentries, hnames, -⟩ := hfields.names
  exact ⟨root, shape, entries, hroot, hentries, hnames, hnames.symm⟩

end Schema

end SchemaBridge
