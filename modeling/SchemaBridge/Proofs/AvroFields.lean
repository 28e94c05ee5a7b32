import SchemaBridge.Proofs.AvroUnions
import SchemaBridge.Proofs.EmittersAgree
import SchemaBridge.Proofs.FieldExpansion

/-!
The fields of the records in an Avro schema. A type renders a node place by place: an object becomes
a record of the fields that it declares, where it is met first, and its name stands for it
afterwards. Main statement: the record at the top renders the root, and the definitions at any depth
are those of the nodes with a name, each record having the fields that its node declares.
-/

namespace SchemaBridge

namespace AvroEmission

open Steps Schema

mutual
/-- The type renders the node that the references from a node lead to. -/
inductive Renders (s : Schema) (named : List (NodeId × String)) : NodeId → AvroType → Prop
  | intro {id target : NodeId} {type : AvroType} (htarget : s.dereference id = .ok target)
      (h : RendersNode s named target type) : Renders s named id type

/-- The type renders the node, given the names of the definitions. -/
inductive RendersNode (s : Schema) (named : List (NodeId × String)) : NodeId → AvroType → Prop
  | primitive {id : NodeId} {type : Primitive} (hkind : (s.node id).kind = .primitive type) :
      RendersNode s named id (.named type.avroName)
  | union {id : NodeId} {types : List JsonType} (hkind : (s.node id).kind = .union types) :
      RendersNode s named id (.union (memberNames types))
  | array {id items : NodeId} {type : AvroType} (hkind : (s.node id).kind = .array items)
      (hitems : Renders s named items type) : RendersNode s named id (.array type)
  | tuple {id : NodeId} {ids : List NodeId} {types : List AvroType} {items : AvroType}
      (hkind : (s.node id).kind = .tuple ids)
      (helements : List.Forall₂ (Renders s named) ids types)
      (hitems : mergeTypes [] types = [items] ∨
        2 ≤ (mergeTypes [] types).length ∧ items = .union (mergeTypes [] types)) :
      RendersNode s named id (.array items)
  | mention {id : NodeId} {name : String} (hname : (id, name) ∈ named)
      (hkind : isDefinition (s.node id).kind = true) : RendersNode s named id (.named name)
  | definition {id : NodeId} {name : String} {type : AvroType} (hname : (id, name) ∈ named)
      (h : RendersDefinition s named id name type) : RendersNode s named id type

/-- The type is the definition of the node under a name. -/
inductive RendersDefinition (s : Schema) (named : List (NodeId × String)) :
    NodeId → String → AvroType → Prop
  | enumeration {id : NodeId} {name : String} {literals : List Json} {symbols : List String}
      (hkind : (s.node id).kind = .enumeration literals) :
      RendersDefinition s named id name (.enumeration name symbols)
  | record {id : NodeId} {name : String} {doc : Option String}
      {entries : List (String × NodeId)} {fields : List (AvroField AvroType)}
      (hentries : s.Expands id entries)
      (hfields : Matches AvroField.name (fun id field => Renders s named id field.type) entries
        fields)
      (hnames : (fields.map AvroField.name).Nodup) :
      RendersDefinition s named id name (.record name doc fields)
end

variable {s : Schema} {named : List (NodeId × String)}

/-- The type of the field renders the node. -/
abbrev RendersField (s : Schema) (named : List (NodeId × String)) (id : NodeId)
    (field : AvroField AvroType) : Prop :=
  Renders s named id field.type

theorem Renders.of_reference {id next : NodeId} {text : String} {type : AvroType}
    (hkind : (s.node id).kind = .reference text (some next)) (h : Renders s named next type) :
    Renders s named id type := by
  cases h with
  | intro htarget h => exact .intro (dereference_reference hkind htarget) h

theorem RendersDefinition.of_fieldsOf {id : NodeId} {name : String} {doc : Option String}
    {fields : List (AvroField AvroType)}
    (h : s.FieldsOf AvroField.name (RendersField s named) id fields) :
    RendersDefinition s named id name (.record name doc fields) := by
  cases h with
  | intro hentries hfields hnames => exact .record hentries hfields hnames

theorem RendersDefinition.isDefinition {id : NodeId} {name : String} {type : AvroType}
    (h : RendersDefinition s named id name type) :
    AvroEmission.isDefinition (s.node id).kind = true := by
  cases h with
  | enumeration hkind => rw [hkind]; rfl
  | record hentries =>
      cases hentries with
      | object hkind => rw [hkind]; rfl

theorem ne_untyped_of_isDefinition {kind : Kind} (h : isDefinition kind = true) :
    kind ≠ .untyped := by
  rintro rfl
  cases h

/-! ### What a conversion finds -/

/-- An emitter of types finds what renders its node, given any later table of names. -/
structure FindsTypes (s : Schema) (named : List (NodeId × String)) (emit : TypeEmitter) : Prop where
  extend : ∀ {id hint p p' result}, (emit id hint).run p = .ok (result, p') → p.Extends s p'
  finds : ∀ {id hint p p' result}, (emit id hint).run p = .ok (result, p') → p.Tidy s →
    p'.named ⊆ named → s.Finds (Renders s named) id result

/-- An emitter of fields finds those that its branch declares. -/
structure FindsFields (s : Schema) (named : List (NodeId × String))
    (emit : NodeId → Emitter (List (AvroField AvroType))) : Prop where
  extend : ∀ {id p p' fields}, (emit id).run p = .ok (fields, p') → p.Extends s p'
  finds : ∀ {id p p' fields}, (emit id).run p = .ok (fields, p') → p.Tidy s →
    p'.named ⊆ named → ∃ entries, s.ExpandsAll [id] entries ∧
      Matches AvroField.name (RendersField s named) entries fields

theorem names_subset {p p' : Progress} (h : p.Extends s p') (hp : p.Tidy s)
    (hlater : p'.named ⊆ named) : p.named ⊆ named := by
  obtain ⟨-, hsubset⟩ := h hp
  exact fun e he => hlater (hsubset he)

theorem emitElements_renders {emit : TypeEmitter} (hemit : FindsTypes s named emit)
    {hint : Option String} {index : Nat} {ids : List NodeId} {types found : List AvroType}
    {p p' : Progress} (h : (emitElements emit hint index ids types).run p = .ok (found, p'))
    (hp : p.Tidy s) (hlater : p'.named ⊆ named) :
    ∃ each, List.Forall₂ (Renders s named) ids each ∧ found = mergeTypes types each := by
  obtain ⟨each, heach, rfl⟩ := emitElements_merges hemit.extend h hp
  refine ⟨each, heach.imp ?_, rfl⟩
  rintro id type ⟨hint, p₁, p₂, hrun, hp₁, -, hafter⟩
  cases hemit.finds hrun hp₁ fun e he => hlater (hafter he) with
  | typed _ _ hrenders => exact hrenders

theorem emitProperties_matches {emit : TypeEmitter} (hemit : FindsTypes s named emit)
    {record : String} {properties : List (String × NodeId)} {fields : List (AvroField AvroType)}
    {p p' : Progress} (h : (emitProperties emit s record properties).run p = .ok (fields, p'))
    (hp : p.Tidy s) (hlater : p'.named ⊆ named) :
    Matches AvroField.name (RendersField s named) (s.typedProperties properties) fields := by
  induction properties generalizing fields p with
  | nil =>
      obtain ⟨rfl, rfl⟩ := pure_ok h
      exact .nil
  | cons property rest ih =>
      obtain ⟨name, id⟩ := property
      rw [emitProperties] at h
      obtain ⟨result, p₁, hresult, h⟩ := bind_ok h
      obtain ⟨hp₁, -⟩ := hemit.extend hresult hp
      cases result with
      | none =>
          obtain ⟨u, p₂, hwarn, h⟩ := bind_ok h
          cases modifyGet_ok hwarn
          have hwarned := ((kept_extends s).warnDropped p₁ name record hp₁).1
          have hrest := emitProperties_kept (kept_extends s).toChained hemit.extend h
          have hsubset := names_subset hrest hwarned hlater
          have hfound := hemit.finds hresult hp hsubset
          rw [typedProperties, List.filter_cons_of_neg (by simp [hfound.leadsToUntyped])]
          exact ih h hwarned
      | some type =>
          obtain ⟨tail, p₂, htail, h⟩ := bind_ok h
          obtain ⟨rfl, rfl⟩ := pure_ok h
          have hrest := emitProperties_kept (kept_extends s).toChained hemit.extend htail
          have hfound := hemit.finds hresult hp (names_subset hrest hp₁ hlater)
          rw [typedProperties, List.filter_cons_of_pos (by simp [hfound.leadsToUntyped])]
          cases hfound with
          | typed _ _ hrenders =>
              have hfield : RendersField s named id ⟨name, type, (s.node id).description⟩ :=
                hrenders
              exact .cons hfield (ih htail hp₁)

theorem emitBranches_matches {emit : NodeId → Emitter (List (AvroField AvroType))}
    (hemit : FindsFields s named emit) {ids : List NodeId} {fields : List (AvroField AvroType)}
    {p p' : Progress} (h : (emitBranches emit ids).run p = .ok (fields, p')) (hp : p.Tidy s)
    (hlater : p'.named ⊆ named) :
    ∃ entries, s.ExpandsAll ids entries ∧
      Matches AvroField.name (RendersField s named) entries fields := by
  induction ids generalizing fields p with
  | nil =>
      obtain ⟨rfl, rfl⟩ := pure_ok h
      exact ⟨[], .nil, .nil⟩
  | cons id rest ih =>
      rw [emitBranches] at h
      obtain ⟨first, p₁, hfirst, h⟩ := bind_ok h
      obtain ⟨later, p₂, hlast, h⟩ := bind_ok h
      obtain ⟨rfl, rfl⟩ := pure_ok h
      obtain ⟨hp₁, -⟩ := hemit.extend hfirst hp
      have hrest := emitBranches_kept (kept_extends s).toChained hemit.extend hlast
      obtain ⟨entries, hentries, hmatches⟩ := hemit.finds hfirst hp (names_subset hrest hp₁ hlater)
      obtain ⟨more, hmore, hmatches'⟩ := ih hlast hp₁
      exact ⟨entries ++ more, hentries.append hmore, hmatches.append hmatches'⟩

/-- What a visit returns: the definition of the node under the name it is given, or what is found
for a node that is no definition. -/
inductive Visit (s : Schema) (named : List (NodeId × String)) (id : NodeId) (name : String) :
    Option AvroType → Prop
  | definition {type : AvroType} (h : RendersDefinition s named id name type) :
      Visit s named id name (some type)
  | other {result : Option AvroType} (hkind : isDefinition (s.node id).kind = false)
      (h : s.Finds (Renders s named) id result) : Visit s named id name result

section

variable {defaultName : String} {budget : Nat} {p p' : Progress} {id : NodeId}
  {hint : Option String}

theorem visit_renders (hemit : FindsTypes s named (emit s defaultName budget))
    (hbranch : FindsFields s named (branchFields s defaultName budget)) {name : String}
    {result : Option AvroType}
    (h : (visit s defaultName (budget + 1) id hint name).run p = .ok (result, p'))
    (hp : p.Tidy s) (hlater : p'.named ⊆ named) : Visit s named id name result := by
  have hstep := visit_step h
  generalize hkind : (s.node id).kind = kind at hstep
  have hself (hreference : kind.isReference = false) : s.dereference id = .ok id :=
    dereference_self (hkind ▸ hreference)
  -- What is neither a definition nor a reference is rendered in place, without a name.
  have htyped {type : AvroType} (hreference : kind.isReference = false)
      (hdefinition : isDefinition kind = false) (huntyped : kind ≠ .untyped)
      (hrenders : RendersNode s named id type) : Visit s named id name (some type) :=
    .other (hkind ▸ hdefinition)
      (.typed (hself hreference) (hkind ▸ huntyped) (.intro (hself hreference) hrenders))
  cases hstep with
  | untyped => exact .other (by rw [hkind]; rfl) (.untyped (hself rfl) hkind)
  | primitive => exact htyped rfl rfl nofun (.primitive hkind)
  | enumeration hfound => exact .definition (.enumeration hkind)
  | array hitems =>
      cases hemit.finds hitems hp hlater with
      | typed _ _ hrenders => exact htyped rfl rfl nofun (.array hkind hrenders)
  | tuple htypes hitems =>
      obtain ⟨each, heach, rfl⟩ := emitElements_renders hemit htypes hp hlater
      exact htyped rfl rfl nofun (.tuple hkind heach hitems)
  | object hown hinherited hnames =>
      obtain ⟨hp₁, -⟩ := emitProperties_kept (kept_extends s).toChained hemit.extend hown hp
      have hrest := emitBranches_kept (kept_extends s).toChained hbranch.extend hinherited
      have hmatches := emitProperties_matches hemit hown hp (names_subset hrest hp₁ hlater)
      obtain ⟨inherited, hinherits, hmatches'⟩ :=
        emitBranches_matches hbranch hinherited hp₁ hlater
      exact .definition (.record (.object hkind hinherits) (hmatches.append hmatches') hnames)
  | reference _ hnext =>
      have hfound := hemit.finds hnext hp hlater
      exact .other (by rw [hkind]; rfl)
        (hfound.of_reference hkind fun type hrenders => hrenders.of_reference hkind)
  | union hmembers =>
      cases unionMembers_eq hmembers
      exact htyped rfl rfl nofun (.union hkind)

theorem emit_finds {result : Option AvroType}
    (hvisit : ∀ {id hint name p p' result},
      (visit s defaultName budget id hint name).run p = .ok (result, p') → p.Tidy s →
        p'.named ⊆ named → Visit s named id name result)
    (h : (emit s defaultName (budget + 1) id hint).run p = .ok (result, p')) (hp : p.Tidy s)
    (hlater : p'.named ⊆ named) : s.Finds (Renders s named) id result := by
  cases emit_step h with
  | @mention name hname =>
      have hmem := mem_of_lookup hname
      have hdefinition := hp.definition _ hmem
      have hself := dereference_definition hdefinition
      exact .typed hself (ne_untyped_of_isDefinition hdefinition)
        (.intro hself (.mention (hlater hmem) hdefinition))
  | @define _ name p₁ p₂ hnew hkind hdefine hrun =>
      have hp₁ := hp.define (baseName defaultName (s.node id) hint) hnew hkind
      rw [hdefine] at hp₁
      have hp₁ := ((kept_extends s).enter p₁ id hp₁).1
      have hname : (id, name) ∈ p₁.named := by
        cases hdefine
        exact List.mem_cons_self
      have hkept := ((kept_extends s).runs defaultName budget).2.1 hrun
      have hself := dereference_definition hkind
      cases hvisit hrun hp₁ hlater with
      | definition hrenders =>
          have hmem := names_subset hkept hp₁ hlater hname
          exact .typed hself (ne_untyped_of_isDefinition hkind)
            (.intro hself (.definition hmem hrenders))
      | other hkind' => rw [hkind] at hkind'; cases hkind'
  | inline _ hkind hrun =>
      cases hvisit hrun ((kept_extends s).enter p id hp).1 hlater with
      | definition hrenders => rw [hrenders.isDefinition] at hkind; cases hkind
      | other _ hfound => exact hfound

theorem branchFields_finds {fields : List (AvroField AvroType)}
    (hvisit : ∀ {id hint name p p' result},
      (visit s defaultName budget id hint name).run p = .ok (result, p') → p.Tidy s →
        p'.named ⊆ named → Visit s named id name result)
    (h : (branchFields s defaultName (budget + 1) id).run p = .ok (fields, p')) (hp : p.Tidy s)
    (hlater : p'.named ⊆ named) :
    ∃ entries, s.ExpandsAll [id] entries ∧
      Matches AvroField.name (RendersField s named) entries fields := by
  cases branch_step h with
  | record htarget _ hrun =>
      cases hvisit hrun ((kept_extends s).enter p _ hp).1 hlater with
      | definition hrenders =>
          cases hrenders with
          | record hentries hfields => exact ⟨_, .single htarget hentries, hfields⟩
      | other hkind hfound =>
          -- Only a definition is rendered by a record.
          cases hfound with
          | typed _ _ hrenders =>
              cases hrenders with
              | intro htarget' hrenders =>
                  rw [dereference_self (dereference_not_reference htarget)] at htarget'
                  cases htarget'
                  cases hrenders with
                  | definition _ hrenders =>
                      rw [hrenders.isDefinition] at hkind
                      cases hkind
  | untyped htarget _ hrun =>
      cases hvisit hrun ((kept_extends s).enter p _ hp).1 hlater with
      | other _ hfound =>
          cases hfound with
          | untyped htarget' hkind =>
              rw [dereference_self (dereference_not_reference htarget)] at htarget'
              cases htarget'
              exact ⟨[], .untyped htarget hkind .nil, .nil⟩

end

/-- Every emitter finds what renders its node, whatever its budget. -/
theorem finds (s : Schema) (named : List (NodeId × String)) (defaultName : String)
    (budget : Nat) :
    FindsTypes s named (emit s defaultName budget) ∧
    (∀ {id hint name p p' result},
      (visit s defaultName budget id hint name).run p = .ok (result, p') → p.Tidy s →
        p'.named ⊆ named → Visit s named id name result) ∧
    FindsFields s named (branchFields s defaultName budget) := by
  induction budget with
  | zero =>
      exact ⟨⟨fun h => (throw_ok h).elim, fun h => (throw_ok h).elim⟩,
        fun h => (throw_ok h).elim, ⟨fun h => (throw_ok h).elim, fun h => (throw_ok h).elim⟩⟩
  | succ budget ih =>
      obtain ⟨hemit, hvisit, hbranch⟩ := ih
      have hkept := (kept_extends s).runs defaultName (budget + 1)
      exact ⟨⟨hkept.1, emit_finds hvisit⟩, visit_renders hemit hbranch,
        ⟨hkept.2.2, branchFields_finds hvisit⟩⟩

/-! ### Definitions at any depth -/

/-- What a rendering consists of: types that render nodes, names, and unions of these. -/
inductive Component (s : Schema) (named : List (NodeId × String)) : AvroType → Prop
  | renders {id : NodeId} {type : AvroType} (h : RendersNode s named id type) :
      Component s named type
  | name {name : String} : Component s named (.named name)
  | union {members : List AvroType} (h : ∀ m ∈ members, Component s named m) :
      Component s named (.union members)

/-- The entry is the definition of a node that has its name. -/
def DefinesNamed (s : Schema) (named : List (NodeId × String)) (entry : String × AvroType) : Prop :=
  ∃ id, (id, entry.1) ∈ named ∧ RendersDefinition s named id entry.1 entry.2

theorem component_memberNames {types : List JsonType} {m : AvroType} (h : m ∈ memberNames types) :
    Component s named m := by
  obtain ⟨type, -, rfl⟩ := mem_memberNames.mp h
  exact .name

theorem Component.members {members : List AvroType} (h : Component s named (.union members)) :
    ∀ m ∈ members, Component s named m := by
  cases h with
  | renders h =>
      cases h with
      | union => exact fun m hm => component_memberNames hm
      | definition _ h => cases h
  | union h => exact h

theorem Renders.component {id : NodeId} {type : AvroType} (h : Renders s named id type) :
    Component s named type := by
  cases h with
  | intro _ h => exact .renders h

theorem component_mergeTypes {ids : List NodeId} {types : List AvroType}
    (helements : List.Forall₂ (Renders s named) ids types) {m : AvroType}
    (hm : m ∈ mergeTypes [] types) : Component s named m := by
  obtain ⟨i, type, htype, hm⟩ := (mem_mergeTypes hm).resolve_left (by simp)
  obtain ⟨id, -, hrenders⟩ := exists_of_forall₂ helements htype
  have hcomponent := hrenders.component
  cases type with
  | union members => exact hcomponent.members m hm
  | _ =>
      rw [List.mem_singleton.mp hm]
      exact hcomponent

theorem Component.items {items : AvroType} (h : Component s named (.array items)) :
    Component s named items := by
  cases h with
  | renders h =>
      cases h with
      | array _ hitems => exact hitems.component
      | tuple _ helements hitems =>
          rcases hitems with hone | ⟨-, rfl⟩
          · exact component_mergeTypes helements (hone ▸ List.mem_cons_self)
          · exact .union fun m hm => component_mergeTypes helements hm
      | definition _ h => cases h

mutual
/-- The definitions in a rendering are those of the nodes with their names. -/
theorem definesNamed : ∀ type : AvroType, Component s named type →
    ∀ entry ∈ type.table, DefinesNamed s named entry
  | .named _, _, _, hmem => by cases hmem
  | .union members, h, entry, hmem => definesNamed_all members h.members entry hmem
  | .array items, h, entry, hmem => definesNamed items h.items entry hmem
  | .enumeration name symbols, h, entry, hmem => by
    cases List.mem_singleton.mp hmem
    cases h with
    | renders h =>
        cases h with
        | definition hname h =>
            cases h with
            | enumeration hkind => exact ⟨_, hname, .enumeration hkind⟩
  | .record name doc fields, h, entry, hmem => by
    cases h with
    | renders h =>
        cases h with
        | definition hname h =>
            cases h with
            | record hentries hfields hnames =>
                rcases List.mem_cons.mp hmem with rfl | hmem
                · exact ⟨_, hname, .record hentries hfields hnames⟩
                · exact definesNamed_fields fields hfields entry hmem

theorem definesNamed_all : ∀ types : List AvroType, (∀ type ∈ types, Component s named type) →
    ∀ entry ∈ AvroType.tableOfAll types, DefinesNamed s named entry
  | [], _, _, hmem => by cases hmem
  | type :: rest, h, entry, hmem => by
    obtain ⟨htype, hrest⟩ := List.forall_mem_cons.mp h
    rcases List.mem_append.mp hmem with hmem | hmem
    · exact definesNamed type htype entry hmem
    · exact definesNamed_all rest hrest entry hmem

theorem definesNamed_fields : ∀ fields : List (AvroField AvroType),
    ∀ {entries : List (String × NodeId)},
      Matches AvroField.name (RendersField s named) entries fields →
      ∀ entry ∈ AvroType.tableOfFields fields, DefinesNamed s named entry
  | [], _, _, _, hmem => by cases hmem
  | ⟨_, type, _⟩ :: rest, _, h, entry, hmem => by
    cases h with
    | cons hfield hrest =>
        rcases List.mem_append.mp hmem with hmem | hmem
        · exact definesNamed type (Renders.component hfield) entry hmem
        · exact definesNamed_fields rest hrest entry hmem
end

/-! ### The whole schema -/

/-- The type renders a schema: it is a record of the fields that the root declares, and its
definitions at any depth are those of the nodes that have a name. Each of these has one name, and no
other one has it. -/
structure RendersSchema (s : Schema) (named : List (NodeId × String)) (type : AvroType) : Prop where
  ids : (named.map Prod.fst).Nodup
  names : (named.map Prod.snd).Nodup
  root : ∃ root shape name doc fields, s.rootObject = .ok (root, shape) ∧
    type = .record name doc fields ∧ (root, name) ∈ named ∧
    s.FieldsOf AvroField.name (RendersField s named) root fields
  table : (type.table.map Prod.fst).Nodup
  defined : ∀ entry ∈ type.table, DefinesNamed s named entry
  named : ∀ id name, (id, name) ∈ named → ∃ definition, (name, definition) ∈ type.table ∧
    RendersDefinition s named id name definition

/-- A node that some type renders. -/
def Rendered (s : Schema) (named : List (NodeId × String)) (id : NodeId) : Prop :=
  ∃ type, RendersNode s named id type

theorem Renders.endsIn {id : NodeId} {type : AvroType} (h : Renders s named id type) :
    s.EndsIn (Rendered s named) id := by
  cases h with
  | intro htarget h => exact ⟨_, htarget, _, h⟩

theorem RendersDefinition.rendersFields {id : NodeId} {name : String} {type : AvroType}
    {shape : ObjectShape} (h : RendersDefinition s named id name type)
    (hkind : (s.node id).kind = .object shape) : s.RendersFields (Rendered s named) id := by
  cases h with
  | enumeration hkind' => rw [hkind'] at hkind; cases hkind
  | record hentries hfields hnames =>
      refine ⟨_, hentries, hfields.names ▸ hnames, fun entry hentry => ?_⟩
      obtain ⟨field, hfield⟩ := hfields.exists_of_mem hentry
      exact Renders.endsIn hfield

/-- What a rendered node consists of: an object has a name, and the elements of an array or a tuple
are rendered. -/
theorem RendersNode.parts {id : NodeId} {type : AvroType} (h : RendersNode s named id type) :
    match (s.node id).kind with
    | .object _ => ∃ name, (id, name) ∈ named
    | .array items => ∃ type', Renders s named items type'
    | .tuple ids => ∃ types, List.Forall₂ (Renders s named) ids types
    | _ => True := by
  have hnamed {name : String} (hname : (id, name) ∈ named)
      (hkind : isDefinition (s.node id).kind = true) :
      match (s.node id).kind with
      | .object _ => ∃ name, (id, name) ∈ named
      | .array items => ∃ type', Renders s named items type'
      | .tuple ids => ∃ types, List.Forall₂ (Renders s named) ids types
      | _ => True := by
    cases hkind' : (s.node id).kind with
    | object => exact ⟨name, hname⟩
    | array => rw [hkind'] at hkind; cases hkind
    | tuple => rw [hkind'] at hkind; cases hkind
    | _ => trivial
  cases h with
  | primitive hkind => rw [hkind]; trivial
  | union hkind => rw [hkind]; trivial
  | array hkind hitems => rw [hkind]; exact ⟨_, hitems⟩
  | tuple hkind helements => rw [hkind]; exact ⟨_, helements⟩
  | mention hname hkind => exact hnamed hname hkind
  | definition hname h => exact hnamed hname h.isDefinition

/-- A rendering of a schema goes on to what a mention stands for, and to the parts of a node. -/
theorem RendersSchema.goesOn {type : AvroType} (h : RendersSchema s named type) :
    s.GoesOn (Rendered s named) where
  object id shape hrendered hkind := by
    obtain ⟨_, hrenders⟩ := hrendered
    have hparts := hrenders.parts
    rw [hkind] at hparts
    obtain ⟨name, hname⟩ := hparts
    obtain ⟨_, -, hdefinition⟩ := h.named id name hname
    exact hdefinition.rendersFields hkind
  array id items hrendered hkind := by
    obtain ⟨_, hrenders⟩ := hrendered
    have hparts := hrenders.parts
    rw [hkind] at hparts
    obtain ⟨_, hitems⟩ := hparts
    exact hitems.endsIn
  tuple id ids hrendered hkind element helement := by
    obtain ⟨_, hrenders⟩ := hrendered
    have hparts := hrenders.parts
    rw [hkind] at hparts
    obtain ⟨types, helements⟩ := hparts
    obtain ⟨i, hi⟩ := List.mem_iff_getElem?.mp helement
    obtain ⟨type, -, htype⟩ :=
      exists_of_forall₂ (List.Forall₂.flip (R := flip (Renders s named)) helements) hi
    exact Renders.endsIn htype

theorem RendersSchema.endsIn {type : AvroType} (h : RendersSchema s named type) :
    s.EndsIn (Rendered s named) s.root := by
  obtain ⟨root, shape, name, doc, fields, hroot, -, hname, hfields⟩ := h.root
  exact ⟨root, dereference_root hroot, .record name doc fields,
    .definition hname (.of_fieldsOf hfields)⟩

end AvroEmission

namespace Schema

open AvroEmission Steps

/-- An Avro schema renders the schema that it is made from. -/
theorem avroSchema_renders {s : Schema} {settings : AvroSettings} {a : AvroSchema}
    (h : s.avroSchema settings = .ok a) : ∃ named, RendersSchema s named a.type := by
  obtain ⟨⟨root, shape⟩, hroot, -⟩ := of_bind_ok h
  obtain ⟨name, doc, fields, p, htype, hrun⟩ := avroSchema_eq_ok hroot h
  have hstart : ({} : Progress).Tidy s := tidy_start
  have hfinds := (finds s p.named settings.defaultName s.maxEmissionDepth).1
  obtain ⟨hp, -⟩ := hfinds.extend hrun hstart
  obtain ⟨hissues, -⟩ := (emits_all s settings.defaultName s.maxEmissionDepth).1 hrun
  have hgrounded : Grounded [] a.type.events p.issued := (hissues hstart.sound).2
  -- The names that were issued are those of the definitions in the text.
  have htable : ∀ name, name ∈ p.issued ↔ name ∈ a.type.table.map Prod.fst := by
    intro name
    rw [AvroType.map_fst_table, hgrounded.known_eq, List.append_nil, List.mem_reverse]
  have hrenders : RendersNode s p.named root a.type := by
    cases hfinds.finds hrun hstart (List.Subset.refl _) with
    | typed _ _ hrenders =>
        cases hrenders with
        | intro htarget hrenders =>
            rw [dereference_self (by rw [rootObject_ok hroot]; rfl)] at htarget
            cases htarget
            exact hrenders
  have hdefined := definesNamed a.type (.renders hrenders)
  refine ⟨p.named, hp.ids, hp.names, ?_, ?_, hdefined, fun id name hname => ?_⟩
  · rw [htype] at hrenders
    cases hrenders with
    | definition hname hdefinition =>
        cases hdefinition with
        | record hentries hfields hnames =>
            exact ⟨root, shape, name, doc, fields, hroot, htype, hname,
              .intro hentries hfields hnames⟩
  · rw [AvroType.map_fst_table]
    exact hgrounded.definitions_nodup.1
  · obtain ⟨⟨_, definition⟩, hmem, rfl⟩ := List.mem_map.mp ((htable name).mp (hp.sound _ hname))
    obtain ⟨id', hname', hdefinition⟩ := hdefined _ hmem
    obtain rfl := hp.id_unique hname hname'
    exact ⟨definition, hmem, hdefinition⟩

/-- If there is an Avro schema, then no object that the root leads to declares a name twice. -/
theorem avroSchema_names_nodup {s : Schema} {settings : AvroSettings} {a : AvroSchema}
    (h : s.avroSchema settings = .ok a) {id : NodeId} {entries : List (String × NodeId)}
    (hreached : s.Reached id) (hentries : s.Expands id entries) :
    (entries.map Prod.fst).Nodup := by
  obtain ⟨named, hrenders⟩ := avroSchema_renders h
  exact hreached.names_nodup hrenders.goesOn hrenders.endsIn hentries

end Schema

end SchemaBridge
