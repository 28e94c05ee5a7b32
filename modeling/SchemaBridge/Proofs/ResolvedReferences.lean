import SchemaBridge.AvroEmission
import SchemaBridge.ParquetEmission
import SchemaBridge.Proofs.PartPlaces
import SchemaBridge.Proofs.ReferenceChains
import SchemaBridge.Proofs.StepOutcomes

/-!
Schemas whose references all lead somewhere. A reference without a target is the only thing at which
validation and the conversions report a broken one, and every step they take is at a node of the
schema. Main statement: the arena of a schema that is read is well formed, every node leads to a
node that is no reference, and neither validation nor a conversion ever meets a reference without a
target.
-/

namespace SchemaBridge

open Steps

/-- A value is refused because a reference has no target. -/
def ValidationError.IsBroken (e : ValidationError) : Prop :=
  ∃ path target, e = .invalid path (.brokenReference target)

/-- A conversion fails because a reference has no target. -/
def EmissionError.IsUnresolved (e : EmissionError) : Prop :=
  ∃ target, e = .unresolved target

/-! ### Validation -/

namespace Validation

theorem fail_avoids (f : Frame) {violation : Violation}
    (h : ∀ target, violation ≠ .brokenReference target) :
    Avoids ValidationError.IsBroken (f.fail violation) := by
  apply Avoids.error
  rintro ⟨path, target, heq⟩
  cases heq
  exact h target rfl

theorem expect_avoids (f : Frame) (type : JsonType) :
    Avoids ValidationError.IsBroken (f.expect type) := by
  rw [Frame.expect]
  split
  · exact .ok ()
  · exact fail_avoids f (by simp)

section

variable {check : Checker}
  (hcheck : ∀ id f, Avoids ValidationError.IsBroken (check id f))

include hcheck

theorem checkElements_avoids (f : Frame) (items : NodeId) (index : Nat) (values : List Json) :
    Avoids ValidationError.IsBroken (checkElements check f items index values) := by
  induction values generalizing index with
  | nil => exact .ok ()
  | cons value rest ih => exact (hcheck items _).bind fun _ _ => ih (index + 1)

theorem checkTuple_avoids (f : Frame) (index : Nat) (ids : List NodeId) (values : List Json) :
    Avoids ValidationError.IsBroken (checkTuple check f index ids values) := by
  induction ids generalizing index values with
  | nil => exact .ok ()
  | cons id ids ih =>
      cases values with
      | nil => exact .ok ()
      | cons value rest => exact (hcheck id _).bind fun _ _ => ih (index + 1) rest

theorem checkProperties_avoids (f : Frame) (members : Members)
    (properties : List (String × NodeId)) :
    Avoids ValidationError.IsBroken (checkProperties check f members properties) := by
  induction properties with
  | nil => exact .ok ()
  | cons property rest ih =>
      obtain ⟨name, id⟩ := property
      rw [checkProperties]
      cases members.lookup name with
      | none => exact ih
      | some value => exact (hcheck id _).bind fun _ _ => ih

theorem checkBranches_avoids (f : Frame) (ids : List NodeId) :
    Avoids ValidationError.IsBroken (checkBranches check f ids) := by
  induction ids with
  | nil => exact .ok ()
  | cons id rest ih => exact (hcheck id f).bind fun _ _ => ih

theorem checkKind_avoids {kind : Kind} (hkind : ∀ target, kind ≠ .reference target none)
    (f : Frame) : Avoids ValidationError.IsBroken (checkKind check kind f) := by
  cases kind with
  | untyped => exact .ok ()
  | primitive type => exact expect_avoids f _
  | enumeration literals =>
      rw [checkKind]
      split
      · exact .ok ()
      · exact fail_avoids f (by simp)
  | array items =>
      rw [checkKind]
      split
      · exact checkElements_avoids hcheck f items 0 _
      · exact expect_avoids f _
  | tuple ids =>
      rw [checkKind]
      split
      · split
        · exact checkTuple_avoids hcheck f 0 ids _
        · exact fail_avoids f (by simp)
      · exact expect_avoids f _
  | object shape =>
      rw [checkKind]
      split
      · split
        · exact fail_avoids f (by simp)
        · exact (checkProperties_avoids hcheck f _ _).bind fun _ _ =>
            checkBranches_avoids hcheck f _
      · exact expect_avoids f _
  | reference target resolved =>
      cases resolved with
      | none => exact (hkind target rfl).elim
      | some next =>
          simp only [checkKind]
          split
          · exact .error (by rintro ⟨_, _, ⟨⟩⟩)
          · exact hcheck next _
  | union types =>
      rw [checkKind]
      split
      · exact .ok ()
      · exact fail_avoids f (by simp)

end

theorem check_avoids {s : Schema} (hs : s.Resolved) (budget : Nat) (id : NodeId) (f : Frame) :
    Avoids ValidationError.IsBroken (check s budget id f) := by
  induction budget generalizing id f with
  | zero => exact .error (by rintro ⟨_, _, ⟨⟩⟩)
  | succ budget ih => exact checkKind_avoids ih (hs id) f

end Validation

/-! ### Conversions -/

namespace Schema

/-- Every chain of references in a schema comes to an end. -/
def Terminates (s : Schema) : Prop :=
  ∀ id : Nat, id < s.nodes.size → ∃ steps target, s.nodes.Leads steps id target

variable {s : Schema}

theorem dereference_eq_ok_iff {id target : NodeId} :
    s.dereference id = .ok target ↔ ∃ steps, s.nodes.Leads steps id target := by
  rw [← Arena.dereference_eq_node_iff, dereference]
  split <;> simp_all

theorem dereference_self {id : NodeId} (hkind : (s.node id).kind.isReference = false) :
    s.dereference id = .ok id :=
  dereference_eq_ok_iff.mpr ⟨0, .here hkind⟩

theorem dereference_not_reference {id target : NodeId} (h : s.dereference id = .ok target) :
    (s.node target).kind.isReference = false := by
  obtain ⟨steps, hleads⟩ := dereference_eq_ok_iff.mp h
  exact hleads.not_reference

theorem dereference_reference {id next target : NodeId} {text : String}
    (hkind : (s.node id).kind = .reference text (some next))
    (htarget : s.dereference next = .ok target) : s.dereference id = .ok target := by
  obtain ⟨steps, hleads⟩ := dereference_eq_ok_iff.mp htarget
  exact dereference_eq_ok_iff.mpr ⟨steps + 1, .next hkind hleads⟩

theorem dereference_avoids (hs : s.Resolved) (id : NodeId) :
    Avoids EmissionError.IsUnresolved (s.dereference id) := by
  rw [dereference]
  split
  · exact .ok _
  · rename_i target hchase
    obtain ⟨i, hkind⟩ := Arena.unresolved_of_chase hchase
    exact (hs i target hkind).elim
  · exact .error (by rintro ⟨_, ⟨⟩⟩)

theorem rootObject_avoids (hs : s.Resolved) :
    Avoids EmissionError.IsUnresolved s.rootObject := by
  apply (dereference_avoids hs s.root).bind
  intro root _
  split
  · exact .ok _
  · exact .error (by rintro ⟨_, ⟨⟩⟩)

end Schema

namespace ParquetEmission

theorem unsupported_avoids {α : Type} (what : Obstacle) :
    Avoids EmissionError.IsUnresolved (unsupported what : Except EmissionError α) :=
  .error (by rintro ⟨_, ⟨⟩⟩)

theorem column_avoids (slot : Slot) (type : Primitive) :
    Avoids EmissionError.IsUnresolved (column slot type) := by
  cases type with
  | null => exact unsupported_avoids _
  | _ => exact .ok _

theorem checkNames_avoids (fields : List ParquetField) :
    Avoids EmissionError.IsUnresolved (checkNames fields) := by
  rw [checkNames]
  split
  · exact unsupported_avoids _
  · exact .ok _

theorem emitProperties_avoids {emit : FieldEmitter} {shape : ObjectShape}
    (hemit : ∀ id slot, Avoids EmissionError.IsUnresolved (emit id slot))
    (properties : List (String × NodeId)) :
    Avoids EmissionError.IsUnresolved (emitProperties emit shape properties) := by
  induction properties with
  | nil => exact .ok []
  | cons property rest ih =>
      exact (hemit property.2 _).bind fun field _ => ih.bind fun fields _ => .ok _

theorem emitBranches_avoids {emit : NodeId → Except EmissionError (List ParquetField)}
    (hemit : ∀ id, Avoids EmissionError.IsUnresolved (emit id)) (ids : List NodeId) :
    Avoids EmissionError.IsUnresolved (emitBranches emit ids) := by
  induction ids with
  | nil => exact .ok []
  | cons id rest ih => exact (hemit id).bind fun own _ => ih.bind fun inherited _ => .ok _

/-- With a budget, none of the parts of the conversion meets a reference without a target. -/
theorem avoids {s : Schema} (hs : s.Resolved) (budget : Nat) :
    (∀ active id slot, Avoids EmissionError.IsUnresolved (emit s budget active id slot)) ∧
    (∀ active shape, Avoids EmissionError.IsUnresolved (fields s budget active shape)) ∧
    ∀ active branch, Avoids EmissionError.IsUnresolved (branchFields s budget active branch) := by
  induction budget with
  | zero =>
      have htooDeep : ¬EmissionError.IsUnresolved .tooDeep := by rintro ⟨_, ⟨⟩⟩
      exact ⟨fun _ _ _ => .error htooDeep, fun _ _ => .error htooDeep, fun _ _ => .error htooDeep⟩
  | succ budget ih =>
      obtain ⟨hemit, hfields, hbranch⟩ := ih
      refine ⟨fun active id slot => ?_, fun active shape => ?_, fun active branch => ?_⟩
      · have hkind := hs id
        simp only [emit]
        split
        · exact .ok none
        · exact (column_avoids slot _).bind fun column _ => .ok (some column)
        · exact .ok _
        · split
          · exact unsupported_avoids _
          · apply (hemit _ _ _).bind
            intro field _
            cases field with
            | none => exact .error (by rintro ⟨_, ⟨⟩⟩)
            | some field => exact .ok _
        · exact unsupported_avoids _
        · exact (hfields _ _).bind fun own _ => .ok _
        · rename_i target resolved href
          cases resolved with
          | none => exact (hkind target href).elim
          | some next =>
              simp only
              split
              · exact .error (by rintro ⟨_, ⟨⟩⟩)
              · exact hemit _ _ _
        · exact unsupported_avoids _
      · rw [fields]
        apply (emitProperties_avoids (hemit active) shape.properties).bind
        intro own _
        apply (emitBranches_avoids (hbranch active) shape.allOf).bind
        intro inherited _
        exact checkNames_avoids _
      · rw [branchFields]
        apply (Schema.dereference_avoids hs branch).bind
        intro target _
        by_cases hactive : target ∈ active
        · simp only [if_pos hactive]
          exact Avoids.error (by rintro ⟨_, ⟨⟩⟩)
        · simp only [if_neg hactive]
          split
          · exact hfields _ _
          · exact .ok []
          · exact unsupported_avoids _

end ParquetEmission

namespace AvroEmission

section

variable {E : EmissionError → Prop} (hE : ∀ what, ¬E (.unsupported .avro what))

include hE

theorem unsupported_runAvoids {α : Type} (what : Obstacle) :
    RunAvoids E (unsupported what : Emitter α) :=
  .throw (hE what)

theorem symbols_runAvoids (literals : List Json) : RunAvoids E (symbols literals) := by
  induction literals with
  | nil => exact .pure []
  | cons literal rest ih =>
      cases literal with
      | string symbol => exact ih.bind fun symbols => .pure _
      | _ => exact unsupported_runAvoids hE _

theorem unionMembers_runAvoids (types : List JsonType) : RunAvoids E (unionMembers types) := by
  induction types with
  | nil => exact .pure []
  | cons type rest ih =>
      rw [unionMembers]
      split
      · exact ih.bind fun members => .pure _
      · exact unsupported_runAvoids hE _

theorem tupleItems_runAvoids (types : List AvroType) : RunAvoids E (tupleItems types) := by
  rw [tupleItems.eq_def]
  split
  · exact unsupported_runAvoids hE _
  · exact .pure _
  · exact .pure _

theorem checkNames_runAvoids (record : String) (fields : List (AvroField AvroType)) :
    RunAvoids E (checkNames record fields) := by
  rw [checkNames]
  split
  · exact unsupported_runAvoids hE _
  · exact .pure _

end

theorem not_isUnresolved_unsupported (what : Obstacle) :
    ¬EmissionError.IsUnresolved (.unsupported .avro what) := by
  rintro ⟨_, ⟨⟩⟩

section

variable {emit : TypeEmitter}
  (hemit : ∀ id hint, RunAvoids EmissionError.IsUnresolved (emit id hint))

include hemit

theorem emitElements_runAvoids (hint : Option String) (index : Nat) (ids : List NodeId)
    (types : List AvroType) :
    RunAvoids EmissionError.IsUnresolved (emitElements emit hint index ids types) := by
  induction ids generalizing index types with
  | nil => exact .pure types
  | cons id rest ih =>
      apply (hemit id hint).bind
      intro type
      cases type with
      | none => exact .throw (by rintro ⟨_, ⟨⟩⟩)
      | some type => exact ih (index + 1) _

theorem emitProperties_runAvoids (s : Schema) (record : String)
    (properties : List (String × NodeId)) :
    RunAvoids EmissionError.IsUnresolved (emitProperties emit s record properties) := by
  induction properties with
  | nil => exact .pure []
  | cons property rest ih =>
      obtain ⟨name, id⟩ := property
      apply (hemit id (some name)).bind
      intro type
      cases type with
      | none => exact (RunAvoids.modifyGet _).bind fun _ => ih
      | some type => exact ih.bind fun fields => .pure _

end

theorem emitBranches_runAvoids {emit : NodeId → Emitter (List (AvroField AvroType))}
    (hemit : ∀ id, RunAvoids EmissionError.IsUnresolved (emit id)) (ids : List NodeId) :
    RunAvoids EmissionError.IsUnresolved (emitBranches emit ids) := by
  induction ids with
  | nil => exact .pure []
  | cons id rest ih => exact (hemit id).bind fun own => ih.bind fun inherited => .pure _

section

variable {s : Schema} (hs : s.Resolved) {defaultName : String} {budget : Nat}

theorem emit_runAvoids
    (hvisit : ∀ id hint name,
      RunAvoids EmissionError.IsUnresolved (visit s defaultName budget id hint name))
    (id : NodeId) (hint : Option String) :
    RunAvoids EmissionError.IsUnresolved (emit s defaultName (budget + 1) id hint) := by
  rw [emit]
  apply RunAvoids.get.bind
  intro progress
  split
  · exact .pure _
  · have hrest : ∀ name, RunAvoids EmissionError.IsUnresolved (do
        modify (·.enter id)
        let type ← visit s defaultName budget id hint name
        modify (·.leave id)
        return type : Emitter (Option AvroType)) := fun name =>
      (RunAvoids.modifyGet _).bind fun _ => (hvisit id hint name).bind fun type =>
        (RunAvoids.modifyGet _).bind fun _ => .pure type
    simp only
    split
    · exact (RunAvoids.modifyGet _).bind hrest
    · exact (RunAvoids.pure _).bind hrest

include hs

theorem visit_runAvoids
    (hemit : ∀ id hint, RunAvoids EmissionError.IsUnresolved (emit s defaultName budget id hint))
    (hbranch : ∀ branch,
      RunAvoids EmissionError.IsUnresolved (branchFields s defaultName budget branch))
    (id : NodeId) (hint : Option String) (name : String) :
    RunAvoids EmissionError.IsUnresolved (visit s defaultName (budget + 1) id hint name) := by
  have hkind := hs id
  simp only [visit]
  split
  · exact .pure none
  · exact .pure _
  · exact (symbols_runAvoids not_isUnresolved_unsupported _).bind fun symbols => .pure _
  · apply (hemit _ _).bind
    intro type
    cases type with
    | none => exact .throw (by rintro ⟨_, ⟨⟩⟩)
    | some type => exact .pure _
  · apply (emitElements_runAvoids hemit _ _ _ _).bind
    intro types
    exact (tupleItems_runAvoids not_isUnresolved_unsupported types).bind fun items => .pure _
  · apply (emitProperties_runAvoids hemit s name _).bind
    intro own
    apply (emitBranches_runAvoids hbranch _).bind
    intro inherited
    exact (checkNames_runAvoids not_isUnresolved_unsupported name _).bind fun fields => .pure _
  · rename_i target resolved href
    cases resolved with
    | none => exact (hkind target href).elim
    | some next =>
        apply RunAvoids.get.bind
        intro progress
        split
        · exact .throw_bind (by rintro ⟨_, ⟨⟩⟩)
        · exact hemit _ _
  · exact (unionMembers_runAvoids not_isUnresolved_unsupported _).bind fun members => .pure _

theorem branchFields_runAvoids
    (hvisit : ∀ id hint name,
      RunAvoids EmissionError.IsUnresolved (visit s defaultName budget id hint name))
    (branch : NodeId) :
    RunAvoids EmissionError.IsUnresolved (branchFields s defaultName (budget + 1) branch) := by
  rw [branchFields]
  apply (RunAvoids.lift (Schema.dereference_avoids hs branch)).bind
  intro target
  apply RunAvoids.get.bind
  intro progress
  by_cases hactive : target ∈ progress.active
  · simp only [if_pos hactive]
    exact .throw_bind (by rintro ⟨_, ⟨⟩⟩)
  · simp only [if_neg hactive]
    apply (RunAvoids.modifyGet _).bind
    intro _
    apply (hvisit _ _ _).bind
    intro type
    apply (RunAvoids.modifyGet _).bind
    intro _
    split
    · exact .pure _
    · exact .pure _
    · exact unsupported_runAvoids not_isUnresolved_unsupported _

/-- With a budget, none of the parts of the conversion meets a reference without a target. -/
theorem runAvoids (defaultName : String) (budget : Nat) :
    (∀ id hint, RunAvoids EmissionError.IsUnresolved (emit s defaultName budget id hint)) ∧
    (∀ id hint name,
      RunAvoids EmissionError.IsUnresolved (visit s defaultName budget id hint name)) ∧
    ∀ branch, RunAvoids EmissionError.IsUnresolved (branchFields s defaultName budget branch) := by
  induction budget with
  | zero =>
      have htooDeep : ¬EmissionError.IsUnresolved .tooDeep := by rintro ⟨_, ⟨⟩⟩
      exact ⟨fun _ _ => .throw htooDeep, fun _ _ _ => .throw htooDeep, fun _ => .throw htooDeep⟩
  | succ budget ih =>
      obtain ⟨hemit, hvisit, hbranch⟩ := ih
      exact ⟨emit_runAvoids hvisit, visit_runAvoids hs hemit hbranch,
        branchFields_runAvoids hs hvisit⟩

end

end AvroEmission

/-! ### Schemas that are read -/

namespace Schema

variable {document : Json} {s : Schema}

/-- Reading ends with the check that no chain of references runs in a circle. -/
theorem read_checkChains (h : Schema.read document = .ok s) :
    Reader.checkChains s.nodes (List.range s.nodes.size) = .ok () := by
  unfold Schema.read at h
  obtain ⟨⟨root, d⟩, -, h⟩ := Steps.of_bind_ok h
  obtain ⟨⟨⟩, hchains, h⟩ := Steps.of_bind_ok h
  cases h
  exact hchains

theorem read_terminates (hdistinct : document.DistinctKeys) (h : Schema.read document = .ok s) :
    s.Terminates := by
  have hresolved := read_resolved hdistinct h
  have hchains := Reader.checkChains_eq_ok_iff.mp (read_checkChains h)
  intro id hid
  rw [exists_comm]
  cases hend : s.nodes.dereference id with
  | node target => exact ⟨target, Arena.dereference_eq_node_iff.mp hend⟩
  | unresolved text =>
      obtain ⟨i, hkind⟩ := Arena.unresolved_of_chase hend
      exact (hresolved i text hkind).elim
  | loop text => exact (hchains id (List.mem_range.mpr hid) text hend).elim

/-- An arena without dangling references: its numbers are in order, every reference has a target
and leads to a node that is none, and nobody who goes through the schema can tell otherwise. -/
structure Closed (s : Schema) : Prop where
  root_lt : s.root < s.nodes.size
  child_lt : ∀ id c : Nat, c ∈ (s.node id).kind.children → c < id
  partsOnce : s.PartsOnce
  reference : ∀ id text resolved, (s.node id).kind = .reference text resolved →
    ∃ target : Nat, resolved = some target ∧ target < s.nodes.size
  dereference : ∀ id : Nat, id < s.nodes.size → ∃ target : Nat, s.dereference id = .ok target ∧
    target < s.nodes.size ∧ (s.node target).kind.isReference = false
  validate : ∀ value path target,
    s.validate value ≠ .error (.invalid path (.brokenReference target))
  avroSchema : ∀ settings target, s.avroSchema settings ≠ .error (.unresolved target)
  parquetFields : ∀ target, s.parquetFields ≠ .error (.unresolved target)

theorem avroSchema_avoids (hs : s.Resolved) (settings : AvroSettings) :
    Avoids EmissionError.IsUnresolved (s.avroSchema settings) := by
  apply (rootObject_avoids hs).bind
  intro root _
  apply ((AvroEmission.runAvoids hs settings.defaultName s.maxEmissionDepth).1 root.1 none {}).bind
  rintro ⟨type, progress⟩ _
  cases type with
  | none => exact .error (by rintro ⟨_, ⟨⟩⟩)
  | some type => exact .ok _

theorem parquetFields_avoids (hs : s.Resolved) :
    Avoids EmissionError.IsUnresolved s.parquetFields := by
  apply (rootObject_avoids hs).bind
  intro root _
  exact (ParquetEmission.avoids hs s.maxEmissionDepth).2.1 [root.1] root.2

/-- No reference of a schema that is read dangles, whatever its document: the arena is well formed,
and neither validation nor a conversion ever meets a reference without a target. -/
theorem read_closed (hdistinct : document.DistinctKeys) (h : Schema.read document = .ok s) :
    s.Closed := by
  have hwf := read_wellFormed hdistinct h
  have hresolved := read_resolved hdistinct h
  refine ⟨hwf.root_lt, hwf.child_lt, read_partsOnce h, fun id text resolved hkind => ?_,
    fun id hid => ?_, fun value path target herror => ?_, fun settings target herror => ?_,
    fun target herror => ?_⟩
  · cases resolved with
    | none => exact (hresolved id text hkind).elim
    | some target => exact ⟨target, rfl, hwf.target_lt id text target hkind⟩
  · obtain ⟨steps, target, hleads⟩ := read_terminates hdistinct h id hid
    exact ⟨target, dereference_eq_ok_iff.mpr ⟨steps, hleads⟩, hleads.lt_size hwf.target_lt hid,
      hleads.not_reference⟩
  · exact Validation.check_avoids hresolved _ _ _ _ herror ⟨path, target, rfl⟩
  · exact avroSchema_avoids hresolved settings _ herror ⟨target, rfl⟩
  · exact parquetFields_avoids hresolved _ herror ⟨target, rfl⟩

theorem read_closed_selfReferring :
    selfReferringDocument.DistinctKeys ∧
      Schema.read selfReferringDocument = .ok selfReferringSchema ∧ selfReferringSchema.Closed :=
  ⟨selfReferringDocument_distinctKeys, read_selfReferringDocument,
    read_closed selfReferringDocument_distinctKeys read_selfReferringDocument⟩

end Schema

end SchemaBridge
