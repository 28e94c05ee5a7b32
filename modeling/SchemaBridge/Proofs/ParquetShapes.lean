import SchemaBridge.Proofs.FieldShapes
import SchemaBridge.Proofs.ParquetSteps

/-!
The shapes of Parquet fields. A field in a slot has the name of the slot, and it holds what its node
unfolds to, repeated if the slot is. Main statement: the fields of a message have the shapes that
the root unfolds to, so a schema without them has no message.
-/

namespace SchemaBridge

namespace ParquetEmission

open Steps

/-- What is emitted in a slot for a node of which some result holds: no field for an untyped node,
and otherwise one of the shape, under the repetition of the slot. -/
inductive FillsSlot (result : Option FieldShape → Prop) (slot : Slot) :
    Option ParquetField → Prop
  | untyped (h : result none) : FillsSlot result slot none
  | field {field : ParquetField} {shape : FieldShape} (h : result (some shape))
      (hname : field.name = slot.name) (hshape : field.shape = shape.under slot.repetition) :
      FillsSlot result slot (some field)

theorem slotOf_repetition (shape : ObjectShape) (name : String) (field : FieldShape) :
    field.under (slotOf shape name).repetition = field := by
  unfold slotOf
  split <;> rfl

theorem column_ok {slot : Slot} {type : Primitive} {field : ParquetField}
    (h : column slot type = .ok field) :
    field.name = slot.name ∧ ∃ shape, type.fieldShape? = some shape ∧
      field.shape = shape.under slot.repetition := by
  cases type with
  | null => cases h
  | _ =>
      cases h
      exact ⟨rfl, _, rfl, rfl⟩

variable {R : NodeId → Option FieldShape → Prop}

theorem emitProperties_lists {emit : FieldEmitter}
    (hemit : ∀ {id slot result}, emit id slot = .ok result → FillsSlot (R id) slot result)
    {shape : ObjectShape} {properties : List (String × NodeId)} {fields : List ParquetField}
    (h : emitProperties emit shape properties = .ok fields) :
    Schema.Lists R properties (ParquetField.shapesOf fields) := by
  induction properties generalizing fields with
  | nil =>
      cases h
      exact .nil
  | cons property rest ih =>
      obtain ⟨name, id⟩ := property
      rw [emitProperties] at h
      obtain ⟨field, hfield, h⟩ := of_bind_ok h
      obtain ⟨later, hlater, h⟩ := of_bind_ok h
      cases h
      cases hemit hfield with
      | untyped huntyped => exact .dropped huntyped (ih hlater)
      | @field field type htyped hname hshape =>
          rw [Option.toList_some, List.singleton_append, ParquetField.shapesOf, hname, hshape,
            slotOf_repetition]
          exact .kept htyped (ih hlater)

/-- What is emitted for a branch: the fields that its target adds. -/
def FillsBranch (s : Schema) (R : NodeId → Option FieldShape → Prop) (branch : NodeId)
    (fields : List ParquetField) : Prop :=
  ∃ target result, s.dereference branch = .ok target ∧ R target result ∧
    Schema.AddsFields result (ParquetField.shapesOf fields)

theorem emitBranches_inherits {s : Schema}
    {emit : NodeId → Except EmissionError (List ParquetField)}
    (hemit : ∀ {branch fields}, emit branch = .ok fields → FillsBranch s R branch fields)
    {ids : List NodeId} {fields : List ParquetField} (h : emitBranches emit ids = .ok fields) :
    s.Inherits R ids (ParquetField.shapesOf fields) := by
  induction ids generalizing fields with
  | nil =>
      cases h
      exact .nil
  | cons id rest ih =>
      rw [emitBranches] at h
      obtain ⟨first, hfirst, h⟩ := of_bind_ok h
      obtain ⟨later, hlater, h⟩ := of_bind_ok h
      cases h
      obtain ⟨target, result, htarget, hresult, hadds⟩ := hemit hfirst
      rw [ParquetField.shapesOf_append]
      exact .cons htarget hresult hadds (ih hlater)

/-- The fields that are emitted for an object have the shapes of its own and inherited fields. -/
def HasShapes (s : Schema) (R : NodeId → Option FieldShape → Prop) (shape : ObjectShape)
    (fields : List ParquetField) : Prop :=
  ∃ own inherited, s.HasFields R shape own inherited ∧
    ParquetField.shapesOf fields = own ++ inherited

section

variable {s : Schema} {budget : Nat} {active : List NodeId}

theorem emit_fills {id : NodeId} {slot : Slot} {result : Option ParquetField}
    (hemit : ∀ {active id slot result}, emit s budget active id slot = .ok result →
      FillsSlot (s.ShapedWithin budget id) slot result)
    (hfields : ∀ {active shape found}, fields s budget active shape = .ok found →
      HasShapes s (s.ShapedWithin budget) shape found)
    (h : emit s (budget + 1) active id slot = .ok result) :
    FillsSlot (s.ShapedWithin (budget + 1) id) slot result := by
  have hstep := emit_step h
  have hunfold {result : Option FieldShape} (hby : s.ShapedBy (s.ShapedWithin budget)
      (s.node id).kind result) : s.ShapedWithin (budget + 1) id result := hby
  generalize (s.node id).kind = kind at hstep hunfold
  cases hstep with
  | untyped => exact .untyped (hunfold .untyped)
  | primitive hcolumn =>
      obtain ⟨hname, shape, htype, hshape⟩ := column_ok hcolumn
      exact .field (hunfold (.primitive htype)) hname hshape
  | enumeration => exact .field (hunfold .enumeration) rfl rfl
  | array hslot hitems =>
      cases hemit hitems with
      | field hshaped hname hshape =>
          refine .field (hunfold (.array hshaped)) hname ?_
          rw [hshape, FieldShape.under_of_ne hslot]
          rfl
  | object hfound =>
      obtain ⟨own, inherited, hhas, hshapes⟩ := hfields hfound
      refine .field (hunfold (.object hhas)) rfl ?_
      rw [ParquetField.shape, hshapes]
  | reference hnext =>
      cases hemit hnext with
      | untyped huntyped => exact .untyped (hunfold (.reference huntyped))
      | field hshaped hname hshape => exact .field (hunfold (.reference hshaped)) hname hshape

theorem branchFields_fills {branch : NodeId} {found : List ParquetField}
    (hfields : ∀ {active shape found}, fields s budget active shape = .ok found →
      HasShapes s (s.ShapedWithin budget) shape found)
    (h : branchFields s (budget + 1) active branch = .ok found) :
    FillsBranch s (s.ShapedWithin (budget + 1)) branch found := by
  cases branch_step h with
  | @object target shape _ htarget hkind hfound =>
      obtain ⟨own, inherited, hhas, hshapes⟩ := hfields hfound
      refine ⟨target, some (.group (own ++ inherited)), htarget, ?_, ?_⟩
      · rw [Schema.ShapedWithin, hkind]
        exact .object hhas
      · rw [hshapes]
        exact .group
  | @untyped target htarget hkind =>
      refine ⟨target, none, htarget, ?_, .untyped⟩
      rw [Schema.ShapedWithin, hkind]
      exact .untyped

/-- What is emitted succeeds only if the node unfolds to a shape within the budget. -/
theorem shaped (s : Schema) (budget : Nat) :
    (∀ {active id slot result}, emit s budget active id slot = .ok result →
      FillsSlot (s.ShapedWithin budget id) slot result) ∧
    (∀ {active shape found}, fields s budget active shape = .ok found →
      HasShapes s (s.ShapedWithin budget) shape found) ∧
    ∀ {active branch found}, branchFields s budget active branch = .ok found →
      FillsBranch s (s.ShapedWithin budget) branch found := by
  induction budget with
  | zero => refine ⟨fun h => ?_, fun h => ?_, fun h => ?_⟩ <;> cases h
  | succ budget ih =>
      obtain ⟨hemit, hfields, hbranch⟩ := ih
      have hsucc : ∀ id result, s.ShapedWithin budget id result →
          s.ShapedWithin (budget + 1) id result := fun _ _ => Schema.ShapedWithin.succ
      refine ⟨emit_fills hemit hfields, fun {active shape found} h => ?_,
        branchFields_fills hfields⟩
      obtain ⟨own, inherited, hown, hinherited, rfl, hnames⟩ := fields_step h
      have hlists := emitProperties_lists (R := s.ShapedWithin budget) hemit hown
      have hinherits := emitBranches_inherits (R := s.ShapedWithin budget) hbranch hinherited
      refine ⟨_, _, ⟨hlists.imp hsucc, hinherits.imp hsucc, ?_⟩,
        ParquetField.shapesOf_append _ _⟩
      rwa [← ParquetField.shapesOf_append, ParquetField.map_fst_shapesOf]

end

end ParquetEmission

namespace Schema

open ParquetEmission Steps

/-- The fields of a message have the shapes that its root unfolds to. -/
theorem parquetFields_shaped {s : Schema} {fields : List ParquetField}
    (h : s.parquetFields = .ok fields) :
    ∃ root shape n, s.rootObject = .ok (root, shape) ∧
      s.ShapedWithin n root (some (.group (ParquetField.shapesOf fields))) := by
  unfold parquetFields at h
  obtain ⟨⟨root, shape⟩, hroot, h⟩ := of_bind_ok h
  obtain ⟨own, inherited, hfields, hshapes⟩ := (shaped s s.maxEmissionDepth).2.1 h
  refine ⟨root, shape, s.maxEmissionDepth + 1, hroot, ?_⟩
  rw [ShapedWithin, rootObject_ok hroot, hshapes]
  exact .object hfields

end Schema

end SchemaBridge
