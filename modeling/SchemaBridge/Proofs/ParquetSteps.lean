import SchemaBridge.ParquetEmission
import SchemaBridge.Proofs.StepInversion

/-!
The steps of a conversion to Parquet, one by one. What is emitted for a node in a slot is told by
the kind of the node, and what a branch adds by the kind of the node that it leads to. Main
statement: a conversion that succeeds is one of these steps, and its parts succeeded within them.
-/

namespace SchemaBridge

namespace ParquetEmission

open Steps

theorem of_map_ok {ε α β : Type} {f : α → β} {x : Except ε α} {b : β} (h : f <$> x = .ok b) :
    ∃ a, x = .ok a ∧ b = f a := by
  cases x with
  | error e => cases h
  | ok a =>
      cases h
      exact ⟨a, rfl, rfl⟩

theorem checkNames_ok {fields found : List ParquetField} (h : checkNames fields = .ok found) :
    found = fields ∧ (fields.map ParquetField.name).Nodup := by
  unfold checkNames at h
  split at h
  · cases h
  · rename_i hnone
    cases h
    exact ⟨rfl, (firstRepeated?_eq_none.mp hnone).1⟩

/-- What is emitted in a slot for a node of a kind. The nodes in progress include the node. -/
inductive EmitStep (s : Schema) (budget : Nat) (active : List NodeId) (slot : Slot) :
    Kind → Option ParquetField → Prop
  | untyped : EmitStep s budget active slot .untyped none
  | primitive {type : Primitive} {field : ParquetField} (hcolumn : column slot type = .ok field) :
      EmitStep s budget active slot (.primitive type) (some field)
  | enumeration {literals : List Json} :
      EmitStep s budget active slot (.enumeration literals)
        (some (.column slot.repetition .binary (some .enumeration) slot.name))
  | array {items : NodeId} {field : ParquetField} (hslot : slot.repetition ≠ .repeated)
      (hitems : emit s budget active items { slot with repetition := .repeated } =
        .ok (some field)) : EmitStep s budget active slot (.array items) (some field)
  | object {shape : ObjectShape} {found : List ParquetField}
      (hfields : fields s budget active shape = .ok found) :
      EmitStep s budget active slot (.object shape) (some (.group slot.repetition slot.name found))
  | reference {text : String} {next : NodeId} {result : Option ParquetField}
      (hnext : emit s budget active next slot = .ok result) :
      EmitStep s budget active slot (.reference text (some next)) result

/-- What a branch adds: the fields of the object that it leads to, or none if that is untyped. -/
inductive BranchStep (s : Schema) (budget : Nat) (active : List NodeId) (branch : NodeId) :
    List ParquetField → Prop
  | object {target : NodeId} {shape : ObjectShape} {found : List ParquetField}
      (htarget : s.dereference branch = .ok target) (hkind : (s.node target).kind = .object shape)
      (hfields : fields s budget (target :: active) shape = .ok found) :
      BranchStep s budget active branch found
  | untyped {target : NodeId} (htarget : s.dereference branch = .ok target)
      (hkind : (s.node target).kind = .untyped) : BranchStep s budget active branch []

variable {s : Schema} {budget : Nat} {active : List NodeId}

theorem emit_step {id : NodeId} {slot : Slot} {result : Option ParquetField}
    (h : emit s (budget + 1) active id slot = .ok result) :
    EmitStep s budget (id :: active) slot (s.node id).kind result := by
  rw [emit] at h
  generalize (s.node id).kind = kind at h ⊢
  cases kind with
  | untyped =>
      cases h
      exact .untyped
  | primitive type =>
      obtain ⟨field, hcolumn, rfl⟩ := of_map_ok h
      exact .primitive hcolumn
  | enumeration literals =>
      cases h
      exact .enumeration
  | array items =>
      simp only at h
      split at h
      · cases h
      · rename_i hslot
        obtain ⟨item, hitem, h⟩ := of_bind_ok h
        cases item with
        | none => cases h
        | some field =>
            cases h
            exact .array hslot hitem
  | object shape =>
      obtain ⟨found, hfound, h⟩ := of_bind_ok h
      cases h
      exact .object hfound
  | reference text resolved =>
      cases resolved with
      | none => cases h
      | some next =>
          simp only at h
          split at h
          · cases h
          · exact .reference h
  | _ => cases h

/-- The fields of an object are its own followed by those of its branches, no two of one name. -/
theorem fields_step {shape : ObjectShape} {found : List ParquetField}
    (h : fields s (budget + 1) active shape = .ok found) :
    ∃ own inherited, emitProperties (emit s budget active) shape shape.properties = .ok own ∧
      emitBranches (branchFields s budget active) shape.allOf = .ok inherited ∧
      found = own ++ inherited ∧ (found.map ParquetField.name).Nodup := by
  rw [fields] at h
  obtain ⟨own, hown, h⟩ := of_bind_ok h
  obtain ⟨inherited, hinherited, h⟩ := of_bind_ok h
  obtain ⟨rfl, hnames⟩ := checkNames_ok h
  exact ⟨own, inherited, hown, hinherited, rfl, hnames⟩

theorem branch_step {branch : NodeId} {found : List ParquetField}
    (h : branchFields s (budget + 1) active branch = .ok found) :
    BranchStep s budget active branch found := by
  rw [branchFields] at h
  obtain ⟨target, htarget, h⟩ := of_bind_ok h
  by_cases hactive : target ∈ active
  · simp only [if_pos hactive] at h
    cases h
  · simp only [if_neg hactive] at h
    cases hkind : (s.node target).kind with
    | object shape =>
        simp only [hkind] at h
        exact .object htarget hkind h
    | untyped =>
        simp only [hkind] at h
        cases h
        exact .untyped htarget hkind
    | _ =>
        simp only [hkind] at h
        cases h

end ParquetEmission

end SchemaBridge
