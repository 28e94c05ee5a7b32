import SchemaBridge.Proofs.AvroDefinitions
import SchemaBridge.Proofs.ParquetCycles

/-!
A conversion to Parquet that marks the nodes in progress in one set. A node is marked when it is
entered and unmarked when it is left, even if it was marked before, so a node could lose its mark
while it is still in progress. That would be a node that leads back to itself, and a conversion never
returns from such a node. Main statement: with marks a conversion does what it does with the list of
the nodes in progress, it comes to an end, and it succeeds only if no circle is reachable and fails
with a cycle only if one is.
-/

namespace SchemaBridge

namespace ParquetEmission

/-- A step of a conversion that marks the nodes in progress: it goes on with the marks or fails. -/
abbrev Marker := StateT (List NodeId) (Except EmissionError)

def emitPropertiesMarked (emit : NodeId → Slot → Marker (Option ParquetField))
    (shape : ObjectShape) : List (String × NodeId) → Marker (List ParquetField)
  | [] => return []
  | (name, id) :: rest => do
    let field ← emit id (slotOf shape name)
    return field.toList ++ (← emitPropertiesMarked emit shape rest)

def emitBranchesMarked (emit : NodeId → Marker (List ParquetField)) :
    List NodeId → Marker (List ParquetField)
  | [] => return []
  | id :: rest => return (← emit id) ++ (← emitBranchesMarked emit rest)

/-- The field of a node of a kind, in a slot. The node is marked. -/
def visitMarked (emit : NodeId → Slot → Marker (Option ParquetField))
    (fields : ObjectShape → Marker (List ParquetField)) (slot : Slot) :
    Kind → Marker (Option ParquetField)
  | .untyped => return none
  | .primitive type => return some (← column slot type)
  | .enumeration _ =>
    return some (.column slot.repetition .binary (some .enumeration) slot.name)
  | .array items =>
    if slot.repetition = .repeated then liftM (unsupported (.nestedArray slot.name))
    else do
      match ← emit items { slot with repetition := .repeated } with
      | some field => return some field
      | none => throw (.untyped .parquet (slot.name ++ "[]"))
  | .tuple _ => liftM (unsupported (.tupleField slot.name))
  | .object shape => return some (.group slot.repetition slot.name (← fields shape))
  | .reference target resolved =>
    match resolved with
    | none => throw (.unresolved target)
    | some next => do
      if next ∈ (← get) then throw (.cycle target) else emit next slot
  | .union types => liftM (unsupported (.unionField slot.name types))

/-- Marks a node, and takes the mark away after a step. -/
def marked {α : Type} (id : NodeId) (step : Marker α) : Marker α := do
  modify (id :: ·)
  let result ← step
  modify (·.filter (· ≠ id))
  return result

mutual
/-- The field of a node in a slot. The budget bounds the nesting. -/
def emitMarked (s : Schema) : Nat → NodeId → Slot → Marker (Option ParquetField)
  | 0, _, _ => throw .tooDeep
  | budget + 1, id, slot =>
    marked id (visitMarked (emitMarked s budget) (fieldsMarked s budget) slot (s.node id).kind)

def fieldsMarked (s : Schema) : Nat → ObjectShape → Marker (List ParquetField)
  | 0, _ => throw .tooDeep
  | budget + 1, shape => do
    let own ← emitPropertiesMarked (emitMarked s budget) shape shape.properties
    let inherited ← emitBranchesMarked (branchFieldsMarked s budget) shape.allOf
    checkNames (own ++ inherited)

def branchFieldsMarked (s : Schema) : Nat → NodeId → Marker (List ParquetField)
  | 0, _ => throw .tooDeep
  | budget + 1, branch => do
    let target ← s.dereference branch
    if target ∈ (← get) then throw (.cycle (branchLabel s branch target))
    match (s.node target).kind with
    | .object shape => marked target (fieldsMarked s budget shape)
    | .untyped => return []
    | kind => liftM (unsupported (.nonObjectBranch kind.name))
end

/-- A step with marks gives what a step without them gives, and leaves the marks as they were. -/
def Mirrors {α : Type} (marks : List NodeId) (x : Except EmissionError α) (y : Marker α) : Prop :=
  y.run marks = (fun a => (a, marks)) <$> x

section

variable {α β : Type} {marks : List NodeId} {x : Except EmissionError α} {y : Marker α}

theorem Mirrors.pure (a : α) : Mirrors marks (.ok a) (pure a) :=
  rfl

theorem Mirrors.throw (e : EmissionError) : Mirrors marks (.error e) (throw e : Marker α) :=
  rfl

theorem Mirrors.lift (x : Except EmissionError α) : Mirrors marks x (liftM x) := by
  cases x <;> rfl

theorem Mirrors.bind {f : α → Except EmissionError β} {g : α → Marker β} (h : Mirrors marks x y)
    (hrest : ∀ a, x = .ok a → Mirrors marks (f a) (g a)) : Mirrors marks (x >>= f) (y >>= g) := by
  rw [Mirrors, StateT.run_bind, h]
  cases x with
  | error e => rfl
  | ok a => exact hrest a rfl

theorem Mirrors.get_bind {f : List NodeId → Marker α} (h : Mirrors marks x (f marks)) :
    Mirrors marks x (get >>= f) :=
  h

/-- A node that is not marked yet is marked for a step and then unmarked again. -/
theorem Mirrors.marked {id : NodeId} (h : Mirrors (id :: marks) x y)
    (hfresh : ∀ a, x = .ok a → id ∉ marks) : Mirrors marks x (marked id y) := by
  have hrun : (ParquetEmission.marked id y).run marks =
      y.run (id :: marks) >>= fun r => .ok (r.1, r.2.filter (· ≠ id)) := rfl
  rw [Mirrors, hrun, h]
  cases x with
  | error e => rfl
  | ok a =>
      have hkeep : (id :: marks).filter (· ≠ id) = marks := by
        rw [List.filter_cons_of_neg (by simp)]
        refine List.filter_eq_self.mpr fun i hi => decide_eq_true ?_
        rintro rfl
        exact hfresh a rfl hi
      change Except.ok (a, (id :: marks).filter (· ≠ id)) = Except.ok (a, marks)
      rw [hkeep]

end

open Schema

variable {s : Schema} {budget : Nat} {active : List NodeId}

theorem emitProperties_mirrors {emit : FieldEmitter}
    {emit' : NodeId → Slot → Marker (Option ParquetField)} {shape : ObjectShape}
    {properties : List (String × NodeId)}
    (hemit : ∀ p ∈ properties, ∀ slot, Mirrors active (emit p.2 slot) (emit' p.2 slot)) :
    Mirrors active (emitProperties emit shape properties)
      (emitPropertiesMarked emit' shape properties) := by
  induction properties with
  | nil => exact .pure _
  | cons p rest ih =>
      obtain ⟨hfirst, hrest⟩ := List.forall_mem_cons.mp hemit
      rw [emitProperties, emitPropertiesMarked]
      exact (hfirst _).bind fun _ _ => (ih hrest).bind fun _ _ => .pure _

theorem emitBranches_mirrors {emit : NodeId → Except EmissionError (List ParquetField)}
    {emit' : NodeId → Marker (List ParquetField)} {ids : List NodeId}
    (hemit : ∀ branch ∈ ids, Mirrors active (emit branch) (emit' branch)) :
    Mirrors active (emitBranches emit ids) (emitBranchesMarked emit' ids) := by
  induction ids with
  | nil => exact .pure _
  | cons branch rest ih =>
      obtain ⟨hfirst, hrest⟩ := List.forall_mem_cons.mp hemit
      rw [emitBranches, emitBranchesMarked]
      exact hfirst.bind fun _ _ => (ih hrest).bind fun _ _ => .pure _

/-- What the kind of a node gives with the node in progress. -/
theorem emit_mirrors_visit {id : NodeId} {slot : Slot}
    (hemit : ∀ c slot, s.Goes Link.unfolded id c →
      Mirrors (id :: active) (emit s budget (id :: active) c slot) (emitMarked s budget c slot))
    (hfields : ∀ shape, (s.node id).kind = .object shape →
      Mirrors (id :: active) (fields s budget (id :: active) shape) (fieldsMarked s budget shape)) :
    Mirrors (id :: active) (emit s (budget + 1) active id slot)
      (visitMarked (emitMarked s budget) (fieldsMarked s budget) slot (s.node id).kind) := by
  rw [emit]
  cases hkind : (s.node id).kind with
  | untyped => exact .pure _
  | primitive type =>
      simp only [visitMarked]
      exact (Mirrors.lift _).bind fun _ _ => .pure _
  | enumeration literals => exact .pure _
  | array items =>
      have hitems := hemit items { slot with repetition := .repeated }
        ((Linked.item hkind).goes (by decide))
      simp only [visitMarked]
      split
      · exact .lift _
      · refine hitems.bind fun field _ => ?_
        cases field with
        | none => exact .throw _
        | some field => exact .pure _
  | tuple ids => exact .lift _
  | object shape =>
      simp only [visitMarked]
      exact (hfields shape hkind).bind fun _ _ => .pure _
  | reference target resolved =>
      cases resolved with
      | none => exact .throw _
      | some next =>
          simp only [visitMarked]
          refine .get_bind ?_
          split
          · exact .throw _
          · exact hemit next slot ((Linked.target hkind).goes (by decide))
  | union types => exact .lift _

/-- A conversion with marks mirrors the one without them, if every node in progress leads to the
node that is converted: where it returns, the node is on no circle, so it was not in progress. -/
theorem mirrors (s : Schema) (budget : Nat) :
    (∀ {active id slot}, (∀ a ∈ active, Relation.TransGen (s.Goes Link.unfolded) a id) →
      Mirrors active (emit s budget active id slot) (emitMarked s budget id slot)) ∧
    (∀ {active id shape}, (∀ a ∈ active, s.Walks Link.unfolded a id) →
      (s.node id).kind = .object shape →
      Mirrors active (fields s budget active shape) (fieldsMarked s budget shape)) ∧
    ∀ {active branch}, (∀ a ∈ active, Relation.TransGen (s.Goes Link.unfolded) a branch) →
      Mirrors active (branchFields s budget active branch) (branchFieldsMarked s budget branch) := by
  induction budget with
  | zero => exact ⟨fun _ => .throw _, fun _ _ => .throw _, fun _ => .throw _⟩
  | succ budget ih =>
      obtain ⟨hemit, hfields, hbranch⟩ := ih
      refine ⟨fun {active id slot} hactive => ?_, fun {active id shape} hactive hkind => ?_,
        fun {active branch} hactive => ?_⟩
      · have hbelow : ∀ a ∈ id :: active, s.Walks Link.unfolded a id :=
          List.forall_mem_cons.mpr ⟨.refl, fun a ha => (hactive a ha).to_reflTransGen⟩
        rw [emitMarked]
        refine Mirrors.marked (emit_mirrors_visit ?_ ?_) ?_
        · exact fun c slot hgoes => hemit fun a ha => .tail' (hbelow a ha) hgoes
        · exact fun shape hkind => hfields hbelow hkind
        · intro result hresult hmem
          exact ((founded s (budget + 1)).1 hresult).not_onCycle (hactive id hmem)
      · rw [fields, fieldsMarked]
        refine (emitProperties_mirrors fun p hp slot => hemit fun a ha => ?_).bind fun _ _ =>
          (emitBranches_mirrors fun branch hmem => hbranch fun a ha => ?_).bind fun _ _ => .lift _
        · exact .tail' (hactive a ha) (goes_property hkind hp)
        · exact .tail' (hactive a ha) ((Linked.branch hkind hmem).goes (by decide))
      · rw [branchFields, branchFieldsMarked]
        refine (Mirrors.lift _).bind fun target htarget => .get_bind ?_
        have hwalks : s.Walks Link.unfolded branch target := .of_dereference (by decide) htarget
        have hbelow : ∀ a ∈ target :: active, s.Walks Link.unfolded a target :=
          List.forall_mem_cons.mpr
            ⟨.refl, fun a ha => (hactive a ha).to_reflTransGen.trans hwalks⟩
        by_cases hmem : target ∈ active
        · simp only [if_pos hmem]
          exact .throw _
        · simp only [if_neg hmem]
          cases hkind : (s.node target).kind with
          | object shape => exact (hfields hbelow hkind).marked fun _ _ => hmem
          | untyped => exact .pure _
          | _ => exact .lift _

end ParquetEmission

namespace Schema

open Steps

/-- The Parquet fields of an object schema, found with marks. -/
def parquetFieldsMarked (s : Schema) : Except EmissionError (List ParquetField) := do
  let (root, shape) ← s.rootObject
  let (fields, _) ← (ParquetEmission.fieldsMarked s s.maxEmissionDepth shape).run [root]
  return fields

variable {s : Schema}

theorem parquetFieldsMarked_eq (s : Schema) : s.parquetFieldsMarked = s.parquetFields := by
  rw [parquetFieldsMarked, parquetFields]
  cases hroot : s.rootObject with
  | error e => rfl
  | ok r =>
      obtain ⟨root, shape⟩ := r
      have hactive : ∀ a ∈ [root], s.Walks Link.unfolded a root := by
        intro a ha
        rw [List.mem_singleton.mp ha]
      have hmirrors := (ParquetEmission.mirrors s s.maxEmissionDepth).2.1 hactive
        (rootObject_ok hroot)
      simp only [bind, Except.bind]
      rw [hmirrors]
      cases ParquetEmission.fields s s.maxEmissionDepth [root] shape <;> rfl

/-- A conversion breaks off within the fields of the root. -/
theorem parquetFields_breaks (hs : s.Terminates) {e : EmissionError}
    (he : e.IsBreak) (h : s.parquetFields = .error e) :
    ∃ root shape, s.rootObject = .ok (root, shape) ∧
      ParquetEmission.fields s s.maxEmissionDepth [root] shape = .error e := by
  rcases of_bind_error h with herror | ⟨⟨root, shape⟩, hroot, hrun⟩
  · obtain ⟨target, htarget⟩ := hs.dereference_ok s.root
    have hchain := rootObject_breaks he herror
    rw [htarget] at hchain
    cases hchain
  · exact ⟨root, shape, hroot, hrun⟩

/-- A conversion to Parquet finds the same with marks in one set as with the nodes in progress handed
down, it comes to an end, it succeeds only if the root leads to no circle, and it fails with a cycle
only if the root leads to one. -/
theorem read_parquetFields_circles {document : Json} (hdistinct : document.DistinctKeys)
    (hread : Schema.read document = .ok s) :
    s.parquetFieldsMarked = s.parquetFields ∧ s.parquetFields ≠ .error .tooDeep ∧
      (∀ fields, s.parquetFields = .ok fields →
        ∀ id, s.Walks Link.unfolded s.root id → ¬s.OnCycle Link.unfolded id) ∧
      ∀ text, s.parquetFields = .error (.cycle text) →
        ∃ id, s.Walks Link.unfolded s.root id ∧ s.OnCycle Link.unfolded id := by
  have hs := read_wellFormed hdistinct hread
  have hterminates := read_terminates hdistinct hread
  refine ⟨parquetFieldsMarked_eq s, ?_, ?_, ?_⟩
  · intro h
    obtain ⟨root, shape, hroot, hrun⟩ := parquetFields_breaks hterminates .tooDeep h
    have hlt := hs.dereference_lt hs.root_lt (dereference_root hroot)
    have hroom := ParquetEmission.room_lt_maxEmissionDepth [root] hlt
    exact (ParquetEmission.ne_tooDeep hs _).2.1 hlt (rootObject_ok hroot) (by omega) hrun
  · intro fields h id hwalks
    obtain ⟨⟨root, shape⟩, hroot, hrun⟩ := of_bind_ok h
    obtain ⟨hproperties, hallOf⟩ := (ParquetEmission.founded s _).2.1 hrun
    have hfounded := Founded.of_object (rootObject_ok hroot) hproperties hallOf
    exact (hfounded.of_dereference (dereference_root hroot)).walks_not_onCycle hwalks
  · intro text h
    obtain ⟨root, shape, hroot, hrun⟩ := parquetFields_breaks hterminates (.cycle text) h
    have hwalks : s.Walks Link.unfolded s.root root :=
      .of_dereference (by decide) (dereference_root hroot)
    refine (ParquetEmission.reachesCircle hterminates text _).2.1 hwalks ?_ (rootObject_ok hroot)
      hrun
    exact List.forall_mem_singleton.mpr .refl

/-- A definition that is used in a property, in an array and as a branch. -/
def sharedDocument : Json :=
  .object [("properties", .object [("first", .object [("$ref", .string "#/definitions/part")]),
      ("others", .object [("type", .string "array"),
        ("items", .object [("$ref", .string "#/definitions/part")])])]),
    ("allOf", .array [.object [("$ref", .string "#/definitions/part")]]),
    ("definitions", .object [("part",
      .object [("properties", .object [("id", .object [("type", .string "integer")])])])])]

def sharedSchema : Schema where
  nodes := #[{ kind := .reference "#/definitions/part" (some 6) },
    { kind := .reference "#/definitions/part" (some 6) }, { kind := .array 1 },
    { kind := .reference "#/definitions/part" (some 6) },
    { kind := .object { properties := [("first", 0), ("others", 2)], allOf := [3] } },
    { kind := .primitive .integer }, { kind := .object { properties := [("id", 5)] } }]
  root := 4

def sharedFields : List ParquetField :=
  [.group .optional "first" [.column .optional .int32 none "id"],
    .group .repeated "others" [.column .optional .int32 none "id"],
    .column .optional .int32 none "id"]

theorem read_sharedDocument : read sharedDocument = .ok sharedSchema := by
  cbv

theorem parquetFields_shared : sharedSchema.parquetFields = .ok sharedFields := by
  cbv

theorem read_parquetFields_circles_shared :
    sharedSchema.parquetFieldsMarked = .ok sharedFields ∧
      (∀ id, sharedSchema.Walks Link.unfolded sharedSchema.root id →
        ¬sharedSchema.OnCycle Link.unfolded id) ∧
      selfReferringSchema.parquetFieldsMarked = .error (.cycle "#") ∧
      ∃ id, selfReferringSchema.Walks Link.unfolded selfReferringSchema.root id ∧
        selfReferringSchema.OnCycle Link.unfolded id := by
  obtain ⟨hsame, -, hfree, -⟩ := read_parquetFields_circles (by decide) read_sharedDocument
  obtain ⟨hsame', -, -, hcircle⟩ :=
    read_parquetFields_circles selfReferringDocument_distinctKeys read_selfReferringDocument
  have herror : selfReferringSchema.parquetFields = .error (.cycle "#") := by cbv
  exact ⟨hsame.trans parquetFields_shared, hfree _ parquetFields_shared, hsame'.trans herror,
    hcircle _ herror⟩

end Schema

end SchemaBridge
