import SchemaBridge.Proofs.NodeLinks
import SchemaBridge.Proofs.ParquetSteps
import SchemaBridge.Proofs.ValidationMeaning

/-!
Circles in a conversion to Parquet. A message cannot refer to itself, so the conversion unfolds all
that it reaches, and it can come to an end only where no circle is reached. Main statement: a
conversion that succeeds reached no circle, one that fails with a cycle reached one, and no budget is
used up, since every nested step either enters a node that was not in progress or goes on to a part
with a smaller number.
-/

namespace SchemaBridge

/-- The links that a conversion to Parquet follows. -/
def Link.unfolded : List Link :=
  [.property, .item, .branch, .target]

namespace Schema

variable {s : Schema}

theorem Founded.of_object {id : NodeId} {shape : ObjectShape}
    (hkind : (s.node id).kind = .object shape)
    (hproperties : ∀ p ∈ shape.properties, s.Founded Link.unfolded p.2)
    (hallOf : ∀ branch ∈ shape.allOf, s.Founded Link.unfolded branch) :
    s.Founded Link.unfolded id := by
  refine founded_of_ends fun link _ c hmem => ?_
  rw [hkind] at hmem
  cases link with
  | property =>
      obtain ⟨p, hp, rfl⟩ := List.mem_map.mp hmem
      exact hproperties p hp
  | branch => exact hallOf c hmem
  | _ => cases hmem

theorem Founded.of_array {id items : NodeId} (hkind : (s.node id).kind = .array items)
    (hitems : s.Founded Link.unfolded items) : s.Founded Link.unfolded id := by
  refine founded_of_ends fun link _ c hmem => ?_
  rw [hkind] at hmem
  cases link with
  | item =>
      rw [List.mem_singleton.mp hmem]
      exact hitems
  | _ => cases hmem

theorem Founded.of_reference {id next : NodeId} {text : String}
    (hkind : (s.node id).kind = .reference text (some next))
    (hnext : s.Founded Link.unfolded next) : s.Founded Link.unfolded id := by
  refine Acc.intro _ fun c hgoes => ?_
  rw [hgoes.eq_target hkind]
  exact hnext

end Schema

namespace ParquetEmission

open Steps Schema EmissionError

variable {s : Schema} {budget : Nat} {active : List NodeId}

/-! ### A conversion that succeeds -/

theorem emitProperties_ok_mem {emit : FieldEmitter} {shape : ObjectShape}
    {properties : List (String × NodeId)} {found : List ParquetField}
    (h : emitProperties emit shape properties = .ok found) :
    ∀ p ∈ properties, ∃ slot field, emit p.2 slot = .ok field := by
  induction properties generalizing found with
  | nil => exact fun _ hmem => (List.not_mem_nil hmem).elim
  | cons p rest ih =>
      rw [emitProperties] at h
      obtain ⟨field, hfield, h⟩ := of_bind_ok h
      obtain ⟨later, hlater, -⟩ := of_bind_ok h
      exact List.forall_mem_cons.mpr ⟨⟨_, field, hfield⟩, ih hlater⟩

theorem emitBranches_ok_mem {emit : NodeId → Except EmissionError (List ParquetField)}
    {ids : List NodeId} {found : List ParquetField} (h : emitBranches emit ids = .ok found) :
    ∀ branch ∈ ids, ∃ fields, emit branch = .ok fields := by
  induction ids generalizing found with
  | nil => exact fun _ hmem => (List.not_mem_nil hmem).elim
  | cons branch rest ih =>
      rw [emitBranches] at h
      obtain ⟨first, hfirst, h⟩ := of_bind_ok h
      obtain ⟨later, hlater, -⟩ := of_bind_ok h
      exact List.forall_mem_cons.mpr ⟨⟨first, hfirst⟩, ih hlater⟩

/-- All that a conversion unfolds is founded: each level of the budget unfolds the nodes that the
level above leads to. -/
theorem founded (s : Schema) (budget : Nat) :
    (∀ {active id slot result}, emit s budget active id slot = .ok result →
      s.Founded Link.unfolded id) ∧
    (∀ {active shape found}, fields s budget active shape = .ok found →
      (∀ p ∈ shape.properties, s.Founded Link.unfolded p.2) ∧
        ∀ branch ∈ shape.allOf, s.Founded Link.unfolded branch) ∧
    ∀ {active branch found}, branchFields s budget active branch = .ok found →
      s.Founded Link.unfolded branch := by
  induction budget with
  | zero => exact ⟨fun h => (nomatch h), fun h => (nomatch h), fun h => (nomatch h)⟩
  | succ budget ih =>
      obtain ⟨hemit, hfields, hbranch⟩ := ih
      refine ⟨fun {active id slot result} h => ?_, fun {active shape found} h => ?_,
        fun {active branch found} h => ?_⟩
      · have hstep := emit_step h
        generalize hkind : (s.node id).kind = kind at hstep
        cases hstep with
        | array _ hitems => exact .of_array hkind (hemit hitems)
        | object hfound => exact .of_object hkind (hfields hfound).1 (hfields hfound).2
        | reference hnext => exact .of_reference hkind (hemit hnext)
        | _ => exact founded_of_no_ends hkind fun link _ => by cases link <;> rfl
      · obtain ⟨own, inherited, hown, hinherited, -⟩ := fields_step h
        constructor
        · intro p hp
          obtain ⟨slot, field, hfield⟩ := emitProperties_ok_mem hown p hp
          exact hemit hfield
        · intro branch hmem
          obtain ⟨found, hfound⟩ := emitBranches_ok_mem hinherited branch hmem
          exact hbranch hfound
      · cases branch_step h with
        | object htarget hkind hfound =>
            exact .of_dereference htarget (.of_object hkind (hfields hfound).1 (hfields hfound).2)
        | untyped htarget hkind =>
            exact .of_dereference htarget
              (founded_of_no_ends hkind fun link _ => by cases link <;> rfl)

/-! ### A conversion that breaks off -/

/-- Where the conversion of a node in a slot breaks off. The nodes in progress include the node. -/
inductive EmitBreaks (s : Schema) (budget : Nat) (active : List NodeId) (slot : Slot)
    (e : EmissionError) : Kind → Prop
  | array {items : NodeId}
      (hrun : emit s budget active items { slot with repetition := .repeated } = .error e) :
      EmitBreaks s budget active slot e (.array items)
  | object {shape : ObjectShape} (hrun : fields s budget active shape = .error e) :
      EmitBreaks s budget active slot e (.object shape)
  | reference {text : String} {next : NodeId} (hfresh : next ∉ active)
      (hrun : emit s budget active next slot = .error e) :
      EmitBreaks s budget active slot e (.reference text (some next))
  | reentry {text : String} {next : NodeId} (hactive : next ∈ active) (herror : e = .cycle text) :
      EmitBreaks s budget active slot e (.reference text (some next))

/-- Where the conversion of a branch breaks off. -/
inductive BranchBreaks (s : Schema) (budget : Nat) (active : List NodeId) (branch : NodeId)
    (e : EmissionError) : Prop
  | chain (hrun : s.dereference branch = .error e)
  | object {target : NodeId} {shape : ObjectShape} (htarget : s.dereference branch = .ok target)
      (hkind : (s.node target).kind = .object shape) (hfresh : target ∉ active)
      (hrun : fields s budget (target :: active) shape = .error e)
  | reentry {target : NodeId} (htarget : s.dereference branch = .ok target)
      (hactive : target ∈ active) (herror : e = .cycle (branchLabel s branch target))

theorem emit_breaks {id : NodeId} {slot : Slot} {e : EmissionError} (he : IsBreak e)
    (h : emit s (budget + 1) active id slot = .error e) :
    EmitBreaks s budget (id :: active) slot e (s.node id).kind := by
  rw [emit] at h
  generalize (s.node id).kind = kind at h ⊢
  cases kind with
  | untyped => cases h
  | primitive type => cases type <;> cases h; cases he
  | enumeration literals => cases h
  | array items =>
      simp only at h
      split at h
      · cases h
        cases he
      · rcases of_bind_error h with hrun | ⟨item, -, h⟩
        · exact .array hrun
        · cases item with
          | none =>
              cases h
              cases he
          | some field => cases h
  | object shape =>
      rcases of_bind_error h with hrun | ⟨found, -, h⟩
      · exact .object hrun
      · cases h
  | reference text resolved =>
      cases resolved with
      | none =>
          cases h
          cases he
      | some next =>
          simp only at h
          split at h
          · rename_i hactive
            exact .reentry hactive (Except.error.inj h).symm
          · rename_i hfresh
            exact .reference hfresh h
  | _ =>
      cases h
      cases he

theorem emitProperties_error_mem {emit : FieldEmitter} {shape : ObjectShape}
    {properties : List (String × NodeId)} {e : EmissionError}
    (h : emitProperties emit shape properties = .error e) :
    ∃ p ∈ properties, ∃ slot, emit p.2 slot = .error e := by
  induction properties with
  | nil => cases h
  | cons p rest ih =>
      rw [emitProperties] at h
      rcases of_bind_error h with hrun | ⟨field, -, h⟩
      · exact ⟨p, List.mem_cons_self, _, hrun⟩
      · rcases of_bind_error h with hrun | ⟨later, -, h⟩
        · obtain ⟨p', hmem, hrun⟩ := ih hrun
          exact ⟨p', List.mem_cons_of_mem _ hmem, hrun⟩
        · cases h

theorem emitBranches_error_mem {emit : NodeId → Except EmissionError (List ParquetField)}
    {ids : List NodeId} {e : EmissionError} (h : emitBranches emit ids = .error e) :
    ∃ branch ∈ ids, emit branch = .error e := by
  induction ids with
  | nil => cases h
  | cons branch rest ih =>
      rw [emitBranches] at h
      rcases of_bind_error h with hrun | ⟨first, -, h⟩
      · exact ⟨branch, List.mem_cons_self, hrun⟩
      · rcases of_bind_error h with hrun | ⟨later, -, h⟩
        · obtain ⟨branch', hmem, hrun⟩ := ih hrun
          exact ⟨branch', List.mem_cons_of_mem _ hmem, hrun⟩
        · cases h

/-- The fields of an object break off at a property or at a branch. -/
theorem fields_breaks {shape : ObjectShape} {e : EmissionError} (he : IsBreak e)
    (h : fields s (budget + 1) active shape = .error e) :
    (∃ p ∈ shape.properties, ∃ slot, emit s budget active p.2 slot = .error e) ∨
      ∃ branch ∈ shape.allOf, branchFields s budget active branch = .error e := by
  rw [fields] at h
  rcases of_bind_error h with hrun | ⟨own, -, h⟩
  · exact .inl (emitProperties_error_mem hrun)
  · rcases of_bind_error h with hrun | ⟨inherited, -, h⟩
    · exact .inr (emitBranches_error_mem hrun)
    · unfold checkNames at h
      split at h <;> cases h
      cases he

theorem branch_breaks {branch : NodeId} {e : EmissionError} (he : IsBreak e)
    (h : branchFields s (budget + 1) active branch = .error e) :
    BranchBreaks s budget active branch e := by
  rw [branchFields] at h
  rcases of_bind_error h with hrun | ⟨target, htarget, h⟩
  · exact .chain hrun
  · by_cases hactive : target ∈ active
    · simp only [if_pos hactive] at h
      exact .reentry htarget hactive (Except.error.inj h).symm
    · simp only [if_neg hactive] at h
      cases hkind : (s.node target).kind with
      | object shape =>
          simp only [hkind] at h
          exact .object htarget hkind hactive h
      | untyped =>
          simp only [hkind] at h
          cases h
      | _ =>
          simp only [hkind] at h
          cases h
          cases he

/-! ### What is in progress -/

/-- A circle that a walk from the root comes to. -/
def ReachesCircle (s : Schema) : Prop :=
  ∃ id, s.Walks Link.unfolded s.root id ∧ s.OnCycle Link.unfolded id

theorem goes_property {id : NodeId} {shape : ObjectShape} {p : String × NodeId}
    (hkind : (s.node id).kind = .object shape) (hmem : p ∈ shape.properties) :
    s.Goes Link.unfolded id p.2 := by
  obtain ⟨name, c⟩ := p
  exact (Linked.property hkind hmem).goes (by decide)

/-- A conversion that fails with a cycle reached a circle: the nodes in progress lead to the current
node, so a node that is entered again is on a circle. A branch lies below the node that has it. -/
theorem reachesCircle (hs : s.Terminates) (text : String) (budget : Nat) :
    (∀ {active id slot}, s.Walks Link.unfolded s.root id →
      (∀ a ∈ active, s.Walks Link.unfolded a id) →
      emit s budget active id slot = .error (.cycle text) → ReachesCircle s) ∧
    (∀ {active id shape}, s.Walks Link.unfolded s.root id →
      (∀ a ∈ active, s.Walks Link.unfolded a id) → (s.node id).kind = .object shape →
      fields s budget active shape = .error (.cycle text) → ReachesCircle s) ∧
    ∀ {active branch}, s.Walks Link.unfolded s.root branch →
      (∀ a ∈ active, Relation.TransGen (s.Goes Link.unfolded) a branch) →
      branchFields s budget active branch = .error (.cycle text) → ReachesCircle s := by
  induction budget with
  | zero => exact ⟨fun _ _ h => (nomatch h), fun _ _ _ h => (nomatch h), fun _ _ h => (nomatch h)⟩
  | succ budget ih =>
      obtain ⟨hemit, hfields, hbranch⟩ := ih
      refine ⟨fun {active id slot} hroot hactive h => ?_,
        fun {active id shape} hroot hactive hkind h => ?_,
        fun {active branch} hroot hactive h => ?_⟩
      · have hbelow : ∀ a ∈ id :: active, s.Walks Link.unfolded a id :=
          List.forall_mem_cons.mpr ⟨.refl, hactive⟩
        have hbreaks := emit_breaks (.cycle text) h
        generalize hkind : (s.node id).kind = kind at hbreaks
        cases hbreaks with
        | @array items hrun =>
            have hgoes : s.Goes Link.unfolded id items := (Linked.item hkind).goes (by decide)
            exact hemit (hroot.tail hgoes) (fun a ha => (hbelow a ha).tail hgoes) hrun
        | object hrun => exact hfields hroot hbelow hkind hrun
        | @reference _ next _ hrun =>
            have hgoes : s.Goes Link.unfolded id next := (Linked.target hkind).goes (by decide)
            exact hemit (hroot.tail hgoes) (fun a ha => (hbelow a ha).tail hgoes) hrun
        | @reentry _ next hmem _ =>
            have hgoes : s.Goes Link.unfolded id next := (Linked.target hkind).goes (by decide)
            exact ⟨next, hroot.tail hgoes, .tail' (hbelow next hmem) hgoes⟩
      · rcases fields_breaks (.cycle text) h with ⟨p, hmem, slot, hrun⟩ | ⟨branch, hmem, hrun⟩
        · have hgoes := goes_property hkind hmem
          exact hemit (hroot.tail hgoes) (fun a ha => (hactive a ha).tail hgoes) hrun
        · have hgoes : s.Goes Link.unfolded id branch :=
            (Linked.branch hkind hmem).goes (by decide)
          exact hbranch (hroot.tail hgoes) (fun a ha => .tail' (hactive a ha) hgoes) hrun
      · cases branch_breaks (.cycle text) h with
        | chain hrun =>
            obtain ⟨target, htarget⟩ := hs.dereference_ok branch
            rw [htarget] at hrun
            cases hrun
        | @object target _ htarget hkind _ hrun =>
            have hwalks : s.Walks Link.unfolded branch target := .of_dereference (by decide) htarget
            refine hfields (hroot.trans hwalks) ?_ hkind hrun
            exact List.forall_mem_cons.mpr
              ⟨.refl, fun a ha => ((hactive a ha).to_reflTransGen).trans hwalks⟩
        | @reentry target htarget hmem _ =>
            have hwalks : s.Walks Link.unfolded branch target := .of_dereference (by decide) htarget
            exact ⟨target, hroot.trans hwalks, (hactive target hmem).trans_left hwalks⟩

/-! ### The budget suffices -/

/-- How many steps can still be nested in a node: the nodes that are not in progress count more than
any number. -/
def room (s : Schema) (active : List NodeId) (id : Nat) : Nat :=
  NodeId.unseen s.nodes.size active * (s.nodes.size + 1) + id

theorem room_part_lt {id c : Nat} (hc : c < id) : room s (c :: active) c < room s active id :=
  Nat.add_lt_add_of_le_of_lt (Nat.mul_le_mul_right _ (unseen_cons_le _ active c)) hc

theorem room_target_lt {target : Nat} (htarget : target < s.nodes.size) (hfresh : target ∉ active) :
    room s (target :: active) target < room s active 0 :=
  mul_add_lt_mul (NodeId.unseen_cons_lt htarget hfresh) (htarget.trans (Nat.lt_succ_self _))

theorem room_zero_le (id : Nat) : room s active 0 ≤ room s active id :=
  Nat.add_le_add_left (Nat.zero_le id) _

theorem room_lt_maxEmissionDepth (active : List NodeId) {id : Nat} (hid : id < s.nodes.size) :
    3 * room s active id + 3 ≤ s.maxEmissionDepth := by
  have hsquare : room s active id < (s.nodes.size + 1) * (s.nodes.size + 1) :=
    mul_add_lt_mul (Nat.lt_succ_of_le (unseen_le _ _)) (hid.trans (Nat.lt_succ_self _))
  have hcube : (s.nodes.size + 1) ^ 2 ≤ (s.nodes.size + 1) ^ 3 :=
    Nat.pow_le_pow_right (Nat.succ_pos _) (by decide)
  rw [Nat.pow_two] at hcube
  rw [maxEmissionDepth]
  omega

/-- A conversion with three levels of the budget for each nested step does not use it up. -/
theorem ne_tooDeep (hs : s.WellFormed) (budget : Nat) :
    (∀ {active slot} {id : Nat}, id < s.nodes.size → 3 * room s (id :: active) id + 3 ≤ budget →
      emit s budget active id slot ≠ .error .tooDeep) ∧
    (∀ {active shape} {id : Nat}, id < s.nodes.size → (s.node id).kind = .object shape →
      3 * room s active id + 2 ≤ budget → fields s budget active shape ≠ .error .tooDeep) ∧
    ∀ {active} {branch : Nat}, branch < s.nodes.size → 3 * room s active 0 + 1 ≤ budget →
      branchFields s budget active branch ≠ .error .tooDeep := by
  induction budget with
  | zero =>
      exact ⟨fun _ hbudget => (Nat.not_succ_le_zero _ hbudget).elim,
        fun _ _ hbudget => (Nat.not_succ_le_zero _ hbudget).elim,
        fun _ hbudget => (Nat.not_succ_le_zero _ hbudget).elim⟩
  | succ budget ih =>
      obtain ⟨hemit, hfields, hbranch⟩ := ih
      refine ⟨fun {active slot id} hid hbudget h => ?_,
        fun {active shape id} hid hkind hbudget h => ?_,
        fun {active branch} hid hbudget h => ?_⟩
      · have hzero : room s (id :: active) 0 ≤ room s (id :: active) id := room_zero_le id
        have hbreaks := emit_breaks .tooDeep h
        generalize hkind : (s.node id).kind = kind at hbreaks
        cases hbreaks with
        | @array items hrun =>
            have hlt : items < id := hs.child_lt id items (hkind ▸ List.mem_singleton_self _)
            have hroom : room s (items :: id :: active) items < room s (id :: active) id :=
              room_part_lt hlt
            exact hemit (hlt.trans hid) (by omega) hrun
        | object hrun => exact hfields hid hkind (by omega) hrun
        | reference hfresh hrun =>
            have htarget := hs.target_lt id _ _ hkind
            have hroom := room_target_lt htarget hfresh
            exact hemit htarget (by omega) hrun
        | reentry _ herror => cases herror
      · have hzero : room s active 0 ≤ room s active id := room_zero_le id
        rcases fields_breaks .tooDeep h with ⟨p, hmem, slot, hrun⟩ | ⟨branch, hmem, hrun⟩
        · have hlt : p.2 < id := hs.child_lt id p.2
            (hkind ▸ List.mem_append_left _ (List.mem_map_of_mem (f := Prod.snd) hmem))
          have hroom : room s (p.2 :: active) p.2 < room s active id := room_part_lt hlt
          exact hemit (hlt.trans hid) (by omega) hrun
        · have hlt : branch < id := hs.child_lt id branch (hkind ▸ List.mem_append_right _ hmem)
          exact hbranch (hlt.trans hid) (by omega) hrun
      · cases branch_breaks .tooDeep h with
        | chain hrun => exact dereference_ne_tooDeep branch hrun
        | @object target shape htarget hkind hfresh hrun =>
            have hsize := hs.dereference_lt hid htarget
            have hroom := room_target_lt hsize hfresh
            exact hfields hsize hkind (by omega) hrun
        | reentry _ _ herror => cases herror

end ParquetEmission

end SchemaBridge
