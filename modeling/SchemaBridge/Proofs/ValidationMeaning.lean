import SchemaBridge.Proofs.FaithfulReading
import SchemaBridge.Proofs.ValidationSteps

/-!
What it means for a value to be valid: the least relation in which a node accepts a value by its
kind, a reference standing for its target. It says nothing of the targets entered at a location.
A derivation of least height never enters a target twice at one location, so the bookkeeping of a
check rejects no valid value; and between two descents the numbers fall, so the budget suffices.
Main statement: a value passes validation exactly if it is valid for the root.
-/

namespace SchemaBridge

namespace Schema

/-- The node with a number accepts a value. -/
inductive Valid (s : Schema) : NodeId → Json → Prop
  | untyped {id : NodeId} {value : Json} (hkind : (s.node id).kind = .untyped) : Valid s id value
  | primitive {id : NodeId} {value : Json} {type : Primitive}
      (hkind : (s.node id).kind = .primitive type)
      (htype : (JsonType.primitive type).accepts value = true) : Valid s id value
  | enumeration {id : NodeId} {value literal : Json} {literals : List Json}
      (hkind : (s.node id).kind = .enumeration literals) (hliteral : literal ∈ literals)
      (hsame : literal.same value = true) : Valid s id value
  | array {id items : NodeId} {values : List Json} (hkind : (s.node id).kind = .array items)
      (hvalues : ∀ v ∈ values, Valid s items v) : Valid s id (.array values)
  | tuple {id : NodeId} {ids : List NodeId} {values : List Json}
      (hkind : (s.node id).kind = .tuple ids) (hlength : values.length = ids.length)
      (hvalues : ∀ p ∈ ids.zip values, Valid s p.1 p.2) : Valid s id (.array values)
  | object {id : NodeId} {shape : ObjectShape} {members : Members}
      (hkind : (s.node id).kind = .object shape)
      (hrequired : ∀ name ∈ shape.required, members.lookup name ≠ none)
      (hproperties : ∀ p ∈ shape.properties, ∀ v, members.lookup p.1 = some v → Valid s p.2 v)
      (hallOf : ∀ branch ∈ shape.allOf, Valid s branch (.object members)) :
      Valid s id (.object members)
  | reference {id target : NodeId} {value : Json} {text : String}
      (hkind : (s.node id).kind = .reference text (some target)) (htarget : Valid s target value) :
      Valid s id value
  | union {id : NodeId} {value : Json} {type : JsonType} {types : List JsonType}
      (hkind : (s.node id).kind = .union types) (htype : type ∈ types)
      (haccepts : type.accepts value = true) : Valid s id value

/-- The node with a number accepts a value by a derivation of at most a given height. -/
def ValidWithin (s : Schema) : Nat → NodeId → Json → Prop
  | 0, _, _ => False
  | height + 1, id, value =>
    (s.node id).kind.Admits (fun id v _ => s.ValidWithin height id v) value []

variable {s : Schema}

/-- A node that accepts a value has a kind that admits it. -/
theorem Valid.admits {id : NodeId} {value : Json} {kind : Kind} (h : s.Valid id value)
    (hkind : (s.node id).kind = kind) : kind.Admits (fun id v _ => s.Valid id v) value [] := by
  subst hkind
  cases h with
  | untyped hkind => rw [hkind]; trivial
  | primitive hkind htype => rw [hkind]; exact htype
  | enumeration hkind hliteral hsame => rw [hkind]; exact ⟨_, hliteral, hsame⟩
  | array hkind hvalues => rw [hkind]; exact ⟨_, rfl, hvalues⟩
  | tuple hkind hlength hvalues => rw [hkind]; exact ⟨_, rfl, hlength, hvalues⟩
  | object hkind hrequired hproperties hallOf =>
      rw [hkind]
      exact ⟨_, rfl, hrequired, hproperties, hallOf⟩
  | reference hkind htarget => rw [hkind]; exact ⟨_, rfl, List.not_mem_nil, htarget⟩
  | union hkind htype haccepts => rw [hkind]; exact ⟨_, htype, haccepts⟩

/-! ### Derivations by height -/

theorem ValidWithin.mono {height height' : Nat} (hle : height ≤ height') {id : NodeId} {value : Json}
    (h : s.ValidWithin height id value) : s.ValidWithin height' id value := by
  induction height generalizing height' id value with
  | zero => exact h.elim
  | succ height ih =>
      obtain ⟨more, rfl⟩ := Nat.exists_eq_add_of_lt hle
      have hle' : height ≤ height + more := Nat.le_add_right _ _
      apply Kind.Admits.imp h
      · intro _ _ _ _ hv
        exact ih hle' hv
      · intro _ _ hv
        exact ih hle' hv
      · intro _ _ _ hfresh hv
        exact ⟨hfresh, ih hle' hv⟩

/-- What holds of each element from some height on holds of all of them from some height on. -/
theorem exists_height {α : Type} {P : Nat → α → Prop} {xs : List α}
    (hmono : ∀ m n x, m ≤ n → P m x → P n x) (h : ∀ x ∈ xs, ∃ height, P height x) :
    ∃ height, ∀ x ∈ xs, P height x := by
  induction xs with
  | nil => exact ⟨0, by simp⟩
  | cons x rest ih =>
      obtain ⟨⟨m, hm⟩, hrest⟩ := List.forall_mem_cons.mp h
      obtain ⟨n, hn⟩ := ih hrest
      refine ⟨max m n, List.forall_mem_cons.mpr ⟨?_, ?_⟩⟩
      · exact hmono m _ x (Nat.le_max_left m n) hm
      · intro y hy
        exact hmono n _ y (Nat.le_max_right m n) (hn y hy)

theorem Valid.within {id : NodeId} {value : Json} (h : s.Valid id value) :
    ∃ height, s.ValidWithin height id value := by
  induction h with
  | untyped hkind => exact ⟨1, by simp [ValidWithin, hkind, Kind.Admits]⟩
  | primitive hkind htype => exact ⟨1, by simpa [ValidWithin, hkind, Kind.Admits] using htype⟩
  | enumeration hkind hliteral hsame =>
      refine ⟨1, ?_⟩
      rw [ValidWithin, hkind]
      exact ⟨_, hliteral, hsame⟩
  | array hkind _ ih =>
      obtain ⟨height, hvalues⟩ := exists_height (fun _ _ _ hle h => h.mono hle) ih
      refine ⟨height + 1, ?_⟩
      rw [ValidWithin, hkind]
      exact ⟨_, rfl, hvalues⟩
  | tuple hkind hlength _ ih =>
      obtain ⟨height, hvalues⟩ := exists_height (fun _ _ _ hle h => h.mono hle) ih
      refine ⟨height + 1, ?_⟩
      rw [ValidWithin, hkind]
      exact ⟨_, rfl, hlength, hvalues⟩
  | @object id shape members hkind hrequired _ _ ihproperties ihallOf =>
      have hpresent : ∀ p ∈ shape.properties, ∃ height, ∀ v, members.lookup p.1 = some v →
          s.ValidWithin height p.2 v := by
        intro p hp
        cases hv : members.lookup p.1 with
        | none => exact ⟨0, by simp⟩
        | some v =>
            obtain ⟨height, hvalid⟩ := ihproperties p hp v hv
            refine ⟨height, fun w hw => ?_⟩
            cases hw
            exact hvalid
      obtain ⟨m, hm⟩ := exists_height (fun _ _ _ hle h v hv => (h v hv).mono hle) hpresent
      obtain ⟨n, hn⟩ := exists_height (fun _ _ _ hle h => h.mono hle) ihallOf
      refine ⟨max m n + 1, ?_⟩
      rw [ValidWithin, hkind]
      refine ⟨members, rfl, hrequired, ?_, ?_⟩
      · intro p hp v hv
        exact (hm p hp v hv).mono (Nat.le_max_left m n)
      · intro branch hbranch
        exact (hn branch hbranch).mono (Nat.le_max_right m n)
  | reference hkind _ ih =>
      obtain ⟨height, htarget⟩ := ih
      refine ⟨height + 1, ?_⟩
      rw [ValidWithin, hkind]
      exact ⟨_, rfl, List.not_mem_nil, htarget⟩
  | union hkind htype haccepts =>
      refine ⟨1, ?_⟩
      rw [ValidWithin, hkind]
      exact ⟨_, htype, haccepts⟩

theorem ValidWithin.valid {height : Nat} {id : NodeId} {value : Json}
    (h : s.ValidWithin height id value) : s.Valid id value := by
  induction height generalizing id value with
  | zero => exact h.elim
  | succ height ih =>
      rw [ValidWithin] at h
      cases hkind : (s.node id).kind with
      | untyped => exact .untyped hkind
      | primitive type => rw [hkind] at h; exact .primitive hkind h
      | enumeration literals =>
          rw [hkind] at h
          obtain ⟨literal, hliteral, hsame⟩ := h
          exact .enumeration hkind hliteral hsame
      | array items =>
          rw [hkind] at h
          obtain ⟨values, rfl, hvalues⟩ := h
          exact .array hkind fun v hv => ih (hvalues v hv)
      | tuple ids =>
          rw [hkind] at h
          obtain ⟨values, rfl, hlength, hvalues⟩ := h
          exact .tuple hkind hlength fun p hp => ih (hvalues p hp)
      | object shape =>
          rw [hkind] at h
          obtain ⟨members, rfl, hrequired, hproperties, hallOf⟩ := h
          exact .object hkind hrequired (fun p hp v hv => ih (hproperties p hp v hv))
            fun branch hbranch => ih (hallOf branch hbranch)
      | reference text resolved =>
          rw [hkind] at h
          obtain ⟨target, rfl, -, htarget⟩ := h
          exact .reference hkind (ih htarget)
      | union types =>
          rw [hkind] at h
          obtain ⟨type, htype, haccepts⟩ := h
          exact .union hkind htype haccepts

/-- A derivation of least height. -/
theorem ValidWithin.least {height : Nat} {id : NodeId} {value : Json}
    (h : s.ValidWithin height id value) :
    ∃ least < height, s.ValidWithin (least + 1) id value ∧ ¬s.ValidWithin least id value := by
  induction height with
  | zero => exact h.elim
  | succ height ih =>
      by_cases hlower : s.ValidWithin height id value
      · obtain ⟨least, hlt, hleast⟩ := ih hlower
        exact ⟨least, by omega, hleast⟩
      · exact ⟨height, by omega, h, hlower⟩

/-! ### Checks and derivations -/

/-- A check forgets its bookkeeping and leaves a derivation. -/
theorem AcceptsWithin.validWithin {budget : Nat} {id : NodeId} {value : Json}
    {entered : List NodeId} (h : s.AcceptsWithin budget id value entered) :
    s.ValidWithin budget id value := by
  induction budget generalizing id value entered with
  | zero => exact h.elim
  | succ budget ih =>
      apply Kind.Admits.imp h
      · intro _ _ _ _ hv
        exact ih hv
      · intro _ _ hv
        exact ih hv
      · intro _ _ _ _ hv
        exact ⟨List.not_mem_nil, ih hv⟩

/-- How many checks can still be nested at a location: the targets that were not entered count
more than any node, and the value more than any target. -/
def rank (s : Schema) (id : Nat) (value : Json) (entered : List NodeId) : Nat :=
  (value.size * (s.nodes.size + 1) + NodeId.unseen s.nodes.size entered) * (s.nodes.size + 1) + id

theorem unseen_le (bound : Nat) (seen : List NodeId) : NodeId.unseen bound seen ≤ bound := by
  have h := List.countP_le_length (p := fun i => decide (i ∉ seen)) (l := List.range bound)
  rwa [List.length_range] at h

theorem unseen_cons_le (bound : Nat) (seen : List NodeId) (id : NodeId) :
    NodeId.unseen bound (id :: seen) ≤ NodeId.unseen bound seen := by
  refine List.countP_mono_left fun i _ hi => ?_
  simp only [List.mem_cons, not_or, decide_eq_true_eq] at hi ⊢
  exact hi.2

theorem unseen_append_lt {bound : Nat} {seen : List NodeId} {id : Nat} (hid : id < bound)
    (hfresh : id ∉ seen) : NodeId.unseen bound (seen ++ [id]) < NodeId.unseen bound seen := by
  have h := NodeId.unseen_cons_lt hid hfresh
  simp only [NodeId.unseen, List.mem_append, List.mem_cons, List.not_mem_nil, or_false] at h ⊢
  simpa only [or_comm] using h

theorem mul_add_lt_mul {a b base i : Nat} (hlt : a < b) (hi : i < base) :
    a * base + i < b * base :=
  calc a * base + i < a * base + base := Nat.add_lt_add_left hi _
    _ = (a + 1) * base := (Nat.succ_mul a base).symm
    _ ≤ b * base := Nat.mul_le_mul_right base hlt

theorem rank_descend_lt {id i : Nat} {value v : Json} {entered : List NodeId}
    (hsize : v.size < value.size) (hi : i < s.nodes.size) :
    s.rank i v [] < s.rank id value entered := by
  have hunseen := unseen_le s.nodes.size []
  have hinner := mul_add_lt_mul hsize (Nat.lt_succ_of_le hunseen)
  have houter := mul_add_lt_mul (hinner.trans_le (Nat.le_add_right _
    (NodeId.unseen s.nodes.size entered))) (hi.trans (Nat.lt_succ_self _))
  exact houter.trans_le (Nat.le_add_right _ _)

theorem rank_branch_lt {id i : Nat} (value : Json) (entered : List NodeId) (hi : i < id) :
    s.rank i value entered < s.rank id value entered :=
  Nat.add_lt_add_left hi _

theorem rank_target_lt {id target : Nat} (value : Json) {entered : List NodeId}
    (htarget : target < s.nodes.size) (hfresh : target ∉ entered) :
    s.rank target value (entered ++ [target]) < s.rank id value entered := by
  have hunseen := Nat.add_lt_add_left (unseen_append_lt htarget hfresh)
    (value.size * (s.nodes.size + 1))
  have houter := mul_add_lt_mul hunseen (htarget.trans (Nat.lt_succ_self _))
  exact houter.trans_le (Nat.le_add_right _ _)

theorem rank_lt_maxDepth {id : Nat} (value : Json) (hid : id < s.nodes.size) :
    s.rank id value [] < Validation.maxDepth s value := by
  have hunseen := unseen_le s.nodes.size []
  have hinner := mul_add_lt_mul (Nat.lt_succ_self value.size) (Nat.lt_succ_of_le hunseen)
  have houter := mul_add_lt_mul hinner (hid.trans (Nat.lt_succ_self _))
  rw [Nat.mul_assoc] at houter
  exact houter

/-- A derivation is found by every check whose budget exceeds the rank, if none of the targets that
were entered has a derivation that is lower. -/
theorem ValidWithin.acceptsWithin (hs : s.WellFormed) {budget height : Nat} {id : Nat}
    {value : Json} {entered : List NodeId} (hid : id < s.nodes.size)
    (hvalid : s.ValidWithin (height + 1) id value)
    (hentered : ∀ target ∈ entered, ¬s.ValidWithin height target value)
    (hbudget : s.rank id value entered < budget) : s.AcceptsWithin budget id value entered := by
  induction budget generalizing height id value entered with
  | zero => exact absurd hbudget (Nat.not_lt_zero _)
  | succ budget ih =>
      have hchild : ∀ c : Nat, c ∈ (s.node id).kind.children → c < id := hs.child_lt id
      have hrank : ∀ n : Nat, n < s.rank id value entered → n < budget := fun n hn => by omega
      apply Kind.Admits.imp hvalid
      · intro c hc v hsize hv
        have hlt := (hchild c hc).trans hid
        have hlower := hrank _ (rank_descend_lt hsize hlt)
        obtain ⟨least, -, hleast, -⟩ := hv.least
        exact ih hlt hleast (by simp) hlower
      · intro c hc hv
        have hlower := hrank _ (rank_branch_lt value entered (hchild c hc))
        obtain ⟨least, hlt, hleast, -⟩ := hv.least
        apply ih ((hchild c hc).trans hid) hleast _ hlower
        intro target ht hlow
        exact hentered target ht (hlow.mono hlt.le)
      · intro text target htext _ hv
        have hfresh : target ∉ entered := fun hmem => hentered target hmem hv
        have htarget := hs.target_lt id text target htext
        have hlower := hrank _ (rank_target_lt value htarget hfresh)
        obtain ⟨least, hlt, hleast, hlowest⟩ := hv.least
        refine ⟨hfresh, ih htarget hleast ?_ hlower⟩
        -- the targets entered before have no derivation this low, and the new one has no lower one
        intro t ht hlow
        rcases List.mem_append.mp ht with ht | ht
        · exact hentered t ht (hlow.mono hlt.le)
        · rw [List.mem_singleton.mp ht] at hlow
          exact hlowest hlow

/-- A value passes validation against a well-formed schema exactly if it is valid. -/
theorem WellFormed.validate_iff (hs : s.WellFormed) (value : Json) :
    s.validate value = .ok () ↔ s.Valid s.root value := by
  rw [validate, Validation.check_ok]
  constructor
  · intro h
    exact h.validWithin.valid
  · intro h
    obtain ⟨height, hvalid⟩ := h.within
    obtain ⟨least, -, hleast, -⟩ := hvalid.least
    exact hleast.acceptsWithin hs hs.root_lt (by simp) (rank_lt_maxDepth value hs.root_lt)

end Schema

/-! ### Schemas that are read or built -/

/-- The arenas that a builder makes: a node is added after its parts, and a reference has its target
among the nodes there are, from the start or later. -/
inductive Arena.Built : Arena → Prop
  | empty : Arena.Built #[]
  | push {arena : Arena} {n : Node} (harena : Arena.Built arena)
      (hchildren : ∀ c : Nat, c ∈ n.kind.children → c < arena.size)
      (htarget : ∀ (text : String) (target : Nat), n.kind = .reference text (some target) →
        target < arena.size) :
      Arena.Built (arena.push n)
  | bind {arena : Arena} {id target : Nat} {text : String} {resolved : Option NodeId}
      (harena : Arena.Built arena) (hkind : (arena.node id).kind = .reference text resolved)
      (htarget : target < arena.size) :
      Arena.Built (({ nodes := arena } : Draft).bind id target).nodes

theorem Arena.Built.children_lt {arena : Arena} (h : Arena.Built arena) :
    ∀ id c : Nat, c ∈ (arena.node id).kind.children → c < id := by
  induction h with
  | empty =>
      intro id c hc
      rw [Arena.node_of_size_le (Nat.zero_le id)] at hc
      cases hc
  | @push arena n _ hchildren _ ih =>
      intro id c hc
      rw [Arena.node_push] at hc
      split at hc
      · rename_i heq
        rw [heq]
        exact hchildren c hc
      · exact ih id c hc
  | @bind arena i target text resolved _ hkind _ ih =>
      intro id c hc
      rcases Decidable.eq_or_ne id i with rfl | hne
      · rw [Draft.node_bind_self hkind] at hc
        cases hc
      · rw [Draft.node_bind_of_ne hne] at hc
        exact ih id c hc

theorem Arena.Built.target_lt {arena : Arena} (h : Arena.Built arena) :
    ∀ (id : Nat) (text : String) (target : Nat),
      (arena.node id).kind = .reference text (some target) → target < arena.size := by
  induction h with
  | empty =>
      intro id text target href
      rw [Arena.node_of_size_le (Nat.zero_le id)] at href
      cases href
  | @push arena n _ _ htarget ih =>
      intro id text target href
      rw [Arena.node_push] at href
      rw [Array.size_push]
      split at href
      · exact (htarget text target href).trans (Nat.lt_succ_self _)
      · exact (ih id text target href).trans (Nat.lt_succ_self _)
  | @bind arena i bound text' resolved _ hkind htarget ih =>
      intro id text target href
      rw [Draft.size_bind]
      rcases Decidable.eq_or_ne id i with rfl | hne
      · rw [Draft.node_bind_self hkind] at href
        cases href
        exact htarget
      · rw [Draft.node_bind_of_ne hne] at href
        exact ih id text target href

namespace Schema

/-- The schemas there are: those read from a document, and those built node by node. -/
inductive Made (s : Schema) : Prop
  | read {document : Json} (hdistinct : document.DistinctKeys) (hread : Schema.read document = .ok s)
  | built (hnodes : Arena.Built s.nodes) (hroot : s.root < s.nodes.size)

theorem Made.wellFormed {s : Schema} (h : s.Made) : s.WellFormed := by
  cases h with
  | read hdistinct hread => exact read_wellFormed hdistinct hread
  | built hnodes hroot => exact ⟨hroot, hnodes.children_lt, hnodes.target_lt⟩

/-- Validation decides validity: whatever the schema and its references, a value passes exactly if
it has a derivation. -/
theorem validate_iff_valid {s : Schema} (h : s.Made) (value : Json) :
    s.validate value = .ok () ↔ s.Valid s.root value :=
  h.wellFormed.validate_iff value

/-- A value that goes through the reference of a schema to itself. -/
def nestedInstance : Json :=
  .object [("next", .object [("tags", .array [.null])])]

theorem validate_iff_valid_nestedInstance :
    selfReferringSchema.Made ∧ selfReferringSchema.validate nestedInstance = .ok () ∧
      selfReferringSchema.Valid selfReferringSchema.root nestedInstance := by
  have hmade : selfReferringSchema.Made :=
    .read selfReferringDocument_distinctKeys read_selfReferringDocument
  have hok : selfReferringSchema.validate nestedInstance = .ok () := by cbv
  exact ⟨hmade, hok, (validate_iff_valid hmade nestedInstance).mp hok⟩

end Schema

end SchemaBridge
