import Mathlib.Data.Prod.Lex
import SchemaBridge.Proofs.ValidationCycles

/-!
Validations come to an end. A check leads to checks of parts at smaller values, to checks of
branches at the same location, and to the check of a target that was not entered there, so the size
of the value, the targets that are left and the number of the node go down in that order of
importance. A check asks for nothing but the checks that it leads to. Main statement: no chain of
checks goes on for ever, and what validation gives is the one answer that a check without a budget
can give.
-/

namespace SchemaBridge

/-- The nodes that references lead to, each once. -/
def Schema.targets (s : Schema) : List NodeId :=
  (s.nodes.toList.flatMap fun node => Link.target.ends node.kind).dedup

/-- How many targets of references were not entered at a location. -/
def Schema.targetsLeft (s : Schema) (entered : List NodeId) : Nat :=
  s.targets.countP fun id => decide (id ∉ entered)

theorem Schema.mem_targets {s : Schema} {id next : NodeId} {text : String}
    (hkind : (s.node id).kind = .reference text (some next)) : next ∈ s.targets := by
  have hid : id < s.nodes.size := Arena.lt_size_of_reference hkind
  have hnode : s.node id = s.nodes[id] := by simp [Schema.node, Arena.node, Array.getD, hid]
  rw [targets, List.mem_dedup, List.mem_flatMap]
  refine ⟨s.nodes[id], Array.getElem_mem_toList hid, ?_⟩
  rw [← hnode, hkind]
  exact List.mem_singleton_self next

theorem Schema.targetsLeft_enter_lt {s : Schema} {id next : NodeId} {text : String}
    {entered : List NodeId} (hkind : (s.node id).kind = .reference text (some next))
    (hfresh : next ∉ entered) : s.targetsLeft (entered ++ [next]) < s.targetsLeft entered := by
  refine NodeId.countP_lt_of_mem (fun i hi => ?_) (mem_targets hkind) (by simp)
    (by simpa using hfresh)
  simp only [List.mem_append, not_or, decide_eq_true_eq] at hi ⊢
  exact hi.1

theorem Schema.WellFormed.child_lt_size {s : Schema} (hs : s.WellFormed) {id c : NodeId}
    (hchild : c ∈ (s.node id).kind.children) : c < s.nodes.size := by
  have hid : id < s.nodes.size := by
    by_contra hle
    rw [Schema.node, Arena.node_of_size_le (Nat.le_of_not_lt hle)] at hchild
    cases hchild
  have hlt : c < id := hs.child_lt id c hchild
  exact hlt.trans hid

namespace Validation

/-- A check: of a node, at a location of the instance. -/
abbrev Check := NodeId × Frame

/-- A check leads to another one: of a part of the node at a part of the value, of a branch at the
same location, or of a target that was not entered at it. -/
inductive Nested (s : Schema) : Check → Check → Prop
  | element {id items : NodeId} {f : Frame} {values : List Json} {index : Nat} {v : Json}
      (hkind : (s.node id).kind = .array items) (hvalue : f.value = .array values)
      (hv : values[index]? = some v) : Nested s (id, f) (items, f.descend (.index index) v)
  | position {id c : NodeId} {f : Frame} {ids : List NodeId} {values : List Json} {index : Nat}
      {v : Json} (hkind : (s.node id).kind = .tuple ids) (hvalue : f.value = .array values)
      (hlength : values.length = ids.length) (hc : ids[index]? = some c)
      (hv : values[index]? = some v) : Nested s (id, f) (c, f.descend (.index index) v)
  | property {id c : NodeId} {f : Frame} {shape : ObjectShape} {members : Members} {name : String}
      {v : Json} (hkind : (s.node id).kind = .object shape) (hvalue : f.value = .object members)
      (hmem : (name, c) ∈ shape.properties) (hv : members.lookup name = some v) :
      Nested s (id, f) (c, f.descend (.key name) v)
  | branch {id c : NodeId} {f : Frame} {shape : ObjectShape} {members : Members}
      (hkind : (s.node id).kind = .object shape) (hvalue : f.value = .object members)
      (hmem : c ∈ shape.allOf) : Nested s (id, f) (c, f)
  | target {id next : NodeId} {f : Frame} {text : String}
      (hkind : (s.node id).kind = .reference text (some next)) (hfresh : next ∉ f.entered) :
      Nested s (id, f) (next, f.enter next)

/-- What is left to a check, what counts most first: the size of the value, the targets that were
not entered at the location, and the number of the node. -/
def extent (s : Schema) (c : Check) : Nat ×ₗ Nat ×ₗ Nat :=
  toLex (c.2.value.size, toLex (s.targetsLeft c.2.entered, c.1))

/-- A checker without a budget: its answer to a check is made of its answers to others. -/
def Unbounded (s : Schema) (run : Checker) : Prop :=
  ∀ id f, run id f = checkKind run (s.node id).kind f

variable {s : Schema}

/-! ### What a check asks for -/

section

variable {check check' : Checker} {f : Frame}

theorem checkElements_congr {items : NodeId} {index : Nat} {values : List Json}
    (h : ∀ place v, values[place]? = some v →
      check items (f.descend (.index (index + place)) v) =
        check' items (f.descend (.index (index + place)) v)) :
    checkElements check f items index values = checkElements check' f items index values := by
  induction values generalizing index with
  | nil => rfl
  | cons v rest ih =>
      have hfirst := h 0 v rfl
      rw [Nat.add_zero] at hfirst
      rw [checkElements, checkElements, hfirst]
      congr 1
      funext _
      apply ih
      intro place w hw
      have hlater := h (place + 1) w hw
      rwa [← Nat.add_assoc, Nat.add_right_comm] at hlater

theorem checkTuple_congr {index : Nat} {ids : List NodeId} {values : List Json}
    (h : ∀ place c v, ids[place]? = some c → values[place]? = some v →
      check c (f.descend (.index (index + place)) v) =
        check' c (f.descend (.index (index + place)) v)) :
    checkTuple check f index ids values = checkTuple check' f index ids values := by
  induction ids generalizing index values with
  | nil => cases values <;> rfl
  | cons c ids ih =>
      cases values with
      | nil => rfl
      | cons v rest =>
          have hfirst := h 0 c v rfl rfl
          rw [Nat.add_zero] at hfirst
          rw [checkTuple, checkTuple, hfirst]
          congr 1
          funext _
          apply ih
          intro place c' w hc hw
          have hlater := h (place + 1) c' w hc hw
          rwa [← Nat.add_assoc, Nat.add_right_comm] at hlater

theorem checkProperties_congr {members : Members} {properties : List (String × NodeId)}
    (h : ∀ name c v, (name, c) ∈ properties → members.lookup name = some v →
      check c (f.descend (.key name) v) = check' c (f.descend (.key name) v)) :
    checkProperties check f members properties = checkProperties check' f members properties := by
  induction properties with
  | nil => rfl
  | cons p rest ih =>
      obtain ⟨name, c⟩ := p
      have hrest := ih fun name' c' v hmem => h name' c' v (List.mem_cons_of_mem _ hmem)
      rw [checkProperties, checkProperties, hrest]
      cases hv : members.lookup name with
      | none => rfl
      | some v => simp only [h name c v List.mem_cons_self hv]

theorem checkBranches_congr {ids : List NodeId} (h : ∀ c ∈ ids, check c f = check' c f) :
    checkBranches check f ids = checkBranches check' f ids := by
  induction ids with
  | nil => rfl
  | cons c rest ih =>
      obtain ⟨hfirst, hrest⟩ := List.forall_mem_cons.mp h
      rw [checkBranches, checkBranches, hfirst, ih hrest]

/-- The outcome of a check depends on nothing but the outcomes of the checks that it leads to. -/
theorem checkKind_congr {id : NodeId}
    (h : ∀ c g, Nested s (id, f) (c, g) → check c g = check' c g) :
    checkKind check (s.node id).kind f = checkKind check' (s.node id).kind f := by
  cases hkind : (s.node id).kind with
  | array items =>
      rw [checkKind, checkKind]
      split
      · rename_i values hvalue
        apply checkElements_congr
        intro place v hv
        rw [Nat.zero_add]
        exact h _ _ (.element hkind hvalue hv)
      · rfl
  | tuple ids =>
      rw [checkKind, checkKind]
      split
      · rename_i values hvalue
        split
        · rename_i hlength
          apply checkTuple_congr
          intro place c v hc hv
          rw [Nat.zero_add]
          exact h _ _ (.position hkind hvalue hlength hc hv)
        · rfl
      · rfl
  | object shape =>
      rw [checkKind, checkKind]
      split
      · rename_i members hvalue
        split
        · rfl
        · have hproperties := checkProperties_congr fun name c v hmem hv =>
            h _ _ (.property hkind hvalue hmem hv)
          have hbranches := checkBranches_congr fun c hmem => h _ _ (.branch hkind hvalue hmem)
          rw [hproperties, hbranches]
      · rfl
  | reference text resolved =>
      cases resolved with
      | none => rfl
      | some next =>
          simp only [checkKind]
          split
          · rfl
          · rename_i hfresh
            exact h _ _ (.target hkind hfresh)
  | _ => rfl

end

/-! ### What is left goes down -/

/-- A check goes on at a smaller value, where no target was entered yet, or to a branch with nothing
else changed, or to a target, which is entered. -/
theorem Nested.cases {id c : NodeId} {f g : Frame} (h : Nested s (id, f) (c, g)) :
    c ∈ (s.node id).kind.children ∧ g.value.size < f.value.size ∧ g.entered = [] ∨
      c ∈ (s.node id).kind.children ∧ g = f ∨
      (∃ text, (s.node id).kind = .reference text (some c)) ∧ c ∉ f.entered ∧ g = f.enter c := by
  cases h with
  | element hkind hvalue hv =>
      rw [hkind, hvalue]
      exact .inl ⟨List.mem_singleton_self _, Kind.size_lt_of_element (List.mem_of_getElem? hv), rfl⟩
  | position hkind hvalue _ hc hv =>
      rw [hkind, hvalue]
      exact .inl ⟨List.mem_of_getElem? hc, Kind.size_lt_of_element (List.mem_of_getElem? hv), rfl⟩
  | property hkind hvalue hmem hv =>
      rw [hkind, hvalue]
      have hchild := List.mem_map_of_mem (f := Prod.snd) hmem
      exact .inl ⟨List.mem_append_left _ hchild, Kind.size_lt_of_member hv, rfl⟩
  | branch hkind _ hmem =>
      rw [hkind]
      exact .inr (.inl ⟨List.mem_append_right _ hmem, rfl⟩)
  | target hkind hfresh => exact .inr (.inr ⟨⟨_, hkind⟩, hfresh, rfl⟩)

/-- A check leads to checks to which less is left: a smaller value, or the same value and fewer
targets, or the same value and the same targets and a smaller node. -/
theorem Nested.extent_lt (hs : s.WellFormed) {outer inner : Check} (h : Nested s outer inner) :
    extent s inner < extent s outer := by
  obtain ⟨id, f⟩ := outer
  obtain ⟨c, g⟩ := inner
  rw [extent, extent, Prod.Lex.toLex_lt_toLex, Prod.Lex.toLex_lt_toLex]
  rcases h.cases with ⟨-, hsize, -⟩ | ⟨hchild, rfl⟩ | ⟨⟨text, hkind⟩, hfresh, rfl⟩
  · exact .inl hsize
  · exact .inr ⟨rfl, .inr ⟨rfl, hs.child_lt id c hchild⟩⟩
  · exact .inr ⟨rfl, .inl (Schema.targetsLeft_enter_lt hkind hfresh)⟩

theorem extent_lt_of_chain (hs : s.WellFormed) {outer inner : Check}
    (h : Relation.TransGen (Nested s) outer inner) : extent s inner < extent s outer := by
  induction h with
  | single h => exact h.extent_lt hs
  | tail _ h ih => exact (h.extent_lt hs).trans ih

theorem wellFounded_nested (hs : s.WellFormed) :
    WellFounded fun inner outer => Nested s outer inner :=
  Subrelation.wf (fun h => h.extent_lt hs) (InvImage.wf (extent s) wellFounded_lt)

/-! ### Checks without a budget -/

/-- At most one checker does without a budget. -/
theorem Unbounded.unique (hs : s.WellFormed) {run run' : Checker} (h : Unbounded s run)
    (h' : Unbounded s run') : run' = run := by
  have hall : ∀ c : Check, run' c.1 c.2 = run c.1 c.2 := by
    intro c
    induction c using (wellFounded_nested hs).induction with
    | h c ih =>
        rw [h, h']
        exact checkKind_congr fun c' g hnested => ih (c', g) hnested
  funext id f
  exact hall (id, f)

/-- A bound on how deep the checks are nested that a check leads to. -/
def rank (s : Schema) (c : Check) : Nat :=
  s.rank c.1 c.2.value c.2.entered

theorem Nested.rank_lt (hs : s.WellFormed) {outer inner : Check} (h : Nested s outer inner) :
    rank s inner < rank s outer := by
  obtain ⟨id, f⟩ := outer
  obtain ⟨c, g⟩ := inner
  rcases h.cases with ⟨hchild, hsize, hentered⟩ | ⟨hchild, rfl⟩ | ⟨⟨text, hkind⟩, hfresh, rfl⟩
  · rw [rank, hentered]
    exact Schema.rank_descend_lt hsize (hs.child_lt_size hchild)
  · exact Schema.rank_branch_lt g.value g.entered (hs.child_lt id c hchild)
  · exact Schema.rank_target_lt f.value (hs.target_lt id text c hkind) hfresh

/-- Beyond the rank of a check, every budget gives the same outcome. -/
theorem check_budget (hs : s.WellFormed) {budget budget' : Nat} {id : NodeId} {f : Frame}
    (hbudget : rank s (id, f) < budget) (hbudget' : rank s (id, f) < budget') :
    Validation.check s budget id f = Validation.check s budget' id f := by
  induction budget generalizing budget' id f with
  | zero => exact absurd hbudget (Nat.not_lt_zero _)
  | succ budget ih =>
      obtain ⟨budget', rfl⟩ : ∃ n, budget' = n + 1 := ⟨budget' - 1, by omega⟩
      rw [Validation.check, Validation.check]
      apply checkKind_congr
      intro c g hnested
      have hlt := hnested.rank_lt hs
      exact ih (by omega) (by omega)

/-- Every check with the budget that it needs. -/
def run (s : Schema) : Checker :=
  fun id f => Validation.check s (rank s (id, f) + 1) id f

theorem unbounded_run (hs : s.WellFormed) : Unbounded s (run s) := by
  intro id f
  rw [run, Validation.check]
  apply checkKind_congr
  intro c g hnested
  exact check_budget hs (hnested.rank_lt hs) (Nat.lt_succ_self _)

end Validation

namespace Schema

open Validation

/-- Validation comes to an end, whatever the references of the schema and whatever the instance.
Along every chain of checks less and less is left; a check asks for nothing but the checks that it
leads to; and validation gives the answer of the one checker that does without a budget. -/
theorem validate_terminates {s : Schema} (h : s.Made) :
    (∀ outer inner, Relation.TransGen (Nested s) outer inner → extent s inner < extent s outer) ∧
      (WellFounded fun inner outer => Nested s outer inner) ∧
      (∀ (check check' : Checker) id f,
        (∀ c g, Nested s (id, f) (c, g) → check c g = check' c g) →
        checkKind check (s.node id).kind f = checkKind check' (s.node id).kind f) ∧
      ∃ answer, Unbounded s answer ∧ (∀ answer', Unbounded s answer' → answer' = answer) ∧
        ∀ value, s.validate value = answer s.root { value } ∧
          s.validate value ≠ .error .tooDeep := by
  have hs := h.wellFormed
  refine ⟨fun _ _ hchain => extent_lt_of_chain hs hchain, wellFounded_nested hs,
    fun _ _ _ _ hsame => checkKind_congr hsame, run s, unbounded_run hs,
    fun _ h' => (unbounded_run hs).unique hs h', fun value => ⟨?_, ?_⟩⟩
  · have hrank := rank_lt_maxDepth value hs.root_lt
    exact check_budget hs hrank (Nat.lt_succ_self _)
  · exact check_ne_tooDeep hs hs.root_lt (rank_lt_maxDepth value hs.root_lt)

/-- The element of the list, before a target is entered there. -/
def loopFrame : Frame where
  value := .object []
  path := loopPath

theorem nested_loopFrame : Relation.TransGen (Nested loopSchema) (0, loopFrame)
    (5, (loopFrame.enter 4).enter 6) := by
  have houter : (loopSchema.node 4).kind = .object { allOf := [3] } := rfl
  have hinner : (loopSchema.node 6).kind = .object { allOf := [5] } := rfl
  have htarget : Nested loopSchema (0, loopFrame) (4, loopFrame.enter 4) :=
    .target rfl List.not_mem_nil
  have hbranch : Nested loopSchema (4, loopFrame.enter 4) (3, loopFrame.enter 4) :=
    .branch houter rfl (List.mem_singleton_self _)
  have htarget' : Nested loopSchema (3, loopFrame.enter 4) (6, (loopFrame.enter 4).enter 6) :=
    .target rfl (by decide)
  have hbranch' : Nested loopSchema (6, (loopFrame.enter 4).enter 6)
      (5, (loopFrame.enter 4).enter 6) :=
    .branch hinner rfl (List.mem_singleton_self _)
  exact (((Relation.TransGen.single htarget).tail hbranch).tail htarget').tail hbranch'

theorem validate_terminates_loop :
    loopSchema.Made ∧
      Relation.TransGen (Nested loopSchema) (0, loopFrame) (5, (loopFrame.enter 4).enter 6) ∧
      extent loopSchema (0, loopFrame) = toLex (1, toLex (2, 0)) ∧
      extent loopSchema (5, (loopFrame.enter 4).enter 6) = toLex (1, toLex (0, 5)) ∧
      extent loopSchema (5, (loopFrame.enter 4).enter 6) < extent loopSchema (0, loopFrame) ∧
      loopSchema.validate loopInstance = .error (.cycle loopPath "#/definitions/outer") ∧
      loopSchema.validate loopInstance ≠ .error .tooDeep := by
  have hmade : loopSchema.Made := .read (by decide) read_loopDocument
  obtain ⟨hchain, -, -, _, -, -, hvalidate⟩ := validate_terminates hmade
  exact ⟨hmade, nested_loopFrame, by rfl, by rfl, hchain _ _ nested_loopFrame, by cbv,
    (hvalidate loopInstance).2⟩

end Schema

end SchemaBridge
