import Mathlib.Logic.Relation
import SchemaBridge.Proofs.ResolvedReferences

/-!
The graph of a schema. A node leads to its parts and a reference to its target, and a walk may be
confined to links of certain sorts. A node is founded if no walk from it goes on for ever. Main
statement: from a founded node no walk leads to a circle, and where every chain of references comes
to an end none of them runs in a circle.
-/

namespace SchemaBridge

/-- How a node leads to another one. -/
inductive Link where
  | property
  | item
  | element
  | branch
  | target
deriving DecidableEq

/-- An error that tells of no obstacle: a cycle, or a budget that is used up. -/
inductive EmissionError.IsBreak : EmissionError → Prop
  | cycle (text : String) : IsBreak (.cycle text)
  | tooDeep : IsBreak .tooDeep

/-- The links to what describes the same value as the node. -/
def Link.inPlace : List Link :=
  [.branch, .target]

/-- The nodes that a link of a sort leads to from a kind of node. -/
def Link.ends : Link → Kind → List NodeId
  | property, .object shape => shape.properties.map Prod.snd
  | item, .array items => [items]
  | element, .tuple ids => ids
  | branch, .object shape => shape.allOf
  | target, .reference _ (some next) => [next]
  | _, _ => []

/-- Where every walk comes to an end, none leads back to its start. -/
theorem not_transGen_of_acc {α : Type} {r : α → α → Prop} {a : α}
    (h : Acc (fun c b => r b c) a) : ¬Relation.TransGen r a a := by
  induction h with
  | intro a _ ih =>
      intro hcycle
      obtain ⟨c, hstep, hback⟩ := Relation.TransGen.head'_iff.mp hcycle
      exact ih c hstep (.tail' hback hstep)

namespace Schema

/-- A node leads to another one by a link of a sort. -/
inductive Linked (s : Schema) : Link → NodeId → NodeId → Prop
  | property {id c : NodeId} {shape : ObjectShape} {name : String}
      (hkind : (s.node id).kind = .object shape) (hmem : (name, c) ∈ shape.properties) :
      Linked s .property id c
  | item {id items : NodeId} (hkind : (s.node id).kind = .array items) : Linked s .item id items
  | element {id c : NodeId} {ids : List NodeId} (hkind : (s.node id).kind = .tuple ids)
      (hmem : c ∈ ids) : Linked s .element id c
  | branch {id c : NodeId} {shape : ObjectShape} (hkind : (s.node id).kind = .object shape)
      (hmem : c ∈ shape.allOf) : Linked s .branch id c
  | target {id next : NodeId} {text : String}
      (hkind : (s.node id).kind = .reference text (some next)) : Linked s .target id next

/-- One step of a walk along links of some sorts. -/
def Goes (s : Schema) (links : List Link) (id c : NodeId) : Prop :=
  ∃ link ∈ links, s.Linked link id c

/-- A walk along links of some sorts, of any length. -/
abbrev Walks (s : Schema) (links : List Link) : NodeId → NodeId → Prop :=
  Relation.ReflTransGen (s.Goes links)

/-- A walk along links of some sorts leads from the node back to it. -/
def OnCycle (s : Schema) (links : List Link) (id : NodeId) : Prop :=
  Relation.TransGen (s.Goes links) id id

/-- Every walk from the node along links of some sorts comes to an end. -/
def Founded (s : Schema) (links : List Link) (id : NodeId) : Prop :=
  Acc (fun c id => s.Goes links id c) id

variable {s : Schema} {links : List Link}

theorem Linked.goes {link : Link} {id c : NodeId} (h : s.Linked link id c) (hlink : link ∈ links) :
    s.Goes links id c :=
  ⟨link, hlink, h⟩

theorem Goes.mono {links' : List Link} (hsubset : links ⊆ links') {id c : NodeId}
    (h : s.Goes links id c) : s.Goes links' id c := by
  obtain ⟨link, hlink, h⟩ := h
  exact ⟨link, hsubset hlink, h⟩

/-- A link leads to a part of the node, or to its target. -/
theorem Linked.cases {link : Link} {id c : NodeId} (h : s.Linked link id c) :
    c ∈ (s.node id).kind.children ∨
      link = .target ∧ ∃ text, (s.node id).kind = .reference text (some c) := by
  cases h with
  | @property _ _ shape name hkind hmem =>
      rw [hkind]
      exact .inl (List.mem_append_left _ (List.mem_map_of_mem (f := Prod.snd) hmem))
  | item hkind =>
      rw [hkind]
      exact .inl (List.mem_singleton_self _)
  | element hkind hmem =>
      rw [hkind]
      exact .inl hmem
  | branch hkind hmem =>
      rw [hkind]
      exact .inl (List.mem_append_right _ hmem)
  | target hkind => exact .inr ⟨rfl, _, hkind⟩

theorem Linked.mem_ends {link : Link} {id c : NodeId} (h : s.Linked link id c) :
    c ∈ link.ends (s.node id).kind := by
  cases h with
  | property hkind hmem =>
      rw [hkind]
      exact List.mem_map_of_mem (f := Prod.snd) hmem
  | item hkind =>
      rw [hkind]
      exact List.mem_singleton_self _
  | element hkind hmem =>
      rw [hkind]
      exact hmem
  | branch hkind hmem =>
      rw [hkind]
      exact hmem
  | target hkind =>
      rw [hkind]
      exact List.mem_singleton_self _

/-- A node that leads to another one is a node of the schema. -/
theorem Linked.lt_size {link : Link} {id c : NodeId} (h : s.Linked link id c) :
    id < s.nodes.size := by
  by_contra hid
  have hmem := h.mem_ends
  rw [Schema.node, Arena.node_of_size_le (Nat.le_of_not_lt hid)] at hmem
  cases link <;> cases hmem

/-- A reference leads nowhere but to its target. -/
theorem Goes.eq_target {id c next : NodeId} {text : String} (h : s.Goes links id c)
    (hkind : (s.node id).kind = .reference text (some next)) : c = next := by
  obtain ⟨_, -, h⟩ := h
  rcases h.cases with hchild | ⟨-, _, hkind'⟩
  · rw [hkind] at hchild
    cases hchild
  · rw [hkind] at hkind'
    cases hkind'
    rfl

theorem Walks.of_dereference (htarget : .target ∈ links) {id target : NodeId}
    (h : s.dereference id = .ok target) : s.Walks links id target := by
  obtain ⟨steps, hleads⟩ := dereference_eq_ok_iff.mp h
  clear h
  induction hleads with
  | here => exact .refl
  | next hkind _ ih => exact .head ((Linked.target hkind).goes htarget) ih

/-- Where every chain of references comes to an end, every node is dereferenced. -/
theorem Terminates.dereference_ok (h : s.Terminates) (id : NodeId) :
    ∃ target, s.dereference id = .ok target := by
  by_cases hid : id < s.nodes.size
  · obtain ⟨steps, target, hleads⟩ := h id hid
    exact ⟨target, dereference_eq_ok_iff.mpr ⟨steps, hleads⟩⟩
  · refine ⟨id, dereference_self ?_⟩
    rw [Schema.node, Arena.node_of_size_le (Nat.le_of_not_lt hid)]
    rfl

theorem WellFormed.dereference_lt (hs : s.WellFormed) {id target : Nat} (hid : id < s.nodes.size)
    (h : s.dereference id = .ok target) : target < s.nodes.size := by
  obtain ⟨steps, hleads⟩ := dereference_eq_ok_iff.mp h
  exact hleads.lt_size hs.target_lt hid

theorem dereference_ne_tooDeep (id : NodeId) : s.dereference id ≠ .error .tooDeep := by
  intro h
  rw [dereference] at h
  split at h <;> cases h

/-- The search for the root object breaks off only in the references from the root. -/
theorem rootObject_breaks {e : EmissionError} (he : e.IsBreak) (h : s.rootObject = .error e) :
    s.dereference s.root = .error e := by
  unfold rootObject at h
  cases hroot : s.dereference s.root with
  | error e' =>
      rw [hroot] at h
      cases h
      rfl
  | ok root =>
      rw [hroot] at h
      simp only [bind, Except.bind] at h
      split at h <;> cases h
      cases he

/-! ### Walks that come to an end -/

theorem Founded.of_walks {id c : NodeId} (h : s.Founded links id) (hwalks : s.Walks links id c) :
    s.Founded links c := by
  induction hwalks with
  | refl => exact h
  | tail _ hgoes ih => exact Acc.inv ih hgoes

theorem Founded.not_onCycle {id : NodeId} (h : s.Founded links id) : ¬s.OnCycle links id :=
  not_transGen_of_acc h

/-- From a founded node no walk leads to a circle. -/
theorem Founded.walks_not_onCycle {id c : NodeId} (h : s.Founded links id)
    (hwalks : s.Walks links id c) : ¬s.OnCycle links c :=
  (h.of_walks hwalks).not_onCycle

/-- A node from which some number falls with every step is on no circle. -/
theorem not_onCycle_of_rank (rank : NodeId → Nat)
    (hrank : ∀ id c, s.Goes links id c → rank c < rank id) (id : NodeId) :
    ¬s.OnCycle links id := by
  intro hcycle
  have hfalls : ∀ c, Relation.TransGen (s.Goes links) id c → rank c < rank id := by
    intro c h
    induction h with
    | single hgoes => exact hrank id _ hgoes
    | tail _ hgoes ih => exact (hrank _ _ hgoes).trans ih
  exact Nat.lt_irrefl _ (hfalls id hcycle)

/-- It suffices that the number falls with the steps from the nodes of the schema. -/
theorem not_onCycle_of_ranks (rank : NodeId → Nat)
    (hrank : ∀ id < s.nodes.size, ∀ link ∈ links, ∀ c ∈ link.ends (s.node id).kind,
      rank c < rank id) (id : NodeId) : ¬s.OnCycle links id := by
  refine not_onCycle_of_rank rank ?_ id
  rintro id c ⟨link, hlink, hlinked⟩
  exact hrank id hlinked.lt_size link hlink c hlinked.mem_ends

/-- The references from a node are founded if the node that they lead to is. -/
theorem Founded.of_dereference {id target : NodeId} (htarget : s.dereference id = .ok target)
    (h : s.Founded links target) : s.Founded links id := by
  obtain ⟨steps, hleads⟩ := dereference_eq_ok_iff.mp htarget
  clear htarget
  induction hleads with
  | here => exact h
  | next hkind _ ih =>
      refine Acc.intro _ fun c hgoes => ?_
      rw [hgoes.eq_target hkind]
      exact ih h

/-- A node is founded if all that it leads to is. -/
theorem founded_of_ends {id : NodeId}
    (h : ∀ link ∈ links, ∀ c ∈ link.ends (s.node id).kind, s.Founded links c) :
    s.Founded links id := by
  refine Acc.intro _ ?_
  rintro c ⟨link, hlink, hlinked⟩
  exact h link hlink c hlinked.mem_ends

/-- A node of a kind without such links is founded. -/
theorem founded_of_no_ends {id : NodeId} {kind : Kind} (hkind : (s.node id).kind = kind)
    (h : ∀ link ∈ links, link.ends kind = []) : s.Founded links id := by
  refine founded_of_ends fun link hlink c hc => ?_
  rw [hkind, h link hlink] at hc
  cases hc

/-- Where every chain of references comes to an end, none runs in a circle. -/
theorem Terminates.not_onCycle (h : s.Terminates) (id : NodeId) : ¬s.OnCycle [.target] id := by
  intro hcycle
  obtain ⟨c, ⟨link, hlink, hlinked⟩, -⟩ := Relation.TransGen.head'_iff.mp hcycle
  cases List.mem_singleton.mp hlink
  cases hlinked with
  | target hkind =>
      obtain ⟨steps, target, hleads⟩ := h id (Arena.lt_size_of_reference hkind)
      have hend : s.Founded [.target] target := by
        have hnone := hleads.not_reference
        rw [← Schema.node] at hnone
        cases hkind : (s.node target).kind with
        | reference => rw [hkind] at hnone; cases hnone
        | _ => exact founded_of_no_ends hkind (List.forall_mem_singleton.mpr rfl)
      have hfounded := Founded.of_dereference (dereference_eq_ok_iff.mpr ⟨steps, hleads⟩) hend
      exact hfounded.not_onCycle hcycle

end Schema

end SchemaBridge
