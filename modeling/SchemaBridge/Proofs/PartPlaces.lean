import Mathlib
import SchemaBridge.Proofs.FaithfulReading

/-!
Whose part a node is. Reading gives a number to the parts of an object before it gives one to the
object, and no part is read for two objects; a node that is read on demand is a part of none. Main
statement: in a schema that is read, each node is a part of at most one node and has one position
there.
-/

namespace SchemaBridge

namespace Draft

/-- The parts of the nodes from one number up to another, in order. -/
def partsIn (d : Draft) (low high : Nat) : List Nat :=
  (List.range' low (high - low)).flatMap fun id => (d.nodes.node id).kind.children

theorem partsIn_self (d : Draft) (low : Nat) : d.partsIn low low = [] := by
  simp [partsIn]

theorem partsIn_append (d : Draft) {low mid high : Nat} (hlow : low ≤ mid) (hhigh : mid ≤ high) :
    d.partsIn low high = d.partsIn low mid ++ d.partsIn mid high := by
  have hrange : List.range' low (high - low) =
      List.range' low (mid - low) ++ List.range' mid (high - mid) := by
    rw [show high - low = (mid - low) + (high - mid) by omega, ← List.range'_append_1,
      show low + (mid - low) = mid by omega]
  rw [partsIn, hrange, List.flatMap_append]
  rfl

/-- From one node on: its own parts, and those of the nodes after it. -/
theorem partsIn_cons (d : Draft) {low high : Nat} (h : low < high) :
    d.partsIn low high = (d.nodes.node low).kind.children ++ d.partsIn (low + 1) high := by
  rw [d.partsIn_append (Nat.le_succ low) h]
  congr 1
  simp [partsIn]

theorem partsIn_congr {d d' : Draft} {low high : Nat}
    (h : ∀ id, low ≤ id → id < high →
      (d'.nodes.node id).kind.children = (d.nodes.node id).kind.children) :
    d'.partsIn low high = d.partsIn low high := by
  apply List.flatMap_congr
  intro id hid
  obtain ⟨hlow, hhigh⟩ := List.mem_range'_1.mp hid
  exact h id hlow (by omega)

theorem Grows.partsIn_eq {d d' : Draft} (h : d.Grows d') {low high : Nat}
    (hhigh : high ≤ d.nodes.size) : d'.partsIn low high = d.partsIn low high := by
  apply partsIn_congr
  intro id _ hid
  rw [h.node_eq id (hid.trans_le hhigh)]

/-- The nodes of a draft are parts of earlier or later ones, each at most once. -/
structure PartsOnce (d : Draft) : Prop where
  nodup : (d.partsIn 0 d.nodes.size).Nodup
  lt : ∀ c : Nat, c ∈ d.partsIn 0 d.nodes.size → c < d.nodes.size

theorem partsOnce_empty : ({} : Draft).PartsOnce :=
  ⟨List.nodup_nil, by simp [partsIn]⟩

end Draft

/-- Numbers below, at and above a bound do not meet. -/
theorem nodup_around {below above later : List Nat} {bound : Nat} (hbelow : below.Nodup)
    (habove : (above ++ later).Nodup) (hlt : ∀ x ∈ below, x < bound)
    (hgt : ∀ x ∈ above ++ later, bound < x) : ((below ++ above) ++ bound :: later).Nodup := by
  simp only [List.mem_append] at hgt
  rw [List.nodup_append] at habove
  obtain ⟨habove, hlater, hne⟩ := habove
  have hfirst : bound ∉ later := fun hmem => Nat.lt_irrefl _ (hgt _ (.inr hmem))
  refine List.nodup_append.mpr ⟨List.nodup_append.mpr ⟨hbelow, habove, ?_⟩,
    List.nodup_cons.mpr ⟨hfirst, hlater⟩, ?_⟩
  · intro x hx y hy
    have hxlt := hlt x hx
    have hygt := hgt y (.inl hy)
    omega
  · intro x hx y hy
    rcases List.mem_append.mp hx with hx | hx <;> rcases List.mem_cons.mp hy with rfl | hy
    · exact (hlt x hx).ne
    · have hxlt := hlt x hx
      have hygt := hgt y (.inr hy)
      omega
    · exact (hgt x (.inl hx)).ne'
    · exact hne x hx y hy

namespace Reads

variable {document : Json} {parts : List Part} {d d' : Draft} {ids : List NodeId}

theorem partsIn_range (h : Reads document parts d ids d') :
    ∀ c : Nat, c ∈ d'.partsIn d.nodes.size d'.nodes.size →
      d.nodes.size ≤ c ∧ c < d'.nodes.size := by
  induction h with
  | nil d => simp [Draft.partsIn_self]
  | @bare d d' rest ids hrest ih =>
      have hsize := hrest.grows.size_le
      rw [Draft.size_push] at hsize ih
      rw [d'.partsIn_cons hsize, hrest.grows.node_eq _ (by simp), Draft.node_push_self]
      intro c hc
      have hc' := ih c hc
      omega
  | @any d d' pointer rest ids hrest ih =>
      have hsize := hrest.grows.size_le
      rw [Draft.size_place] at hsize ih
      rw [d'.partsIn_cons hsize, hrest.grows.node_eq _ (by simp), Draft.node_place_self]
      intro c hc
      have hc' := ih c hc
      omega
  | @object d d₁ d' pointer members title description outline inner rest innerIds ids kind
      _ _ houtline hkind hinner hrest ihinner ih =>
      have hgrows := (d₁.grows_place pointer { title, description, kind }).trans hrest.grows
      have hsize := hinner.grows.size_le
      have hsize' := hrest.grows.size_le
      rw [Draft.size_place] at hsize' ih
      have hchildren := hkind.children_eq (Outline.read_ok houtline)
      rw [d'.partsIn_append hsize hgrows.size_le, d'.partsIn_cons hsize', hgrows.partsIn_eq le_rfl,
        hrest.grows.node_eq _ (by simp), Draft.node_place_self, hchildren]
      intro c hc
      rcases List.mem_append.mp hc with hc | hc
      · have hc' := ihinner c hc
        omega
      · rcases List.mem_append.mp hc with hc | hc
        · have hc' := hinner.mem_range c hc
          omega
        · have hc' := ih c hc
          omega

/-- The parts of new nodes and the nodes that are handed back are all different. -/
theorem partsIn_nodup (h : Reads document parts d ids d') :
    (d'.partsIn d.nodes.size d'.nodes.size ++ ids).Nodup := by
  induction h with
  | nil d => simp [Draft.partsIn_self]
  | @bare d d' rest ids hrest ih =>
      have hsize := hrest.grows.size_le
      have hids := hrest.mem_range
      have hparts := hrest.partsIn_range
      rw [Draft.size_push] at hsize ih hids hparts
      rw [d'.partsIn_cons hsize, hrest.grows.node_eq _ (by simp), Draft.node_push_self]
      refine nodup_around List.nodup_nil ih (by simp [Kind.children]) fun c hc => ?_
      rcases List.mem_append.mp hc with hc | hc
      · exact (hparts c hc).1
      · exact (hids c hc).1
  | @any d d' pointer rest ids hrest ih =>
      have hsize := hrest.grows.size_le
      have hids := hrest.mem_range
      have hparts := hrest.partsIn_range
      rw [Draft.size_place] at hsize ih hids hparts
      rw [d'.partsIn_cons hsize, hrest.grows.node_eq _ (by simp), Draft.node_place_self]
      refine nodup_around List.nodup_nil ih (by simp [Kind.children]) fun c hc => ?_
      rcases List.mem_append.mp hc with hc | hc
      · exact (hparts c hc).1
      · exact (hids c hc).1
  | @object d d₁ d' pointer members title description outline inner rest innerIds ids kind
      _ _ houtline hkind hinner hrest ihinner ih =>
      have hgrows := (d₁.grows_place pointer { title, description, kind }).trans hrest.grows
      have hsize := hinner.grows.size_le
      have hsize' := hrest.grows.size_le
      have hids := hrest.mem_range
      have hparts := hrest.partsIn_range
      rw [Draft.size_place] at hsize' ih hids hparts
      have hchildren := hkind.children_eq (Outline.read_ok houtline)
      -- the object comes after its own parts and before everything that is read later
      rw [d'.partsIn_append hsize hgrows.size_le, d'.partsIn_cons hsize', hgrows.partsIn_eq le_rfl,
        hrest.grows.node_eq _ (by simp), Draft.node_place_self, hchildren, ← List.append_assoc]
      refine nodup_around ihinner ih (fun c hc => ?_) fun c hc => ?_
      · rcases List.mem_append.mp hc with hc | hc
        · exact (hinner.partsIn_range c hc).2
        · exact (hinner.mem_range c hc).2
      · rcases List.mem_append.mp hc with hc | hc
        · exact (hparts c hc).1
        · exact (hids c hc).1

theorem partsOnce (h : Reads document parts d ids d') (hd : d.PartsOnce) : d'.PartsOnce := by
  have hsize := h.grows.size_le
  have hnew := h.partsIn_range
  have hall : d'.partsIn 0 d'.nodes.size =
      d.partsIn 0 d.nodes.size ++ d'.partsIn d.nodes.size d'.nodes.size := by
    rw [d'.partsIn_append (Nat.zero_le _) hsize, h.grows.partsIn_eq le_rfl]
  refine ⟨?_, fun c hc => ?_⟩
  · rw [hall]
    refine List.nodup_append.mpr ⟨hd.nodup, (List.nodup_append.mp h.partsIn_nodup).1, ?_⟩
    intro a ha b hb
    exact ((hd.lt a ha).trans_le (hnew b hb).1).ne
  · rw [hall] at hc
    rcases List.mem_append.mp hc with hc | hc
    · exact (hd.lt c hc).trans_le hsize
    · exact (hnew c hc).2

end Reads

theorem Draft.PartsOnce.bind {d : Draft} (hd : d.PartsOnce) {id : NodeId} {reference : String}
    {resolved : Option NodeId} (hkind : (d.nodes.node id).kind = .reference reference resolved)
    (target : NodeId) : (d.bind id target).PartsOnce := by
  have hparts : (d.bind id target).partsIn 0 d.nodes.size = d.partsIn 0 d.nodes.size := by
    apply partsIn_congr
    intro i _ _
    rcases Decidable.eq_or_ne i id with rfl | hne
    · rw [node_bind_self hkind, hkind]
      rfl
    · rw [node_bind_of_ne hne]
  refine ⟨?_, ?_⟩
  · rw [size_bind, hparts]
    exact hd.nodup
  · rw [size_bind, hparts]
    exact hd.lt

theorem Resolves.partsOnce {document : Json} {d d' : Draft} {demands : List String}
    (h : Resolves document d demands d') (hd : d.PartsOnce) : d'.PartsOnce := by
  induction h with
  | done => exact hd
  | skip _ _ _ ih => exact ih ⟨hd.nodup, hd.lt⟩
  | @known d d' id target rest demands reference pointer resolved _ hkind _ _ _ ih =>
      have hd₀ : ({ d with pending := rest } : Draft).PartsOnce := ⟨hd.nodup, hd.lt⟩
      exact ih (hd₀.bind hkind target)
  | @demand d d₁ d' id target rest demands reference pointer resolved value _ hkind _ _ _ hreads
      _ ih =>
      have hd₀ : ({ d with pending := rest } : Draft).PartsOnce := ⟨hd.nodup, hd.lt⟩
      have hid := Arena.lt_size_of_reference hkind
      rw [← hreads.grows.node_eq id hid] at hkind
      exact ih ((hreads.partsOnce hd₀).bind hkind target)

namespace Schema

/-- Each node is a part of at most one node, and has one position among its parts. -/
def PartsOnce (s : Schema) : Prop :=
  ∀ (parent parent' : NodeId) (position position' : Nat) (part : NodeId),
    (s.node parent).kind.children[position]? = some part →
    (s.node parent').kind.children[position']? = some part →
    parent = parent' ∧ position = position'

/-- The schema that is read has each node as a part at most once. -/
theorem read_partsOnce {document : Json} {s : Schema} (h : Schema.read document = .ok s) :
    s.PartsOnce := by
  obtain ⟨demands, d, hrun⟩ := Schema.read_steps h
  have hnode := hrun.node_eq
  obtain ⟨d₀, hroot, hresolves, -⟩ := hrun
  have hd := hresolves.partsOnce (hroot.partsOnce Draft.partsOnce_empty)
  obtain ⟨hown, hdisjoint⟩ := List.nodup_flatMap.mp hd.nodup
  have hlt : ∀ {id position c : Nat}, (s.node id).kind.children[position]? = some c →
      id ∈ List.range' 0 (d.nodes.size - 0) := by
    intro id position c hc
    rw [hnode] at hc
    refine List.mem_range'_1.mpr ⟨Nat.zero_le _, ?_⟩
    by_contra hge
    rw [Arena.node_of_size_le (by omega)] at hc
    cases hc
  intro parent parent' position position' part hpart hpart'
  have hparent := hlt hpart
  have hparent' := hlt hpart'
  rw [hnode] at hpart hpart'
  have heq : parent = parent' := by
    by_contra hne
    have hsymm : Std.Symm
        (Function.onFun List.Disjoint fun id => (d.nodes.node id).kind.children) :=
      ⟨fun _ _ h => h.symm⟩
    have hapart := hdisjoint.forall hparent hparent' hne
    exact hapart (List.mem_of_getElem? hpart) (List.mem_of_getElem? hpart')
  subst heq
  have hposition := (List.getElem?_eq_some_iff.mp hpart).1
  exact ⟨rfl, (List.getElem?_inj hposition (hown parent hparent)).mp (hpart.trans hpart'.symm)⟩

end Schema

end SchemaBridge
