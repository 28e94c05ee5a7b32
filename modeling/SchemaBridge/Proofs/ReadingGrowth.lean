import Mathlib.Order.Nat
import SchemaBridge.Proofs.ReadingSteps

/-!
How a draft grows while parts are read. Nodes, locations and waiting references are only added, and
what was there before stays as it is. The new nodes come after the old ones, each after its parts,
and every new reference waits without a target. A node is in at most one place.
-/

namespace SchemaBridge

theorem Arena.node_push (arena : Arena) (n : Node) (id : NodeId) :
    Arena.node (arena.push n) id = if id = arena.size then n else arena.node id := by
  unfold Arena.node
  rw [Array.getD_eq_getD_getElem?, Array.getD_eq_getD_getElem?, Array.getElem?_push]
  split <;> rfl

theorem Arena.node_of_size_le {arena : Arena} {id : NodeId} (h : arena.size ≤ id) :
    arena.node id = { kind := .untyped } := by
  unfold Arena.node
  rw [Array.getD_eq_getD_getElem?, Array.getElem?_eq_none h]
  rfl

/-- The kind that an outline assembles has exactly the parts that were read for it. -/
theorem Assembles.children_eq {document : Json} {members : Members} {pointer : String}
    {outline : Outline} {parts : List Part} {ids : List NodeId} {kind : Kind}
    (houtline : Outlines document members outline)
    (h : Assembles members pointer outline parts ids kind) : kind.children = ids := by
  cases h with
  | leaf kind => cases houtline <;> rfl
  | object _ _ hids _ =>
      simp only [Kind.children, ObjectShape.children]
      rw [List.map_snd_zip (by rw [List.length_map, hids])]
  | _ => rfl

theorem Assembles.reference_unresolved {document : Json} {members : Members} {pointer : String}
    {outline : Outline} {parts : List Part} {ids : List NodeId} {reference : String}
    {resolved : Option NodeId} (houtline : Outlines document members outline)
    (h : Assembles members pointer outline parts ids (.reference reference resolved)) :
    resolved = none := by
  cases h with
  | leaf => cases houtline; rfl

namespace Draft

/-- The pointer at which a node was read. -/
def pointer? (d : Draft) (id : NodeId) : Option String :=
  (d.locations.find? (·.2 == id)).map Prod.fst

/-- Every location leads to a node, and no node is in two places. -/
structure Indexed (d : Draft) : Prop where
  lt : ∀ e ∈ d.locations, e.2 < d.nodes.size
  nodup : (d.locations.map Prod.snd).Nodup

theorem Indexed.pointer?_eq_none {d : Draft} (h : d.Indexed) {id : NodeId}
    (hid : d.nodes.size ≤ id) : d.pointer? id = none := by
  rw [pointer?, Option.map_eq_none_iff, List.find?_eq_none]
  intro e he heq
  have hlt := h.lt e he
  rw [eq_of_beq heq] at hlt
  exact absurd hlt (Nat.not_lt.mpr hid)

theorem find?_of_mem {entries : List (String × NodeId)} {e : String × NodeId}
    (hnodup : (entries.map Prod.snd).Nodup) (he : e ∈ entries) :
    entries.find? (·.2 == e.2) = some e := by
  induction entries with
  | nil => cases he
  | cons entry rest ih =>
      rw [List.map_cons, List.nodup_cons] at hnodup
      rcases List.mem_cons.mp he with rfl | hrest
      · exact List.find?_cons_of_pos (beq_self_eq_true e.2)
      · rw [List.find?_cons_of_neg, ih hnodup.2 hrest]
        intro heq
        rw [eq_of_beq heq] at hnodup
        exact hnodup.1 (List.mem_map_of_mem hrest)

theorem Indexed.pointer?_of_mem {d : Draft} (h : d.Indexed) {e : String × NodeId}
    (he : e ∈ d.locations) : d.pointer? e.2 = some e.1 := by
  rw [pointer?, find?_of_mem h.nodup he]
  rfl

theorem mem_of_pointer? {d : Draft} {id : NodeId} {pointer : String}
    (h : d.pointer? id = some pointer) : (pointer, id) ∈ d.locations := by
  obtain ⟨e, he, rfl⟩ := Option.map_eq_some_iff.mp h
  have hid := List.find?_some he
  rw [← eq_of_beq hid]
  exact List.mem_of_find?_eq_some he

/-- What reading does to a draft as a whole. -/
structure Grows (d d' : Draft) : Prop where
  size_le : d.nodes.size ≤ d'.nodes.size
  node_eq : ∀ id < d.nodes.size, d'.nodes.node id = d.nodes.node id
  locations : ∃ fresh, d'.locations = fresh ++ d.locations ∧
    ∀ e ∈ fresh, d.nodes.size ≤ e.2 ∧ e.2 < d'.nodes.size
  pending : ∃ fresh, d'.pending = fresh ++ d.pending

theorem Grows.refl (d : Draft) : d.Grows d where
  size_le := le_rfl
  node_eq _ _ := rfl
  locations := ⟨[], rfl, by simp⟩
  pending := ⟨[], rfl⟩

theorem Grows.trans {d d₁ d' : Draft} (h : d.Grows d₁) (h' : d₁.Grows d') : d.Grows d' where
  size_le := h.size_le.trans h'.size_le
  node_eq id hid := by rw [h'.node_eq id (hid.trans_le h.size_le), h.node_eq id hid]
  locations := by
    obtain ⟨xs, hxs, hx⟩ := h.locations
    obtain ⟨ys, hys, hy⟩ := h'.locations
    refine ⟨ys ++ xs, by rw [hys, hxs, List.append_assoc], fun e he => ?_⟩
    rcases List.mem_append.mp he with he | he
    · exact ⟨h.size_le.trans (hy e he).1, (hy e he).2⟩
    · exact ⟨(hx e he).1, (hx e he).2.trans_le h'.size_le⟩
  pending := by
    obtain ⟨xs, hxs⟩ := h.pending
    obtain ⟨ys, hys⟩ := h'.pending
    exact ⟨ys ++ xs, by rw [hys, hxs, List.append_assoc]⟩

@[simp] theorem size_push (d : Draft) (n : Node) :
    (d.push n).2.nodes.size = d.nodes.size + 1 := by
  simp [push]

@[simp] theorem size_place (d : Draft) (pointer : String) (n : Node) :
    (d.place pointer n).2.nodes.size = d.nodes.size + 1 := by
  simp [place]

theorem node_push_self (d : Draft) (n : Node) : (d.push n).2.nodes.node d.nodes.size = n := by
  rw [push, Arena.node_push, if_pos rfl]

theorem node_place_self (d : Draft) (pointer : String) (n : Node) :
    (d.place pointer n).2.nodes.node d.nodes.size = n := by
  rw [place, Arena.node_push, if_pos rfl]

theorem grows_push (d : Draft) (n : Node) : d.Grows (d.push n).2 where
  size_le := by simp [push]
  node_eq id hid := by rw [push, Arena.node_push, if_neg hid.ne]
  locations := ⟨[], rfl, by simp⟩
  pending := ⟨[], rfl⟩

theorem grows_place (d : Draft) (pointer : String) (n : Node) :
    d.Grows (d.place pointer n).2 where
  size_le := by simp [place]
  node_eq id hid := by rw [place, Arena.node_push, if_neg hid.ne]
  locations := ⟨[(pointer, d.nodes.size)], rfl, by simp [place]⟩
  pending := by
    rw [place]
    split
    · exact ⟨[d.nodes.size], rfl⟩
    · exact ⟨[], rfl⟩

theorem Grows.pointer?_eq {d d' : Draft} (h : d.Grows d') {id : NodeId} (hid : id < d.nodes.size) :
    d'.pointer? id = d.pointer? id := by
  obtain ⟨fresh, hfresh, hids⟩ := h.locations
  rw [pointer?, hfresh, List.find?_append, List.find?_eq_none.mpr, Option.none_or, pointer?]
  intro e he heq
  have hle := (hids e he).1
  rw [eq_of_beq heq] at hle
  exact absurd hid (Nat.not_lt.mpr hle)

theorem pointer?_push (d : Draft) (n : Node) (id : NodeId) :
    (d.push n).2.pointer? id = d.pointer? id := rfl

theorem pointer?_place_self (d : Draft) (pointer : String) (n : Node) :
    (d.place pointer n).2.pointer? d.nodes.size = some pointer := by
  simp [pointer?, place]

theorem Indexed.push {d : Draft} (h : d.Indexed) (n : Node) : (d.push n).2.Indexed where
  lt e he := (h.lt e he).trans_le (d.grows_push n).size_le
  nodup := h.nodup

theorem Indexed.place {d : Draft} (h : d.Indexed) (pointer : String) (n : Node) :
    (d.place pointer n).2.Indexed where
  lt := List.forall_mem_cons.mpr
    ⟨by simp, fun e he => (h.lt e he).trans_le (d.grows_place pointer n).size_le⟩
  nodup := by
    refine List.nodup_cons.mpr ⟨fun hmem => ?_, h.nodup⟩
    obtain ⟨e, he, heq⟩ := List.mem_map.mp hmem
    exact absurd heq (h.lt e he).ne

/-! ### Giving a reference its target -/

theorem pointer?_bind (d : Draft) (id target i : NodeId) :
    (d.bind id target).pointer? i = d.pointer? i := rfl

@[simp] theorem size_bind (d : Draft) (id target : NodeId) :
    (d.bind id target).nodes.size = d.nodes.size := by
  rw [bind, Array.size_modify]

theorem node_bind_self {d : Draft} {id : NodeId} {reference : String} {resolved : Option NodeId}
    (hkind : (d.nodes.node id).kind = .reference reference resolved) (target : NodeId) :
    (d.bind id target).nodes.node id =
      { d.nodes.node id with kind := .reference reference (some target) } := by
  have hid := Arena.lt_size_of_reference hkind
  simp only [Arena.node, Array.getD_eq_getD_getElem?, Array.getElem?_eq_getElem hid,
    Option.getD_some] at hkind
  simp only [bind, Arena.node, Array.getD_eq_getD_getElem?, Array.getElem?_modify, if_true,
    Array.getElem?_eq_getElem hid, Option.map_some, Option.getD_some, hkind]

theorem node_bind_of_ne {d : Draft} {id i : NodeId} (hne : i ≠ id) (target : NodeId) :
    (d.bind id target).nodes.node i = d.nodes.node i := by
  simp only [bind, Arena.node, Array.getD_eq_getD_getElem?, Array.getElem?_modify, if_neg hne.symm]

theorem Indexed.bind {d : Draft} (h : d.Indexed) (id target : NodeId) :
    (d.bind id target).Indexed where
  lt e he := by rw [size_bind]; exact h.lt e he
  nodup := h.nodup

end Draft

namespace Reads

variable {document : Json} {parts : List Part} {d d' : Draft} {ids : List NodeId}

theorem grows (h : Reads document parts d ids d') : d.Grows d' := by
  induction h with
  | nil d => exact .refl d
  | bare _ ih => exact (Draft.grows_push _ _).trans ih
  | any _ ih => exact (Draft.grows_place _ _ _).trans ih
  | object _ _ _ _ _ _ ihparts ih => exact (ihparts.trans (Draft.grows_place _ _ _)).trans ih

theorem indexed (h : Reads document parts d ids d') (hd : d.Indexed) : d'.Indexed := by
  induction h with
  | nil d => exact hd
  | bare _ ih => exact ih (hd.push _)
  | any _ ih => exact ih (hd.place _ _)
  | object _ _ _ _ _ _ ihparts ih => exact ih ((ihparts hd).place _ _)

theorem mem_range (h : Reads document parts d ids d') :
    ∀ id : Nat, id ∈ ids → d.nodes.size ≤ id ∧ id < d'.nodes.size := by
  induction h with
  | nil d => simp
  | bare hrest ih =>
      have hsize := hrest.grows.size_le
      rw [Draft.size_push] at hsize ih
      refine List.forall_mem_cons.mpr ⟨by omega, fun id hid => ?_⟩
      have := ih id hid
      omega
  | any hrest ih =>
      have hsize := hrest.grows.size_le
      rw [Draft.size_place] at hsize ih
      refine List.forall_mem_cons.mpr ⟨by omega, fun id hid => ?_⟩
      have := ih id hid
      omega
  | object _ _ _ _ hparts hrest _ ih =>
      have hsize := hparts.grows.size_le
      have hsize' := hrest.grows.size_le
      rw [Draft.size_place] at hsize' ih
      refine List.forall_mem_cons.mpr ⟨by omega, fun id hid => ?_⟩
      have := ih id hid
      omega

/-- The numbers of parts are in the places of the parts. -/
theorem pointers (h : Reads document parts d ids d') (hd : d.Indexed) :
    ids.map d'.pointer? = parts.map Part.pointer? := by
  induction h with
  | nil d => rfl
  | @bare d d' rest ids hrest ih =>
      rw [List.map_cons, List.map_cons, ih (hd.push _), hrest.grows.pointer?_eq (by simp),
        Draft.pointer?_push, hd.pointer?_eq_none le_rfl]
      rfl
  | any hrest ih =>
      rw [List.map_cons, List.map_cons, ih (hd.place _ _), hrest.grows.pointer?_eq (by simp),
        Draft.pointer?_place_self]
      rfl
  | object _ _ _ _ hparts hrest _ ih =>
      rw [List.map_cons, List.map_cons, ih ((hparts.indexed hd).place _ _),
        hrest.grows.pointer?_eq (by simp), Draft.pointer?_place_self]
      rfl

end Reads

/-- How a node got into a draft: the part that it was read for, the numbers of its own parts, and
its place among the waiting references if it is one. -/
inductive Draft.Records (document : Json) (d : Draft) (id : NodeId) : Part → Prop
  | bare (hplace : d.pointer? id = none) (hnode : d.nodes.node id = { kind := .untyped }) :
      d.Records document id .bare
  | any {pointer : String} (hplace : d.pointer? id = some pointer)
      (hnode : d.nodes.node id = { kind := .untyped }) :
      d.Records document id (.located pointer (.bool true))
  | object {pointer : String} {members : Members} {title description : Option String}
      {outline : Outline} {parts : List Part} {ids : List NodeId} {kind : Kind}
      (hplace : d.pointer? id = some pointer)
      (htitle : Keyword.text? members "title" pointer = .ok title)
      (hdescription : Keyword.text? members "description" pointer = .ok description)
      (houtline : Outlines document members outline)
      (hkind : Assembles members pointer outline parts ids kind)
      (hlt : ∀ c : Nat, c ∈ ids → c < id)
      (hplaces : ids.map d.pointer? = parts.map Part.pointer?)
      (hnode : d.nodes.node id = { title, description, kind })
      (hwaits : kind.isReference = true → id ∈ d.pending) :
      d.Records document id (.located pointer (.object members))

namespace Draft.Records

variable {document : Json} {d d' : Draft} {id : Nat} {part : Part}

theorem grows (h : d.Records document id part) (hgrows : d.Grows d') (hid : id < d.nodes.size) :
    d'.Records document id part := by
  have hplaces : ∀ c : Nat, c < d.nodes.size → d'.pointer? c = d.pointer? c :=
    fun c hc => hgrows.pointer?_eq hc
  have hnodes := hgrows.node_eq id hid
  have hself := hplaces id hid
  cases h with
  | bare hplace hnode =>
      rw [hplace] at hself
      rw [hnode] at hnodes
      exact .bare hself hnodes
  | any hplace hnode =>
      rw [hplace] at hself
      rw [hnode] at hnodes
      exact .any hself hnodes
  | @object pointer members title description outline parts ids kind hplace htitle hdescription
      houtline hkind hlt hids hnode hwaits =>
      rw [hplace] at hself
      rw [hnode] at hnodes
      have hids' : ids.map d'.pointer? = parts.map Part.pointer? := by
        rw [← hids]
        apply List.map_congr_left
        intro c hc
        exact hplaces c ((hlt c hc).trans hid)
      have hwaits' : kind.isReference = true → id ∈ d'.pending := by
        intro href
        obtain ⟨fresh, hfresh⟩ := hgrows.pending
        rw [hfresh]
        exact List.mem_append_right _ (hwaits href)
      exact .object hself htitle hdescription houtline hkind hlt hids' hnodes hwaits'

theorem children_lt (h : d.Records document id part) :
    ∀ c : Nat, c ∈ (d.nodes.node id).kind.children → c < id := by
  intro c hc
  cases h with
  | object hplace _ _ houtline hkind hlt _ hnode _ =>
      rw [hnode, hkind.children_eq houtline] at hc
      exact hlt c hc
  | bare hplace hnode => rw [hnode] at hc; cases hc
  | any hplace hnode => rw [hnode] at hc; cases hc

/-- A reference is read without a target, and waits for one. -/
theorem reference (h : d.Records document id part) {reference : String} {resolved : Option NodeId}
    (href : (d.nodes.node id).kind = .reference reference resolved) :
    resolved = none ∧ id ∈ d.pending := by
  cases h with
  | object hplace _ _ houtline hkind _ _ hnode hwaits =>
      rw [hnode] at href
      obtain rfl := href
      exact ⟨hkind.reference_unresolved houtline, hwaits rfl⟩
  | bare hplace hnode => rw [hnode] at href; cases href
  | any hplace hnode => rw [hnode] at href; cases href

end Draft.Records

/-- What holds of an object of a document and is handed down to its parts. -/
def Part.HandsDown (P : Part → Prop) : Prop :=
  ∀ {members : Members} {pointer : String} {outline : Outline} {parts : List Part}
    {ids : List NodeId} {kind : Kind}, P (.located pointer (.object members)) →
      Assembles members pointer outline parts ids kind → ∀ part ∈ parts, P part

/-- Every new node is recorded for a part, and what is handed down from the parts that are read
holds of that part. -/
theorem Reads.recorded {document : Json} {parts : List Part} {d d' : Draft} {ids : List NodeId}
    {P : Part → Prop} (hP : Part.HandsDown P) (h : Reads document parts d ids d') (hd : d.Indexed)
    (hparts : ∀ part ∈ parts, P part) :
    ∀ id : Nat, d.nodes.size ≤ id → id < d'.nodes.size → ∃ part, P part ∧
      d'.Records document id part := by
  induction h with
  | nil d => intro id hle hlt; omega
  | @bare d d' rest ids hrest ih =>
      intro id hle hlt
      obtain ⟨hpart, hparts⟩ := List.forall_mem_cons.mp hparts
      rcases hle.eq_or_lt with rfl | hlt'
      · have hrecord : (d.push { kind := .untyped }).2.Records document d.nodes.size .bare :=
          .bare (hd.pointer?_eq_none le_rfl) (d.node_push_self _)
        exact ⟨_, hpart, hrecord.grows hrest.grows (by simp)⟩
      · have hle' : (d.push { kind := .untyped }).2.nodes.size ≤ id := by
          rw [Draft.size_push]
          exact hlt'
        exact ih (hd.push _) hparts id hle' hlt
  | @any d d' pointer rest ids hrest ih =>
      intro id hle hlt
      obtain ⟨hpart, hparts⟩ := List.forall_mem_cons.mp hparts
      rcases hle.eq_or_lt with rfl | hlt'
      · have hrecord : (d.place pointer { kind := .untyped }).2.Records document d.nodes.size
            (.located pointer (.bool true)) :=
          .any (d.pointer?_place_self _ _) (d.node_place_self _ _)
        exact ⟨_, hpart, hrecord.grows hrest.grows (by simp)⟩
      · have hle' : (d.place pointer { kind := .untyped }).2.nodes.size ≤ id := by
          rw [Draft.size_place]
          exact hlt'
        exact ih (hd.place _ _) hparts id hle' hlt
  | @object d d₁ d' pointer members title description outline inner rest innerIds ids kind
      htitle hdescription houtline hkind hinner hrest ihinner ih =>
      intro id hle hlt
      obtain ⟨hpart, hparts⟩ := List.forall_mem_cons.mp hparts
      have hgrows := d₁.grows_place pointer { title, description, kind }
      rcases Nat.lt_trichotomy id d₁.nodes.size with hid | rfl | hid
      · obtain ⟨part, hp, hrecord⟩ := ihinner hd (hP hpart hkind) id hle hid
        exact ⟨part, hp, hrecord.grows (hgrows.trans hrest.grows) hid⟩
      · have hlt : ∀ c : Nat, c ∈ innerIds → c < d₁.nodes.size := by
          intro c hc
          exact (hinner.mem_range c hc).2
        have hplaces : innerIds.map (d₁.place pointer { title, description, kind }).2.pointer? =
            inner.map Part.pointer? := by
          rw [← hinner.pointers hd]
          apply List.map_congr_left
          intro c hc
          exact hgrows.pointer?_eq (hlt c hc)
        have hrecord : (d₁.place pointer { title, description, kind }).2.Records document
            d₁.nodes.size (.located pointer (.object members)) := by
          refine .object (d₁.pointer?_place_self _ _) htitle hdescription (Outline.read_ok houtline)
            hkind hlt hplaces (d₁.node_place_self _ _) ?_
          intro href
          simp [Draft.place, href]
        exact ⟨_, hpart, hrecord.grows hrest.grows (by simp)⟩
      · have hle' : (d₁.place pointer { title, description, kind }).2.nodes.size ≤ id := by
          rw [Draft.size_place]
          exact hid
        exact ih ((hinner.indexed hd).place _ _) hparts id hle' hlt

end SchemaBridge
