import Mathlib.Logic.Relation
import SchemaBridge.Proofs.DocumentPlaces

/-!
The parts of a document that belong to the schema at a place: its properties, its items and its
branches, and the parts of these. The tokens of a part extend those of the whole, and different parts
of one object lie apart. Main statement: reading a part gives a place to every location within it,
and to each of these locations once.
-/

namespace SchemaBridge

/-- The schema at a pointer has the schema at another pointer as a part. -/
inductive PartOf (document : Json) (pointer : String) : String → Prop
  | property {members named : Members} {name : String} {value : Json}
      (hvalue : document.at? pointer = some (.object members))
      (houtline : Outline.read document members pointer = .ok .object)
      (hnamed : members.lookup "properties" = some (.object named)) (hmem : (name, value) ∈ named) :
      PartOf document pointer (Pointer.child (Pointer.child pointer "properties") name)
  | branch {members : Members} {values : List Json} {index : Nat}
      (hvalue : document.at? pointer = some (.object members))
      (houtline : Outline.read document members pointer = .ok .object)
      (hvalues : members.lookup "allOf" = some (.array values)) (hindex : index < values.length) :
      PartOf document pointer (Pointer.element (Pointer.child pointer "allOf") index)
  | element {members : Members} {values : List Json} {index : Nat}
      (hvalue : document.at? pointer = some (.object members))
      (houtline : Outline.read document members pointer = .ok .array)
      (hitems : members.lookup "items" = some (.array values)) (hindex : index < values.length) :
      PartOf document pointer (Pointer.element (Pointer.child pointer "items") index)
  | items {members : Members} {items : Json}
      (hvalue : document.at? pointer = some (.object members))
      (houtline : Outline.read document members pointer = .ok .array)
      (hitems : members.lookup "items" = some items) (hlist : ∀ values, items ≠ .array values) :
      PartOf document pointer (Pointer.child pointer "items")

theorem PartOf.at?_object {document : Json} {pointer location : String}
    (h : PartOf document pointer location) :
    ∃ members, document.at? pointer = some (.object members) := by
  cases h with
  | property hvalue => exact ⟨_, hvalue⟩
  | branch hvalue => exact ⟨_, hvalue⟩
  | element hvalue => exact ⟨_, hvalue⟩
  | items hvalue => exact ⟨_, hvalue⟩

/-- The schema at the second pointer is the one at the first, or a part of it at some depth. -/
def Within (document : Json) : String → String → Prop :=
  Relation.ReflTransGen (PartOf document)

theorem within_iff {document : Json} {pointer location : String} :
    Within document pointer location ↔
      location = pointer ∨ ∃ part, PartOf document pointer part ∧ Within document part location := by
  rw [Within, Relation.ReflTransGen.cases_head_iff, eq_comm]

theorem mem_map_pointer?_memberParts {base location : String} {named : Members} :
    some location ∈ (memberParts base named).map Part.pointer? ↔
      ∃ m ∈ named, Pointer.child base m.1 = location := by
  rw [map_pointer?_memberParts, List.mem_map]
  simp only [Option.some.injEq]

theorem mem_map_pointer?_elementParts {base location : String} {values : List Json} :
    some location ∈ (elementParts base 0 values).map Part.pointer? ↔
      ∃ index < values.length, Pointer.element base index = location := by
  rw [map_pointer?_elementParts_zero, elementPointers, List.mem_map]
  simp only [Option.some.injEq, List.mem_range]

section

variable {document : Json} {members : Members} {pointer location : String} {outline : Outline}
  {parts : List Part} {ids : List NodeId} {kind : Kind}

theorem Assembles.partOf (h : Assembles members pointer outline parts ids kind)
    (hvalue : document.at? pointer = some (.object members))
    (houtline : Outline.read document members pointer = .ok outline)
    (hmem : some location ∈ parts.map Part.pointer?) : PartOf document pointer location := by
  cases h with
  | leaf => cases hmem
  | object hnamed hvalues =>
      rw [List.map_append, List.mem_append, mem_map_pointer?_memberParts,
        mem_map_pointer?_elementParts] at hmem
      rcases hmem with ⟨m, hm, rfl⟩ | ⟨index, hindex, rfl⟩
      · exact .property hvalue houtline (hnamed.lookup hm) hm
      · exact .branch hvalue houtline (hvalues.lookup hindex) hindex
  | bareArray => simp [Part.pointer?] at hmem
  | tuple hitems =>
      obtain ⟨index, hindex, rfl⟩ := mem_map_pointer?_elementParts.mp hmem
      exact .element hvalue houtline hitems hindex
  | array hitems hlist =>
      obtain rfl := Option.some.inj (List.mem_singleton.mp hmem)
      exact .items hvalue houtline hitems hlist

theorem Assembles.mem_parts (h : Assembles members pointer outline parts ids kind)
    (hvalue : document.at? pointer = some (.object members))
    (houtline : Outline.read document members pointer = .ok outline)
    (hpart : PartOf document pointer location) : some location ∈ parts.map Part.pointer? := by
  have hsame : ∀ {members' outline'}, document.at? pointer = some (.object members') →
      Outline.read document members' pointer = .ok outline' →
      members' = members ∧ outline' = outline := by
    intro members' outline' hvalue' houtline'
    rw [hvalue] at hvalue'
    cases hvalue'
    rw [houtline] at houtline'
    cases houtline'
    exact ⟨rfl, rfl⟩
  cases hpart with
  | property hvalue' houtline' hnamed' hm =>
      obtain ⟨rfl, rfl⟩ := hsame hvalue' houtline'
      cases h with
      | object hnamed _ =>
          obtain rfl := hnamed.eq hnamed'
          rw [List.map_append, List.mem_append, mem_map_pointer?_memberParts]
          exact .inl ⟨_, hm, rfl⟩
  | branch hvalue' houtline' hvalues' hindex =>
      obtain ⟨rfl, rfl⟩ := hsame hvalue' houtline'
      cases h with
      | object _ hvalues =>
          obtain rfl := hvalues.eq hvalues'
          rw [List.map_append, List.mem_append, mem_map_pointer?_elementParts]
          exact .inr ⟨_, hindex, rfl⟩
  | element hvalue' houtline' hitems' hindex =>
      obtain ⟨rfl, rfl⟩ := hsame hvalue' houtline'
      cases h with
      | bareArray hitems => rw [hitems] at hitems'; cases hitems'
      | tuple hitems =>
          rw [hitems] at hitems'
          cases hitems'
          exact mem_map_pointer?_elementParts.mpr ⟨_, hindex, rfl⟩
      | array hitems hlist =>
          rw [hitems] at hitems'
          cases hitems'
          exact (hlist _ rfl).elim
  | items hvalue' houtline' hitems' hlist' =>
      obtain ⟨rfl, rfl⟩ := hsame hvalue' houtline'
      cases h with
      | bareArray hitems => rw [hitems] at hitems'; cases hitems'
      | tuple hitems =>
          rw [hitems] at hitems'
          cases hitems'
          exact (hlist' _ rfl).elim
      | array hitems hlist => exact List.mem_singleton_self _

/-- The parts that an outline asks for are the parts of the schema. -/
theorem Assembles.mem_parts_iff (h : Assembles members pointer outline parts ids kind)
    (hvalue : document.at? pointer = some (.object members))
    (houtline : Outline.read document members pointer = .ok outline) :
    some location ∈ parts.map Part.pointer? ↔ PartOf document pointer location :=
  ⟨h.partOf hvalue houtline, h.mem_parts hvalue houtline⟩

end

/-! ### Tokens of parts -/

theorem Json.tokens?_of_at? {document value : Json} {pointer : String}
    (h : document.at? pointer = some value) : ∃ tokens, Pointer.tokens? pointer = some tokens := by
  obtain ⟨tokens, htokens, -⟩ := Option.bind_eq_some_iff.mp h
  exact ⟨tokens, htokens⟩

/-- The tokens of a part extend those of the whole. -/
theorem PartOf.tokens? {document : Json} {pointer location : String} {tokens : List String}
    (h : PartOf document pointer location) (htokens : Pointer.tokens? pointer = some tokens) :
    ∃ token rest, Pointer.tokens? location = some (tokens ++ token :: rest) := by
  have hchild : ∀ key, Pointer.tokens? (Pointer.child pointer key) = some (tokens ++ [key]) :=
    fun key => Pointer.tokens?_child htokens
  have hpair : ∀ key name, Pointer.tokens? (Pointer.child (Pointer.child pointer key) name) =
      some (tokens ++ [key, name]) := by
    intro key name
    rw [Pointer.tokens?_child (hchild key), List.append_assoc]
    rfl
  cases h with
  | property => exact ⟨_, _, hpair _ _⟩
  | branch => exact ⟨_, _, hpair _ _⟩
  | element => exact ⟨_, _, hpair _ _⟩
  | items => exact ⟨_, _, hchild _⟩

theorem Within.tokens? {document : Json} {pointer location : String} {tokens : List String}
    (h : Within document pointer location) (htokens : Pointer.tokens? pointer = some tokens) :
    ∃ rest, Pointer.tokens? location = some (tokens ++ rest) := by
  induction h with
  | refl => exact ⟨[], by rw [htokens, List.append_nil]⟩
  | tail _ hpart ih =>
      obtain ⟨rest, hrest⟩ := ih
      obtain ⟨token, more, hmore⟩ := hpart.tokens? hrest
      exact ⟨rest ++ token :: more, by rw [hmore, List.append_assoc]⟩

/-- Two parts lie apart if neither is at a place inside the other. -/
def Part.Apart (part part' : Part) : Prop :=
  ∀ pointer pointer' tokens tokens', part.pointer? = some pointer → part'.pointer? = some pointer' →
    Pointer.tokens? pointer = some tokens → Pointer.tokens? pointer' = some tokens' →
    ¬tokens <+: tokens' ∧ ¬tokens' <+: tokens

theorem Part.apart_of_tokens {part part' : Part} {tokens tokens' : List String}
    (h : part.pointer?.bind Pointer.tokens? = some tokens)
    (h' : part'.pointer?.bind Pointer.tokens? = some tokens')
    (hlength : tokens.length = tokens'.length) (hne : tokens ≠ tokens') : part.Apart part' := by
  intro pointer pointer' found found' hpointer hpointer' hfound hfound'
  rw [hpointer, Option.bind_some, hfound] at h
  rw [hpointer', Option.bind_some, hfound'] at h'
  cases h
  cases h'
  constructor
  · intro hpre
    exact hne (hpre.eq_of_length hlength)
  · intro hpre
    exact hne (hpre.eq_of_length hlength.symm).symm

/-- The tokens of a part that is read at a name or an index below a base. -/
def Part.HasKey (base : List String) (key : String) (part : Part) : Prop :=
  part.pointer?.bind Pointer.tokens? = some (base ++ [key])

theorem Part.HasKey.apart {base base' : List String} {key key' : String} {part part' : Part}
    (h : part.HasKey base key) (h' : part'.HasKey base' key') (hlength : base.length = base'.length)
    (hne : base ≠ base' ∨ key ≠ key') : part.Apart part' := by
  apply apart_of_tokens h h' (by simp [hlength])
  intro heq
  obtain ⟨hbase, hkey⟩ := List.append_inj heq hlength
  rcases hne with hne | hne
  · exact hne hbase
  · exact hne (List.singleton_inj.mp hkey)

theorem memberParts_keys {base : String} {tokens : List String}
    (hbase : Pointer.tokens? base = some tokens) (named : Members) :
    ∀ part ∈ memberParts base named, ∃ m ∈ named, part.HasKey tokens m.1 := by
  intro part hpart
  obtain ⟨m, hm, rfl⟩ := List.mem_map.mp hpart
  exact ⟨m, hm, Pointer.tokens?_child hbase⟩

theorem memberParts_apart {base : String} {tokens : List String}
    (hbase : Pointer.tokens? base = some tokens) {named : Members}
    (hkeys : (named.map Prod.fst).Nodup) : (memberParts base named).Pairwise Part.Apart := by
  refine List.pairwise_map.mpr ((List.pairwise_map.mp hkeys).imp fun {m n} hne => ?_)
  have hm : Part.HasKey tokens m.1 (.located (Pointer.child base m.1) m.2) :=
    Pointer.tokens?_child hbase
  have hn : Part.HasKey tokens n.1 (.located (Pointer.child base n.1) n.2) :=
    Pointer.tokens?_child hbase
  exact hm.apart hn rfl (.inr hne)

theorem elementParts_keys {base : String} {tokens : List String}
    (hbase : Pointer.tokens? base = some tokens) (index : Nat) (values : List Json) :
    ∀ part ∈ elementParts base index values, ∃ i, index ≤ i ∧ part.HasKey tokens (toString i) := by
  induction values generalizing index with
  | nil => simp [elementParts]
  | cons value rest ih =>
      refine List.forall_mem_cons.mpr ⟨⟨index, le_rfl, Pointer.tokens?_child hbase⟩, ?_⟩
      intro part hpart
      obtain ⟨i, hi, hkey⟩ := ih (index + 1) part hpart
      exact ⟨i, by omega, hkey⟩

theorem elementParts_apart {base : String} {tokens : List String}
    (hbase : Pointer.tokens? base = some tokens) (index : Nat) (values : List Json) :
    (elementParts base index values).Pairwise Part.Apart := by
  induction values generalizing index with
  | nil => exact .nil
  | cons value rest ih =>
      refine .cons (fun part hpart => ?_) (ih (index + 1))
      obtain ⟨i, hi, hkey⟩ := elementParts_keys hbase (index + 1) rest part hpart
      have hfirst : Part.HasKey tokens (toString index)
          (.located (Pointer.element base index) value) := Pointer.tokens?_child hbase
      refine hfirst.apart hkey rfl (.inr fun heq => ?_)
      have := Pointer.toString_injective heq
      omega

theorem Assembles.apart {document : Json} {members : Members} {pointer : String} {outline : Outline}
    {parts : List Part} {ids : List NodeId} {kind : Kind} (hdistinct : document.DistinctKeys)
    (hvalue : document.at? pointer = some (.object members))
    (h : Assembles members pointer outline parts ids kind) : parts.Pairwise Part.Apart := by
  obtain ⟨tokens, htokens⟩ := Json.tokens?_of_at? hvalue
  have hbase : ∀ key, Pointer.tokens? (Pointer.child pointer key) = some (tokens ++ [key]) :=
    fun key => Pointer.tokens?_child htokens
  cases h with
  | leaf => exact .nil
  | @object named values _ _ _ hnamed _ _ _ =>
      have hkeys : (named.map Prod.fst).Nodup := by
        rcases hnamed with hnamed | ⟨-, rfl⟩
        · exact ((hdistinct.at? hvalue).lookup hnamed).keys_nodup
        · exact List.nodup_nil
      refine List.pairwise_append.mpr ⟨memberParts_apart (hbase _) hkeys,
        elementParts_apart (hbase _) 0 values, ?_⟩
      intro part hpart part' hpart'
      obtain ⟨m, -, hkey⟩ := memberParts_keys (hbase _) named part hpart
      obtain ⟨i, -, hkey'⟩ := elementParts_keys (hbase _) 0 values part' hpart'
      exact hkey.apart hkey' (by simp) (.inl (by simp))
  | bareArray => exact List.pairwise_singleton _ _
  | tuple => exact elementParts_apart (hbase _) 0 _
  | array => exact List.pairwise_singleton _ _

/-! ### The locations that are read -/

/-- The pointers that reading parts gives a place to: all locations within the parts, none of them
twice if the parts lie apart. -/
structure Covers (document : Json) (parts : List Part) (pointers : List String) : Prop where
  mem_iff : ∀ location, location ∈ pointers ↔
    ∃ pointer, some pointer ∈ parts.map Part.pointer? ∧ Within document pointer location
  nodup : parts.Pairwise Part.Apart → (pointers.map Pointer.tokens?).Nodup

namespace Covers

variable {document : Json}

theorem nil : Covers document [] [] where
  mem_iff location := by simp
  nodup _ := .nil

theorem bare {rest : List Part} {pointers : List String} (h : Covers document rest pointers) :
    Covers document (.bare :: rest) pointers where
  mem_iff location := by simp [h.mem_iff, Part.pointer?]
  nodup hapart := h.nodup (List.pairwise_cons.mp hapart).2

/-- What is within parts that lie apart differs in its tokens. -/
theorem tokens?_ne {part part' : Part} (hapart : part.Apart part') {pointer pointer' : String}
    {value value' : Json} (hpointer : part.pointer? = some pointer)
    (hpointer' : part'.pointer? = some pointer') (hvalue : document.at? pointer = some value)
    (hvalue' : document.at? pointer' = some value') {location location' : String}
    (hwithin : Within document pointer location) (hwithin' : Within document pointer' location') :
    Pointer.tokens? location ≠ Pointer.tokens? location' := by
  obtain ⟨tokens, htokens⟩ := Json.tokens?_of_at? hvalue
  obtain ⟨tokens', htokens'⟩ := Json.tokens?_of_at? hvalue'
  obtain ⟨rest, hrest⟩ := hwithin.tokens? htokens
  obtain ⟨rest', hrest'⟩ := hwithin'.tokens? htokens'
  obtain ⟨hnot, hnot'⟩ := hapart pointer pointer' tokens tokens' hpointer hpointer' htokens htokens'
  intro heq
  rw [hrest, hrest', Option.some.injEq] at heq
  have hpre : tokens <+: tokens' ++ rest' := heq ▸ List.prefix_append tokens rest
  rcases List.prefix_or_prefix_of_prefix hpre (List.prefix_append tokens' rest') with h | h
  · exact hnot h
  · exact hnot' h

/-- A strict part has more tokens than the whole. -/
theorem tokens?_ne_of_part {pointer part location : String} {value : Json}
    (hvalue : document.at? pointer = some value) (hpart : PartOf document pointer part)
    (hwithin : Within document part location) :
    Pointer.tokens? pointer ≠ Pointer.tokens? location := by
  obtain ⟨tokens, htokens⟩ := Json.tokens?_of_at? hvalue
  obtain ⟨token, rest, hrest⟩ := hpart.tokens? htokens
  obtain ⟨more, hmore⟩ := hwithin.tokens? hrest
  rw [htokens, hmore, List.append_assoc]
  simp

theorem located {pointer : String} {value : Json} {inner rest : List Part}
    {innerPointers restPointers : List String} (hvalue : document.at? pointer = some value)
    (hfit : ∀ part ∈ rest, part.Fits document)
    (hparts : ∀ location, some location ∈ inner.map Part.pointer? ↔
      PartOf document pointer location)
    (hapart : inner.Pairwise Part.Apart) (hinner : Covers document inner innerPointers)
    (hrest : Covers document rest restPointers) :
    Covers document (.located pointer value :: rest) (restPointers ++ pointer :: innerPointers) := by
  have hself : ∀ location, location ∈ pointer :: innerPointers ↔ Within document pointer location := by
    intro location
    simp only [List.mem_cons, hinner.mem_iff, hparts, @within_iff document pointer]
  refine ⟨fun location => ?_, fun hall => ?_⟩
  · rw [List.mem_append, hself, hrest.mem_iff, List.map_cons]
    simp only [List.mem_cons, Part.pointer?, Option.some.injEq, or_and_right, exists_or,
      exists_eq_left]
    exact or_comm
  · obtain ⟨hfirst, hlater⟩ := List.pairwise_cons.mp hall
    rw [List.map_append, List.nodup_append, List.map_cons, List.nodup_cons]
    refine ⟨hrest.nodup hlater, ⟨?_, hinner.nodup hapart⟩, ?_⟩
    -- the whole is above each of its parts, and the parts after it are beside it
    · intro hmem
      obtain ⟨location, hlocation, heq⟩ := List.mem_map.mp hmem
      obtain ⟨part, hpart, hwithin⟩ := (hinner.mem_iff location).mp hlocation
      exact tokens?_ne_of_part hvalue ((hparts part).mp hpart) hwithin heq.symm
    · intro a ha b hb
      rw [← List.map_cons] at hb
      obtain ⟨location, hlocation, rfl⟩ := List.mem_map.mp ha
      obtain ⟨location', hlocation', rfl⟩ := List.mem_map.mp hb
      obtain ⟨pointer', hpointer', hwithin⟩ := (hrest.mem_iff location).mp hlocation
      obtain ⟨part, hpart, hpointer⟩ := List.mem_map.mp hpointer'
      have hvalue' := hfit part hpart
      cases part with
      | bare => cases hpointer
      | located place value' =>
          cases hpointer
          have hwithin' := (hself location').mp hlocation'
          exact (tokens?_ne (hfirst _ hpart) rfl rfl hvalue hvalue' hwithin' hwithin).symm

end Covers

/-- Reading parts of a document gives a place to every location within them, each one once if the
parts lie apart. -/
theorem Reads.covers {document : Json} (hdistinct : document.DistinctKeys) {parts : List Part}
    {d d' : Draft} {ids : List NodeId} (h : Reads document parts d ids d')
    (hparts : ∀ part ∈ parts, part.Fits document) :
    ∃ pointers, d'.locations.map Prod.fst = pointers ++ d.locations.map Prod.fst ∧
      Covers document parts pointers := by
  induction h with
  | nil d => exact ⟨[], rfl, .nil⟩
  | bare _ ih =>
      obtain ⟨pointers, heq, hcovers⟩ := ih (List.forall_mem_cons.mp hparts).2
      exact ⟨pointers, heq, hcovers.bare⟩
  | @any d d' pointer rest ids _ ih =>
      obtain ⟨hpart, hparts⟩ := List.forall_mem_cons.mp hparts
      obtain ⟨pointers, heq, hcovers⟩ := ih hparts
      have hnone : ∀ location, some location ∈ ([] : List Part).map Part.pointer? ↔
          PartOf document pointer location := by
        intro location
        constructor
        · intro hmem
          cases hmem
        · intro hpartOf
          obtain ⟨members, hobject⟩ := hpartOf.at?_object
          rw [show document.at? pointer = some (.bool true) from hpart] at hobject
          cases hobject
      refine ⟨pointers ++ [pointer], ?_, .located hpart hparts hnone .nil .nil hcovers⟩
      rw [heq, List.append_assoc]
      rfl
  | object _ _ houtline hkind _ _ ihinner ih =>
      obtain ⟨hpart, hparts⟩ := List.forall_mem_cons.mp hparts
      obtain ⟨inner, hinner, hcovers⟩ := ihinner (hkind.fit hdistinct hpart)
      obtain ⟨pointers, heq, hcovers'⟩ := ih hparts
      have hmem : ∀ location, some location ∈ _ ↔ PartOf document _ location :=
        fun _ => hkind.mem_parts_iff hpart houtline
      have hapart := hkind.apart hdistinct hpart
      refine ⟨pointers ++ _ :: inner, ?_, .located hpart hparts hmem hapart hcovers hcovers'⟩
      rw [heq, Draft.place, List.map_cons, hinner, List.append_assoc]
      rfl

end SchemaBridge
