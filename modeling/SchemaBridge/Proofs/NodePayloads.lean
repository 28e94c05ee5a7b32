import SchemaBridge.Proofs.BranchLeaves

/-!
What the nodes of a schema list. An enumeration has a literal, an object requires none but its own
properties, and a union lists no type twice. A union lists the types of the leaves below its
branches, so it is empty if there are none: the lists of the object itself are never empty, but a
list inside a branch may be. Main statement: this is the only way in which a node lists nothing.
-/

namespace SchemaBridge

namespace UnionTypes

variable {document : Json}

/-! ### The leaves below branches -/

/-- The leaves of branches are those to which a branch leads. -/
theorem Leaves.mem_iff {branches leaves : List Json} (h : Leaves document branches leaves)
    {leaf : Json} : leaf ∈ leaves ↔
      ∃ branch ∈ branches, Relation.ReflTransGen (Opens document) branch leaf ∧
        IsLeaf document leaf := by
  induction h with
  | nil => simp
  | @reference members rest _ _ _ target href hpointer htarget _ ih =>
      have hopens : Opens document (.object members) target := .target href hpointer htarget
      have hbelow : (Relation.ReflTransGen (Opens document) (.object members) leaf ∧
          IsLeaf document leaf) ↔
          Relation.ReflTransGen (Opens document) target leaf ∧ IsLeaf document leaf := by
        refine and_congr_left fun hleaf => ⟨fun hreach => ?_, .head hopens⟩
        rcases hreach.cases_head with rfl | ⟨part, hpart, hrest⟩
        · exact (hleaf.not_opens hopens).elim
        · rwa [hpart.eq_target href hpointer htarget] at hrest
      rw [ih, List.exists_mem_cons_iff, List.exists_mem_cons_iff, hbelow]
  | @nested members rest _ _ _ href hkeyword hlist _ ih =>
      have hbelow : (Relation.ReflTransGen (Opens document) (.object members) leaf ∧
          IsLeaf document leaf) ↔ ∃ branch ∈ combinators.flatMap (branchesOf members),
            Relation.ReflTransGen (Opens document) branch leaf ∧ IsLeaf document leaf := by
        constructor
        · rintro ⟨hreach, hleaf⟩
          rcases hreach.cases_head with rfl | ⟨part, hpart, hrest⟩
          · cases hleaf with
            | scalar hother => exact (hother _ rfl).elim
            | broken href' => rw [href] at href'; cases href'
            | plain _ hplain => exact (hplain _ hkeyword _ hlist).elim
          · exact ⟨part, hpart.mem_branches href, hrest, hleaf⟩
        · rintro ⟨branch, hbranch, hreach, hleaf⟩
          obtain ⟨_, hkeyword', _, hlist', hmem⟩ := mem_flatMap_branchesOf.mp hbranch
          exact ⟨hreach.head (.nested href hkeyword' hlist' hmem), hleaf⟩
      rw [ih, List.exists_mem_cons_iff, hbelow]
      simp only [List.mem_append, or_and_right, exists_or]
  | @leaf branch rest _ hleaf _ ih =>
      have hbelow : (Relation.ReflTransGen (Opens document) branch leaf ∧
          IsLeaf document leaf) ↔ leaf = branch := by
        constructor
        · rintro ⟨hreach, -⟩
          rcases hreach.cases_head with rfl | ⟨part, hpart, -⟩
          · rfl
          · exact (hleaf.not_opens hpart).elim
        · rintro rfl
          exact ⟨.refl, hleaf⟩
      rw [List.mem_cons, ih, List.exists_mem_cons_iff, hbelow]

/-- A branch leads to one that has an empty list of branches. -/
def LeadsToEmptyList (document branch : Json) : Prop :=
  ∃ members, Relation.ReflTransGen (Opens document) branch (.object members) ∧
    ∃ keyword ∈ combinators, members.lookup keyword = some (.array [])

theorem LeadsToEmptyList.head {branch part : Json} (h : LeadsToEmptyList document part)
    (hopens : Opens document branch part) : LeadsToEmptyList document branch := by
  obtain ⟨members, hreach, hempty⟩ := h
  exact ⟨members, hreach.head hopens, hempty⟩

/-- Branches without leaves end in empty lists. -/
theorem Leaves.exists_emptyList {branches leaves : List Json}
    (h : Leaves document branches leaves) (hleaves : leaves = []) (hbranches : branches ≠ []) :
    ∃ branch ∈ branches, LeadsToEmptyList document branch := by
  induction h with
  | nil => exact (hbranches rfl).elim
  | reference href hpointer htarget _ ih =>
      obtain ⟨branch, hmem, hempty⟩ := ih hleaves (List.cons_ne_nil _ _)
      rcases List.mem_cons.mp hmem with rfl | hrest
      · exact ⟨_, List.mem_cons_self, hempty.head (.target href hpointer htarget)⟩
      · exact ⟨branch, List.mem_cons_of_mem _ hrest, hempty⟩
  | @nested members rest inner _ keyword href hkeyword hlist _ ih =>
      by_cases hnone : combinators.flatMap (branchesOf members) ++ rest = []
      · obtain ⟨hinner, -⟩ := List.append_eq_nil_iff.mp hnone
        have hempty : inner = [] := by
          apply List.eq_nil_iff_forall_not_mem.mpr
          intro branch hbranch
          have hmem := mem_flatMap_branchesOf.mpr ⟨keyword, hkeyword, inner, hlist, hbranch⟩
          rw [hinner] at hmem
          cases hmem
        rw [hempty] at hlist
        exact ⟨_, List.mem_cons_self, members, .refl, keyword, hkeyword, hlist⟩
      · obtain ⟨branch, hmem, hempty⟩ := ih hleaves hnone
        rcases List.mem_append.mp hmem with hinner | hrest
        · obtain ⟨_, hkeyword', _, hlist', hbranch⟩ := mem_flatMap_branchesOf.mp hinner
          exact ⟨_, List.mem_cons_self, hempty.head (.nested href hkeyword' hlist' hbranch)⟩
        · exact ⟨branch, List.mem_cons_of_mem _ hrest, hempty⟩
  | leaf => cases hleaves

theorem LeafTypes.ne_nil {members : Members} {types : List JsonType}
    (h : LeafTypes members types) : types ≠ [] := by
  cases h with
  | declared htypes =>
      cases htypes with
      | one => exact List.cons_ne_nil _ _
      | @several types _ hne =>
          obtain ⟨type, htype⟩ := List.exists_mem_of_ne_nil types hne
          exact List.ne_nil_of_mem (List.mem_eraseDups.mpr htype)
  | _ => exact List.cons_ne_nil _ _

/-- Branches list no types exactly if they have no leaves. -/
theorem eraseDups_flatten_eq_nil_iff {leaves : List Json} {own : List (List JsonType)}
    (h : List.Forall₂ HasTypes leaves own) : own.flatten.eraseDups = [] ↔ leaves = [] := by
  constructor
  · intro hnone
    cases h with
    | nil => rfl
    | @cons _ types _ later hfirst _ =>
        cases hfirst with
        | object _ hown =>
            obtain ⟨type, htype⟩ := List.exists_mem_of_ne_nil types hown.ne_nil
            have hmem : type ∈ (types :: later).flatten.eraseDups :=
              List.mem_eraseDups.mpr (List.mem_flatten.mpr ⟨types, List.mem_cons_self, htype⟩)
            rw [hnone] at hmem
            cases hmem
  · rintro rfl
    cases h
    rfl

/-- An object has combinators, but no leaf stands below their branches. -/
def Hollow (document : Json) (members : Members) : Prop :=
  ¬Keyword.Lacks members combinators ∧
    ∀ branch ∈ combinators.flatMap (branchesOf members), ∀ leaf,
      Relation.ReflTransGen (Opens document) branch leaf → ¬IsLeaf document leaf

end UnionTypes

open UnionTypes

/-! ### The lists of an object -/

section

variable {document : Json} {members : Members} {types : List JsonType}

theorem Outlines.nodup_types (h : Outlines document members (.leaf (.union types))) :
    types.Nodup := by
  cases h with
  | combinator => exact Keyword.nodup_eraseDups _
  | several _ htypes => exact htypes.nodup

theorem Outlines.literals_ne_nil {literals : List Json}
    (h : Outlines document members (.leaf (.enumeration literals))) : literals ≠ [] := by
  cases h with
  | enumeration _ hliterals => exact hliterals

/-- A union without types is read from combinators that end in empty lists. -/
theorem Outlines.types_eq_nil_iff (h : Outlines document members (.leaf (.union types))) :
    (types = [] ↔ Hollow document members) ∧
      (types = [] → ∃ branch ∈ combinators.flatMap (branchesOf members),
        LeadsToEmptyList document branch) := by
  cases h with
  | several hothers htypes =>
      have hsome : types ≠ [] := LeafTypes.ne_nil (.declared htypes)
      have hlacks : Keyword.Lacks members combinators :=
        fun keyword hkeyword => hothers keyword (List.mem_append_right _ hkeyword)
      exact ⟨⟨fun hnone => (hsome hnone).elim, fun hhollow => (hhollow.1 hlacks).elim⟩,
        fun hnone => (hsome hnone).elim⟩
  | combinator _ hsome hlists hunfolds =>
      obtain ⟨leaves, own, hleaves, hown, rfl⟩ := hunfolds.leaves
      rw [eraseDups_flatten_eq_nil_iff hown]
      refine ⟨⟨fun hnone => ⟨hsome, fun branch hbranch leaf hreach hleaf => ?_⟩, ?_⟩,
        fun hnone => hleaves.exists_emptyList hnone ?_⟩
      · have hmem := hleaves.mem_iff.mpr ⟨branch, hbranch, hreach, hleaf⟩
        rw [hnone] at hmem
        cases hmem
      · rintro ⟨-, hhollow⟩
        apply List.eq_nil_iff_forall_not_mem.mpr
        intro leaf hmem
        obtain ⟨branch, hbranch, hreach, hleaf⟩ := hleaves.mem_iff.mp hmem
        exact hhollow branch hbranch leaf hreach hleaf
      · intro hempty
        refine hsome fun keyword hkeyword => ?_
        rcases hlists keyword hkeyword with hnone | ⟨branch, rest, hlist⟩
        · exact hnone
        · have hmem := mem_flatMap_branchesOf.mpr
            ⟨keyword, hkeyword, branch :: rest, hlist, List.mem_cons_self⟩
          rw [combinators, hempty] at hmem
          cases hmem

/-- No keyword that decides the kind of an object holds an empty list. -/
theorem Outlines.deciding_ne_nil {outline : Outline} (h : Outlines document members outline) :
    ∀ keyword ∈ Outline.deciding, members.lookup keyword ≠ some (.array []) := by
  have habsent : ∀ {keyword}, members.lookup keyword = none →
      members.lookup keyword ≠ some (.array []) := by
    intro keyword hnone
    rw [hnone]
    rintro ⟨⟩
  have hlacks : Keyword.Lacks members Outline.deciding →
      ∀ keyword ∈ Outline.deciding, members.lookup keyword ≠ some (.array []) :=
    fun hothers keyword hkeyword => habsent (hothers keyword hkeyword)
  cases h with
  | reference href hothers =>
      refine List.forall_mem_cons.mpr ⟨?_, fun keyword hkeyword => habsent (hothers _ hkeyword)⟩
      rw [href]
      simp
  | enumeration henum hliterals hothers =>
      refine List.forall_mem_cons.mpr ⟨habsent hothers.head, List.forall_mem_cons.mpr ⟨?_, ?_⟩⟩
      · rw [henum]
        simpa using hliterals
      · exact fun keyword hkeyword => habsent (hothers.tail _ hkeyword)
  | combinator hothers _ hlists =>
      refine List.forall_mem_append.mpr ⟨fun keyword hkeyword => habsent (hothers _ hkeyword), ?_⟩
      intro keyword hkeyword
      rcases hlists keyword hkeyword with hnone | ⟨_, _, hlist⟩
      · exact habsent hnone
      · rw [hlist]
        simp
  | several hothers => exact hlacks hothers
  | primitive hothers => exact hlacks hothers
  | object hothers => exact hlacks hothers
  | array hothers => exact hlacks hothers
  | impliedObject hothers => exact hlacks hothers
  | impliedArray hothers => exact hlacks hothers
  | untyped hothers => exact hlacks hothers

end

/-! ### The nodes of a schema -/

section

variable {document : Json} {s : Schema} {place : NodeId → Option String} {id : NodeId}

/-- A node that is not untyped says what the object at its place spells. -/
theorem FaithfulBy.exists_spells (h : FaithfulBy document s place)
    (hkind : (s.node id).kind ≠ .untyped) :
    ∃ pointer members, place id = some pointer ∧ document.at? pointer = some (.object members) ∧
      Spells document place pointer members (s.node id).kind := by
  have hid : id < s.nodes.size := by
    by_contra hout
    exact hkind (by rw [Schema.node, Arena.node_of_size_le (Nat.le_of_not_lt hout)])
  cases hplace : place id with
  | none => exact (hkind (by rw [(h.unlocated id hid hplace).1])).elim
  | some pointer =>
      obtain ⟨value, hvalue, hdescribes⟩ := h.located id hid pointer hplace
      generalize s.node id = node at hkind hdescribes
      cases hdescribes with
      | any => exact (hkind rfl).elim
      | @object members _ _ _ hspells => exact ⟨pointer, members, rfl, hvalue, hspells⟩

theorem FaithfulBy.exists_union (h : FaithfulBy document s place) {types : List JsonType}
    (hkind : (s.node id).kind = .union types) :
    ∃ pointer members, place id = some pointer ∧ document.at? pointer = some (.object members) ∧
      Outlines document members (.leaf (.union types)) := by
  obtain ⟨pointer, members, hplace, hvalue, hspells⟩ := h.exists_spells (by rw [hkind]; rintro ⟨⟩)
  rw [hkind] at hspells
  cases hspells with
  | leaf houtline => exact ⟨pointer, members, hplace, hvalue, houtline⟩

theorem FaithfulBy.nodup_types (h : FaithfulBy document s place) {types : List JsonType}
    (hkind : (s.node id).kind = .union types) : types.Nodup := by
  obtain ⟨_, _, -, -, houtline⟩ := h.exists_union hkind
  exact houtline.nodup_types

theorem FaithfulBy.literals_ne_nil (h : FaithfulBy document s place) {literals : List Json}
    (hkind : (s.node id).kind = .enumeration literals) : literals ≠ [] := by
  obtain ⟨_, _, -, -, hspells⟩ := h.exists_spells (by rw [hkind]; rintro ⟨⟩)
  rw [hkind] at hspells
  cases hspells with
  | leaf houtline => exact houtline.literals_ne_nil

end

namespace Schema

/-- What the nodes of a schema list. An enumeration has a literal, an object requires none but its
properties, and a union lists no type twice. A union is empty exactly if the object at its place has
combinators below whose branches there is no leaf, and then one of the branches leads to an empty
list; the lists of the objects at the places of nodes are not empty. -/
theorem read_payloads {document : Json} {s : Schema} (hdistinct : document.DistinctKeys)
    (h : Schema.read document = .ok s) : ∃ place, FaithfulBy document s place ∧
      (∀ id literals, (s.node id).kind = .enumeration literals → literals ≠ []) ∧
      (∀ id shape, (s.node id).kind = .object shape →
        ∀ name ∈ shape.required, name ∈ shape.properties.map Prod.fst) ∧
      (∀ id types, (s.node id).kind = .union types → types.Nodup ∧
        ∃ pointer members, place id = some pointer ∧
          document.at? pointer = some (.object members) ∧
          (types = [] ↔ Hollow document members) ∧
          (types = [] → ∃ branch ∈ combinators.flatMap (branchesOf members),
            LeadsToEmptyList document branch)) ∧
      ∀ id < s.nodes.size, ∀ pointer members, place id = some pointer →
        document.at? pointer = some (.object members) →
        ∀ keyword ∈ Outline.deciding, members.lookup keyword ≠ some (.array []) := by
  obtain ⟨demands, d, hrun⟩ := Schema.read_steps h
  have hfaithful := hrun.faithful hdistinct
  refine ⟨d.pointer?, hfaithful, fun id literals hkind => hfaithful.literals_ne_nil hkind,
    fun id shape hkind => hrun.declaresRequired id shape hkind, fun id types hkind => ?_,
    fun id hid pointer members hplace hvalue => ?_⟩
  · obtain ⟨pointer, members, hplace, hvalue, houtline⟩ := hfaithful.exists_union hkind
    exact ⟨houtline.nodup_types, pointer, members, hplace, hvalue, houtline.types_eq_nil_iff⟩
  · obtain ⟨value, hat, hspells⟩ := hfaithful.spellsSchema hrun.declaresRequired hid hplace
    rw [hvalue] at hat
    cases hat
    cases hspells with
    | object _ _ houtline _ => exact houtline.deciding_ne_nil

/-- A union of which one branch ends in an empty list, and one of which all branches do. -/
def gapDocument : Json :=
  .object [("properties", .object [
      ("code", .object [("anyOf", .array
        [.object [("$ref", .string "#/definitions/none")], .object [("type", .string "string")]])]),
      ("gap", .object [("oneOf", .array [.object [("$ref", .string "#/definitions/none")]])]),
      ("state", .object [("enum", .array [.string "on"])])]),
    ("required", .array [.string "code"]),
    ("definitions", .object [("none", .object [("anyOf", .array [])])])]

def gapSchema : Schema where
  nodes := #[{ kind := .union [.primitive .string] }, { kind := .union [] },
    { kind := .enumeration [.string "on"] },
    { kind := .object { properties := [("code", 0), ("gap", 1), ("state", 2)],
                        required := ["code"] } }]
  root := 3

theorem read_gapDocument : Schema.read gapDocument = .ok gapSchema := by
  cbv

theorem read_payloads_gap : gapDocument.DistinctKeys ∧ Schema.read gapDocument = .ok gapSchema ∧
    ∃ pointer members, gapDocument.at? pointer = some (.object members) ∧
      Hollow gapDocument members ∧
      ∃ branch ∈ combinators.flatMap (branchesOf members), LeadsToEmptyList gapDocument branch := by
  have hdistinct : gapDocument.DistinctKeys := by decide
  obtain ⟨_, -, -, -, hunions, -⟩ := read_payloads hdistinct read_gapDocument
  obtain ⟨-, pointer, members, -, hvalue, hhollow, hempty⟩ := hunions 1 [] rfl
  exact ⟨hdistinct, read_gapDocument, pointer, members, hvalue, hhollow.mp rfl, hempty rfl⟩

/-- A union whose only branch has an empty list. -/
def emptyUnionDocument : Json :=
  .object [("anyOf", .array [.object [("oneOf", .array [])]])]

/-- A union may list nothing, since a list inside a branch may be empty. -/
theorem read_emptyUnion :
    Schema.read emptyUnionDocument = .ok { nodes := #[{ kind := .union [] }], root := 0 } := by
  cbv

end Schema

end SchemaBridge
