import SchemaBridge.Outline
import SchemaBridge.Proofs.PointerLaws
import SchemaBridge.Proofs.StepInversion

/-!
What the keywords of a schema object mean, said by rules. A reference, an enumeration and a
combinator exclude each other and come before `type`; `type` comes before the keywords that describe
parts. The branches of a combinator unfold to leaves from left to right, a reference standing for
its target and nested branches standing in place. Main statement: the outline that is read is the
one the rules give, and the types of a union are those of the leaves, each where it occurs first.
-/

namespace SchemaBridge

open Steps

namespace Keyword

def Lacks (members : Members) (keywords : List String) : Prop :=
  ∀ keyword ∈ keywords, members.lookup keyword = none

theorem Lacks.nil {members : Members} : Lacks members [] := by
  simp [Lacks]

theorem Lacks.cons {members : Members} {keyword : String} {keywords : List String}
    (h : members.lookup keyword = none) (hrest : Lacks members keywords) :
    Lacks members (keyword :: keywords) :=
  List.forall_mem_cons.mpr ⟨h, hrest⟩

/-- The types that `type` declares, each where it is named first. -/
inductive Declares (members : Members) : List JsonType → Prop
  | one {type : JsonType} (htype : members.lookup "type" = some (.string type.name)) :
      Declares members [type]
  | several {types : List JsonType}
      (htype : members.lookup "type" = some (.array (types.map fun type => .string type.name)))
      (hne : types ≠ []) : Declares members types.eraseDups

theorem isIn_eq_true {members : Members} {keyword : String} :
    isIn keyword members = true ↔ members.lookup keyword ≠ none := by
  rw [isIn, ← Option.isSome_iff_ne_none]

theorem isIn_eq_false {members : Members} {keyword : String} :
    isIn keyword members = false ↔ members.lookup keyword = none := by
  rw [isIn, Option.isSome_eq_false_iff, Option.isNone_iff_eq_none]

theorem filter_isIn_eq_nil {members : Members} {keywords : List String} :
    keywords.filter (isIn · members) = [] ↔ Lacks members keywords := by
  simp only [Lacks, isIn, List.filter_eq_nil_iff, Option.not_isSome_iff_eq_none]

theorem any_isIn_eq_false {members : Members} {keywords : List String} :
    keywords.any (isIn · members) = false ↔ Lacks members keywords := by
  simp only [Lacks, isIn, List.any_eq_false, Option.not_isSome_iff_eq_none]

theorem referencePointer_ok {reference pointer : String}
    (h : referencePointer reference = .ok pointer) :
    Pointer.ofReference? reference = some pointer := by
  unfold referencePointer at h
  split at h
  · cases h; assumption
  · cases h

/-- Appending what is new, one by one, keeps the first of each. -/
theorem foldl_append_new {α : Type} [DecidableEq α] (xs known : List α) :
    xs.foldl (fun known x => if x ∈ known then known else known ++ [x]) known =
      known ++ (xs.filter (· ∉ known)).eraseDups := by
  induction xs generalizing known with
  | nil => simp
  | cons x rest ih =>
      rw [List.foldl_cons, ih]
      split
      · rename_i hmem
        rw [List.filter_cons_of_neg (by simpa using hmem)]
      · rename_i hmem
        rw [List.filter_cons_of_pos (by simpa using hmem), List.eraseDups_cons, List.filter_filter,
          List.append_assoc, List.singleton_append]
        congr 3
        apply List.filter_congr
        intro y _
        rw [Bool.eq_iff_iff]
        simp [and_comm]

theorem foldl_addType_nil (types : List JsonType) : types.foldl addType [] = types.eraseDups := by
  have h := foldl_append_new types []
  rwa [List.nil_append, List.filter_eq_self.mpr (by simp)] at h

theorem nodup_eraseDups (types : List JsonType) : types.eraseDups.Nodup := by
  rw [← foldl_addType_nil]
  have hkeeps : ∀ known : List JsonType, known.Nodup → (types.foldl addType known).Nodup := by
    intro known hknown
    induction types generalizing known with
    | nil => exact hknown
    | cons type rest ih => exact ih _ (nodup_addType hknown)
  exact hkeeps [] List.nodup_nil

theorem Declares.nodup {members : Members} {types : List JsonType} (h : Declares members types) :
    types.Nodup := by
  cases h with
  | one => exact List.pairwise_singleton _ _
  | several => exact nodup_eraseDups _

theorem typeNamed_ok {pointer name : String} {type : JsonType}
    (h : typeNamed pointer name = .ok type) : name = type.name := by
  unfold typeNamed at h
  split at h
  · rename_i hfound
    cases h
    have hname := List.find?_some hfound
    exact (eq_of_beq hname).symm
  · cases h

theorem addTypesNamed_ok {pointer : String} {names : List Json} {known found : List JsonType}
    (h : addTypesNamed pointer names known = .ok found) :
    ∃ types : List JsonType, names = types.map (fun type => .string type.name) ∧
      found = types.foldl addType known := by
  induction names generalizing known with
  | nil => cases h; exact ⟨[], rfl, rfl⟩
  | cons value rest ih =>
      cases value with
      | string name =>
          rw [addTypesNamed] at h
          obtain ⟨type, hname, h⟩ := of_bind_ok h
          obtain ⟨types, rfl, rfl⟩ := ih h
          exact ⟨type :: types, by rw [List.map_cons, ← typeNamed_ok hname], rfl⟩
      | _ => cases h

theorem typesNamed_ok {members : Members} {pointer : String} {names : List Json}
    {types : List JsonType} (hnames : members.lookup "type" = some (.array names))
    (h : typesNamed pointer names = .ok types) : Declares members types := by
  unfold typesNamed at h
  split at h
  · cases h
  · rename_i hne
    obtain ⟨named, rfl, rfl⟩ := addTypesNamed_ok h
    rw [foldl_addType_nil]
    refine .several hnames ?_
    rintro rfl
    exact hne rfl

end Keyword

namespace UnionTypes

/-- The branches that a combinator holds inside a branch. One that holds no list is passed over. -/
def branchesOf (members : Members) (keyword : String) : List Json :=
  match members.lookup keyword with
  | some (.array branches) => branches
  | _ => []

/-- The types that a leaf has by itself. -/
inductive LeafTypes (members : Members) : List JsonType → Prop
  | declared {types : List JsonType} (htypes : Keyword.Declares members types) :
      LeafTypes members types
  | object (htype : members.lookup "type" = none) (hproperties : members.lookup "properties" ≠ none) :
      LeafTypes members [.object]
  | array (htype : members.lookup "type" = none) (hproperties : members.lookup "properties" = none)
      (hitems : members.lookup "items" ≠ none) : LeafTypes members [.array]

/-- The types of the leaves that a list of branches unfolds to, from left to right. -/
inductive Unfolds (document : Json) : List Json → List JsonType → Prop
  | nil : Unfolds document [] []
  | reference {members : Members} {rest : List Json} {reference pointer : String} {target : Json}
      {types : List JsonType} (href : members.lookup "$ref" = some (.string reference))
      (hpointer : Pointer.ofReference? reference = some pointer)
      (htarget : document.at? pointer = some target)
      (hrest : Unfolds document (target :: rest) types) :
      Unfolds document (.object members :: rest) types
  | nested {members : Members} {rest branches : List Json} {keyword : String}
      {types : List JsonType} (href : members.lookup "$ref" = none)
      (hkeyword : keyword ∈ combinators) (hlist : members.lookup keyword = some (.array branches))
      (hrest : Unfolds document (combinators.flatMap (branchesOf members) ++ rest) types) :
      Unfolds document (.object members :: rest) types
  | leaf {members : Members} {rest : List Json} {types types' : List JsonType}
      (href : members.lookup "$ref" = none)
      (hplain : ∀ keyword ∈ combinators, ∀ branches, members.lookup keyword ≠ some (.array branches))
      (hleaf : LeafTypes members types) (hrest : Unfolds document rest types') :
      Unfolds document (.object members :: rest) (types ++ types')

theorem Unfolds.append {document : Json} {xs ys : List Json} {types types' : List JsonType}
    (hx : Unfolds document xs types) (hy : Unfolds document ys types') :
    Unfolds document (xs ++ ys) (types ++ types') := by
  induction hx with
  | nil => exact hy
  | reference hr hp ht _ ih => exact .reference hr hp ht ih
  | nested hr hk hl _ ih => exact .nested hr hk hl (by rwa [List.append_assoc] at ih)
  | leaf hr hn hl _ ih =>
      rw [List.append_assoc]
      exact .leaf hr hn hl ih

/-- What a reader of branches adds is what the branches unfold to. -/
def Adds (document : Json) (read : BranchReader) : Prop :=
  ∀ {pointer : String} {branch : Json} {known found : List JsonType},
    read pointer branch known = .ok found →
    ∃ types, Unfolds document [branch] types ∧ found = types.foldl Keyword.addType known

theorem addBranches_ok {document : Json} {read : BranchReader} (hread : Adds document read)
    {base : String} {index : Nat} {branches : List Json} {known found : List JsonType}
    (h : addBranches read base index branches known = .ok found) :
    ∃ types, Unfolds document branches types ∧ found = types.foldl Keyword.addType known := by
  induction branches generalizing index known with
  | nil => cases h; exact ⟨[], .nil, rfl⟩
  | cons branch rest ih =>
      rw [addBranches] at h
      obtain ⟨first, hb, h⟩ := of_bind_ok h
      obtain ⟨types, hfirst, rfl⟩ := hread hb
      obtain ⟨types', hrest, rfl⟩ := ih h
      exact ⟨types ++ types', hfirst.append hrest, by rw [List.foldl_append]⟩

theorem declared_ok {members : Members} {pointer : String} {types : List JsonType}
    (h : declared members pointer = .ok types) : LeafTypes members types := by
  unfold declared at h
  split at h
  · rename_i name htype
    obtain ⟨type, hn, h⟩ := of_bind_ok h
    cases h
    exact .declared (.one (by rw [htype, Keyword.typeNamed_ok hn]))
  · exact .declared (Keyword.typesNamed_ok ‹_› h)
  · cases h
  · rename_i htype
    split at h
    · rename_i hproperties
      cases h
      exact .object htype (Keyword.isIn_eq_true.mp hproperties)
    · rename_i hproperties
      split at h
      · rename_i hitems
        cases h
        exact .array htype (Keyword.isIn_eq_false.mp (eq_false_of_ne_true hproperties))
          (Keyword.isIn_eq_true.mp hitems)
      · cases h

theorem flatMap_nested (members : Members) :
    (nested members).flatMap Prod.snd = combinators.flatMap (branchesOf members) := by
  rw [nested]
  induction combinators with
  | nil => rfl
  | cons keyword rest ih =>
      rw [List.flatMap_cons, ← ih, branchesOf]
      cases hkeyword : members.lookup keyword with
      | none => rw [List.filterMap_cons_none (by rw [hkeyword]), List.nil_append]
      | some value =>
          cases value with
          | array branches =>
              rw [List.filterMap_cons_some (by rw [hkeyword]), List.flatMap_cons]
          | _ => rw [List.filterMap_cons_none (by rw [hkeyword]), List.nil_append]

theorem mem_nested {members : Members} {keyword : String} {branches : List Json} :
    (keyword, branches) ∈ nested members ↔
      keyword ∈ combinators ∧ members.lookup keyword = some (.array branches) := by
  rw [nested, List.mem_filterMap]
  constructor
  · rintro ⟨k, hk, h⟩
    split at h
    · cases h; exact ⟨hk, ‹_›⟩
    · cases h
  · rintro ⟨hk, h⟩
    exact ⟨keyword, hk, by rw [h]⟩

/-- Branch lists one after the other unfold to the leaves of all of them. -/
theorem foldlM_addBranches_ok {document : Json} {read : BranchReader} (hread : Adds document read)
    {pointer : String} {lists : List (String × List Json)} {known found : List JsonType}
    (h : lists.foldlM (fun types (keyword, branches) =>
      addBranches read (Pointer.child pointer keyword) 0 branches types) known = .ok found) :
    ∃ types, Unfolds document (lists.flatMap Prod.snd) types ∧
      found = types.foldl Keyword.addType known := by
  induction lists generalizing known with
  | nil => cases h; exact ⟨[], .nil, rfl⟩
  | cons list rest ih =>
      obtain ⟨keyword, branches⟩ := list
      rw [List.foldlM_cons] at h
      obtain ⟨first, hb, h⟩ := of_bind_ok h
      obtain ⟨types, hfirst, rfl⟩ := addBranches_ok hread hb
      obtain ⟨types', hrest, rfl⟩ := ih h
      exact ⟨types ++ types', hfirst.append hrest, by rw [List.foldl_append]⟩

theorem Unfolds.of_leaf {document : Json} {members : Members} {types : List JsonType}
    (href : members.lookup "$ref" = none) (hnested : UnionTypes.nested members = [])
    (hleaf : LeafTypes members types) : Unfolds document [.object members] types := by
  have hplain : ∀ keyword ∈ combinators, ∀ branches,
      members.lookup keyword ≠ some (.array branches) := by
    intro keyword hk branches hb
    have hmem := mem_nested.mpr ⟨hk, hb⟩
    rw [hnested] at hmem
    cases hmem
  have h : Unfolds document [.object members] (types ++ []) := .leaf href hplain hleaf .nil
  rwa [List.append_nil] at h

/-- A branch with branch lists unfolds to what they do. -/
theorem Unfolds.of_nested {document : Json} {members : Members} {types : List JsonType}
    (href : members.lookup "$ref" = none) (hnested : UnionTypes.nested members ≠ [])
    (h : Unfolds document ((UnionTypes.nested members).flatMap Prod.snd) types) :
    Unfolds document [.object members] types := by
  obtain ⟨⟨keyword, branches⟩, hmem⟩ := List.exists_mem_of_ne_nil _ hnested
  obtain ⟨hk, hb⟩ := mem_nested.mp hmem
  rw [flatMap_nested] at h
  exact .nested href hk hb (by rwa [List.append_nil])

theorem addBranch_ok {document : Json} (budget : Nat) :
    ∀ followed, Adds document (addBranch document budget followed) := by
  induction budget with
  | zero => intro _ _ _ _ _ h; cases h
  | succ budget ih =>
      intro followed pointer branch known found h
      cases branch with
      | object members =>
          rw [addBranch] at h
          split at h
          · rename_i reference href
            split at h
            · cases h
            · obtain ⟨target, hp, h⟩ := of_bind_ok h
              split at h
              · rename_i value htarget
                obtain ⟨types, hunfolds, rfl⟩ := ih _ h
                have hpointer := Keyword.referencePointer_ok hp
                exact ⟨types, .reference href hpointer htarget hunfolds, rfl⟩
              · cases h
          · cases h
          · rename_i href
            split at h
            · rename_i hnested
              obtain ⟨types, hd, h⟩ := of_bind_ok h
              cases h
              exact ⟨types, .of_leaf href hnested (declared_ok hd), rfl⟩
            · rename_i hnested
              obtain ⟨types, hunfolds, rfl⟩ := foldlM_addBranches_ok (ih followed) h
              exact ⟨types, .of_nested href hnested hunfolds, rfl⟩
      | _ => cases h

/-- The combinators of an object, one after the other, each holding at least one branch. -/
theorem foldlM_read_ok {document : Json} {members : Members} {pointer : String}
    {keywords : List String} {known found : List JsonType}
    (h : keywords.foldlM (fun types keyword =>
      match members.lookup keyword with
      | none => (.ok types : Except SchemaError (List JsonType))
      | some (.array (branch :: rest)) =>
        addBranches (addBranch document (maxDepth document) []) (Pointer.child pointer keyword) 0
          (branch :: rest) types
      | some _ => .error (.invalidKeyword pointer keyword .nonEmptyArray)) known = .ok found) :
    (∃ types, Unfolds document (keywords.flatMap (branchesOf members)) types ∧
      found = types.foldl Keyword.addType known) ∧
    ∀ keyword ∈ keywords, members.lookup keyword = none ∨
      ∃ branch rest, members.lookup keyword = some (.array (branch :: rest)) := by
  induction keywords generalizing known with
  | nil => cases h; exact ⟨⟨[], .nil, rfl⟩, by simp⟩
  | cons keyword keywords ih =>
      rw [List.foldlM_cons] at h
      rw [List.flatMap_cons, branchesOf]
      cases hkeyword : members.lookup keyword with
      | none =>
          simp only [hkeyword] at h
          obtain ⟨hleaves, hlists⟩ := ih h
          exact ⟨by rwa [List.nil_append], List.forall_mem_cons.mpr ⟨.inl hkeyword, hlists⟩⟩
      | some value =>
          simp only [hkeyword] at h
          cases value with
          | array branches =>
              cases branches with
              | nil => cases h
              | cons branch rest =>
                  obtain ⟨first, hb, h⟩ := of_bind_ok h
                  obtain ⟨types, hfirst, rfl⟩ := addBranches_ok (addBranch_ok _ _) hb
                  obtain ⟨⟨types', hrest, rfl⟩, hlists⟩ := ih h
                  refine ⟨⟨types ++ types', hfirst.append hrest, by rw [List.foldl_append]⟩, ?_⟩
                  exact List.forall_mem_cons.mpr ⟨.inr ⟨branch, rest, hkeyword⟩, hlists⟩
          | _ => cases h

end UnionTypes

/-- The outline of a schema object, by its keywords. -/
inductive Outlines (document : Json) (members : Members) : Outline → Prop
  | reference {reference : String} (href : members.lookup "$ref" = some (.string reference))
      (hothers : Keyword.Lacks members ["enum", "oneOf", "anyOf"]) :
      Outlines document members (.leaf (.reference reference none))
  | enumeration {literals : List Json} (henum : members.lookup "enum" = some (.array literals))
      (hliterals : literals ≠ []) (hothers : Keyword.Lacks members ["$ref", "oneOf", "anyOf"]) :
      Outlines document members (.leaf (.enumeration literals))
  | combinator {leaves : List JsonType} (hothers : Keyword.Lacks members ["$ref", "enum"])
      (hsome : ¬Keyword.Lacks members ["oneOf", "anyOf"])
      (hlists : ∀ keyword ∈ ["oneOf", "anyOf"], members.lookup keyword = none ∨
        ∃ branch rest, members.lookup keyword = some (.array (branch :: rest)))
      (hleaves : UnionTypes.Unfolds document
        (["oneOf", "anyOf"].flatMap (UnionTypes.branchesOf members)) leaves) :
      Outlines document members (.leaf (.union leaves.eraseDups))
  | several {types : List JsonType} (hothers : Keyword.Lacks members Outline.deciding)
      (htypes : Keyword.Declares members types) (hlength : types.length ≠ 1) :
      Outlines document members (.leaf (.union types))
  | primitive {type : Primitive} (hothers : Keyword.Lacks members Outline.deciding)
      (htype : Keyword.Declares members [.primitive type])
      (hparts : Keyword.Lacks members ["properties", "items", "allOf"]) :
      Outlines document members (.leaf (.primitive type))
  | object (hothers : Keyword.Lacks members Outline.deciding)
      (htype : Keyword.Declares members [.object]) : Outlines document members .object
  | array (hothers : Keyword.Lacks members Outline.deciding)
      (htype : Keyword.Declares members [.array]) : Outlines document members .array
  | impliedObject (hothers : Keyword.Lacks members Outline.deciding)
      (htype : members.lookup "type" = none)
      (hparts : ¬Keyword.Lacks members ["properties", "required", "allOf"]) :
      Outlines document members .object
  | impliedArray (hothers : Keyword.Lacks members Outline.deciding)
      (htype : members.lookup "type" = none)
      (hparts : Keyword.Lacks members ["properties", "required", "allOf"])
      (hitems : members.lookup "items" ≠ none) : Outlines document members .array
  | untyped (hothers : Keyword.Lacks members Outline.deciding)
      (htype : members.lookup "type" = none)
      (hparts : Keyword.Lacks members ["properties", "required", "allOf"])
      (hitems : members.lookup "items" = none) : Outlines document members (.leaf .untyped)

namespace Outline

theorem ofType_ok {document : Json} {members : Members} {pointer : String} {type : JsonType}
    {outline : Outline} (hothers : Keyword.Lacks members deciding)
    (htype : Keyword.Declares members [type]) (h : ofType members pointer type = .ok outline) :
    Outlines document members outline := by
  cases type with
  | object => cases h; exact .object hothers htype
  | array => cases h; exact .array hothers htype
  | primitive type =>
      rw [ofType] at h
      split at h
      · cases h
      · rename_i hnone
        cases h
        refine .primitive hothers htype fun keyword hk => ?_
        exact Keyword.isIn_eq_false.mp (eq_false_of_ne_true (List.find?_eq_none.mp hnone keyword hk))

theorem ofDeclaredType_ok {document : Json} {members : Members} {pointer : String}
    {outline : Outline} (hothers : Keyword.Lacks members deciding)
    (h : ofDeclaredType members pointer = .ok outline) : Outlines document members outline := by
  unfold ofDeclaredType at h
  split at h
  · rename_i name htype
    obtain ⟨type, hn, h⟩ := of_bind_ok h
    exact ofType_ok hothers (.one (by rw [htype, Keyword.typeNamed_ok hn])) h
  · rename_i names htype
    obtain ⟨types, hn, h⟩ := of_bind_ok h
    have htypes := Keyword.typesNamed_ok htype hn
    split at h
    · exact ofType_ok hothers htypes h
    · rename_i hlength
      cases h
      refine .several hothers htypes fun hone => ?_
      obtain ⟨type, rfl⟩ := List.length_eq_one_iff.mp hone
      exact hlength type rfl
  · cases h
  · rename_i htype
    split at h
    · rename_i hparts
      cases h
      refine .impliedObject hothers htype fun hlacks => ?_
      rw [Keyword.any_isIn_eq_false.mpr hlacks] at hparts
      cases hparts
    · rename_i hparts
      have hlacks := Keyword.any_isIn_eq_false.mp (eq_false_of_ne_true hparts)
      split at h
      · cases h
        exact .impliedArray hothers htype hlacks (Keyword.isIn_eq_true.mp ‹_›)
      · cases h
        exact .untyped hothers htype hlacks (Keyword.isIn_eq_false.mp (eq_false_of_ne_true ‹_›))

/-- The outline that is read is the one that the rules give. -/
theorem read_ok {document : Json} {members : Members} {pointer : String} {outline : Outline}
    (h : read document members pointer = .ok outline) : Outlines document members outline := by
  unfold read at h
  split at h
  · rename_i href henum hcombinators
    exact ofDeclaredType_ok (.cons href (.cons henum (Keyword.filter_isIn_eq_nil.mp hcombinators))) h
  · rename_i reference href henum hcombinators
    cases h
    exact .reference href (.cons henum (Keyword.filter_isIn_eq_nil.mp hcombinators))
  · cases h
  · rename_i literal rest href henum hcombinators
    cases h
    exact .enumeration henum (List.cons_ne_nil _ _)
      (.cons href (Keyword.filter_isIn_eq_nil.mp hcombinators))
  · cases h
  · rename_i href henum hcombinators
    obtain ⟨types, hu, h⟩ := of_bind_ok h
    cases h
    obtain ⟨⟨leaves, hleaves, rfl⟩, hlists⟩ := UnionTypes.foldlM_read_ok hu
    rw [Keyword.foldl_addType_nil]
    exact .combinator (.cons href (.cons henum .nil))
      (fun hlacks => hcombinators (Keyword.filter_isIn_eq_nil.mpr hlacks)) hlists hleaves
  · cases h

end Outline

end SchemaBridge
