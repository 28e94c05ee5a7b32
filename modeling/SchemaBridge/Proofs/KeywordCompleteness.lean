import Mathlib.Order.Nat
import SchemaBridge.Proofs.DocumentSize
import SchemaBridge.Proofs.KeywordPrecedence

/-!
Every outline that the rules give is read. For most keywords this is a matter of looking them up.
The branches of a combinator unfold in a number of steps that is determined by the branches, so a
reference that is followed while it is followed already would take more steps than itself, and the
depth of the unfolding stays below the budget because no text is followed twice. Main statement: an
outline is read from an object of a document exactly if the rules give it.
-/

namespace SchemaBridge

namespace Keyword

theorem typeNamed_name (pointer : String) (type : JsonType) :
    typeNamed pointer type.name = .ok type := by
  rw [typeNamed, JsonType.ofName?_name]

theorem addTypesNamed_names (pointer : String) (types known : List JsonType) :
    addTypesNamed pointer (types.map fun type => .string type.name) known =
      .ok (types.foldl addType known) := by
  induction types generalizing known with
  | nil => rfl
  | cons type rest ih =>
      rw [List.map_cons, addTypesNamed, typeNamed_name]
      exact ih (addType known type)

theorem typesNamed_names (pointer : String) {types : List JsonType} (hne : types ≠ []) :
    typesNamed pointer (types.map fun type => .string type.name) = .ok types.eraseDups := by
  rw [typesNamed, if_neg (by simpa using hne), addTypesNamed_names, foldl_addType_nil]

end Keyword

namespace UnionTypes

theorem declared_of_leafTypes {members : Members} {types : List JsonType}
    (h : LeafTypes members types) (pointer : String) : declared members pointer = .ok types := by
  unfold declared
  cases h with
  | declared htypes =>
      cases htypes with
      | one htype =>
          simp only [htype, Keyword.typeNamed_name]
          rfl
      | several htype hne =>
          simp only [htype]
          exact Keyword.typesNamed_names pointer hne
  | object htype hproperties =>
      simp only [htype, Keyword.isIn_eq_true.mpr hproperties, if_true]
  | array htype hproperties hitems =>
      simp only [htype, Keyword.isIn_eq_false.mpr hproperties, Keyword.isIn_eq_true.mpr hitems,
        if_true]
      rfl

/-- A list of branches unfolds to leaves of these types in a number of steps, each at the first
branch. -/
inductive UnfoldsIn (document : Json) : Nat → List Json → List JsonType → Prop
  | nil : UnfoldsIn document 0 [] []
  | reference {steps : Nat} {members : Members} {rest : List Json} {reference pointer : String}
      {target : Json} {types : List JsonType}
      (href : members.lookup "$ref" = some (.string reference))
      (hpointer : Pointer.ofReference? reference = some pointer)
      (htarget : document.at? pointer = some target)
      (hrest : UnfoldsIn document steps (target :: rest) types) :
      UnfoldsIn document (steps + 1) (.object members :: rest) types
  | nested {steps : Nat} {members : Members} {rest : List Json} {types : List JsonType}
      (href : members.lookup "$ref" = none) (hnested : UnionTypes.nested members ≠ [])
      (hrest : UnfoldsIn document steps
        ((UnionTypes.nested members).flatMap Prod.snd ++ rest) types) :
      UnfoldsIn document (steps + 1) (.object members :: rest) types
  | leaf {steps : Nat} {members : Members} {rest : List Json} {types types' : List JsonType}
      (href : members.lookup "$ref" = none) (hnested : UnionTypes.nested members = [])
      (hleaf : declared members "" = .ok types) (hrest : UnfoldsIn document steps rest types') :
      UnfoldsIn document (steps + 1) (.object members :: rest) (types ++ types')

theorem nested_eq_nil {members : Members} : nested members = [] ↔
    ∀ keyword ∈ combinators, ∀ branches, members.lookup keyword ≠ some (.array branches) := by
  constructor
  · intro hnested keyword hk branches hb
    have hmem := mem_nested.mpr ⟨hk, hb⟩
    rw [hnested] at hmem
    cases hmem
  · intro hplain
    apply List.eq_nil_iff_forall_not_mem.mpr
    rintro ⟨keyword, branches⟩ hmem
    obtain ⟨hk, hb⟩ := mem_nested.mp hmem
    exact hplain keyword hk branches hb

variable {document : Json}

theorem Unfolds.counted {branches : List Json} {types : List JsonType}
    (h : Unfolds document branches types) : ∃ steps, UnfoldsIn document steps branches types := by
  induction h with
  | nil => exact ⟨0, .nil⟩
  | reference href hpointer htarget _ ih =>
      obtain ⟨steps, hrest⟩ := ih
      exact ⟨steps + 1, .reference href hpointer htarget hrest⟩
  | nested href hk hb _ ih =>
      obtain ⟨steps, hrest⟩ := ih
      rw [← flatMap_nested] at hrest
      exact ⟨steps + 1, .nested href (List.ne_nil_of_mem (mem_nested.mpr ⟨hk, hb⟩)) hrest⟩
  | leaf href hplain hleaf _ ih =>
      obtain ⟨steps, hrest⟩ := ih
      have hdeclared := declared_of_leafTypes hleaf ""
      exact ⟨steps + 1, .leaf href (nested_eq_nil.mpr hplain) hdeclared hrest⟩

/-- Branches unfold in one way. -/
theorem UnfoldsIn.unique {steps steps' : Nat} {branches : List Json} {types types' : List JsonType}
    (h : UnfoldsIn document steps branches types)
    (h' : UnfoldsIn document steps' branches types') : steps = steps' ∧ types = types' := by
  induction h generalizing steps' types' with
  | nil =>
      cases h'
      exact ⟨rfl, rfl⟩
  | reference href hpointer htarget _ ih =>
      cases h' with
      | reference href' hpointer' htarget' hrest' =>
          rw [href] at href'
          cases href'
          rw [hpointer] at hpointer'
          cases hpointer'
          rw [htarget] at htarget'
          cases htarget'
          obtain ⟨rfl, rfl⟩ := ih hrest'
          exact ⟨rfl, rfl⟩
      | nested href' => rw [href] at href'; cases href'
      | leaf href' => rw [href] at href'; cases href'
  | nested href hnested _ ih =>
      cases h' with
      | reference href' => rw [href] at href'; cases href'
      | nested href' _ hrest' =>
          obtain ⟨rfl, rfl⟩ := ih hrest'
          exact ⟨rfl, rfl⟩
      | leaf _ hnested' => exact (hnested hnested').elim
  | leaf href hnested hleaf _ ih =>
      cases h' with
      | reference href' => rw [href] at href'; cases href'
      | nested _ hnested' => exact (hnested' hnested).elim
      | leaf _ _ hleaf' hrest' =>
          rw [hleaf] at hleaf'
          cases hleaf'
          obtain ⟨rfl, rfl⟩ := ih hrest'
          exact ⟨rfl, rfl⟩

/-- Branches one after the other unfold one after the other. -/
theorem UnfoldsIn.split {steps : Nat} {xs ys : List Json} {types : List JsonType}
    (h : UnfoldsIn document steps (xs ++ ys) types) :
    ∃ first second types₁ types₂, UnfoldsIn document first xs types₁ ∧
      UnfoldsIn document second ys types₂ ∧ steps = first + second ∧ types = types₁ ++ types₂ := by
  induction steps generalizing xs types with
  | zero =>
      cases xs with
      | nil => exact ⟨0, 0, [], types, .nil, h, rfl, rfl⟩
      | cons x xs => cases h
  | succ steps ih =>
      cases xs with
      | nil => exact ⟨0, steps + 1, [], types, .nil, h, by omega, rfl⟩
      | cons x xs =>
          cases h with
          | @reference _ _ _ _ _ target _ href hpointer htarget hrest =>
              have hrest' : UnfoldsIn document steps ((target :: xs) ++ ys) types := hrest
              obtain ⟨first, second, types₁, types₂, hx, hy, hsteps, htypes⟩ := ih hrest'
              exact ⟨first + 1, second, types₁, types₂, .reference href hpointer htarget hx, hy,
                by omega, htypes⟩
          | nested href hnested hrest =>
              have hrest' := (List.append_assoc _ xs ys).symm ▸ hrest
              obtain ⟨first, second, types₁, types₂, hx, hy, hsteps, htypes⟩ := ih hrest'
              exact ⟨first + 1, second, types₁, types₂, .nested href hnested hx, hy, by omega,
                htypes⟩
          | @leaf _ _ _ own _ href hnested hleaf hrest =>
              obtain ⟨first, second, types₁, types₂, hx, hy, hsteps, rfl⟩ := ih hrest
              exact ⟨first + 1, second, own ++ types₁, types₂, .leaf href hnested hleaf hx, hy,
                by omega, (List.append_assoc _ _ _).symm⟩

/-- What a reader of branches has to add when the branch unfolds in at most so many steps. -/
def AddsWithin (document : Json) (read : BranchReader) (bound : Nat) (branch : Json) : Prop :=
  ∀ (steps : Nat) (types known : List JsonType) (pointer : String), steps ≤ bound →
    UnfoldsIn document steps [branch] types →
    read pointer branch known = .ok (types.foldl Keyword.addType known)

theorem addBranches_of_unfoldsIn {read : BranchReader} {bound : Nat} {base : String}
    {branches : List Json} (hread : ∀ branch ∈ branches, AddsWithin document read bound branch)
    {index steps : Nat} {types known : List JsonType} (hbound : steps ≤ bound)
    (h : UnfoldsIn document steps branches types) :
    addBranches read base index branches known = .ok (types.foldl Keyword.addType known) := by
  induction branches generalizing index steps types known with
  | nil =>
      cases h
      rfl
  | cons branch rest ih =>
      obtain ⟨hbranch, hrest⟩ := List.forall_mem_cons.mp hread
      have hsplit : UnfoldsIn document steps ([branch] ++ rest) types := h
      obtain ⟨first, second, types₁, types₂, hfirst, hsecond, rfl, rfl⟩ := hsplit.split
      rw [addBranches, hbranch first types₁ known _ (by omega) hfirst, List.foldl_append]
      exact ih hrest (by omega) hsecond

theorem foldlM_addBranches_of_unfoldsIn {read : BranchReader} {bound : Nat} {pointer : String}
    {lists : List (String × List Json)}
    (hread : ∀ list ∈ lists, ∀ branch ∈ list.2, AddsWithin document read bound branch)
    {steps : Nat} {types known : List JsonType} (hbound : steps ≤ bound)
    (h : UnfoldsIn document steps (lists.flatMap Prod.snd) types) :
    lists.foldlM (fun types (keyword, branches) =>
      addBranches read (Pointer.child pointer keyword) 0 branches types) known =
        .ok (types.foldl Keyword.addType known) := by
  induction lists generalizing steps types known with
  | nil =>
      cases h
      rfl
  | cons list rest ih =>
      obtain ⟨keyword, branches⟩ := list
      obtain ⟨hlist, hrest⟩ := List.forall_mem_cons.mp hread
      rw [List.flatMap_cons] at h
      obtain ⟨first, second, types₁, types₂, hfirst, hsecond, rfl, rfl⟩ := h.split
      have hbranches : addBranches read (Pointer.child pointer keyword) 0 branches known =
          .ok (types₁.foldl Keyword.addType known) :=
        addBranches_of_unfoldsIn hlist (by omega) hfirst
      simp only [List.foldlM_cons, hbranches, List.foldl_append]
      exact ih hrest (by omega) hsecond

/-! ### The budget -/

/-- How many texts of a document are not among those that were followed. -/
def unfollowed (document : Json) (followed : List String) : Nat :=
  document.texts.countP fun text => decide (text ∉ followed)

theorem unfollowed_le_size (document : Json) (followed : List String) :
    unfollowed document followed ≤ document.size :=
  List.countP_le_length.trans document.length_texts_le

theorem unfollowed_cons_lt {followed : List String} {text : String}
    (hmem : text ∈ document.texts) (hfresh : text ∉ followed) :
    unfollowed document (text :: followed) < unfollowed document followed := by
  apply countP_lt_countP _ hmem (by simp) (by simpa using hfresh)
  intro other hother
  simp only [List.mem_cons, not_or, decide_eq_true_eq] at hother ⊢
  exact hother.2

/-- How much unfolding a branch may still take: the references that were not followed count more
than any branch. -/
def depthLeft (document : Json) (followed : List String) (branch : Json) : Nat :=
  unfollowed document followed * (document.size + 1) + branch.size

theorem depthLeft_le_maxDepth {branch : Json} (hbranch : branch.size ≤ document.size) :
    depthLeft document [] branch ≤ maxDepth document := by
  have hle := Nat.mul_le_mul_right (document.size + 1) (unfollowed_le_size document [])
  rw [depthLeft, maxDepth, Nat.succ_mul]
  omega

theorem depthLeft_target_lt {followed : List String} {text : String} {branch target : Json}
    (hmem : text ∈ document.texts) (hfresh : text ∉ followed)
    (htarget : target.size ≤ document.size) :
    depthLeft document (text :: followed) target < depthLeft document followed branch := by
  have hle := Nat.mul_le_mul_right (document.size + 1) (unfollowed_cons_lt hmem hfresh)
  rw [Nat.succ_mul] at hle
  rw [depthLeft, depthLeft]
  omega

/-- The references that were followed lead to targets that take at least so many steps. -/
def FollowedFrom (document : Json) (followed : List String) (steps : Nat) : Prop :=
  ∀ text ∈ followed, ∀ pointer target, Pointer.ofReference? text = some pointer →
    document.at? pointer = some target →
    ∀ {taken : Nat} {types : List JsonType}, UnfoldsIn document taken [target] types → steps ≤ taken

theorem FollowedFrom.mono {followed : List String} {steps steps' : Nat}
    (h : FollowedFrom document followed steps) (hle : steps' ≤ steps) :
    FollowedFrom document followed steps' := by
  intro text htext pointer target hpointer htarget taken types htaken
  exact hle.trans (h text htext pointer target hpointer htarget htaken)

/-- A branch that unfolds is read, as long as the budget exceeds what it may take. -/
theorem addBranch_of_unfoldsIn {budget : Nat} : ∀ {followed : List String} {branch : Json}
    {bound : Nat}, document.Within branch → FollowedFrom document followed bound →
    depthLeft document followed branch ≤ budget →
    AddsWithin document (addBranch document budget followed) bound branch := by
  induction budget with
  | zero =>
      intro followed branch _ _ _ hbudget
      have hpos := branch.size_pos
      rw [depthLeft] at hbudget
      omega
  | succ budget ih =>
      intro followed branch bound hwithin hfollowed hbudget steps types known pointer hbound h
      cases h with
      | @reference steps members _ reference place target _ href hpointer htarget hrest =>
          have htext := hwithin.text_mem href
          have hfresh : reference ∉ followed := by
            intro hmem
            have hle := hfollowed reference hmem place target hpointer htarget hrest
            omega
          have hnext : FollowedFrom document (reference :: followed) steps := by
            intro text hmem pointer' target' hpointer' htarget' taken types' htaken
            rcases List.mem_cons.mp hmem with rfl | hmem
            · rw [hpointer] at hpointer'
              cases hpointer'
              rw [htarget] at htarget'
              cases htarget'
              exact (hrest.unique htaken).1.le
            · have hle := hfollowed text hmem pointer' target' hpointer' htarget' htaken
              omega
          have hinside := Json.within_of_at? htarget
          have hdepth : depthLeft document (reference :: followed) target <
              depthLeft document followed (.object members) :=
            depthLeft_target_lt htext hfresh hinside.size_le
          have hread := ih hinside hnext (by omega) steps types known place le_rfl hrest
          simp only [addBranch, href, if_neg hfresh, Keyword.referencePointer, hpointer, bind,
            Except.bind, htarget]
          exact hread
      | @nested steps members _ _ href hnested hrest =>
          rw [List.append_nil] at hrest
          have hread : ∀ list ∈ nested members, ∀ branch ∈ list.2,
              AddsWithin document (addBranch document budget followed) steps branch := by
            rintro ⟨keyword, branches⟩ hlist branch hbranch
            obtain ⟨-, hlookup⟩ := mem_nested.mp hlist
            have hinside := (hwithin.member hlookup).element hbranch
            have hsize := Json.size_le_sizeElements hbranch
            have hsize' := Json.size_le_sizeMembers hlookup
            rw [Json.size] at hsize'
            apply ih hinside (hfollowed.mono (by omega))
            simp only [depthLeft, Json.size] at hbudget ⊢
            simp only at hsize
            omega
          simpa only [addBranch, href] using foldlM_addBranches_of_unfoldsIn hread le_rfl hrest
      | @leaf _ members _ own _ href hnested hleaf hrest =>
          cases hrest
          have hdeclared := declared_of_leafTypes (declared_ok hleaf) pointer
          simp only [addBranch, href, hnested, hdeclared, List.append_nil]
          rfl

/-- The combinators of an object are read to the types of their leaves. -/
theorem foldlM_read_of_unfoldsIn {members : Members} {pointer : String}
    (hwithin : document.Within (.object members)) {keywords : List String}
    (hlists : ∀ keyword ∈ keywords, members.lookup keyword = none ∨
      ∃ branch rest, members.lookup keyword = some (.array (branch :: rest)))
    {steps : Nat} {types known : List JsonType}
    (h : UnfoldsIn document steps (keywords.flatMap (branchesOf members)) types) :
    keywords.foldlM (fun types keyword =>
      match members.lookup keyword with
      | none => (.ok types : Except SchemaError (List JsonType))
      | some (.array (branch :: rest)) =>
        addBranches (addBranch document (maxDepth document) []) (Pointer.child pointer keyword) 0
          (branch :: rest) types
      | some _ => .error (.invalidKeyword pointer keyword .nonEmptyArray)) known =
        .ok (types.foldl Keyword.addType known) := by
  induction keywords generalizing steps types known with
  | nil =>
      cases h
      rfl
  | cons keyword keywords ih =>
      obtain ⟨hkeyword, hlists⟩ := List.forall_mem_cons.mp hlists
      rw [List.flatMap_cons, branchesOf] at h
      rw [List.foldlM_cons]
      rcases hkeyword with hnone | ⟨branch, rest, hsome⟩
      · simp only [hnone, List.nil_append] at h ⊢
        exact ih hlists h
      · simp only [hsome] at h ⊢
        obtain ⟨first, second, types₁, types₂, hfirst, hsecond, -, rfl⟩ := h.split
        have hread : ∀ b ∈ branch :: rest,
            AddsWithin document (addBranch document (maxDepth document) []) first b := by
          intro b hb
          have hinside := (hwithin.member hsome).element hb
          exact addBranch_of_unfoldsIn hinside (by simp [FollowedFrom])
            (depthLeft_le_maxDepth hinside.size_le)
        rw [addBranches_of_unfoldsIn hread le_rfl hfirst, List.foldl_append]
        exact ih hlists hsecond

theorem read_of_unfolds {members : Members} (hwithin : document.Within (.object members))
    (hlists : ∀ keyword ∈ combinators, members.lookup keyword = none ∨
      ∃ branch rest, members.lookup keyword = some (.array (branch :: rest)))
    {leaves : List JsonType}
    (hleaves : Unfolds document (combinators.flatMap (branchesOf members)) leaves)
    (pointer : String) : read document members pointer = .ok leaves.eraseDups := by
  obtain ⟨steps, hcounted⟩ := hleaves.counted
  rw [← Keyword.foldl_addType_nil]
  exact foldlM_read_of_unfoldsIn hwithin hlists hcounted

end UnionTypes

namespace Keyword

variable {members : Members} {keyword : String} {keywords : List String}

theorem Lacks.head (h : Lacks members (keyword :: keywords)) : members.lookup keyword = none :=
  h keyword List.mem_cons_self

theorem Lacks.tail (h : Lacks members (keyword :: keywords)) : Lacks members keywords :=
  fun other hother => h other (List.mem_cons_of_mem _ hother)

end Keyword

namespace Outline

variable {document : Json} {members : Members} {outline : Outline} {pointer : String}

theorem ofDeclaredType_of_declares_one {type : JsonType} (h : Keyword.Declares members [type]) :
    ofDeclaredType members pointer = ofType members pointer type := by
  generalize htypes : [type] = types at h
  unfold ofDeclaredType
  cases h with
  | one htype =>
      cases htypes
      simp only [htype, Keyword.typeNamed_name]
      rfl
  | several htype hne =>
      simp only [htype, Keyword.typesNamed_names pointer hne, ← htypes]
      rfl

theorem ofDeclaredType_of_declares {types : List JsonType} (h : Keyword.Declares members types)
    (hlength : types.length ≠ 1) :
    ofDeclaredType members pointer = .ok (.leaf (.union types)) := by
  unfold ofDeclaredType
  cases h with
  | one htype => exact (hlength rfl).elim
  | @several named htype hne =>
      simp only [htype, Keyword.typesNamed_names pointer hne, bind, Except.bind]
      split
      · rename_i type hone
        rw [hone] at hlength
        exact (hlength rfl).elim
      · rfl

theorem ofDeclaredType_of_untyped (htype : members.lookup "type" = none) :
    ofDeclaredType members pointer =
      if ["properties", "required", "allOf"].any (Keyword.isIn · members) then .ok .object
      else if Keyword.isIn "items" members then .ok .array
      else .ok (.leaf .untyped) := by
  rw [ofDeclaredType, htype]

/-- Without a keyword that decides before it, `type` decides. -/
theorem read_of_lacks (h : Keyword.Lacks members deciding) :
    read document members pointer = ofDeclaredType members pointer := by
  have hcombinators : UnionTypes.combinators.filter (Keyword.isIn · members) = [] :=
    Keyword.filter_isIn_eq_nil.mpr h.tail.tail
  simp only [read, h.head, h.tail.head, hcombinators]

/-- Every outline that the rules give is read. -/
theorem read_of_outlines (hwithin : document.Within (.object members))
    (h : Outlines document members outline) (pointer : String) :
    read document members pointer = .ok outline := by
  cases h with
  | reference href hothers =>
      have hcombinators := Keyword.filter_isIn_eq_nil.mpr hothers.tail
      simp only [read, href, hothers.head, UnionTypes.combinators, hcombinators]
  | @enumeration literals henum hliterals hothers =>
      have hcombinators := Keyword.filter_isIn_eq_nil.mpr hothers.tail
      obtain ⟨literal, rest, rfl⟩ := List.exists_cons_of_ne_nil hliterals
      simp only [read, henum, hothers.head, UnionTypes.combinators, hcombinators]
  | combinator hothers hsome hlists hleaves =>
      have htypes := UnionTypes.read_of_unfolds hwithin hlists hleaves pointer
      unfold read
      rw [hothers.head, hothers.tail.head]
      cases hcombinators : UnionTypes.combinators.filter (Keyword.isIn · members) with
      | nil => exact (hsome (Keyword.filter_isIn_eq_nil.mp hcombinators)).elim
      | cons keyword rest =>
          simp only [htypes]
          rfl
  | several hothers htypes hlength =>
      rw [read_of_lacks hothers, ofDeclaredType_of_declares htypes hlength]
  | primitive hothers htype hparts =>
      have hnone : ["properties", "items", "allOf"].find? (Keyword.isIn · members) = none := by
        rw [List.find?_eq_none]
        intro keyword hk
        rw [Keyword.isIn_eq_false.mpr (hparts keyword hk)]
        exact Bool.false_ne_true
      rw [read_of_lacks hothers, ofDeclaredType_of_declares_one htype, ofType, hnone]
  | object hothers htype =>
      rw [read_of_lacks hothers, ofDeclaredType_of_declares_one htype, ofType]
  | array hothers htype =>
      rw [read_of_lacks hothers, ofDeclaredType_of_declares_one htype, ofType]
  | impliedObject hothers htype hparts =>
      have hany : ["properties", "required", "allOf"].any (Keyword.isIn · members) = true := by
        rw [← Bool.not_eq_false]
        exact fun hnone => hparts (Keyword.any_isIn_eq_false.mp hnone)
      rw [read_of_lacks hothers, ofDeclaredType_of_untyped htype, if_pos hany]
  | impliedArray hothers htype hparts hitems =>
      rw [read_of_lacks hothers, ofDeclaredType_of_untyped htype,
        Keyword.any_isIn_eq_false.mpr hparts, Keyword.isIn_eq_true.mpr hitems]
      rfl
  | untyped hothers htype hparts hitems =>
      rw [read_of_lacks hothers, ofDeclaredType_of_untyped htype,
        Keyword.any_isIn_eq_false.mpr hparts, Keyword.isIn_eq_false.mpr hitems]
      rfl

theorem read_eq_ok_iff (hwithin : document.Within (.object members)) :
    read document members pointer = .ok outline ↔ Outlines document members outline :=
  ⟨read_ok, fun h => read_of_outlines hwithin h pointer⟩

end Outline

/-- The rules give an object of a document at most one outline. -/
theorem Outlines.unique {document : Json} {members : Members} {outline outline' : Outline}
    (hwithin : document.Within (.object members)) (h : Outlines document members outline)
    (h' : Outlines document members outline') : outline = outline' := by
  have hread := Outline.read_of_outlines hwithin h ""
  rw [Outline.read_of_outlines hwithin h' ""] at hread
  exact (Except.ok.inj hread).symm

end SchemaBridge
