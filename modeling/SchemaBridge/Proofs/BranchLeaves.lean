import Mathlib.Order.WellFounded
import SchemaBridge.Proofs.NodeLinks
import SchemaBridge.Proofs.ReadingBudgets

/-!
The leaves of a combinator. A reference opens to its target and a branch with branch lists to the
branches in them; what opens to nothing is a leaf, and may be malformed. An error of reading comes
from a leaf, or from a reference that is met again below itself, which then opens without end. Main
statement: the types that are read are those of the leaves, each where it occurs first, if there are
finitely many of them and each is well formed; a circle is reported only where there are not.
-/

namespace SchemaBridge

open Steps

/-- An error that tells of a reading without end: a circle, or a budget that is used up. -/
inductive SchemaError.IsEndless : SchemaError → Prop
  | circular (reference : String) : IsEndless (.reference (.circular reference))
  | tooDeep : IsEndless .tooDeep

namespace UnionTypes

/-- A branch opens to another one: a reference to its target, and a branch with branch lists to each
of the branches in them. -/
inductive Opens (document : Json) : Json → Json → Prop
  | target {members : Members} {reference pointer : String} {target : Json}
      (href : members.lookup "$ref" = some (.string reference))
      (hpointer : Pointer.ofReference? reference = some pointer)
      (htarget : document.at? pointer = some target) : Opens document (.object members) target
  | nested {members : Members} {keyword : String} {branches : List Json} {branch : Json}
      (href : members.lookup "$ref" = none) (hkeyword : keyword ∈ combinators)
      (hlist : members.lookup keyword = some (.array branches)) (hbranch : branch ∈ branches) :
      Opens document (.object members) branch

/-- A branch that is not unfolded: no object, a reference without a target, or an object without
branch lists. -/
inductive IsLeaf (document : Json) : Json → Prop
  | scalar {branch : Json} (h : ∀ members, branch ≠ .object members) : IsLeaf document branch
  | broken {members : Members} {value : Json} (href : members.lookup "$ref" = some value)
      (hbroken : ∀ reference pointer, value = .string reference →
        Pointer.ofReference? reference = some pointer → document.at? pointer = none) :
      IsLeaf document (.object members)
  | plain {members : Members} (href : members.lookup "$ref" = none)
      (hplain : ∀ keyword ∈ combinators, ∀ branches,
        members.lookup keyword ≠ some (.array branches)) : IsLeaf document (.object members)

/-- The leaves that a list of branches unfolds to, from left to right. -/
inductive Leaves (document : Json) : List Json → List Json → Prop
  | nil : Leaves document [] []
  | reference {members : Members} {rest leaves : List Json} {reference pointer : String}
      {target : Json} (href : members.lookup "$ref" = some (.string reference))
      (hpointer : Pointer.ofReference? reference = some pointer)
      (htarget : document.at? pointer = some target)
      (hrest : Leaves document (target :: rest) leaves) :
      Leaves document (.object members :: rest) leaves
  | nested {members : Members} {rest branches leaves : List Json} {keyword : String}
      (href : members.lookup "$ref" = none) (hkeyword : keyword ∈ combinators)
      (hlist : members.lookup keyword = some (.array branches))
      (hrest : Leaves document (combinators.flatMap (branchesOf members) ++ rest) leaves) :
      Leaves document (.object members :: rest) leaves
  | leaf {branch : Json} {rest leaves : List Json} (hleaf : IsLeaf document branch)
      (hrest : Leaves document rest leaves) : Leaves document (branch :: rest) (branch :: leaves)

/-- A leaf that is well formed, and its types. -/
inductive HasTypes : Json → List JsonType → Prop
  | object {members : Members} {types : List JsonType} (href : members.lookup "$ref" = none)
      (htypes : LeafTypes members types) : HasTypes (.object members) types

/-- A branch opens to another one, that to another one again, and so on without end. -/
def OpensForever (document branch : Json) : Prop :=
  ∃ chain : Nat → Json, chain 0 = branch ∧ ∀ n, Opens document (chain n) (chain (n + 1))

variable {document : Json}

/-! ### Leaves and their types -/

theorem Leaves.unfolds {branches leaves : List Json} {types : List (List JsonType)}
    (h : Leaves document branches leaves) (htypes : List.Forall₂ HasTypes leaves types) :
    Unfolds document branches types.flatten := by
  induction h generalizing types with
  | nil =>
      cases htypes
      exact .nil
  | reference href hpointer htarget _ ih => exact .reference href hpointer htarget (ih htypes)
  | nested href hkeyword hlist _ ih => exact .nested href hkeyword hlist (ih htypes)
  | leaf hleaf _ ih =>
      cases htypes with
      | cons hfirst hrest =>
          cases hfirst with
          | object href hown =>
              cases hleaf with
              | scalar h => exact (h _ rfl).elim
              | broken href' => rw [href] at href'; cases href'
              | plain _ hplain => exact .leaf href hplain hown (ih hrest)

theorem Unfolds.leaves {branches : List Json} {types : List JsonType}
    (h : Unfolds document branches types) : ∃ leaves own, Leaves document branches leaves ∧
      List.Forall₂ HasTypes leaves own ∧ types = own.flatten := by
  induction h with
  | nil => exact ⟨[], [], .nil, .nil, rfl⟩
  | reference href hpointer htarget _ ih =>
      obtain ⟨leaves, own, hleaves, hown, htypes⟩ := ih
      exact ⟨leaves, own, .reference href hpointer htarget hleaves, hown, htypes⟩
  | nested href hkeyword hlist _ ih =>
      obtain ⟨leaves, own, hleaves, hown, htypes⟩ := ih
      exact ⟨leaves, own, .nested href hkeyword hlist hleaves, hown, htypes⟩
  | @leaf members _ types _ href hplain hleaf _ ih =>
      obtain ⟨leaves, own, hleaves, hown, rfl⟩ := ih
      exact ⟨_ :: leaves, types :: own, .leaf (.plain href hplain) hleaves,
        .cons (.object href hleaf) hown, rfl⟩

/-! ### Unfolding without end -/

theorem mem_flatMap_branchesOf {members : Members} {branch : Json} :
    branch ∈ combinators.flatMap (branchesOf members) ↔ ∃ keyword ∈ combinators,
      ∃ branches, members.lookup keyword = some (.array branches) ∧ branch ∈ branches := by
  rw [List.mem_flatMap]
  refine exists_congr fun keyword => and_congr_right fun _ => ?_
  rw [branchesOf]
  split
  · rename_i branches hlist
    simp [hlist]
  · rename_i hother
    simp only [List.not_mem_nil, false_iff, not_exists, not_and]
    exact fun branches hlist => (hother branches hlist).elim

/-- A reference opens to nothing but its target. -/
theorem Opens.eq_target {members : Members} {reference pointer : String} {target part : Json}
    (h : Opens document (.object members) part)
    (href : members.lookup "$ref" = some (.string reference))
    (hpointer : Pointer.ofReference? reference = some pointer)
    (htarget : document.at? pointer = some target) : part = target := by
  cases h with
  | target href' hpointer' htarget' =>
      rw [href] at href'
      cases href'
      rw [hpointer] at hpointer'
      cases hpointer'
      rw [htarget] at htarget'
      exact (Option.some.inj htarget').symm
  | nested href' => rw [href] at href'; cases href'

/-- What is no reference opens to nothing but the branches that it holds. -/
theorem Opens.mem_branches {members : Members} {part : Json}
    (h : Opens document (.object members) part) (href : members.lookup "$ref" = none) :
    part ∈ combinators.flatMap (branchesOf members) := by
  cases h with
  | target href' => rw [href] at href'; cases href'
  | nested _ hkeyword hlist hbranch =>
      exact mem_flatMap_branchesOf.mpr ⟨_, hkeyword, _, hlist, hbranch⟩

theorem IsLeaf.not_opens {branch part : Json} (h : IsLeaf document branch) :
    ¬Opens document branch part := by
  intro hopens
  cases h with
  | scalar h => cases hopens <;> exact h _ rfl
  | broken href hbroken =>
      cases hopens with
      | target href' hpointer htarget =>
          rw [href] at href'
          cases href'
          rw [hbroken _ _ rfl hpointer] at htarget
          cases htarget
      | nested href' => rw [href] at href'; cases href'
  | plain href hplain =>
      obtain ⟨_, hkeyword, _, hlist, -⟩ := mem_flatMap_branchesOf.mp (hopens.mem_branches href)
      exact hplain _ hkeyword _ hlist

/-- Branches that unfold to finitely many leaves open to nothing for ever. -/
theorem Leaves.acc {branches leaves : List Json} (h : Leaves document branches leaves) :
    ∀ branch ∈ branches, Acc (fun part branch => Opens document branch part) branch := by
  induction h with
  | nil => simp
  | reference href hpointer htarget _ ih =>
      obtain ⟨hnext, hrest⟩ := List.forall_mem_cons.mp ih
      refine List.forall_mem_cons.mpr ⟨Acc.intro _ fun part hopens => ?_, hrest⟩
      rw [hopens.eq_target href hpointer htarget]
      exact hnext
  | nested href _ _ _ ih =>
      obtain ⟨hinner, hrest⟩ := List.forall_mem_append.mp ih
      refine List.forall_mem_cons.mpr ⟨Acc.intro _ fun part hopens => ?_, hrest⟩
      exact hinner part (hopens.mem_branches href)
  | leaf hleaf _ ih =>
      refine List.forall_mem_cons.mpr ⟨Acc.intro _ fun part hopens => ?_, ih⟩
      exact (hleaf.not_opens hopens).elim

theorem not_acc_iff_opensForever {branch : Json} :
    ¬Acc (fun part branch => Opens document branch part) branch ↔ OpensForever document branch :=
  not_acc_iff_exists_descending_chain (r := fun part branch => Opens document branch part)

theorem Leaves.append {xs ys leaves leaves' : List Json} (hx : Leaves document xs leaves)
    (hy : Leaves document ys leaves') : Leaves document (xs ++ ys) (leaves ++ leaves') := by
  induction hx with
  | nil => exact hy
  | reference href hpointer htarget _ ih => exact .reference href hpointer htarget ih
  | nested href hkeyword hlist _ ih =>
      rw [List.append_assoc] at ih
      exact .nested href hkeyword hlist ih
  | leaf hleaf _ ih => exact .leaf hleaf ih

theorem exists_leaves {branches : List Json}
    (h : ∀ branch ∈ branches, ∃ leaves, Leaves document [branch] leaves) :
    ∃ leaves, Leaves document branches leaves := by
  induction branches with
  | nil => exact ⟨[], .nil⟩
  | cons branch rest ih =>
      obtain ⟨⟨first, hfirst⟩, hrest⟩ := List.forall_mem_cons.mp h
      obtain ⟨later, hlater⟩ := ih hrest
      exact ⟨first ++ later, hfirst.append hlater⟩

/-- What is no leaf is a reference to something or has branch lists. -/
theorem unfolds_of_not_isLeaf {branch : Json} (h : ¬IsLeaf document branch) :
    ∃ members, branch = .object members ∧
      ((∃ reference pointer target, members.lookup "$ref" = some (.string reference) ∧
          Pointer.ofReference? reference = some pointer ∧ document.at? pointer = some target) ∨
        members.lookup "$ref" = none ∧ ∃ keyword ∈ combinators, ∃ branches,
          members.lookup keyword = some (.array branches)) := by
  by_contra hnone
  simp only [not_exists, not_and, not_or] at hnone
  cases branch with
  | object members =>
      obtain ⟨hreference, hlists⟩ := hnone members rfl
      cases href : members.lookup "$ref" with
      | none => exact h (.plain href (hlists href))
      | some value =>
          refine h (.broken href fun reference pointer hvalue hpointer => ?_)
          rw [hvalue] at href
          exact Option.eq_none_iff_forall_ne_some.mpr (hreference reference pointer · href hpointer)
  | _ => exact h (.scalar fun _ heq => by cases heq)

theorem exists_leaves_of_acc {branch : Json}
    (h : Acc (fun part branch => Opens document branch part) branch) :
    ∃ leaves, Leaves document [branch] leaves := by
  induction h with
  | intro branch _ ih =>
      by_cases hleaf : IsLeaf document branch
      · exact ⟨[branch], .leaf hleaf .nil⟩
      obtain ⟨members, rfl, ⟨_, _, target, href, hpointer, htarget⟩ |
        ⟨href, _, hkeyword, _, hlist⟩⟩ := unfolds_of_not_isLeaf hleaf
      · obtain ⟨leaves, hleaves⟩ := ih target (.target href hpointer htarget)
        exact ⟨leaves, .reference href hpointer htarget hleaves⟩
      · have hinner : ∀ branch ∈ combinators.flatMap (branchesOf members),
            ∃ leaves, Leaves document [branch] leaves := by
          intro branch hbranch
          obtain ⟨_, hkeyword, _, hlist, hbranch⟩ := mem_flatMap_branchesOf.mp hbranch
          exact ih branch (.nested href hkeyword hlist hbranch)
        obtain ⟨leaves, hleaves⟩ := exists_leaves hinner
        exact ⟨leaves, .nested href hkeyword hlist (by rwa [List.append_nil])⟩

/-- Branches have finitely many leaves exactly if none of them opens for ever. -/
theorem exists_leaves_iff {branches : List Json} : (∃ leaves, Leaves document branches leaves) ↔
    ∀ branch ∈ branches, ¬OpensForever document branch := by
  simp only [← not_acc_iff_opensForever, not_not]
  constructor
  · rintro ⟨leaves, hleaves⟩
    exact hleaves.acc
  · intro hacc
    exact exists_leaves fun branch hbranch => exists_leaves_of_acc (hacc branch hbranch)

/-- A branch from which a circle is reached opens for ever. -/
theorem opensForever_of_circle {branch c : Json}
    (hreach : Relation.ReflTransGen (Opens document) branch c)
    (hcircle : Relation.TransGen (Opens document) c c) : OpensForever document branch := by
  apply not_acc_iff_opensForever.mp
  intro hacc
  have hc : Acc (fun part branch => Opens document branch part) c := by
    clear hcircle
    induction hreach with
    | refl => exact hacc
    | tail _ hopens ih => exact ih.inv hopens
  exact not_transGen_of_acc hc hcircle

/-! ### Where an error comes from -/

theorem foldlM_error {ε α β : Type} {f : β → α → Except ε β} {xs : List α} {b : β} {e : ε}
    (h : xs.foldlM f b = .error e) : ∃ x ∈ xs, ∃ b', f b' x = .error e := by
  induction xs generalizing b with
  | nil => cases h
  | cons x rest ih =>
      rw [List.foldlM_cons] at h
      rcases of_bind_error h with hfirst | ⟨b', -, hrest⟩
      · exact ⟨x, List.mem_cons_self, b, hfirst⟩
      · obtain ⟨y, hy, hlater⟩ := ih hrest
        exact ⟨y, List.mem_cons_of_mem _ hy, hlater⟩

/-- An error of a list of branches is one of a branch, read at the pointer to its place. -/
theorem addBranches_error {read : BranchReader} {base : String} {index : Nat}
    {branches : List Json} {types : List JsonType} {e : SchemaError}
    (h : addBranches read base index branches types = .error e) :
    ∃ offset branch types', branches[offset]? = some branch ∧
      read (Pointer.element base (index + offset)) branch types' = .error e := by
  induction branches generalizing index types with
  | nil => cases h
  | cons branch rest ih =>
      rw [addBranches] at h
      rcases of_bind_error h with hfirst | ⟨types', -, hrest⟩
      · exact ⟨0, branch, types, rfl, hfirst⟩
      · obtain ⟨offset, later, types'', hlater, herror⟩ := ih hrest
        refine ⟨offset + 1, later, types'', hlater, ?_⟩
        rwa [show index + (offset + 1) = index + 1 + offset by omega]

theorem typeNamed_avoids (pointer name : String) :
    Avoids SchemaError.IsEndless (Keyword.typeNamed pointer name) := by
  rw [Keyword.typeNamed]
  split
  · exact .ok _
  · exact .error (by rintro ⟨⟩)

theorem addTypesNamed_avoids (pointer : String) (names : List Json) (types : List JsonType) :
    Avoids SchemaError.IsEndless (Keyword.addTypesNamed pointer names types) := by
  induction names generalizing types with
  | nil => exact .ok _
  | cons name rest ih =>
      cases name with
      | string name => exact (typeNamed_avoids pointer name).bind fun type _ => ih _
      | _ => exact .error (by rintro ⟨⟩)

theorem declared_avoids (members : Members) (pointer : String) :
    Avoids SchemaError.IsEndless (declared members pointer) := by
  rw [declared]
  split
  · exact (typeNamed_avoids _ _).bind fun _ _ => .ok _
  · rw [Keyword.typesNamed]
    split
    · exact .error (by rintro ⟨⟩)
    · exact addTypesNamed_avoids _ _ _
  · exact .error (by rintro ⟨⟩)
  · split
    · exact .ok _
    · split
      · exact .ok _
      · exact .error (by rintro ⟨⟩)

/-- Where an error that tells of a reading without end comes from: from a reference that was
followed before, or from what the branch opens to. -/
inductive Fails (document : Json) (budget : Nat) (followed : List String) (e : SchemaError) :
    Json → Prop
  | circular {members : Members} {reference : String}
      (href : members.lookup "$ref" = some (.string reference)) (hfollowed : reference ∈ followed)
      (he : e = .reference (.circular reference)) :
      Fails document budget followed e (.object members)
  | target {members : Members} {reference pointer : String} {target : Json}
      {types : List JsonType} (href : members.lookup "$ref" = some (.string reference))
      (hfresh : reference ∉ followed) (hpointer : Pointer.ofReference? reference = some pointer)
      (htarget : document.at? pointer = some target)
      (hrest : addBranch document budget (reference :: followed) pointer target types = .error e) :
      Fails document budget followed e (.object members)
  | nested {members : Members} {keyword pointer : String} {branches : List Json} {branch : Json}
      {types : List JsonType} (href : members.lookup "$ref" = none)
      (hkeyword : keyword ∈ combinators) (hlist : members.lookup keyword = some (.array branches))
      (hbranch : branch ∈ branches)
      (hrest : addBranch document budget followed pointer branch types = .error e) :
      Fails document budget followed e (.object members)

theorem addBranch_error {budget : Nat} {followed : List String} {pointer : String} {branch : Json}
    {types : List JsonType} {e : SchemaError} (he : e.IsEndless)
    (h : addBranch document (budget + 1) followed pointer branch types = .error e) :
    Fails document budget followed e branch := by
  cases branch with
  | object members =>
      rw [addBranch] at h
      split at h
      · rename_i reference href
        split at h
        · rename_i hfollowed
          exact .circular href hfollowed (Except.error.inj h).symm
        · rename_i hfresh
          rcases of_bind_error h with hformat | ⟨target, htarget, h⟩
          · rw [Keyword.referencePointer] at hformat
            split at hformat
            · cases hformat
            · cases hformat
              cases he
          · split at h
            · rename_i value hvalue
              exact .target href hfresh (Keyword.referencePointer_ok htarget) hvalue h
            · cases h
              cases he
      · cases h
        cases he
      · rename_i href
        split at h
        · rcases of_bind_error h with hdeclared | ⟨_, -, h⟩
          · exact (declared_avoids members pointer e hdeclared he).elim
          · cases h
        · obtain ⟨⟨keyword, branches⟩, hlist, types', hbranches⟩ := foldlM_error h
          obtain ⟨hkeyword, hlookup⟩ := mem_nested.mp hlist
          obtain ⟨_, inner, _, hinner, herror⟩ := addBranches_error hbranches
          exact .nested href hkeyword hlookup (List.mem_of_getElem? hinner) herror
  | _ =>
      cases h
      cases he

/-- No unfolding of a branch within the document uses up the budget. -/
theorem addBranch_ne_tooDeep {budget : Nat} : ∀ {followed : List String} {branch : Json},
    document.Within branch → depthLeft document followed branch ≤ budget →
    ∀ {pointer types},
      addBranch document budget followed pointer branch types ≠ .error .tooDeep := by
  induction budget with
  | zero =>
      intro followed branch _ hbudget
      have hpos := branch.size_pos
      rw [depthLeft] at hbudget
      omega
  | succ budget ih =>
      intro followed branch hwithin hbudget pointer types h
      cases addBranch_error .tooDeep h with
      | circular _ _ he => cases he
      | @target members text _ target _ href hfresh _ htarget hrest =>
          have hinside := Json.within_of_at? htarget
          have hlt : depthLeft document (text :: followed) target <
              depthLeft document followed (.object members) :=
            depthLeft_target_lt (hwithin.text_mem href) hfresh hinside.size_le
          exact ih hinside (by omega) hrest
      | nested _ _ hlist hbranch hrest =>
          have hsize := Json.size_le_sizeElements hbranch
          have hsize' := Json.size_le_sizeMembers hlist
          rw [Json.size] at hsize'
          refine ih ((hwithin.member hlist).element hbranch) ?_ hrest
          simp only [depthLeft, Json.size] at hbudget ⊢
          omega

/-- The references that were followed have targets from which the branch is reached. -/
def FollowedTo (document : Json) (followed : List String) (branch : Json) : Prop :=
  ∀ reference ∈ followed, ∃ pointer target, Pointer.ofReference? reference = some pointer ∧
    document.at? pointer = some target ∧ Relation.ReflTransGen (Opens document) target branch

theorem FollowedTo.opens {followed : List String} {branch part : Json}
    (h : FollowedTo document followed branch) (hopens : Opens document branch part) :
    FollowedTo document followed part := by
  intro reference hreference
  obtain ⟨pointer, target, hpointer, htarget, hreach⟩ := h reference hreference
  exact ⟨pointer, target, hpointer, htarget, hreach.tail hopens⟩

/-- A branch in which a circle is reported leads to one. -/
theorem addBranch_circular {budget : Nat} : ∀ {followed : List String} {branch : Json},
    FollowedTo document followed branch → ∀ {pointer types reference},
    addBranch document budget followed pointer branch types =
      .error (.reference (.circular reference)) →
    ∃ c, Relation.ReflTransGen (Opens document) branch c ∧
      Relation.TransGen (Opens document) c c := by
  induction budget with
  | zero =>
      intro _ _ _ _ _ _ h
      cases h
  | succ budget ih =>
      intro followed branch hfollowed pointer types reference h
      cases addBranch_error (.circular reference) h with
      | circular href hmem _ =>
          obtain ⟨pointer, target, hpointer, htarget, hreach⟩ := hfollowed _ hmem
          have hopens := Opens.target href hpointer htarget
          exact ⟨target, .single hopens, .tail' hreach hopens⟩
      | @target members text pointer target _ href _ hpointer htarget hrest =>
          have hopens := Opens.target href hpointer htarget
          have hnext : FollowedTo document (text :: followed) target :=
            List.forall_mem_cons.mpr ⟨⟨pointer, target, hpointer, htarget, .refl⟩,
              hfollowed.opens hopens⟩
          obtain ⟨c, hreach, hcircle⟩ := ih hnext hrest
          exact ⟨c, hreach.head hopens, hcircle⟩
      | @nested members _ _ _ branch _ href hkeyword hlist hbranch hrest =>
          have hopens : Opens document (.object members) branch :=
            .nested href hkeyword hlist hbranch
          obtain ⟨c, hreach, hcircle⟩ := ih (hfollowed.opens hopens) hrest
          exact ⟨c, hreach.head hopens, hcircle⟩

/-- An error without end of combinators is one of a branch that they hold. -/
theorem read_error {members : Members} {pointer : String} {e : SchemaError} (he : e.IsEndless)
    (h : read document members pointer = .error e) :
    ∃ keyword ∈ combinators, ∃ branches, members.lookup keyword = some (.array branches) ∧
      ∃ branch ∈ branches, ∃ pointer types,
        addBranch document (maxDepth document) [] pointer branch types = .error e := by
  obtain ⟨keyword, hkeyword, types, h⟩ := foldlM_error h
  split at h
  · cases h
  · rename_i branch rest hlist
    obtain ⟨_, failing, _, hfailing, hrest⟩ := addBranches_error h
    exact ⟨keyword, hkeyword, branch :: rest, hlist, failing, List.mem_of_getElem? hfailing, _, _,
      hrest⟩
  · cases h
    cases he

variable {members : Members} {pointer : String}

/-- Combinators are read exactly if each of them is a list of branches and these unfold. -/
theorem read_eq_ok_iff (hwithin : document.Within (.object members)) {types : List JsonType} :
    read document members pointer = .ok types ↔
      (∀ keyword ∈ combinators, members.lookup keyword = none ∨
        ∃ branch rest, members.lookup keyword = some (.array (branch :: rest))) ∧
      ∃ leaves, Unfolds document (combinators.flatMap (branchesOf members)) leaves ∧
        types = leaves.eraseDups := by
  constructor
  · intro h
    obtain ⟨⟨leaves, hunfolds, rfl⟩, hlists⟩ := foldlM_read_ok h
    exact ⟨hlists, leaves, hunfolds, Keyword.foldl_addType_nil leaves⟩
  · rintro ⟨hlists, leaves, hunfolds, rfl⟩
    exact read_of_unfolds hwithin hlists hunfolds pointer

/-- Combinators never use up the budget. -/
theorem read_ne_tooDeep (hwithin : document.Within (.object members)) :
    read document members pointer ≠ .error .tooDeep := by
  intro h
  obtain ⟨_, -, _, hlist, _, hbranch, _, _, hdeep⟩ := read_error .tooDeep h
  have hinside := (hwithin.member hlist).element hbranch
  exact addBranch_ne_tooDeep hinside (depthLeft_le_maxDepth hinside.size_le) hdeep

/-- Combinators report a circle only if one of their branches opens for ever. -/
theorem opensForever_of_read {reference : String}
    (h : read document members pointer = .error (.reference (.circular reference))) :
    ∃ branch ∈ combinators.flatMap (branchesOf members), OpensForever document branch := by
  obtain ⟨_, hkeyword, _, hlist, branch, hbranch, _, _, hcircular⟩ := read_error (.circular _) h
  have hnone : FollowedTo document [] branch := by
    rintro _ ⟨⟩
  obtain ⟨_, hreach, hcircle⟩ := addBranch_circular hnone hcircular
  exact ⟨branch, mem_flatMap_branchesOf.mpr ⟨_, hkeyword, _, hlist, hbranch⟩,
    opensForever_of_circle hreach hcircle⟩

/-- The combinators of an object hold the types of their leaves, if these are finitely many and each
is well formed. No budget beyond the depth of the document matters, and a circle is reported only if
a branch opens for ever. -/
theorem read_leaves (hat : document.at? pointer = some (.object members)) :
    (∀ types, read document members pointer = .ok types ↔
      (∀ keyword ∈ combinators, members.lookup keyword = none ∨
        ∃ branch rest, members.lookup keyword = some (.array (branch :: rest))) ∧
      ∃ leaves own, Leaves document (combinators.flatMap (branchesOf members)) leaves ∧
        List.Forall₂ HasTypes leaves own ∧ types = own.flatten.eraseDups) ∧
    read document members pointer ≠ .error .tooDeep ∧
    (∀ branch ∈ combinators.flatMap (branchesOf members), ∀ budget ≥ maxDepth document,
      ∀ base types, addBranch document budget [] base branch types =
        addBranch document (maxDepth document) [] base branch types) ∧
    ∀ reference, read document members pointer = .error (.reference (.circular reference)) →
      (∃ branch ∈ combinators.flatMap (branchesOf members), OpensForever document branch) ∧
      ¬∃ leaves, Leaves document (combinators.flatMap (branchesOf members)) leaves := by
  have hwithin := Json.within_of_at? hat
  refine ⟨fun types => ?_, read_ne_tooDeep hwithin, fun branch hbranch budget hbudget => ?_,
    fun reference h => ?_⟩
  · rw [read_eq_ok_iff hwithin]
    refine and_congr_right fun _ => ⟨?_, ?_⟩
    · rintro ⟨_, hunfolds, rfl⟩
      obtain ⟨leaves, own, hleaves, hown, rfl⟩ := hunfolds.leaves
      exact ⟨leaves, own, hleaves, hown, rfl⟩
    · rintro ⟨leaves, own, hleaves, hown, rfl⟩
      exact ⟨own.flatten, hleaves.unfolds hown, rfl⟩
  · obtain ⟨_, _, _, hlist, hmem⟩ := mem_flatMap_branchesOf.mp hbranch
    have hinside := (hwithin.member hlist).element hmem
    have hdepth := depthLeft_le_maxDepth hinside.size_le
    exact addBranch_budget hinside (hdepth.trans hbudget) hdepth
  · obtain ⟨branch, hbranch, hforever⟩ := opensForever_of_read h
    exact ⟨⟨branch, hbranch, hforever⟩,
      fun hleaves => exists_leaves_iff.mp hleaves branch hbranch hforever⟩

/-- An amount that two branches come to, and an entry that is a branch of itself. -/
def priceDefinitions : Members :=
  [("amount", .object [("type", .string "number")]),
    ("optional", .object [("anyOf", .array [.object [("$ref", .string "#/definitions/amount")],
      .object [("type", .string "null")]]), ("type", .string "string")]),
    ("nested", .object [("oneOf", .array [.object [("$ref", .string "#/definitions/nested")]])])]

def priceMembers : Members :=
  [("definitions", .object priceDefinitions),
    ("oneOf", .array [.object [("$ref", .string "#/definitions/amount")],
      .object [("$ref", .string "#/definitions/optional")]])]

theorem leaves_price : Leaves (.object priceMembers)
    (combinators.flatMap (branchesOf priceMembers))
    [.object [("type", .string "number")], .object [("type", .string "number")],
      .object [("type", .string "null")]] := by
  have hamount : (Json.object priceMembers).at? "/definitions/amount" =
      some (.object [("type", .string "number")]) := by cbv
  have hoptional : (Json.object priceMembers).at? "/definitions/optional" =
      priceDefinitions.lookup "optional" := by cbv
  have hplain : ∀ name, IsLeaf (.object priceMembers) (.object [("type", .string name)]) := by
    intro name
    exact .plain rfl (by simp [combinators, List.lookup])
  refine .reference rfl (by cbv) hamount (.leaf (hplain "number") ?_)
  refine .reference rfl (by cbv) hoptional ?_
  refine .nested rfl (by decide : "anyOf" ∈ combinators) rfl ?_
  exact .reference rfl (by cbv) hamount (.leaf (hplain "number") (.leaf (hplain "null") .nil))

theorem hasTypes_named (type : JsonType) :
    HasTypes (.object [("type", .string type.name)]) [type] :=
  .object rfl (.declared (.one rfl))

theorem read_leaves_price :
    (Json.object priceMembers).at? "" = some (.object priceMembers) ∧
      read (.object priceMembers) priceMembers "" =
        .ok [.primitive .number, .primitive .null] ∧
      (Json.object priceMembers).at? "/definitions/nested" = priceDefinitions.lookup "nested" ∧
      ¬∃ leaves, Leaves (.object priceMembers)
        [.object [("$ref", .string "#/definitions/nested")]] leaves := by
  have hroot : (Json.object priceMembers).at? "" = some (.object priceMembers) := rfl
  have hnested : (Json.object priceMembers).at? "/definitions/nested" =
      priceDefinitions.lookup "nested" := by cbv
  refine ⟨hroot, ((read_leaves hroot).1 _).mpr ⟨?_, _, _, leaves_price,
    .cons (hasTypes_named (.primitive .number)) (.cons (hasTypes_named (.primitive .number))
      (.cons (hasTypes_named (.primitive .null)) .nil)), by decide⟩, hnested, ?_⟩
  · simp [combinators, priceMembers, List.lookup]
  · exact ((read_leaves hnested).2.2.2 "#/definitions/nested" (by cbv)).2

end UnionTypes

end SchemaBridge
