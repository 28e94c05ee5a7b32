import SchemaBridge.Proofs.BranchLeaves

/-!
Where a reading fails. An error that carries a pointer leads to a value of the document, at a
location that is reached or at a branch of a union, and what the error says is true of that value.
The pointers are handed down from the root and from the targets of references, so each of them leads
somewhere and is a reference itself. Main statement: this holds of every error of reading, wherever
the reading came from, and no error tells of a budget that was used up.
-/

namespace SchemaBridge

open Steps

/-- A value has the form that is expected of a keyword. -/
def KeywordForm.Admits (value : Json) : KeywordForm → Prop
  | text => ∃ s, value = .string s
  | object => ∃ members, value = .object members
  | array => ∃ values, value = .array values
  | nonEmptyArray => ∃ values, values ≠ [] ∧ value = .array values
  | texts => ∃ names : List String, value = .array (names.map .string)
  | nonEmptyTexts => ∃ names : List String, names ≠ [] ∧ value = .array (names.map .string)
  | textOrTexts => (∃ s, value = .string s) ∨ ∃ names : List String,
      value = .array (names.map .string)

/-- The forms that the value of a keyword may have. -/
def Keyword.forms : String → List KeywordForm
  | "title" | "description" | "$ref" => [.text]
  | "enum" | "oneOf" | "anyOf" => [.nonEmptyArray]
  | "type" => [.text, .nonEmptyTexts]
  | "properties" => [.object]
  | "required" => [.texts]
  | "allOf" => [.array]
  | _ => []

/-- The pointers to the branches of unions: those of a location that is reached, those inside a
branch that is no reference, and the targets of branches that are. -/
inductive IsBranch (document : Json) : String → Prop
  | own {pointer keyword : String} {members : Members} {branches : List Json} {index : Nat}
      (hreach : Reach document pointer) (hvalue : document.at? pointer = some (.object members))
      (hkeyword : keyword ∈ UnionTypes.combinators)
      (hlist : members.lookup keyword = some (.array branches)) (hindex : index < branches.length) :
      IsBranch document (Pointer.element (Pointer.child pointer keyword) index)
  | nested {pointer keyword : String} {members : Members} {branches : List Json} {index : Nat}
      (hbranch : IsBranch document pointer)
      (hvalue : document.at? pointer = some (.object members))
      (href : members.lookup "$ref" = none) (hkeyword : keyword ∈ UnionTypes.combinators)
      (hlist : members.lookup keyword = some (.array branches)) (hindex : index < branches.length) :
      IsBranch document (Pointer.element (Pointer.child pointer keyword) index)
  | target {pointer target : String} (hbranch : IsBranch document pointer)
      (hlink : LinksTo document pointer target) : IsBranch document target

namespace SchemaError

/-- The pointer to the value at fault. The errors of references carry none. -/
def pointer? : SchemaError → Option String
  | notASchema pointer _ => some pointer
  | invalidKeyword pointer _ _ => some pointer
  | unknownType pointer _ => some pointer
  | conflictingKeywords pointer _ => some pointer
  | undeclaredRequired pointer _ => some pointer
  | untypedUnionBranch pointer => some pointer
  | reference _ => none
  | tooDeep => none

/-- An error carries a pointer, and what it says is true of a value. -/
inductive About (document : Json) (pointer : String) : Json → SchemaError → Prop
  | notASchema {value : Json} (hobject : ∀ members, value ≠ .object members)
      (hany : value = .bool true → IsBranch document pointer) :
      About document pointer value (.notASchema pointer (JsonType.of value))
  | invalidKeyword {keyword : String} {expected : KeywordForm} {members : Members} {value : Json}
      (hvalue : members.lookup keyword = some value) (hkeyword : Keyword.forms keyword ≠ [])
      (hforms : ∀ form ∈ Keyword.forms keyword, ¬form.Admits value)
      (hexpected : ¬expected.Admits value) :
      About document pointer (.object members) (.invalidKeyword pointer keyword expected)
  | unknownType {name : String} {members : Members} {value : Json}
      (hvalue : members.lookup "type" = some value)
      (hname : value = .string name ∨ ∃ names, value = .array names ∧ .string name ∈ names)
      (hunknown : JsonType.ofName? name = none) :
      About document pointer (.object members) (.unknownType pointer name)
  | conflictingKeywords {keywords : List String} {members : Members}
      (hpresent : ∀ keyword ∈ keywords, members.lookup keyword ≠ none)
      (hseveral : 1 < keywords.length) :
      About document pointer (.object members) (.conflictingKeywords pointer keywords)
  | undeclaredRequired {name : String} {members named : Members} {names : List Json}
      (hrequired : members.lookup "required" = some (.array names)) (hname : .string name ∈ names)
      (hnamed : Keyword.HoldsMembers members "properties" named)
      (hundeclared : name ∉ named.map Prod.fst) :
      About document pointer (.object members) (.undeclaredRequired pointer name)
  | untypedUnionBranch {members : Members}
      (hlacks : Keyword.Lacks members ["type", "properties", "items", "$ref"])
      (hbranch : IsBranch document pointer) :
      About document pointer (.object members) (.untypedUnionBranch pointer)

/-- The pointer of an error, if it carries one, leads to a value that is read, and what the error
says is true of that value. -/
def Located (document : Json) (e : SchemaError) : Prop :=
  ∀ pointer, e.pointer? = some pointer → ∃ value, document.at? pointer = some value ∧
    (Reach document pointer ∨ IsBranch document pointer) ∧ e.About document pointer value

/-- An error tells of a fault in the document, and where it is. -/
structure Genuine (document : Json) (e : SchemaError) : Prop where
  located : e.Located document
  ne_tooDeep : e ≠ .tooDeep

variable {document : Json} {pointer : String} {value : Json} {e : SchemaError}

theorem About.pointer?_eq (h : e.About document pointer value) : e.pointer? = some pointer := by
  cases h <;> rfl

theorem About.located (h : e.About document pointer value)
    (hvalue : document.at? pointer = some value)
    (hplace : Reach document pointer ∨ IsBranch document pointer) : e.Located document := by
  intro pointer' hpointer'
  rw [h.pointer?_eq] at hpointer'
  cases hpointer'
  exact ⟨value, hvalue, hplace, h⟩

theorem About.genuine (h : e.About document pointer value)
    (hvalue : document.at? pointer = some value) (hreach : Reach document pointer) :
    e.Genuine document := by
  refine ⟨h.located hvalue (.inl hreach), ?_⟩
  rintro rfl
  cases h

theorem located_of_none (h : e.pointer? = none) : e.Located document := by
  intro pointer hpointer
  rw [h] at hpointer
  cases hpointer

theorem genuine_reference (error : ReferenceError) : Genuine document (.reference error) :=
  ⟨located_of_none rfl, by rintro ⟨⟩⟩

end SchemaError

open SchemaError

/-! ### The keywords of an object -/

namespace KeywordForm

variable {value : Json}

/-- A value that is neither a text nor a list has none of the forms of texts. -/
theorem not_admits_texts (hstring : ∀ s, value ≠ .string s)
    (harray : ∀ values, value ≠ .array values) :
    ¬text.Admits value ∧ ¬nonEmptyTexts.Admits value ∧ ¬textOrTexts.Admits value := by
  refine ⟨?_, ?_, ?_⟩
  · rintro ⟨s, h⟩
    exact hstring s h
  · rintro ⟨names, -, h⟩
    exact harray _ h
  · rintro (⟨s, h⟩ | ⟨names, h⟩)
    · exact hstring s h
    · exact harray _ h

/-- A list with an element that is no text is no list of texts. -/
theorem ne_texts_of_mem {values : List Json} (hmem : value ∈ values)
    (hother : ∀ name, value ≠ .string name) (names : List String) :
    Json.array values ≠ .array (names.map .string) := by
  intro h
  cases h
  obtain ⟨name, -, rfl⟩ := List.mem_map.mp hmem
  exact hother name rfl

end KeywordForm

namespace Keyword

variable {document : Json} {members : Members} {pointer : String} {e : SchemaError}

/-- The error of a keyword that may have a single form. -/
theorem invalidKeyword_about {keyword : String} {form : KeywordForm} {value : Json}
    (hforms : forms keyword = [form]) (hvalue : members.lookup keyword = some value)
    (hnone : ¬form.Admits value) :
    About document pointer (.object members) (.invalidKeyword pointer keyword form) := by
  refine .invalidKeyword hvalue ?_ ?_ hnone
  · rw [hforms]
    exact List.cons_ne_nil _ _
  · rw [hforms]
    simpa using hnone

theorem invalidText_about {keyword : String} {value : Json} (hforms : forms keyword = [.text])
    (hvalue : members.lookup keyword = some value) (hother : ∀ s, value ≠ .string s) :
    About document pointer (.object members) (.invalidKeyword pointer keyword .text) := by
  refine invalidKeyword_about hforms hvalue ?_
  rintro ⟨s, rfl⟩
  exact hother s rfl

theorem text?_about {keyword : String} (hforms : forms keyword = [.text])
    (h : text? members keyword pointer = .error e) :
    e.About document pointer (.object members) := by
  unfold text? at h
  split at h
  · cases h
  · cases h
  · rename_i value hother hvalue
    cases h
    exact invalidText_about hforms hvalue hother

theorem referencePointer_error {reference : String} (h : referencePointer reference = .error e) :
    e = .reference (.invalidFormat reference) := by
  unfold referencePointer at h
  split at h
  · cases h
  · exact (Except.error.inj h).symm

theorem typeNamed_error {name : String} (h : typeNamed pointer name = .error e) :
    JsonType.ofName? name = none ∧ e = .unknownType pointer name := by
  unfold typeNamed at h
  split at h
  · cases h
  · exact ⟨‹_›, (Except.error.inj h).symm⟩

theorem addTypesNamed_error {names : List Json} {known : List JsonType}
    (h : addTypesNamed pointer names known = .error e) :
    (∃ name, .string name ∈ names ∧ JsonType.ofName? name = none ∧
        e = .unknownType pointer name) ∨
      (∃ value ∈ names, ∀ name, value ≠ .string name) ∧
        e = .invalidKeyword pointer "type" .textOrTexts := by
  induction names generalizing known with
  | nil => cases h
  | cons value rest ih =>
      cases value with
      | string name =>
          rw [addTypesNamed] at h
          rcases of_bind_error h with hname | ⟨type, -, h⟩
          · obtain ⟨hunknown, rfl⟩ := typeNamed_error hname
            exact .inl ⟨name, List.mem_cons_self, hunknown, rfl⟩
          · rcases ih h with ⟨name', hmem, hunknown⟩ | ⟨⟨value, hmem, hother⟩, he⟩
            · exact .inl ⟨name', List.mem_cons_of_mem _ hmem, hunknown⟩
            · exact .inr ⟨⟨value, List.mem_cons_of_mem _ hmem, hother⟩, he⟩
      | _ => exact .inr ⟨⟨_, List.mem_cons_self, by rintro _ ⟨⟩⟩, (Except.error.inj h).symm⟩

/-- An error of a `type` with a single name. -/
theorem typeNamed_about {name : String} (htype : members.lookup "type" = some (.string name))
    (h : typeNamed pointer name = .error e) : e.About document pointer (.object members) := by
  obtain ⟨hunknown, rfl⟩ := typeNamed_error h
  exact .unknownType htype (.inl rfl) hunknown

/-- An error of a `type` with a list of names. -/
theorem typesNamed_about {names : List Json} (htype : members.lookup "type" = some (.array names))
    (h : typesNamed pointer names = .error e) : e.About document pointer (.object members) := by
  rw [typesNamed] at h
  split at h
  · rename_i hempty
    rw [List.isEmpty_iff] at hempty
    subst hempty
    cases h
    have hnone : ¬KeywordForm.nonEmptyTexts.Admits (.array []) := by
      rintro ⟨names, hne, heq⟩
      exact hne (List.map_eq_nil_iff.mp (Json.array.inj heq).symm)
    refine .invalidKeyword htype (by decide) (List.forall_mem_cons.mpr ⟨?_, ?_⟩) hnone
    · rintro ⟨s, ⟨⟩⟩
    · simpa using hnone
  · rcases addTypesNamed_error h with ⟨name, hmem, hunknown, rfl⟩ | ⟨⟨value, hmem, hother⟩, rfl⟩
    · exact .unknownType htype (.inr ⟨names, rfl, hmem⟩) hunknown
    · have htexts := KeywordForm.ne_texts_of_mem hmem hother
      have hnone : ¬KeywordForm.nonEmptyTexts.Admits (.array names) := by
        rintro ⟨texts, -, heq⟩
        exact htexts texts heq
      refine .invalidKeyword htype (by decide) (List.forall_mem_cons.mpr ⟨?_, ?_⟩) ?_
      · rintro ⟨s, ⟨⟩⟩
      · simpa using hnone
      · rintro (⟨s, ⟨⟩⟩ | ⟨texts, heq⟩)
        exact htexts texts heq

/-- The error of a `type` that is neither a name nor a list. -/
theorem invalidType_about {value : Json} (htype : members.lookup "type" = some value)
    (hstring : ∀ s, value ≠ .string s) (harray : ∀ values, value ≠ .array values) :
    About document pointer (.object members) (.invalidKeyword pointer "type" .textOrTexts) := by
  obtain ⟨htext, htexts, heither⟩ := KeywordForm.not_admits_texts hstring harray
  refine .invalidKeyword htype (by decide) (List.forall_mem_cons.mpr ⟨htext, ?_⟩) heither
  simpa using htexts

/-- The error of a keyword whose list is missing or empty. -/
theorem nonEmptyArray_about {keyword : String} {value : Json}
    (hforms : forms keyword = [.nonEmptyArray]) (hvalue : members.lookup keyword = some value)
    (hother : ∀ first rest, value ≠ .array (first :: rest)) :
    About document pointer (.object members) (.invalidKeyword pointer keyword .nonEmptyArray) := by
  refine invalidKeyword_about hforms hvalue ?_
  rintro ⟨values, hne, rfl⟩
  obtain ⟨first, rest, rfl⟩ := List.exists_cons_of_ne_nil hne
  exact hother first rest rfl

end Keyword

namespace Json

variable {document : Json} {pointer keyword : String} {members : Members}

/-- The list element at the pointer to its place. -/
theorem at?_element {values : List Json} {index : Nat} {value : Json}
    (hat : document.at? pointer = some (.object members))
    (hlist : members.lookup keyword = some (.array values)) (hvalue : values[index]? = some value) :
    document.at? (Pointer.element (Pointer.child pointer keyword) index) = some value := by
  have hbase : document.at? (Pointer.child pointer keyword) = some (.array values) := by
    rw [at?_child hat]
    exact hlist
  rw [Pointer.element, at?_child hbase]
  exact step?_element hvalue

end Json

/-! ### The branches of unions -/

namespace UnionTypes

variable {document : Json} {members : Members} {pointer : String} {e : SchemaError}

theorem declared_about (hbranch : IsBranch document pointer) (href : members.lookup "$ref" = none)
    (h : declared members pointer = .error e) : e.About document pointer (.object members) := by
  rw [declared] at h
  split at h
  · rename_i name htype
    rcases of_bind_error h with hname | ⟨_, -, h⟩
    · exact Keyword.typeNamed_about htype hname
    · cases h
  · rename_i names htype
    exact Keyword.typesNamed_about htype h
  · rename_i value hstring harray htype
    cases h
    exact Keyword.invalidType_about htype hstring harray
  · rename_i htype
    split at h
    · cases h
    · rename_i hproperties
      split at h
      · cases h
      · rename_i hitems
        rw [Bool.not_eq_true, Keyword.isIn_eq_false] at hproperties hitems
        cases h
        exact .untypedUnionBranch
          (.cons htype (.cons hproperties (.cons hitems (.cons href .nil)))) hbranch

/-- An error of a list of branches is one of a branch in its place. -/
theorem exists_branch_error {read : BranchReader} {keyword : String} {branches : List Json}
    {types : List JsonType} (hat : document.at? pointer = some (.object members))
    (hlist : members.lookup keyword = some (.array branches))
    (h : addBranches read (Pointer.child pointer keyword) 0 branches types = .error e) :
    ∃ index < branches.length, ∃ branch types',
      document.at? (Pointer.element (Pointer.child pointer keyword) index) = some branch ∧
      read (Pointer.element (Pointer.child pointer keyword) index) branch types' = .error e := by
  obtain ⟨index, branch, types', hbranch, herror⟩ := addBranches_error h
  rw [Nat.zero_add] at herror
  obtain ⟨hindex, -⟩ := List.getElem?_eq_some_iff.mp hbranch
  exact ⟨index, hindex, branch, types', Json.at?_element hat hlist hbranch, herror⟩

/-- An error of a branch is located, at the branch or at one that it opens to. -/
theorem addBranch_located {budget : Nat} : ∀ {followed : List String} {pointer : String}
    {branch : Json} {types : List JsonType}, document.at? pointer = some branch →
    IsBranch document pointer →
    addBranch document budget followed pointer branch types = .error e → e.Located document := by
  -- each unfolding takes one from the budget, and hands down the pointer to what it opens to
  induction budget with
  | zero =>
      intro _ _ _ _ _ _ h
      cases h
      exact located_of_none rfl
  | succ budget ih =>
      intro followed pointer branch types hat hbranch h
      cases branch with
      | object members =>
          rw [addBranch] at h
          split at h
          · rename_i reference href
            split at h
            · cases h
              exact located_of_none rfl
            · rcases of_bind_error h with hformat | ⟨target, htarget, h⟩
              · rw [Keyword.referencePointer_error hformat]
                exact located_of_none rfl
              · split at h
                · rename_i value hvalue
                  have hlink : LinksTo document pointer target :=
                    ⟨members, reference, hat, href, Keyword.referencePointer_ok htarget⟩
                  exact ih hvalue (.target hbranch hlink) h
                · cases h
                  exact located_of_none rfl
          · rename_i value hother href
            cases h
            exact (Keyword.invalidText_about rfl href hother).located hat (.inr hbranch)
          · rename_i href
            split at h
            · rcases of_bind_error h with hdeclared | ⟨_, -, h⟩
              · exact (declared_about hbranch href hdeclared).located hat (.inr hbranch)
              · cases h
            · obtain ⟨⟨keyword, branches⟩, hlist, types', hbranches⟩ := foldlM_error h
              obtain ⟨hkeyword, hlookup⟩ := mem_nested.mp hlist
              obtain ⟨_, hindex, _, _, hinner, herror⟩ := exists_branch_error hat hlookup hbranches
              exact ih hinner (.nested hbranch hat href hkeyword hlookup hindex) herror
      | _ =>
          cases h
          exact (About.notASchema (by rintro _ ⟨⟩) fun _ => hbranch).located hat (.inr hbranch)

theorem read_genuine (hat : document.at? pointer = some (.object members))
    (hreach : Reach document pointer) (h : read document members pointer = .error e) :
    e.Genuine document := by
  refine ⟨?_, ?_⟩
  · obtain ⟨keyword, hkeyword, types, h⟩ := foldlM_error h
    split at h
    · cases h
    · rename_i branch rest hlist
      obtain ⟨_, hindex, _, _, hbranch, herror⟩ := exists_branch_error hat hlist h
      exact addBranch_located hbranch (.own hreach hat hkeyword hlist hindex) herror
    · rename_i value hother hvalue
      cases h
      have hforms : ∀ keyword ∈ combinators, Keyword.forms keyword = [.nonEmptyArray] := by decide
      exact (Keyword.nonEmptyArray_about (hforms keyword hkeyword) hvalue hother).located hat
        (.inl hreach)
  · rintro rfl
    exact read_ne_tooDeep (Json.within_of_at? hat) h

end UnionTypes

/-! ### The outline of an object -/

namespace Outline

variable {document : Json} {members : Members} {pointer : String} {e : SchemaError}

theorem ofType_about {type : JsonType} (htype : members.lookup "type" ≠ none)
    (h : ofType members pointer type = .error e) : e.About document pointer (.object members) := by
  cases type with
  | object => cases h
  | array => cases h
  | primitive type =>
      rw [ofType] at h
      split at h
      · rename_i keyword hfound
        cases h
        have hkeyword : members.lookup keyword ≠ none :=
          Keyword.isIn_eq_true.mp (List.find?_some (p := (Keyword.isIn · members)) hfound)
        exact .conflictingKeywords (List.forall_mem_cons.mpr ⟨htype, by simpa using hkeyword⟩)
          (Nat.lt_add_one 1)
      · cases h

theorem ofDeclaredType_about (h : ofDeclaredType members pointer = .error e) :
    e.About document pointer (.object members) := by
  rw [ofDeclaredType] at h
  split at h
  · rename_i name htype
    rcases of_bind_error h with hname | ⟨type, -, h⟩
    · exact Keyword.typeNamed_about htype hname
    · exact ofType_about (by rw [htype]; exact Option.some_ne_none _) h
  · rename_i names htype
    rcases of_bind_error h with hnames | ⟨types, -, h⟩
    · exact Keyword.typesNamed_about htype hnames
    · split at h
      · exact ofType_about (by rw [htype]; exact Option.some_ne_none _) h
      · cases h
  · rename_i value hstring harray htype
    cases h
    exact Keyword.invalidType_about htype hstring harray
  · split at h
    · cases h
    · split at h <;> cases h

/-- Several of the keywords that decide a kind are present. -/
theorem deciding_about (hseveral : 1 < (deciding.filter (Keyword.isIn · members)).length) :
    About document pointer (.object members)
      (.conflictingKeywords pointer (deciding.filter (Keyword.isIn · members))) := by
  refine .conflictingKeywords (fun keyword hkeyword => ?_) hseveral
  exact Keyword.isIn_eq_true.mp (List.mem_filter.mp hkeyword).2

/-- An error of an outline tells of the object itself, or of a branch of its combinators. -/
theorem read_about (h : Outline.read document members pointer = .error e) :
    e.About document pointer (.object members) ∨
      UnionTypes.read document members pointer = .error e := by
  rw [Outline.read] at h
  split at h
  · exact .inl (ofDeclaredType_about h)
  · cases h
  · rename_i value hother href _ _
    cases h
    exact .inl (Keyword.invalidText_about rfl href hother)
  · cases h
  · rename_i value hother _ henum _
    cases h
    exact .inl (Keyword.nonEmptyArray_about rfl henum hother)
  · rcases of_bind_error h with hunion | ⟨_, -, h⟩
    · exact .inr hunion
    · cases h
  · rename_i hunion _ _ hreference _ henumeration
    -- what is left has keywords of at least two of the three groups
    cases h
    refine .inl (deciding_about ?_)
    rw [deciding, List.filter_append, List.length_append]
    cases href : members.lookup "$ref" with
    | none =>
        cases henum : members.lookup "enum" with
        | none => exact (hunion href henum).elim
        | some literals =>
            have hfirst : (["$ref", "enum"].filter (Keyword.isIn · members)).length = 1 := by
              simp [Keyword.isIn, href, henum]
            have hothers := List.length_pos_iff.mpr (henumeration literals href henum)
            omega
    | some value =>
        cases henum : members.lookup "enum" with
        | none =>
            have hfirst : (["$ref", "enum"].filter (Keyword.isIn · members)).length = 1 := by
              simp [Keyword.isIn, href, henum]
            have hothers := List.length_pos_iff.mpr (hreference value href henum)
            omega
        | some literals =>
            have hfirst : (["$ref", "enum"].filter (Keyword.isIn · members)).length = 2 := by
              simp [Keyword.isIn, href, henum]
            omega

theorem read_genuine (hat : document.at? pointer = some (.object members))
    (hreach : Reach document pointer) (h : Outline.read document members pointer = .error e) :
    e.Genuine document := by
  rcases read_about h with habout | hunion
  · exact habout.genuine hat hreach
  · exact UnionTypes.read_genuine hat hreach hunion

end Outline

/-! ### Drafts between readings -/

namespace Draft

/-- How many references may still have to wait: those that do, and as many as there are values for
each text whose target may have to be read. -/
def mayWait (document : Json) (d : Draft) : Nat :=
  d.pending.length + d.unread document * document.size

/-- A draft whose references are being resolved: it is sound, and has read what is reached. -/
structure Ready (document : Json) (d : Draft) : Prop where
  sound : d.Sound document
  reached : ∀ entry ∈ d.locations, Reach document entry.1

variable {document : Json} {d d₁ : Draft} {id found : NodeId} {rest : List NodeId}
  {reference : String} {resolved : Option NodeId}

/-- The target of a reference among the nodes is reached. -/
theorem Ready.reach_target (hd : d.Ready document)
    (hkind : (d.nodes.node id).kind = .reference reference resolved) {place : String}
    (hplace : Pointer.ofReference? reference = some place) : Reach document place := by
  obtain ⟨pointer, members, hpointer, hvalue, href⟩ := hd.sound.reference_at hkind
  exact .target (hd.reached _ (mem_of_pointer? hpointer)) ⟨members, reference, hvalue, href, hplace⟩

theorem Ready.skip (hd : d.Ready document) (hpending : d.pending = id :: rest) :
    ({ d with pending := rest } : Draft).Ready document ∧
      ({ d with pending := rest } : Draft).mayWait document < d.mayWait document := by
  refine ⟨⟨hd.sound.setPending rest, hd.reached⟩, ?_⟩
  rw [mayWait, mayWait, hpending, List.length_cons]
  exact Nat.add_lt_add_right (Nat.lt_succ_self _) _

/-- When a reference has got its target, the draft is ready for the next one, and fewer references
may still wait. -/
theorem Ready.bind (hdistinct : document.DistinctKeys) (hd : d.Ready document)
    (hpending : d.pending = id :: rest)
    (hkind : (d.nodes.node id).kind = .reference reference resolved)
    (hfound : (Reader.target document reference).run { d with pending := rest } =
      .ok (found, d₁)) :
    (d₁.bind id found).Ready document ∧
      (d₁.bind id found).mayWait document < d.mayWait document := by
  obtain ⟨hsound, hless⟩ := Reader.bind_lowers hdistinct hd.sound hpending hkind hfound
  obtain ⟨place, hplace, -⟩ := Reader.target_ok hfound
  have hreach := hd.reach_target hkind hplace
  have hreached := Reader.target_reached hdistinct hd.reached hplace hreach hfound
  exact ⟨⟨hsound, hreached⟩, hless⟩

/-- The draft that the root is read to is ready. -/
theorem ready_of_root (hdistinct : document.DistinctKeys) {root : NodeId}
    (h : (Reader.schema document "" document).run {} = .ok (root, d)) :
    d.Ready document ∧ d.mayWait document < Reader.maxReferences document := by
  have hreads := Reader.schema_reads h
  have hroot : ∀ part ∈ [Part.located "" document], part.Reached document := by
    simpa [Part.Reached, Part.Fits, Part.pointer?] using Reach.root
  have hsound := hreads.sound hdistinct (by simp [Part.Fits]) (by simp [Part.pointer?])
    (sound_empty document)
  exact ⟨⟨hsound, hreads.locations_reached hdistinct hroot (by simp)⟩, hreads.lt_maxReferences⟩

end Draft

/-! ### Reading one location -/

namespace Reader

section

variable {document : Json} {members named : Members} {pointer : String} {e : SchemaError}
  {properties : List (String × NodeId)}

theorem requiredNames_error {names : List Json} {known : List String}
    (h : requiredNames pointer properties names known = .error e) :
    (∃ name, .string name ∈ names ∧ name ∉ properties.map Prod.fst ∧
        e = .undeclaredRequired pointer name) ∨
      (∃ value ∈ names, ∀ name, value ≠ .string name) ∧
        e = .invalidKeyword pointer "required" .texts := by
  induction names generalizing known with
  | nil => cases h
  | cons value rest ih =>
      cases value with
      | string name =>
          rw [requiredNames] at h
          split at h
          · rename_i hnone
            have hundeclared : name ∉ properties.map Prod.fst := fun hmem =>
              lookup_ne_none_iff.mpr hmem (Option.isNone_iff_eq_none.mp hnone)
            exact .inl ⟨name, List.mem_cons_self, hundeclared, (Except.error.inj h).symm⟩
          · rcases ih h with ⟨name', hmem, hundeclared⟩ | ⟨⟨value, hmem, hother⟩, he⟩
            · exact .inl ⟨name', List.mem_cons_of_mem _ hmem, hundeclared⟩
            · exact .inr ⟨⟨value, List.mem_cons_of_mem _ hmem, hother⟩, he⟩
      | _ => exact .inr ⟨⟨_, List.mem_cons_self, by rintro _ ⟨⟩⟩, (Except.error.inj h).symm⟩

/-- An error of the names that must be present. -/
theorem required_about (hnamed : Keyword.HoldsMembers members "properties" named)
    (hproperties : properties.map Prod.fst = named.map Prod.fst)
    (h : required members pointer properties = .error e) :
    e.About document pointer (.object members) := by
  rw [required] at h
  split at h
  · cases h
  · rename_i names hrequired
    rcases requiredNames_error h with ⟨name, hmem, hundeclared, rfl⟩ |
      ⟨⟨value, hmem, hother⟩, rfl⟩
    · rw [hproperties] at hundeclared
      exact .undeclaredRequired hrequired hmem hnamed hundeclared
    · refine Keyword.invalidKeyword_about rfl hrequired ?_
      rintro ⟨texts, heq⟩
      exact KeywordForm.ne_texts_of_mem hmem hother texts heq
  · rename_i value hother hrequired
    cases h
    refine Keyword.invalidKeyword_about rfl hrequired ?_
    rintro ⟨texts, heq⟩
    exact hother _ heq

theorem notASchema_genuine {value : Json} {d : Draft}
    (hpart : (Part.located pointer value).Reached document)
    (hobject : ∀ members, value ≠ .object members) (hany : value ≠ .bool true)
    (h : (throw (.notASchema pointer (JsonType.of value)) : Reader NodeId).run d = .error e) :
    e.Genuine document := by
  rw [throw_error h]
  exact (About.notASchema hobject fun htrue => (hany htrue).elim).genuine hpart.1
    (hpart.2 pointer rfl)

end

variable {document : Json}

mutual
/-- An error of the schema at a location that is reached is genuine. -/
theorem schema_error (hdistinct : document.DistinctKeys) {pointer : String} {d : Draft}
    {e : SchemaError} : ∀ {value : Json},
    (Part.located pointer value).Reached document →
    (schema document pointer value).run d = .error e → e.Genuine document
  | .bool true, _, h => by
    rw [schema] at h
    cases h
  | .object members, ⟨hvalue, hreach⟩, h => by
    have hat : document.at? pointer = some (.object members) := hvalue
    have hplace := hreach pointer rfl
    rw [schema] at h
    rcases lift_bind_error h with htitle | ⟨title, -, h⟩
    · exact (Keyword.text?_about rfl htitle).genuine hat hplace
    rcases lift_bind_error h with hdescription | ⟨description, -, h⟩
    · exact (Keyword.text?_about rfl hdescription).genuine hat hplace
    rcases lift_bind_error h with houtline | ⟨outline, houtline, h⟩
    · exact Outline.read_genuine hat hplace houtline
    have houtlines := Outline.read_ok houtline
    cases outline with
    | leaf kind =>
        rcases bind_error h with h | ⟨_, _, -, h⟩
        · exact (pure_error h).elim
        · cases h
    | object =>
        rcases bind_error h with h | ⟨_, _, -, h⟩
        · exact object_error hdistinct hat hplace houtlines h
        · cases h
    | array =>
        rcases bind_error h with h | ⟨_, _, -, h⟩
        · exact array_error hdistinct hat hplace houtlines h
        · cases h
  | .bool false, hpart, h => by
    simp only [schema] at h
    exact notASchema_genuine hpart (by rintro _ ⟨⟩) (by rintro ⟨⟩) h
  | .null, hpart, h => by
    simp only [schema] at h
    exact notASchema_genuine hpart (by rintro _ ⟨⟩) (by rintro ⟨⟩) h
  | .number _, hpart, h => by
    simp only [schema] at h
    exact notASchema_genuine hpart (by rintro _ ⟨⟩) (by rintro ⟨⟩) h
  | .string _, hpart, h => by
    simp only [schema] at h
    exact notASchema_genuine hpart (by rintro _ ⟨⟩) (by rintro ⟨⟩) h
  | .array _, hpart, h => by
    simp only [schema] at h
    exact notASchema_genuine hpart (by rintro _ ⟨⟩) (by rintro ⟨⟩) h
termination_by value => 4 * value.size
decreasing_by all_goals simp only [Json.size]; omega

theorem object_error (hdistinct : document.DistinctKeys) {pointer : String} {members : Members}
    {d : Draft} {e : SchemaError}
    (hvalue : document.at? pointer = some (.object members)) (hreach : Reach document pointer)
    (houtline : Outlines document members .object)
    (h : (object document pointer members).run d = .error e) : e.Genuine document := by
  rw [object] at h
  rcases bind_error h with h | ⟨properties, _, hproperties, h⟩
  · exact declaredProperties_error hdistinct hvalue hreach houtline h
  obtain ⟨named, ids, hnamed, hlength, rfl, -⟩ := declaredProperties_reads hproperties
  have hkeys : ((named.map Prod.fst).zip ids).map Prod.fst = named.map Prod.fst := by
    rw [List.map_fst_zip]
    rw [List.length_map, hlength]
  rcases lift_bind_error h with hrequired | ⟨_, -, h⟩
  · exact (required_about hnamed hkeys hrequired).genuine hvalue hreach
  rcases bind_error h with h | ⟨_, _, -, h⟩
  · exact branches_error hdistinct hvalue hreach houtline h
  · exact (pure_error h).elim
termination_by 4 * Json.sizeMembers members + 3

theorem declaredProperties_error (hdistinct : document.DistinctKeys) {pointer : String}
    {members : Members} {d : Draft} {e : SchemaError}
    (hvalue : document.at? pointer = some (.object members))
    (hreach : Reach document pointer) (houtline : Outlines document members .object)
    (h : (declaredProperties document pointer members).run d = .error e) : e.Genuine document := by
  rw [declaredProperties] at h
  split at h
  · exact (pure_error h).elim
  · rename_i hlookup
    exact properties_error hdistinct (properties_reached hdistinct hreach hvalue houtline hlookup) h
  · rename_i value hother hlookup
    have hnone : ¬KeywordForm.object.Admits value := by
      rintro ⟨named, hnamed⟩
      exact hother named hnamed
    rw [throw_error h]
    exact (Keyword.invalidKeyword_about rfl hlookup hnone).genuine hvalue hreach
termination_by 4 * Json.sizeMembers members + 2
decreasing_by
  have := Json.size_le_sizeMembers ‹members.lookup "properties" = _›
  simp only [Json.size] at this
  omega

theorem branches_error (hdistinct : document.DistinctKeys) {pointer : String} {members : Members}
    {d : Draft} {e : SchemaError}
    (hvalue : document.at? pointer = some (.object members)) (hreach : Reach document pointer)
    (houtline : Outlines document members .object)
    (h : (branches document pointer members).run d = .error e) : e.Genuine document := by
  rw [branches] at h
  split at h
  · exact (pure_error h).elim
  · rename_i hlookup
    exact elements_error hdistinct (branches_reached hreach hvalue houtline hlookup) h
  · rename_i value hother hlookup
    have hnone : ¬KeywordForm.array.Admits value := by
      rintro ⟨values, hvalues⟩
      exact hother values hvalues
    rw [throw_error h]
    exact (Keyword.invalidKeyword_about rfl hlookup hnone).genuine hvalue hreach
termination_by 4 * Json.sizeMembers members + 2
decreasing_by
  have := Json.size_le_sizeMembers ‹members.lookup "allOf" = _›
  simp only [Json.size] at this
  omega

theorem array_error (hdistinct : document.DistinctKeys) {pointer : String} {members : Members}
    {d : Draft} {e : SchemaError}
    (hvalue : document.at? pointer = some (.object members)) (hreach : Reach document pointer)
    (houtline : Outlines document members .array)
    (h : (array document pointer members).run d = .error e) : e.Genuine document := by
  rw [array] at h
  split at h
  · cases h
  · rename_i hitems
    rcases bind_error h with h | ⟨_, _, -, h⟩
    · exact elements_error hdistinct (tuple_reached hreach hvalue houtline hitems) h
    · exact (pure_error h).elim
  · rename_i items hlist hitems
    rcases bind_error h with h | ⟨_, _, -, h⟩
    · exact schema_error hdistinct (items_reached hreach hvalue houtline hitems hlist) h
    · exact (pure_error h).elim
termination_by 4 * Json.sizeMembers members + 2
decreasing_by
  · have := Json.size_le_sizeMembers ‹members.lookup "items" = _›
    simp only [Json.size] at this
    omega
  · have := Json.size_le_sizeMembers ‹members.lookup "items" = _›
    omega

theorem properties_error (hdistinct : document.DistinctKeys) {base : String} {d : Draft}
    {e : SchemaError} : ∀ {named : Members},
    (∀ part ∈ memberParts base named, part.Reached document) →
    (Reader.properties document base named).run d = .error e → e.Genuine document
  | [], _, h => by
    rw [Reader.properties] at h
    exact (pure_error h).elim
  | (name, value) :: rest, hparts, h => by
    obtain ⟨hvalue, hrest⟩ := List.forall_mem_cons.mp hparts
    rw [Reader.properties] at h
    rcases bind_error h with h | ⟨_, _, -, h⟩
    · exact schema_error hdistinct hvalue h
    rcases bind_error h with h | ⟨_, _, -, h⟩
    · exact properties_error hdistinct hrest h
    · exact (pure_error h).elim
termination_by named => 4 * Json.sizeMembers named + 1
decreasing_by
  all_goals
    have := value.size_pos
    simp only [Json.sizeMembers]
    omega

theorem elements_error (hdistinct : document.DistinctKeys) {base : String} {index : Nat} {d : Draft}
    {e : SchemaError} : ∀ {values : List Json},
    (∀ part ∈ elementParts base index values, part.Reached document) →
    (elements document base index values).run d = .error e → e.Genuine document
  | [], _, h => by
    rw [elements] at h
    exact (pure_error h).elim
  | value :: rest, hparts, h => by
    obtain ⟨hvalue, hrest⟩ := List.forall_mem_cons.mp hparts
    rw [elements] at h
    rcases bind_error h with h | ⟨_, _, -, h⟩
    · exact schema_error hdistinct hvalue h
    rcases bind_error h with h | ⟨_, _, -, h⟩
    · exact elements_error hdistinct hrest h
    · exact (pure_error h).elim
termination_by values => 4 * Json.sizeElements values + 1
decreasing_by
  all_goals
    have := value.size_pos
    simp only [Json.sizeElements]
    omega
end

/-! ### Resolving the references -/

theorem target_error (hdistinct : document.DistinctKeys) {reference : String} {d : Draft}
    {e : SchemaError}
    (hreach : ∀ place, Pointer.ofReference? reference = some place → Reach document place)
    (h : (target document reference).run d = .error e) : e.Genuine document := by
  rw [target] at h
  rcases lift_bind_error h with hformat | ⟨place, hplace, h⟩
  · rw [Keyword.referencePointer_error hformat]
    exact genuine_reference _
  replace h := get_bind_error h
  split at h
  · exact (pure_error h).elim
  · split at h
    · rename_i value hvalue
      refine schema_error hdistinct ⟨hvalue, fun p hp => ?_⟩ h
      rw [← Option.some.inj hp]
      exact hreach place (Keyword.referencePointer_ok hplace)
    · rw [throw_error h]
      exact genuine_reference _

/-- An error of resolving the waiting references is genuine, if the budget exceeds what may still
wait. -/
theorem resolve_error (hdistinct : document.DistinctKeys) {budget : Nat} {e : SchemaError} :
    ∀ {d : Draft}, d.Ready document →
    d.mayWait document < budget → (resolve document budget).run d = .error e →
    e.Genuine document := by
  induction budget with
  | zero =>
      intro d _ hbudget
      exact absurd hbudget (Nat.not_lt_zero _)
  | succ budget ih =>
      intro d hd hbudget h
      cases hpending : d.pending with
      | nil =>
          rw [resolve, run_get_bind] at h
          simp only [hpending] at h
          exact (pure_error h).elim
      | cons id rest =>
          cases hkind : (d.nodes.node id).kind with
          | reference reference resolved =>
              rw [resolve_step hpending hkind] at h
              rcases bind_error h with h | ⟨found, d₁, hfound, h⟩
              · exact target_error hdistinct (fun _ => hd.reach_target hkind) h
              · obtain ⟨hready, hless⟩ := hd.bind hdistinct hpending hkind hfound
                exact ih hready (Nat.lt_of_lt_of_le hless (Nat.le_of_lt_succ hbudget)) h
          | _ =>
              rw [resolve_skip hpending (by rw [hkind]; rfl)] at h
              obtain ⟨hready, hless⟩ := hd.skip hpending
              exact ih hready (Nat.lt_of_lt_of_le hless (Nat.le_of_lt_succ hbudget)) h

theorem checkChains_error {nodes : Arena} {ids : List NodeId} {e : SchemaError}
    (h : checkChains nodes ids = .error e) :
    ∃ reference, e = .reference (.circular reference) := by
  induction ids with
  | nil => cases h
  | cons id rest ih =>
      rw [checkChains] at h
      split at h
      · exact ⟨_, (Except.error.inj h).symm⟩
      · exact ih h

end Reader

/-! ### Errors of reading -/

/-- The message of an error starts with its pointer, written as a reference. -/
theorem SchemaError.reference_begins_message {e : SchemaError} {pointer : String}
    (h : e.pointer? = some pointer) : ("#" ++ pointer ++ ": ").toList <+: e.message.toList := by
  cases e with
  | reference => cases h
  | tooDeep => cases h
  | _ =>
      cases h
      simp [message]

namespace Schema

theorem read_genuine {document : Json} {e : SchemaError} (hdistinct : document.DistinctKeys)
    (h : Schema.read document = .error e) : e.Genuine document := by
  rw [Schema.read] at h
  rcases of_bind_error h with h | ⟨⟨root, d⟩, -, h⟩
  · have hroot : (Part.located "" document).Reached document := by
      refine ⟨Json.at?_empty document, fun pointer hpointer => ?_⟩
      rw [← Option.some.inj hpointer]
      exact .root
    rcases bind_error h with h | ⟨root, d₀, hread, h⟩
    · exact Reader.schema_error hdistinct hroot h
    rcases bind_error h with h | ⟨_, _, -, h⟩
    · obtain ⟨hready, hbudget⟩ := Draft.ready_of_root hdistinct hread
      exact Reader.resolve_error hdistinct hready hbudget h
    · exact (pure_error h).elim
  · rcases of_bind_error h with h | ⟨_, -, h⟩
    · obtain ⟨reference, rfl⟩ := Reader.checkChains_error h
      exact genuine_reference _
    · cases h

/-- An error of reading that carries a pointer points at the value at fault: the pointer leads to a
value of the document, at a location that is reached or at a branch of a union, of which the error
says what is true; and it is what the message shows as a reference. -/
theorem read_error_located {document : Json} {e : SchemaError} {pointer : String}
    (hdistinct : document.DistinctKeys) (h : Schema.read document = .error e)
    (hpointer : e.pointer? = some pointer) :
    (∃ value, document.at? pointer = some value ∧
      (Reach document pointer ∨ IsBranch document pointer) ∧ e.About document pointer value) ∧
    Pointer.ofReference? ("#" ++ pointer) = some pointer ∧
    ("#" ++ pointer ++ ": ").toList <+: e.message.toList := by
  obtain ⟨value, hvalue, hplace, habout⟩ := (read_genuine hdistinct h).located pointer hpointer
  exact ⟨⟨value, hvalue, hplace, habout⟩, Pointer.ofReference?_of_at? hvalue,
    reference_begins_message hpointer⟩

/-- A tariff whose price is read on demand and refers to a branch that is at fault. -/
def tariffDocument : Json :=
  .object [("properties", .object [("price", .object [("$ref", .string "#/definitions/price")])]),
    ("definitions", .object [
      ("price", .object [("anyOf", .array
        [.object [("$ref", .string "#/definitions/net~1gross")]])]),
      ("net/gross", .object [("oneOf", .array [.object [("type", .string "float")]])])])]

theorem read_tariffDocument : Schema.read tariffDocument =
    .error (.unknownType "/definitions/net~1gross/oneOf/0" "float") := by
  cbv

theorem read_error_located_tariff : tariffDocument.DistinctKeys ∧
    Schema.read tariffDocument =
      .error (.unknownType "/definitions/net~1gross/oneOf/0" "float") ∧
    ∃ value, tariffDocument.at? "/definitions/net~1gross/oneOf/0" = some value ∧
      About tariffDocument "/definitions/net~1gross/oneOf/0" value
        (.unknownType "/definitions/net~1gross/oneOf/0" "float") := by
  have hdistinct : tariffDocument.DistinctKeys := by decide
  obtain ⟨⟨value, hvalue, -, habout⟩, -⟩ := read_error_located hdistinct read_tariffDocument rfl
  exact ⟨hdistinct, read_tariffDocument, value, hvalue, habout⟩

end Schema

end SchemaBridge
