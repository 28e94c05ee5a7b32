import SchemaBridge.AvroEmission
import SchemaBridge.Proofs.AvroText
import SchemaBridge.Proofs.DistinctKeys
import SchemaBridge.Proofs.StepInversion

/-!
The names of Avro definitions. A text is grounded when it takes a new name for each definition and
mentions none before its definition has begun. A part of a conversion issues names that were not
issued before, and its text is grounded in the names that were issued until then. Main statement: a
name that is issued is new, and the ways of issuing and mentioning names compose.
-/

namespace SchemaBridge

/-- Names are well ordered in a text, given the names that are known before and after it: a
definition takes a new name, and a name that is mentioned is primitive or known. -/
inductive Grounded : List String → List NameEvent → List String → Prop
  | nil (known : List String) : Grounded known [] known
  | define {known known' : List String} {name : String} {rest : List NameEvent}
      (hnew : name ∉ known) (hrest : Grounded (name :: known) rest known') :
      Grounded known (.define name :: rest) known'
  | mention {known known' : List String} {name : String} {rest : List NameEvent}
      (hname : (∃ type : Primitive, name = type.avroName) ∨ name ∈ known)
      (hrest : Grounded known rest known') : Grounded known (.mention name :: rest) known'

namespace Grounded

variable {known known' : List String} {events : List NameEvent}

theorem append {mid : List String} {xs ys : List NameEvent} (hx : Grounded known xs mid)
    (hy : Grounded mid ys known') : Grounded known (xs ++ ys) known' := by
  induction hx with
  | nil => exact hy
  | define hnew _ ih => exact .define hnew (ih hy)
  | mention hname _ ih => exact .mention hname (ih hy)

theorem of_append {xs ys : List NameEvent} (h : Grounded known (xs ++ ys) known') :
    ∃ mid, Grounded known xs mid ∧ Grounded mid ys known' := by
  induction xs generalizing known with
  | nil => exact ⟨known, .nil known, h⟩
  | cons event rest ih =>
      cases h with
      | define hnew hrest =>
          obtain ⟨mid, hx, hy⟩ := ih hrest
          exact ⟨mid, .define hnew hx, hy⟩
      | mention hname hrest =>
          obtain ⟨mid, hx, hy⟩ := ih hrest
          exact ⟨mid, .mention hname hx, hy⟩

/-- The names known after a text are those before and those that it defines. -/
theorem known_eq (h : Grounded known events known') :
    known' = (definitions events).reverse ++ known := by
  induction h with
  | nil => rfl
  | define _ _ ih => rw [ih, definitions_define, List.reverse_cons, List.append_assoc]; rfl
  | mention _ _ ih => rw [ih, definitions_mention]

theorem definitions_nodup (h : Grounded known events known') :
    (definitions events).Nodup ∧ ∀ name ∈ definitions events, name ∉ known := by
  induction h with
  | nil => simp [definitions]
  | @define known _ name rest hnew _ ih =>
      obtain ⟨hnodup, hfresh⟩ := ih
      rw [definitions_define]
      have hfirst : name ∉ definitions rest := fun hmem => hfresh name hmem List.mem_cons_self
      refine ⟨List.nodup_cons.mpr ⟨hfirst, hnodup⟩, List.forall_mem_cons.mpr ⟨hnew, ?_⟩⟩
      intro other hother hmem
      exact hfresh other hother (List.mem_cons_of_mem _ hmem)
  | mention _ _ ih => exact ih

/-- A name that is mentioned is primitive, or known, or its definition has begun. -/
theorem mention_known {before after : List NameEvent} {name : String}
    (h : Grounded known (before ++ .mention name :: after) known') :
    (∃ type : Primitive, name = type.avroName) ∨ name ∈ known ∨ name ∈ definitions before := by
  obtain ⟨mid, hbefore, hafter⟩ := h.of_append
  cases hafter with
  | mention hname _ =>
      apply hname.imp_right
      intro hmem
      rw [hbefore.known_eq, List.mem_append, List.mem_reverse] at hmem
      exact hmem.symm

/-- A text that defines no new name leaves the known names as they are. -/
theorem known_eq_of_subset (h : Grounded known events known')
    (hknown : ∀ name ∈ definitions events, name ∈ known) : known' = known := by
  have hnone : definitions events = [] := by
    apply List.eq_nil_iff_forall_not_mem.mpr
    intro name hname
    exact h.definitions_nodup.2 name hname (hknown name hname)
  rw [h.known_eq, hnone]
  rfl

end Grounded

namespace AvroEmission

/-- Behind one base, different numbers give different names. -/
theorem numbered_injective {base : String} {j k : Nat}
    (h : base ++ toString j = base ++ toString k) : j = k :=
  Pointer.toString_injective ((String.append_right_inj base).mp h)

/-- Among more successive numbers than there are names, one gives a new name. -/
theorem exists_free (issued : List String) (base : String) (first : Nat) :
    ∃ k ≤ issued.length, base ++ toString (k + first) ∉ issued := by
  let candidates := (List.range (issued.length + 1)).map fun k => base ++ toString (k + first)
  have hnodup : candidates.Nodup := by
    apply List.pairwise_map.mpr
    apply List.nodup_range.imp
    intro j k hne heq
    exact hne (Nat.add_right_cancel (numbered_injective heq))
  have hnot : ¬candidates ⊆ issued := by
    intro hsubset
    have hle := hnodup.length_le_of_subset hsubset
    simp only [candidates, List.length_map, List.length_range] at hle
    omega
  obtain ⟨name, hname⟩ := Classical.not_forall.mp hnot
  obtain ⟨hcandidate, hfree⟩ := Classical.not_imp.mp hname
  obtain ⟨k, hk, rfl⟩ := List.mem_map.mp hcandidate
  exact ⟨k, Nat.le_of_lt_succ (List.mem_range.mp hk), hfree⟩

theorem freshName_of_not_mem {issued : List String} {base : String} (h : base ∉ issued) :
    freshName issued base = base :=
  if_neg h

/-- A base that is taken gets the least number that makes it new. -/
theorem freshName_of_mem {issued : List String} {base : String} (h : base ∈ issued) :
    ∃ k ≤ issued.length, freshName issued base = base ++ toString (k + 2) ∧
      base ++ toString (k + 2) ∉ issued ∧ ∀ j < k, base ++ toString (j + 2) ∈ issued := by
  rw [freshName, if_pos h]
  split
  · rename_i k hk
    obtain ⟨hfree, hrange, hbefore⟩ := List.find?_range_eq_some.mp hk
    exact ⟨k, Nat.le_of_lt_succ (List.mem_range.mp hrange), rfl, by simpa using hfree,
      by simpa using hbefore⟩
  · rename_i hnone
    obtain ⟨k, hk, hfree⟩ := exists_free issued base 2
    have htaken := List.find?_eq_none.mp hnone k (List.mem_range.mpr (Nat.lt_succ_of_le hk))
    exact absurd hfree (by simpa using htaken)

/-- A fresh name is new. -/
theorem freshName_not_mem (issued : List String) (base : String) :
    freshName issued base ∉ issued := by
  by_cases h : base ∈ issued
  · obtain ⟨k, -, hname, hfree, -⟩ := freshName_of_mem h
    rwa [hname]
  · rwa [freshName_of_not_mem h]

/-- The names in the table are issued. -/
def Progress.Sound (p : Progress) : Prop :=
  ∀ e ∈ p.named, e.2 ∈ p.issued

/-- A part of a conversion keeps the table sound and issues the names that its text defines. -/
def Issues (p : Progress) (events : List NameEvent) (p' : Progress) : Prop :=
  p.Sound → p'.Sound ∧ Grounded p.issued events p'.issued

namespace Issues

variable {p p₁ p' : Progress} {xs ys : List NameEvent}

theorem append (hx : Issues p xs p₁) (hy : Issues p₁ ys p') : Issues p (xs ++ ys) p' := by
  intro hp
  obtain ⟨hp₁, hgrounded⟩ := hx hp
  obtain ⟨hp', hgrounded'⟩ := hy hp₁
  exact ⟨hp', hgrounded.append hgrounded'⟩

/-- A step that touches neither names nor their table. -/
theorem silent (hnamed : p'.named = p.named) (hissued : p'.issued = p.issued) :
    Issues p [] p' := by
  intro hp
  refine ⟨?_, ?_⟩
  · rwa [Progress.Sound, hnamed, hissued]
  · rw [hissued]
    exact .nil _

/-- A step before the names of a text. -/
theorem after (h : Issues p₁ xs p') (hnamed : p₁.named = p.named) (hissued : p₁.issued = p.issued) :
    Issues p xs p' :=
  (silent hnamed hissued).append h

/-- A step behind the names of a text. -/
theorem before (h : Issues p xs p₁) (hnamed : p'.named = p₁.named) (hissued : p'.issued = p₁.issued) :
    Issues p xs p' := by
  have hall := h.append (silent hnamed hissued)
  rwa [List.append_nil] at hall

theorem primitives {names : List String} (hnames : ∀ name ∈ names, ∃ type : Primitive,
    name = type.avroName) : Issues p (names.map .mention) p := by
  intro hp
  refine ⟨hp, ?_⟩
  induction names with
  | nil => exact .nil _
  | cons name rest ih =>
      obtain ⟨hname, hrest⟩ := List.forall_mem_cons.mp hnames
      exact .mention (.inl hname) (ih hrest)

theorem define {id : NodeId} {base : String} (h : Issues (p.define id base).2 xs p') :
    Issues p (.define (p.define id base).1 :: xs) p' := by
  intro hp
  have hsound : (p.define id base).2.Sound := by
    refine List.forall_mem_cons.mpr ⟨List.mem_cons_self, ?_⟩
    intro e he
    exact List.mem_cons_of_mem _ (hp e he)
  obtain ⟨hp', hgrounded⟩ := h hsound
  exact ⟨hp', .define (freshName_not_mem p.issued base) hgrounded⟩

theorem mention {id : NodeId} {name : String} (h : p.named.lookup id = some name) :
    Issues p [.mention name] p := by
  intro hp
  have hissued := hp _ (mem_of_lookup h)
  exact ⟨hp, .mention (.inr hissued) (.nil _)⟩

end Issues

end AvroEmission

end SchemaBridge
