import SchemaBridge.Proofs.AvroBranches
import SchemaBridge.Proofs.AvroBreaks
import SchemaBridge.Proofs.ValidationMeaning

/-!
Conversions to Avro come to an end. A definition is entered once, since it has a name from then on.
As long as no new name is given, a visit leads to the same nodes whenever it is made: so a node whose
visit came to an end leads back to none of the nodes that are being visited. Leaving it takes the
mark from no node in progress, unless a name was given meanwhile. Main statement: no conversion uses
up its budget, and at no time was a definition entered twice.
-/

namespace SchemaBridge

namespace AvroEmission

open Steps EmissionError

variable {s : Schema} {defaultName : String} {budget : Nat}

/-! ### Names -/

/-- How many definitions have no name in a table. -/
def unnamed (s : Schema) (named : List (NodeId × String)) : Nat :=
  (List.range s.nodes.size).countP fun id =>
    isDefinition (s.node id).kind && (named.lookup id).isNone

variable {named : List (NodeId × String)}

theorem unnamed_le (s : Schema) (named : List (NodeId × String)) :
    unnamed s named ≤ s.nodes.size := by
  have h := List.countP_le_length (p := fun id =>
    isDefinition (s.node id).kind && (named.lookup id).isNone) (l := List.range s.nodes.size)
  rwa [List.length_range] at h

theorem lt_size_of_isDefinition {id : NodeId} (h : isDefinition (s.node id).kind = true) :
    id < s.nodes.size := by
  by_contra hid
  rw [Schema.node, Arena.node_of_size_le (Nat.le_of_not_lt hid)] at h
  cases h

theorem unnamed_cons_lt {id : NodeId} {name : String}
    (hkind : isDefinition (s.node id).kind = true) (hnew : named.lookup id = none) :
    unnamed s ((id, name) :: named) < unnamed s named := by
  refine NodeId.countP_lt_of_mem (fun i h => ?_)
    (List.mem_range.mpr (lt_size_of_isDefinition hkind)) ?_ ?_
  · rw [Bool.and_eq_true, Option.isNone_iff_eq_none] at h ⊢
    refine ⟨h.1, ?_⟩
    have hlookup := h.2
    rw [List.lookup_cons] at hlookup
    split at hlookup
    · cases hlookup
    · exact hlookup
  · simp
  · simp [hkind, hnew]

/-- Names are only given, each time to a definition without one. -/
def Names (s : Schema) (p p' : Progress) : Prop :=
  p'.named = p.named ∨ unnamed s p'.named < unnamed s p.named

theorem names_enclosed (s : Schema) : Enclosed s (Names s) where
  refl _ := .inl rfl
  trans p p₁ p' h h' := by
    rcases h with hsame | hlt
    · rw [Names, ← hsame]
      exact h'
    · rcases h' with hsame' | hlt'
      · right
        rwa [hsame']
      · exact .inr (hlt'.trans hlt)
  warnDropped _ _ _ := .inl rfl
  define _ _ _ hnew hkind := .inr (unnamed_cons_lt hkind hnew)
  around _ _ _ h := h

/-- If the names are the same in the end, they were the same all the time. -/
theorem Names.same {p p₁ p' : Progress} (h : Names s p p₁) (h' : Names s p₁ p')
    (hsame : p'.named = p.named) : p₁.named = p.named := by
  rcases h with h | hlt
  · exact h
  · rcases h' with h' | hlt'
    · exact h'.symm.trans hsame
    · rw [hsame] at hlt'
      exact absurd hlt' hlt.asymm

/-! ### Visits while the names stand -/

/-- A visit of a node leads to a visit of another one, as long as the names stand. -/
def Calls (s : Schema) (named : List (NodeId × String)) (id c : NodeId) : Prop :=
  match (s.node id).kind with
  | .array items => c = items ∧ named.lookup c = none
  | .tuple ids => c ∈ ids ∧ named.lookup c = none
  | .object shape => (∃ name, (name, c) ∈ shape.properties) ∧ named.lookup c = none ∨
      ∃ branch ∈ shape.allOf, s.dereference branch = .ok c
  | .reference _ resolved => resolved = some c ∧ named.lookup c = none
  | _ => False

theorem Calls.of_part {id c : NodeId} (hgoes : s.Goes Link.parts id c)
    (hnew : named.lookup c = none) : Calls s named id c := by
  obtain ⟨link, hlink, hlinked⟩ := hgoes
  cases hlinked with
  | property hkind hmem =>
      rw [Calls, hkind]
      exact .inl ⟨⟨_, hmem⟩, hnew⟩
  | item hkind =>
      rw [Calls, hkind]
      exact ⟨rfl, hnew⟩
  | element hkind hmem =>
      rw [Calls, hkind]
      exact ⟨hmem, hnew⟩
  | _ => simp [Link.parts] at hlink

theorem Calls.of_target {id next : NodeId} {text : String}
    (hkind : (s.node id).kind = .reference text (some next)) (hnew : named.lookup next = none) :
    Calls s named id next := by
  rw [Calls, hkind]
  exact ⟨rfl, hnew⟩

theorem Calls.of_branch {id branch target : NodeId} {shape : ObjectShape}
    (hkind : (s.node id).kind = .object shape) (hmem : branch ∈ shape.allOf)
    (htarget : s.dereference branch = .ok target) : Calls s named id target := by
  rw [Calls, hkind]
  exact .inr ⟨branch, hmem, htarget⟩

/-- As long as the names stand, a visit of the node leads to no endless sequence of visits. -/
def Halts (s : Schema) (named : List (NodeId × String)) (id : NodeId) : Prop :=
  Acc (fun c id => Calls s named id c) id

theorem Halts.not_back {id c : NodeId} (h : Halts s named c) (hcalls : Calls s named id c) :
    ¬Relation.ReflTransGen (Calls s named) c id :=
  fun hback => not_transGen_of_acc h (.tail' hback hcalls)

/-- A run gives names, or it takes marks only from nodes that halt. -/
structure Leaves (s : Schema) (p p' : Progress) : Prop where
  names : Names s p p'
  marks : p'.named = p.named → ∀ m ∈ p.active, m ∈ p'.active ∨ Halts s p.named m

theorem leaves_chained (s : Schema) : Chained (Leaves s) where
  refl p := ⟨.inl rfl, fun _ m hm => .inl hm⟩
  trans p p₁ p' h h' := by
    refine ⟨(names_enclosed s).trans _ _ _ h.names h'.names, fun hsame m hm => ?_⟩
    have hfirst := h.names.same h'.names hsame
    rcases h.marks hfirst m hm with hm | hhalts
    · have hlater := h'.marks (hsame.trans hfirst.symm) m hm
      rwa [hfirst] at hlater
    · exact .inr hhalts
  warnDropped _ _ _ := ⟨.inl rfl, fun _ m hm => .inl hm⟩

/-- A node that halts may be left after its visit. -/
theorem Leaves.around {p p' : Progress} {id : NodeId} (h : Leaves s (p.enter id) p')
    (hhalts : p'.named = p.named → Halts s p.named id) : Leaves s p (p'.leave id) where
  names := h.names
  marks := by
    intro hsame m hm
    by_cases heq : m = id
    · rw [heq]
      exact .inr (hhalts hsame)
    · rcases h.marks hsame m (List.mem_cons_of_mem _ hm) with hm' | hm'
      · exact .inl (List.mem_filter.mpr ⟨hm', by simpa using heq⟩)
      · exact .inr hm'

/-- A run that starts with a new name has more names in the end. -/
theorem Names.after_define {p p₁ p' : Progress} {id : NodeId} {base name : String}
    (hkind : isDefinition (s.node id).kind = true) (hnew : p.named.lookup id = none)
    (hdefine : p.define id base = (name, p₁)) (h : Names s p₁ p') :
    unnamed s p'.named < unnamed s p.named := by
  cases hdefine
  have hcons : unnamed s ((id, freshName p.issued base) :: p.named) < unnamed s p.named :=
    unnamed_cons_lt hkind hnew
  rcases h with hsame | hless
  · rwa [hsame]
  · exact hless.trans hcons

/-- A run that gives no names shows something of the names. -/
def Shows (p p' : Progress) (P : List (NodeId × String) → Prop) : Prop :=
  p'.named = p.named → P p.named

/-- What is shown within a run is shown by the whole run. -/
theorem Shows.within {p p₁ p₂ p' : Progress} {P : List (NodeId × String) → Prop}
    (h : Shows p₁ p₂ P) (hbefore : Names s p p₁) (hrun : Names s p₁ p₂) (hafter : Names s p₂ p') :
    Shows p p' P := by
  intro hsame
  have hrest : Names s p₁ p' := (names_enclosed s).trans _ _ _ hrun hafter
  have hfirst : p₁.named = p.named := hbefore.same hrest hsame
  have hsecond : p₂.named = p₁.named := hrun.same hafter (hsame.trans hfirst.symm)
  rw [← hfirst]
  exact h hsecond

section

variable
  (hemit : ∀ {id hint p p' result}, (emit s defaultName budget id hint).run p = .ok (result, p') →
    Leaves s p p' ∧ Shows p p' fun named => named.lookup id = none → Halts s named id)
  (hbranch : ∀ {branch p p' fields},
    (branchFields s defaultName budget branch).run p = .ok (fields, p') →
      Leaves s p p' ∧ Shows p p' fun named =>
        ∀ target, s.dereference branch = .ok target → Halts s named target)

include hemit hbranch

theorem visit_leaves {id : NodeId} {hint : Option String} {name : String} {p p' : Progress}
    {result : Option AvroType}
    (h : (visit s defaultName (budget + 1) id hint name).run p = .ok (result, p')) :
    Leaves s p p' ∧ Shows p p' fun named => Halts s named id := by
  have hnames := (names_enclosed s).runs defaultName budget
  have hchained := (names_enclosed s).toChained
  have hstep := visit_step h
  generalize hkind : (s.node id).kind = kind at hstep
  cases hstep with
  | array hitems =>
      obtain ⟨hleaves, hshows⟩ := hemit hitems
      refine ⟨hleaves, fun hsame => Acc.intro _ fun c hcalls => ?_⟩
      rw [Calls, hkind] at hcalls
      obtain ⟨rfl, hnew⟩ := hcalls
      exact hshows hsame hnew
  | tuple htypes =>
      have hleaves := emitElements_kept (leaves_chained s) (fun h => (hemit h).1) htypes
      refine ⟨hleaves, fun hsame => Acc.intro _ fun c hcalls => ?_⟩
      rw [Calls, hkind] at hcalls
      obtain ⟨hmem, hnew⟩ := hcalls
      obtain ⟨p₁, p₂, result, hbefore, hrun, hafter⟩ :=
        emitElements_mem hchained hnames.1 htypes hmem
      exact (hemit hrun).2.within hbefore (hnames.1 hrun) hafter hsame hnew
  | @object shape own inherited p₁ _ hown hinherited =>
      have hfirst := emitProperties_kept (leaves_chained s) (fun h => (hemit h).1) hown
      have hlater := emitBranches_kept (leaves_chained s) (fun h => (hbranch h).1) hinherited
      refine ⟨(leaves_chained s).trans _ _ _ hfirst hlater,
        fun hsame => Acc.intro _ fun c hcalls => ?_⟩
      rw [Calls, hkind] at hcalls
      rcases hcalls with ⟨⟨field, hmem⟩, hnew⟩ | ⟨branch, hmem, htarget⟩
      · obtain ⟨p₂, p₃, result, hbefore, hrun, hafter⟩ :=
          emitProperties_mem hchained hnames.1 hown hmem
        have hrest := hchained.trans _ _ _ hafter hlater.names
        exact (hemit hrun).2.within hbefore (hnames.1 hrun) hrest hsame hnew
      · obtain ⟨p₂, p₃, found, hbefore, hrun, hafter⟩ :=
          emitBranches_mem hchained hnames.2.2 hinherited hmem
        have hstart := hchained.trans _ _ _ hfirst.names hbefore
        exact (hbranch hrun).2.within hstart (hnames.2.2 hrun) hafter hsame c htarget
  | reference hfree hnext =>
      obtain ⟨hleaves, hshows⟩ := hemit hnext
      refine ⟨hleaves, fun hsame => Acc.intro _ fun c hcalls => ?_⟩
      rw [Calls, hkind] at hcalls
      obtain ⟨heq, hnew⟩ := hcalls
      cases heq
      exact hshows hsame hnew
  | _ =>
      refine ⟨(leaves_chained s).refl p, fun _ => Acc.intro _ fun c hcalls => ?_⟩
      rw [Calls, hkind] at hcalls
      exact hcalls.elim

end

/-- A run that gives no names shows that its node halts, and it takes marks only from nodes that
halt. -/
theorem leaves (s : Schema) (defaultName : String) (budget : Nat) :
    (∀ {id hint p p' result}, (emit s defaultName budget id hint).run p = .ok (result, p') →
      Leaves s p p' ∧ Shows p p' fun named => named.lookup id = none → Halts s named id) ∧
    (∀ {id hint name p p' result},
      (visit s defaultName budget id hint name).run p = .ok (result, p') →
        Leaves s p p' ∧ Shows p p' fun named => Halts s named id) ∧
    ∀ {branch p p' fields}, (branchFields s defaultName budget branch).run p = .ok (fields, p') →
      Leaves s p p' ∧ Shows p p' fun named =>
        ∀ target, s.dereference branch = .ok target → Halts s named target := by
  induction budget with
  | zero =>
      exact ⟨fun h => (throw_ok h).elim, fun h => (throw_ok h).elim, fun h => (throw_ok h).elim⟩
  | succ budget ih =>
      obtain ⟨hemit, hvisit, hbranch⟩ := ih
      refine ⟨fun {id hint p p' result} h => ?_, visit_leaves hemit hbranch,
        fun {branch p p' fields} h => ?_⟩
      · cases emit_step h with
        | mention hname =>
            refine ⟨(leaves_chained s).refl p, fun _ hnew => ?_⟩
            rw [hname] at hnew
            cases hnew
        | @define _ name p₁ p₂ hnew hkind hdefine hrun =>
            have hnames := ((names_enclosed s).runs defaultName budget).2.1 hrun
            have hlt : unnamed s (p₂.leave id).named < unnamed s p.named :=
              Names.after_define hkind hnew hdefine hnames
            have hne : (p₂.leave id).named ≠ p.named := fun hsame => by
              rw [hsame] at hlt
              exact Nat.lt_irrefl _ hlt
            exact ⟨⟨.inr hlt, fun hsame => absurd hsame hne⟩, fun hsame => absurd hsame hne⟩
        | inline hnew hkind hrun =>
            obtain ⟨hleaves, hshows⟩ := hvisit hrun
            exact ⟨hleaves.around hshows, fun hsame _ => hshows hsame⟩
      · -- a branch is left after the visit of its target, whatever it adds
        have hleft : ∀ {target p₁ result}, s.dereference branch = .ok target →
            (visit s defaultName budget target none
              (baseName defaultName (s.node target) none)).run (p.enter target) =
                .ok (result, p₁) →
            Leaves s p (p₁.leave target) ∧ Shows p (p₁.leave target) fun named =>
              ∀ target, s.dereference branch = .ok target → Halts s named target := by
          intro target p₁ result htarget hrun
          obtain ⟨hleaves, hshows⟩ := hvisit hrun
          refine ⟨hleaves.around hshows, fun hsame target' htarget' => ?_⟩
          rw [htarget] at htarget'
          cases htarget'
          exact hshows hsame
        cases branch_step h with
        | record htarget _ hrun => exact hleft htarget hrun
        | untyped htarget _ hrun => exact hleft htarget hrun

/-! ### The budget suffices -/

/-- How many visits can still be nested in a node: the definitions without a name count more than
the nodes without a mark, and these count more than any number. -/
def rank (s : Schema) (named : List (NodeId × String)) (marks : List NodeId) (id : Nat) : Nat :=
  (unnamed s named * (s.nodes.size + 1) + NodeId.unseen s.nodes.size marks) *
    (s.nodes.size + 1) + id

/-- There is room for a number of visits nested in a node. The marks are the nodes passed on the way
to it since a name was given last: they are in progress, unless they halt. -/
def Room (s : Schema) (p : Progress) (id : Nat) (r : Nat) : Prop :=
  ∃ marks : List NodeId, (∀ m ∈ marks, Relation.ReflTransGen (Calls s p.named) m id ∧
    (m ∈ p.active ∨ Halts s p.named m)) ∧ rank s p.named marks id ≤ r

theorem rank_named_lt {named' : List (NodeId × String)} {marks : List NodeId} {id c : Nat}
    (hlt : unnamed s named' < unnamed s named) (hc : c < s.nodes.size) :
    rank s named' [] c < rank s named marks id := by
  have hinner := Schema.mul_add_lt_mul hlt (Nat.lt_succ_of_le (Schema.unseen_le s.nodes.size []))
  have houter := Schema.mul_add_lt_mul (hinner.trans_le (Nat.le_add_right _
    (NodeId.unseen s.nodes.size marks))) (hc.trans (Nat.lt_succ_self _))
  exact houter.trans_le (Nat.le_add_right _ _)

theorem rank_part_lt {marks : List NodeId} {id c : Nat} (hc : c < id) :
    rank s named (c :: marks) c < rank s named marks id :=
  Nat.add_lt_add_of_le_of_lt (Nat.mul_le_mul_right _ (Nat.add_le_add_left
    (Schema.unseen_cons_le _ marks c) _)) hc

theorem rank_fresh_lt {marks : List NodeId} {id c : Nat} (hc : c < s.nodes.size)
    (hfresh : c ∉ marks) : rank s named (c :: marks) c < rank s named marks id := by
  have hinner := Nat.add_lt_add_left (NodeId.unseen_cons_lt hc hfresh)
    (unnamed s named * (s.nodes.size + 1))
  have houter := Schema.mul_add_lt_mul hinner (hc.trans (Nat.lt_succ_self _))
  exact houter.trans_le (Nat.le_add_right _ _)

variable {p p' : Progress} {r : Nat} {id c : Nat}

/-- What a run leaves has no less room than what it started with. -/
theorem Room.leaves (h : Room s p id r) (hid : id < s.nodes.size) (hleaves : Leaves s p p') :
    Room s p' id r := by
  obtain ⟨marks, hmarks, hrank⟩ := h
  rcases hleaves.names with hsame | hlt
  · refine ⟨marks, fun m hm => ?_, by rwa [hsame]⟩
    obtain ⟨hpath, hactive | hhalts⟩ := hmarks m hm
    · have hafter := hleaves.marks hsame m hactive
      rw [← hsame] at hpath hafter
      exact ⟨hpath, hafter⟩
    · rw [← hsame] at hpath hhalts
      exact ⟨hpath, .inr hhalts⟩
  · exact ⟨[], fun _ hm => (List.not_mem_nil hm).elim, (rank_named_lt hlt hid).le.trans hrank⟩

/-- The nodes passed lead to a node that is entered, and it is one of them then. -/
theorem marks_enter {marks : List NodeId} (hmarks : ∀ m ∈ marks,
      Relation.ReflTransGen (Calls s p.named) m id ∧ (m ∈ p.active ∨ Halts s p.named m))
    (hcalls : Calls s p.named id c) : ∀ m ∈ c :: marks,
      Relation.ReflTransGen (Calls s (p.enter c).named) m c ∧
        (m ∈ (p.enter c).active ∨ Halts s (p.enter c).named m) := by
  refine List.forall_mem_cons.mpr ⟨⟨.refl, .inl List.mem_cons_self⟩, fun m hm => ?_⟩
  obtain ⟨hpath, hkeeps⟩ := hmarks m hm
  exact ⟨hpath.tail hcalls, hkeeps.imp_left (List.mem_cons_of_mem _)⟩

/-- A part has a smaller number. -/
theorem Room.enter_part (h : Room s p id r) (hcalls : Calls s p.named id c) (hc : c < id) :
    ∃ r' < r, Room s (p.enter c) c r' := by
  obtain ⟨marks, hmarks, hrank⟩ := h
  exact ⟨_, (rank_part_lt hc).trans_le hrank, c :: marks, marks_enter hmarks hcalls, Nat.le_refl _⟩

/-- A node that is not in progress is not among those passed: one of them that halts leads on to the
current node, so the current node does not lead back to it. -/
theorem Room.enter_fresh (h : Room s p id r) (hcalls : Calls s p.named id c)
    (hfresh : c ∉ p.active) (hc : c < s.nodes.size) : ∃ r' < r, Room s (p.enter c) c r' := by
  obtain ⟨marks, hmarks, hrank⟩ := h
  have hnew : c ∉ marks := by
    intro hm
    obtain ⟨hpath, hactive | hhalts⟩ := hmarks c hm
    · exact hfresh hactive
    · exact hhalts.not_back hcalls hpath
  exact ⟨_, (rank_fresh_lt hc hnew).trans_le hrank, c :: marks, marks_enter hmarks hcalls,
    Nat.le_refl _⟩

/-- A visit that begins in a visit has less room, be it of a part or of a node that is not in
progress. -/
theorem Room.begins (h : Room s p id r) (hc : c < s.nodes.size)
    (hcalls : p.named.lookup c = none → Calls s p.named id c)
    (hnested : p.named.lookup c = none → c < id ∨ c ∉ p.active) {hint : Option String}
    {name : String} (hbegins : Begins s defaultName c hint p name p') :
    ∃ r' < r, Room s p' c r' := by
  cases hbegins with
  | @define _ p₁ hnew hkind hdefine =>
      obtain ⟨marks, hmarks, hrank⟩ := h
      have hlt : unnamed s (p₁.enter c).named < unnamed s p.named :=
        Names.after_define hkind hnew hdefine (.inl rfl)
      exact ⟨_, (rank_named_lt hlt hc).trans_le hrank, [],
        fun _ hm => (List.not_mem_nil hm).elim, Nat.le_refl _⟩
  | inline hnew hkind =>
      rcases hnested hnew with hlt | hfresh
      · exact h.enter_part (hcalls hnew) hlt
      · exact h.enter_fresh (hcalls hnew) hfresh hc

/-- Between its parts a visit leaves what a run leaves. -/
theorem Between.leaves {hint : Option String} {name : String}
    (h : Between s defaultName budget id hint name p p') : Leaves s p p' := by
  obtain ⟨hemit, -, hbranch⟩ := AvroEmission.leaves s defaultName budget
  exact h.kept (leaves_chained s) (fun h => (hemit h).1) (fun h => (hbranch h).1)

/-- A visit does not use up its budget, if it has two levels for each visit that there is room
for. -/
theorem visit_ne_tooDeep (hs : s.WellFormed) {hint : Option String} {name : String}
    (hid : id < s.nodes.size) (hroom : Room s p id r) (hbudget : 2 * r + 2 ≤ budget) :
    (visit s defaultName budget id hint name).run p ≠ .error .tooDeep := by
  induction r using Nat.strong_induction_on generalizing budget id hint name p with
  | _ r ih =>
      obtain ⟨budget, rfl⟩ : ∃ k, budget = k + 2 := ⟨budget - 2, by omega⟩
      intro h
      cases visit_breaks .tooDeep h with
      | @part c hint' p₁ hbetween hgoes hrun =>
          obtain ⟨name', p', hbegins, hrun⟩ := emit_breaks hrun
          have hlt : c < id := hs.child_lt id c (Schema.mem_children_of_goes hgoes)
          obtain ⟨r', hr', hroom'⟩ := (hroom.leaves hid hbetween.leaves).begins (hlt.trans hid)
            (fun hnew => .of_part hgoes hnew) (fun _ => .inl hlt) hbegins
          exact ih r' hr' (hlt.trans hid) hroom' (by omega) hrun
      | @branch shape c p₁ hbetween hkind hmem hrun =>
          have hlt : c < id := hs.child_lt id c (hkind ▸ List.mem_append_right _ hmem)
          cases branch_breaks .tooDeep hrun with
          | chain hrun => exact Schema.dereference_ne_tooDeep c hrun
          | @visit target htarget hfresh hrun =>
              have hsize := hs.dereference_lt (hlt.trans hid) htarget
              obtain ⟨r', hr', hroom'⟩ := (hroom.leaves hid hbetween.leaves).enter_fresh
                (.of_branch hkind hmem htarget) hfresh hsize
              exact ih r' hr' hsize hroom' (by omega) hrun
          | reentry _ _ herror => cases herror
      | @target text next hkind hfree hrun =>
          obtain ⟨name', p', hbegins, hrun⟩ := emit_breaks hrun
          have hsize := hs.target_lt id text next hkind
          obtain ⟨r', hr', hroom'⟩ := hroom.begins hsize (fun hnew => .of_target hkind hnew)
            (fun hnew => .inr fun hactive => hfree hactive hnew) hbegins
          exact ih r' hr' hsize hroom' (by omega) hrun
      | reentry _ _ _ herror => cases herror

theorem rank_lt (named : List (NodeId × String)) (marks : List NodeId) (hid : id < s.nodes.size) :
    rank s named marks id < (s.nodes.size + 1) ^ 3 := by
  have hinner := Schema.mul_add_lt_mul (Nat.lt_succ_of_le (unnamed_le s named))
    (Nat.lt_succ_of_le (Schema.unseen_le s.nodes.size marks))
  have houter := Schema.mul_add_lt_mul hinner (hid.trans (Nat.lt_succ_self _))
  calc rank s named marks id < (s.nodes.size + 1) * (s.nodes.size + 1) * (s.nodes.size + 1) :=
        houter
    _ = (s.nodes.size + 1) ^ 3 := by ring

theorem emit_ne_tooDeep (hs : s.WellFormed) (hid : id < s.nodes.size) :
    (emit s defaultName s.maxEmissionDepth id none).run {} ≠ .error .tooDeep := by
  intro h
  have hpositive : 0 < (s.nodes.size + 1) ^ 3 := Nat.pow_pos (Nat.succ_pos _)
  obtain ⟨budget, hbudget⟩ : ∃ k, s.maxEmissionDepth = k + 1 :=
    ⟨s.maxEmissionDepth - 1, by rw [Schema.maxEmissionDepth]; omega⟩
  rw [hbudget] at h
  obtain ⟨name, p', hbegins, hrun⟩ := emit_breaks h
  have hroom : Room s p' id (rank s p'.named [] id) :=
    ⟨[], fun _ hm => (List.not_mem_nil hm).elim, Nat.le_refl _⟩
  have hrank := rank_lt p'.named [] hid
  rw [Schema.maxEmissionDepth] at hbudget
  exact visit_ne_tooDeep hs hid hroom (by omega) hrun

/-! ### What is entered -/

/-- The definitions that were entered so far, the latest first. Each got its name when it was. -/
def Progress.entered (p : Progress) : List NodeId :=
  p.named.map Prod.fst

/-- The visits that a conversion makes, whether or not it succeeds: that of the node at the top, and
those within a visit, after some of its parts. Each comes with its budget and its progress. -/
inductive VisitedIn (s : Schema) (defaultName : String) (root : NodeId) :
    Nat → NodeId → Option String → String → Progress → Prop
  | root {budget : Nat} {name : String} {p : Progress} (hbudget : budget + 1 = s.maxEmissionDepth)
      (hbegins : Begins s defaultName root none {} name p) :
      VisitedIn s defaultName root budget root none name p
  | part {budget : Nat} {id c : NodeId} {hint hint' : Option String} {name name' : String}
      {p p₁ p' : Progress} (h : VisitedIn s defaultName root (budget + 2) id hint name p)
      (hbetween : Between s defaultName (budget + 1) id hint name p p₁)
      (hgoes : s.Goes Link.parts id c) (hbegins : Begins s defaultName c hint' p₁ name' p') :
      VisitedIn s defaultName root budget c hint' name' p'
  | target {budget : Nat} {id next : NodeId} {hint : Option String} {name name' text : String}
      {p p' : Progress} (h : VisitedIn s defaultName root (budget + 2) id hint name p)
      (hkind : (s.node id).kind = .reference text (some next))
      (hfree : next ∈ p.active → p.named.lookup next ≠ none)
      (hbegins : Begins s defaultName next hint p name' p') :
      VisitedIn s defaultName root budget next hint name' p'
  | branch {budget : Nat} {id branch target : NodeId} {shape : ObjectShape}
      {hint : Option String} {name : String} {p p₁ : Progress}
      (h : VisitedIn s defaultName root (budget + 2) id hint name p)
      (hbetween : Between s defaultName (budget + 1) id hint name p p₁)
      (hkind : (s.node id).kind = .object shape) (hmem : branch ∈ shape.allOf)
      (htarget : s.dereference branch = .ok target) (hfresh : target ∉ p₁.active) :
      VisitedIn s defaultName root budget target none
        (baseName defaultName (s.node target) none) (p₁.enter target)

theorem Begins.tidy {hint : Option String} {name : String}
    (h : Begins s defaultName id hint p name p') (hp : p.Tidy s) : p'.Tidy s := by
  cases h with
  | define hnew hkind hdefine =>
      have hdefined := hp.define (baseName defaultName (s.node id) hint) hnew hkind
      rw [hdefine] at hdefined
      exact ((kept_extends s).enter _ id hdefined).1
  | inline => exact ((kept_extends s).enter p id hp).1

theorem Between.tidy {hint : Option String} {name : String}
    (h : Between s defaultName budget id hint name p p') (hp : p.Tidy s) : p'.Tidy s := by
  obtain ⟨hemit, -, hbranch⟩ := (kept_extends s).runs defaultName budget
  exact (h.kept (kept_extends s).toChained hemit hbranch hp).1

/-- At no time was a definition entered twice. -/
theorem VisitedIn.tidy {root : NodeId} {hint : Option String} {name : String}
    (h : VisitedIn s defaultName root budget id hint name p) : p.Tidy s := by
  induction h with
  | root _ hbegins => exact hbegins.tidy tidy_start
  | part _ hbetween _ hbegins ih => exact hbegins.tidy (hbetween.tidy ih)
  | target _ _ _ hbegins ih => exact hbegins.tidy ih
  | branch _ hbetween _ _ _ _ ih => exact ((kept_extends s).enter _ _ (hbetween.tidy ih)).1

end AvroEmission

namespace Schema

open AvroEmission Steps

variable {s : Schema}

/-- A conversion to Avro comes to an end, whatever the references of the schema, and it enters each
record and each enumeration at most once: at every visit that it makes, and in the end, the
definitions entered so far are different ones. -/
theorem avroSchema_terminates (h : s.Made) (settings : AvroSettings) :
    s.avroSchema settings ≠ .error .tooDeep ∧
      ∀ root shape, s.rootObject = .ok (root, shape) →
        (∀ budget id hint name p,
          VisitedIn s settings.defaultName root budget id hint name p → p.entered.Nodup) ∧
        ∀ type p, (emit s settings.defaultName s.maxEmissionDepth root none).run {} =
          .ok (type, p) → p.entered.Nodup := by
  have hs := h.wellFormed
  refine ⟨fun herror => ?_, fun root shape hroot => ⟨?_, ?_⟩⟩
  · rcases avroSchema_breaks .tooDeep herror with hchain | ⟨root, shape, hroot, hrun⟩
    · exact dereference_ne_tooDeep _ hchain
    · exact emit_ne_tooDeep hs (hs.dereference_lt hs.root_lt (dereference_root hroot)) hrun
  · intro budget id hint name p hvisits
    exact hvisits.tidy.ids
  · intro type p hrun
    exact (((kept_extends s).runs settings.defaultName s.maxEmissionDepth).1 hrun tidy_start).1.ids

/-- An order keeps the items of its part. An item has the fields of the part, which are its items
again, so the array of the items is entered within itself and left before the visit around it. -/
def basketDocument : Json :=
  .object [("title", .string "Order"),
    ("properties", .object [
      ("kept", .object [("$ref", .string "#/properties/part/properties/items")]),
      ("part", .object [("properties", .object [("items", .object [("type", .string "array"),
        ("items", .object [("$ref", .string "#/definitions/item")])])])])]),
    ("definitions", .object [
      ("item", .object [("title", .string "Item"),
        ("allOf", .array [.object [("$ref", .string "#/properties/part")],
          .object [("$ref", .string "#/definitions/more")]])]),
      ("more", .object [("properties", .object [("others",
        .object [("$ref", .string "#/properties/part/properties/items")])])])])]

def basketSchema : Schema where
  nodes := #[{ kind := .reference "#/properties/part/properties/items" (some 2) },
    { kind := .reference "#/definitions/item" (some 7) }, { kind := .array 1 },
    { kind := .object { properties := [("items", 2)] } },
    { title := some "Order", kind := .object { properties := [("kept", 0), ("part", 3)] } },
    { kind := .reference "#/properties/part" (some 3) },
    { kind := .reference "#/definitions/more" (some 9) },
    { title := some "Item", kind := .object { allOf := [5, 6] } },
    { kind := .reference "#/properties/part/properties/items" (some 2) },
    { kind := .object { properties := [("others", 8)] } }]
  root := 4

def basketAvroSchema : AvroSchema where
  type := .record "Order" none
    [⟨"kept", .array (.record "Item" none [⟨"items", .array (.named "Item"), none⟩,
      ⟨"others", .array (.named "Item"), none⟩]), none⟩,
    ⟨"part", .record "Part" none [⟨"items", .array (.named "Item"), none⟩], none⟩]
  nameSpace := none
  warnings := []

theorem read_basket : read basketDocument = .ok basketSchema := by
  cbv

theorem rootObject_basket : basketSchema.rootObject =
    .ok (4, { properties := [("kept", 0), ("part", 3)] }) := by
  cbv

unseal Arena.chase in
theorem avroSchema_basket : basketSchema.avroSchema {} = .ok basketAvroSchema := by
  rw [avroSchema, rootObject_basket]
  rfl

theorem avroSchema_terminates_basket :
    basketSchema.Made ∧ basketSchema.avroSchema {} = .ok basketAvroSchema ∧
      basketSchema.avroSchema {} ≠ .error .tooDeep ∧
      ∀ type p, (emit basketSchema ({} : AvroSettings).defaultName basketSchema.maxEmissionDepth 4
        none).run {} = .ok (type, p) → p.entered.Nodup := by
  have hmade : basketSchema.Made := .read (by decide) read_basket
  obtain ⟨hends, honce⟩ := avroSchema_terminates hmade {}
  exact ⟨hmade, avroSchema_basket, hends, (honce _ _ rootObject_basket).2⟩

end Schema

end SchemaBridge
