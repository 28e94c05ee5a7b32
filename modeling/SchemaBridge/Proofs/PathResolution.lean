import SchemaBridge.FileTree
import SchemaBridge.Proofs.StepInversion

/-!
Where paths lead in a tree of files. A way starts at a folder at each step and ends at no link, so
nothing comes into being on the way to a text that is written, and all ways stay as they are. Main
statement: after a write the text is at the location that the path leads to, and is read back from
there, and every other location is as it was.
-/

namespace SchemaBridge

/-- Putting an entry adds its key and removes none. -/
theorem Entries.any_put {κ α : Type} [BEq κ] [LawfulBEq κ] (p : κ → Bool)
    (entries : List (κ × α)) (key : κ) (value : α) :
    (Entries.put key value entries).any (fun e => p e.1) =
      (entries.any (fun e => p e.1) || p key) := by
  induction entries with
  | nil => simp [put]
  | cons entry rest ih =>
      obtain ⟨k, v⟩ := entry
      unfold put
      split
      · rename_i hkey
        rw [beq_iff_eq] at hkey
        subst hkey
        cases hk : p k <;> simp [hk]
      · rw [List.any_cons, ih, List.any_cons, Bool.or_assoc]

namespace FileTree

variable {f g : FileTree} {path text : String} {l l' : Location}

/-! ### Where paths lead -/

/-- A location that paths can lead to: it holds no link, nor does any on the way to it, and
something is at each of those on the way. -/
structure Reached (f : FileTree) (l : Location) : Prop where
  known : ∀ {other}, other <+: l → other ≠ l → (f.at? other).isSome
  noLink : ∀ {other}, other <+: l → ∀ path, f.at? other ≠ some (.link path)

theorem at?_above_start (h : l <+: f.start) : f.at? l = some .folder := by
  rw [at?, if_pos (List.isPrefixOf_iff_prefix.2 h)]

theorem reached_above_start (h : l <+: f.start) : f.Reached l where
  known hother _ := by rw [at?_above_start (hother.trans h)]; rfl
  noLink hother path := by rw [at?_above_start (hother.trans h)]; nofun

theorem reached_origin (h : f.Reached l) (path : String) : f.Reached (origin l path) := by
  unfold origin
  split
  · exact reached_above_start List.nil_prefix
  · exact h

theorem Reached.dropLast (h : f.Reached l) : f.Reached l.dropLast := by
  have habove := List.dropLast_prefix l
  refine ⟨fun hother hne => ?_, fun hother => h.noLink (hother.trans habove)⟩
  refine h.known (hother.trans habove) ?_
  rintro rfl
  exact hne (hother.eq_of_length_le habove.length_le)

/-- A name leads on from a folder, to what is no link. -/
theorem Reached.concat {name : String} (h : f.Reached l) (hfolder : f.at? l = some .folder)
    (hlink : ∀ path, f.at? (l ++ [name]) ≠ some (.link path)) : f.Reached (l ++ [name]) where
  known {other} hother hne := by
    rcases List.prefix_concat_iff.1 hother with rfl | hother
    · exact absurd rfl hne
    · by_cases hl : other = l
      · rw [hl, hfolder]; rfl
      · exact h.known hother hl
  noLink hother := by
    rcases List.prefix_concat_iff.1 hother with rfl | hother
    · exact hlink
    · exact h.noLink hother

theorem enter_eq_ok_iff : f.enter l = .ok () ↔ f.at? l = some .folder := by
  unfold enter
  split <;> simp_all

theorem step_eq_ok {name : String} (h : f.step l name = .ok l') :
    f.at? l = some .folder ∧ (l' = l ∨ l' = l.dropLast ∨ l' = l ++ [name]) := by
  obtain ⟨⟨⟩, henter, h⟩ := Steps.of_bind_ok h
  refine ⟨enter_eq_ok_iff.1 henter, ?_⟩
  split at h
  · cases h
    exact .inl rfl
  split at h <;> cases h
  · exact .inr (.inl rfl)
  · exact .inr (.inr rfl)

/-- A walk of at least one step leads on from where the step leads, or over the link there. -/
theorem walk_cons {jump : Location → List String → Except AccessFault Location} {name : String}
    {rest : List String} (h : f.walk jump l (name :: rest) = .ok l') :
    ∃ next, f.step l name = .ok next ∧
      ((∃ path, f.at? next = some (.link path) ∧
          jump (origin l path) (names path ++ rest) = .ok l') ∨
        (∀ path, f.at? next ≠ some (.link path)) ∧ f.walk jump next rest = .ok l') := by
  obtain ⟨next, hstep, h⟩ := Steps.of_bind_ok h
  refine ⟨next, hstep, ?_⟩
  split at h
  · exact .inl ⟨_, ‹_›, h⟩
  · exact .inr ⟨‹_›, h⟩

theorem Reached.step {name : String} (h : f.Reached l) (hstep : f.step l name = .ok l')
    (hlink : ∀ path, f.at? l' ≠ some (.link path)) : f.Reached l' := by
  obtain ⟨hfolder, rfl | rfl | rfl⟩ := step_eq_ok hstep
  · exact h
  · exact h.dropLast
  · exact h.concat hfolder hlink

theorem Reached.walk {jump : Location → List String → Except AccessFault Location}
    (hjump : ∀ {l names l'}, f.Reached l → jump l names = .ok l' → f.Reached l')
    {names : List String} (h : f.Reached l) (hwalk : f.walk jump l names = .ok l') :
    f.Reached l' := by
  induction names generalizing l with
  | nil =>
      cases hwalk
      exact h
  | cons name rest ih =>
      obtain ⟨next, hstep, ⟨path, -, hwalk⟩ | ⟨hlink, hwalk⟩⟩ := walk_cons hwalk
      · exact hjump (reached_origin h path) hwalk
      · exact ih (h.step hstep hlink) hwalk

theorem Reached.follow {links : Nat} {names : List String} (h : f.Reached l)
    (hfollow : f.follow links l names = .ok l') : f.Reached l' := by
  induction links generalizing l names l' with
  | zero => exact h.walk (fun _ hjump => by cases hjump) hfollow
  | succ links ih => exact h.walk ih hfollow

theorem reached_of_resolve {names : List String} (h : f.resolve path names = .ok l) :
    f.Reached l :=
  (reached_origin (reached_above_start List.prefix_rfl) path).follow h

/-- Folders stay folders, and the links are the same. -/
structure SameWays (f g : FileTree) : Prop where
  start : g.start = f.start
  folder : ∀ {l}, f.at? l = some .folder → g.at? l = some .folder
  link : ∀ {l path}, g.at? l = some (.link path) ↔ f.at? l = some (.link path)

namespace SameWays

theorem step {name : String} (h : SameWays f g) (hstep : f.step l name = .ok l') :
    g.step l name = .ok l' := by
  obtain ⟨⟨⟩, henter, hstep⟩ := Steps.of_bind_ok hstep
  rw [FileTree.step, enter_eq_ok_iff.2 (h.folder (enter_eq_ok_iff.1 henter))]
  exact hstep

theorem walk {jump jump' : Location → List String → Except AccessFault Location}
    (h : SameWays f g)
    (hjump : ∀ {l names l'}, jump l names = .ok l' → jump' l names = .ok l') {names : List String}
    (hwalk : f.walk jump l names = .ok l') : g.walk jump' l names = .ok l' := by
  induction names generalizing l with
  | nil => exact hwalk
  | cons name rest ih =>
      obtain ⟨next, hstep, ⟨path, hlink, hwalk⟩ | ⟨hlink, hwalk⟩⟩ := walk_cons hwalk
      · simp only [FileTree.walk, h.step hstep, h.link.2 hlink, bind, Except.bind]
        exact hjump hwalk
      · simp only [FileTree.walk, h.step hstep, bind, Except.bind]
        split
        · exact absurd (h.link.1 ‹_›) (hlink _)
        · exact ih hwalk

theorem follow {links : Nat} {names : List String} (h : SameWays f g)
    (hfollow : f.follow links l names = .ok l') : g.follow links l names = .ok l' := by
  induction links generalizing l names l' with
  | zero => exact h.walk (fun hjump => by cases hjump) hfollow
  | succ links ih => exact h.walk ih hfollow

theorem resolve {names : List String} (h : SameWays f g) (hresolve : f.resolve path names = .ok l) :
    g.resolve path names = .ok l := by
  rw [FileTree.resolve, h.start]
  exact h.follow hresolve

end SameWays

/-! ### A file that is written -/

theorem at?_save_self (h : f.at? l ≠ some .folder) (text : String) :
    (f.save l text).at? l = some (.file (.text text)) := by
  have hstart : ¬ l.isPrefixOf f.start := fun habove =>
    h (at?_above_start (List.isPrefixOf_iff_prefix.1 habove))
  simp only [at?, save, hstart, Bool.false_eq_true, if_false, Entries.lookup_put, beq_self_eq_true,
    if_true]

/-- No folder comes into being when a text is saved, since its location lies in one. -/
theorem at?_save_of_ne (h : f.Reached l) {other : Location} (hother : other ≠ l)
    (text : String) : (f.save l text).at? other = f.at? other := by
  simp only [at?, save, Entries.lookup_put, beq_eq_false_iff_ne.2 hother, Bool.false_eq_true,
    if_false, Entries.any_put fun l => other.isPrefixOf l]
  split
  · rfl
  · rename_i hstart
    cases hlookup : f.entries.lookup other with
    | some entry => rfl
    | none =>
        cases hany : f.entries.any fun e => other.isPrefixOf e.1 with
        | true => rfl
        | false =>
            -- only a location above the saved one could become a folder, and it is known
            have habove : other.isPrefixOf l = false := by
              refine Bool.eq_false_iff.2 fun habove => ?_
              have hknown := h.known (List.isPrefixOf_iff_prefix.1 habove) hother
              simp [at?, hstart, hlookup, hany] at hknown
            rw [habove]
            rfl

theorem sameWays_save (h : f.Reached l) (hl : f.at? l ≠ some .folder) (text : String) :
    SameWays f (f.save l text) where
  start := rfl
  folder {other} hother := by
    rw [at?_save_of_ne h (by rintro rfl; exact hl hother)]
    exact hother
  link {other path} := by
    by_cases hother : other = l
    · subst hother
      rw [at?_save_self hl]
      exact ⟨nofun, fun hlink => absurd hlink (h.noLink List.prefix_rfl path)⟩
    · rw [at?_save_of_ne h hother]

theorem dropWhile_reverse_of_getLast? {names : List String} (h : names.getLast? ≠ some "") :
    (names.reverse.dropWhile (· = "")).reverse = names := by
  cases hreverse : names.reverse with
  | nil => simpa using hreverse.symm
  | cons last rest =>
      have hlast : last ≠ "" := by
        rintro rfl
        exact h (by rw [List.getLast?_eq_head?_reverse, hreverse, List.head?_cons])
      rw [List.dropWhile_cons_of_neg (by simpa using hlast), ← hreverse, List.reverse_reverse]

theorem target_ok (h : f.target path = .ok l) :
    f.resolve path (names path) = .ok l ∧ f.at? l ≠ some .folder := by
  obtain ⟨l₁, hresolve, h⟩ := Steps.of_bind_ok h
  split at h
  · cases h
  · rename_i hfile
    obtain ⟨-, -, h⟩ := Steps.of_bind_ok h
    cases h
    rw [not_or] at hfile
    rw [dropWhile_reverse_of_getLast? hfile.1] at hresolve
    exact ⟨hresolve, hfile.2⟩

theorem read_eq_ok (hresolve : f.resolve path (names path) = .ok l)
    (hentry : f.at? l = some (.file (.text text))) (hpermit : f.permit .read l = .ok ()) :
    f.read path = .ok text := by
  simp only [read, hresolve, hentry, hpermit, bind, Except.bind, pure, Except.pure]

/-- The second tree is the first one with a text written to a path, which leads to a location: the
text is there, and is read back unless the system refuses it; every other location is as it was. -/
structure Rewritten (f g : FileTree) (path : String) (l : Location) (text : String) : Prop where
  named : f.target path = .ok l
  content : g.at? l = some (.file (.text text))
  read : f.permit .read l = .ok () → g.read path = .ok text
  others : ∀ other, other ≠ l → g.at? other = f.at? other
  start : g.start = f.start
  refusals : g.refusals = f.refusals

theorem rewritten_of_write (h : f.write path text = .ok g) : ∃ l, f.Rewritten g path l text := by
  obtain ⟨l, htarget, rfl⟩ := write_eq_ok_iff.1 h
  obtain ⟨hresolve, hfile⟩ := target_ok htarget
  have hreached := reached_of_resolve hresolve
  have hcontent := at?_save_self hfile text
  have hresolve' := (sameWays_save hreached hfile text).resolve hresolve
  exact ⟨l, htarget, hcontent, fun hpermit => read_eq_ok hresolve' hcontent hpermit,
    fun _ hother => at?_save_of_ne hreached hother text, rfl, rfl⟩

end FileTree

end SchemaBridge
