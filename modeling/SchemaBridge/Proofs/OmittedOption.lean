import SchemaBridge.Command
import SchemaBridge.Proofs.DistinctKeys
import SchemaBridge.Proofs.StepInversion

/-!
Arguments less one option. Arguments that are read with a value of an option spell that option at
one place: in an argument that carries the value, or in one with the value as the argument behind
it. Without that place the arguments are read to the same, less the option. So a conversion into a
file is, less the name of the file, the same conversion onto the standard output.
-/

namespace SchemaBridge

namespace OptionForm

/-- An argument that names an option, and the value that it carries behind the name. -/
inductive NamedBy (option : OptionForm) : Argument → Option String → Prop
  | long (value : Option String) : NamedBy option (.long option.long value) value
  | short {letter : Char} (rest : List Char) (hletter : option.short = some letter) :
      NamedBy option (.short letter rest) (ArgumentScan.shortValue rest)

/-- The arguments that spell an option with its value. -/
inductive SpelledBy (option : OptionForm) : String → List String → Prop
  | switch {text : String} (hname : option.NamedBy (.ofText text) none)
      (hform : option.value = none) : SpelledBy option "" [text]
  | joined {text value : String} (hname : option.NamedBy (.ofText text) (some value))
      (hform : option.value.isSome) : SpelledBy option value [text]
  | apart {text next value : String} (hname : option.NamedBy (.ofText text) none)
      (hform : option.value.isSome) (hnext : Argument.ofText next = .operand value) :
      SpelledBy option value [text, next]

/-- The second arguments are the first ones less the place that spells an option with a value. -/
inductive OmittedFrom (option : OptionForm) (value : String) : List String → List String → Prop
  | intro (before after : List String) {spelling : List String}
      (hspelling : option.SpelledBy value spelling) :
      OmittedFrom option value (before ++ spelling ++ after) (before ++ after)

theorem OmittedFrom.cons {option : OptionForm} {value : String} {texts rest : List String}
    (text : String) (h : option.OmittedFrom value texts rest) :
    option.OmittedFrom value (text :: texts) (text :: rest) := by
  obtain ⟨before, after, hspelling⟩ := h
  exact .intro (text :: before) after hspelling

end OptionForm

/-- What was found, less an option. -/
def Arguments.without (a : Arguments) (name : String) : Arguments :=
  { a with options := a.options.filter fun entry => entry.1 ≠ name }

theorem Arguments.option?_without (a : Arguments) (name : String) :
    (a.without name).option? name = none := by
  rw [option?, without, List.lookup_eq_none_iff]
  intro entry hentry
  have hkey : entry.1 ≠ name := by simpa using (List.mem_filter.1 hentry).2
  exact bne_iff_ne.2 hkey.symm

theorem Arguments.option?_without_of_ne {name other : String} (hne : other ≠ name)
    (a : Arguments) : (a.without name).option? other = a.option? other :=
  lookup_filter_ne hne a.options

theorem Arguments.without_of_option?_eq_none {a : Arguments} {name : String}
    (h : a.option? name = none) : a.without name = a := by
  obtain ⟨operand, options⟩ := a
  rw [option?, List.lookup_eq_none_iff] at h
  have hkeys : ∀ entry ∈ options, entry.1 ≠ name := fun entry hentry =>
    (bne_iff_ne.1 (h entry hentry)).symm
  simpa [without] using fun long value hentry => hkeys (long, value) hentry

namespace ArgumentScan

variable {form : CommandForm} {s s' : ArgumentScan} {option : OptionForm}
variable {text name value : String} {texts : List String}

def without (s : ArgumentScan) (name : String) : ArgumentScan :=
  { s with found := s.found.without name }

/-- The reading after an option is found. -/
def put (s : ArgumentScan) (name value : String) : ArgumentScan :=
  { s with
    found := { s.found with options := (name, value) :: s.found.options }
    awaiting := none }

theorem option?_put_of_ne {other : String} (hne : other ≠ name) :
    (s.put name value).found.option? other = s.found.option? other := by
  have hkey : (other == name) = false := beq_eq_false_iff_ne.2 hne
  simp [put, Arguments.option?, List.lookup_cons, hkey]

theorem takeOption_eq_ok_iff : s.takeOption option value = .ok s' ↔
    s.found.option? option.long = none ∧ (option.value.all fun form => form.accepts value) ∧
      s' = s.put option.long value := by
  simp only [takeOption, put, Arguments.option?]
  cases s.found.options.lookup option.long <;> grind

/-! ### What a step may find -/

/-- What one argument adds to the reading: an option with its value, the name of an option whose
value comes next, or no option at all. -/
inductive Step (form : CommandForm) (s : ArgumentScan) (text : String) (s' : ArgumentScan) : Prop
  | awaited {option : OptionForm} {value : String} (hawaiting : s.awaiting = some option)
      (hvalue : Argument.ofText text = .operand value) (htake : s.takeOption option value = .ok s')
  | option {option : OptionForm} {value : String} (hawaiting : s.awaiting = none)
      (hmem : option ∈ form.options) (hspelling : option.SpelledBy value [text])
      (htake : s.takeOption option value = .ok s')
  | name {option : OptionForm} (hawaiting : s.awaiting = none) (hmem : option ∈ form.options)
      (hname : option.NamedBy (.ofText text) none) (hform : option.value.isSome)
      (hnext : s' = { s with awaiting := some option })
  | other (hawaiting : s.awaiting = none) (hnext : s'.awaiting = none)
      (hoptions : s'.found.options = s.found.options)

theorem takeOperand_ok (h : s.takeOperand form text = .ok s') :
    s'.awaiting = s.awaiting ∧ s'.found.options = s.found.options := by
  simp only [takeOperand] at h
  split at h
  · split at h
    · cases h
      exact ⟨rfl, rfl⟩
    · cases h
  · cases h

theorem startOption_ok {option? : Option OptionForm} {carried : Option String}
    (hawaiting : s.awaiting = none)
    (hnamed : ∀ option, option? = some option →
      option ∈ form.options ∧ option.NamedBy (.ofText text) carried)
    (h : s.startOption text option? carried = .ok s') : Step form s text s' := by
  cases option? with
  | none => cases h
  | some option =>
      obtain ⟨hmem, hname⟩ := hnamed option rfl
      simp only [startOption] at h
      split at h
      · rename_i hform
        exact .option hawaiting hmem (.switch hname hform) h
      · cases h
      · rename_i hform
        exact .option hawaiting hmem (.joined hname (by rw [hform]; rfl)) h
      · rename_i hform
        cases h
        exact .name hawaiting hmem hname (by rw [hform]; rfl) rfl

theorem step_ok (h : step form s text = .ok s') : Step form s text s' := by
  have operand {given : String} (hawaiting : s.awaiting = none)
      (hgiven : s.takeOperand form given = .ok s') : Step form s text s' := by
    obtain ⟨hnext, hoptions⟩ := takeOperand_ok hgiven
    exact .other hawaiting (hnext.trans hawaiting) hoptions
  simp only [step] at h
  split at h
  · rename_i option value hawaiting hvalue
    exact .awaited hawaiting hvalue h
  · cases h
  · rename_i argument hawaiting
    split at h
    · exact operand hawaiting h
    · split at h
      · exact operand hawaiting h
      · cases h
        exact .other hawaiting hawaiting rfl
      · cases h
      · cases h
      · rename_i long carried hnot hshape
        refine startOption_ok hawaiting (fun option hfound => ?_) h
        have hlong : option.long = long := by simpa using List.find?_some hfound
        rw [hshape, ← hlong]
        exact ⟨List.mem_of_find?_eq_some hfound, .long carried⟩
      · rename_i letter rest hnot hshape
        refine startOption_ok hawaiting (fun option hfound => ?_) h
        have hletter : option.short = some letter := by simpa using List.find?_some hfound
        rw [hshape]
        exact ⟨List.mem_of_find?_eq_some hfound, .short rest hletter⟩

/-! ### A found option out of the way -/

/-- An option is not found twice. -/
theorem long_ne_of_takeOption (hfound : s.found.option? name = some value) {given : String}
    (h : s.takeOption option given = .ok s') : option.long ≠ name := by
  rintro rfl
  obtain ⟨hnew, -, -⟩ := takeOption_eq_ok_iff.1 h
  rw [hnew] at hfound
  cases hfound

theorem takeOption_without (hfound : s.found.option? name = some value) {given : String}
    (h : s.takeOption option given = .ok s') :
    (s.without name).takeOption option given = .ok (s'.without name) := by
  have hne := long_ne_of_takeOption hfound h
  obtain ⟨hnew, hform, rfl⟩ := takeOption_eq_ok_iff.1 h
  refine takeOption_eq_ok_iff.2 ⟨?_, hform, ?_⟩
  · exact (Arguments.option?_without_of_ne hne s.found).trans hnew
  · simp [without, put, Arguments.without, hne]

theorem takeOperand_without (h : s.takeOperand form text = .ok s') :
    (s.without name).takeOperand form text = .ok (s'.without name) := by
  simp only [takeOperand] at h
  split at h
  · rename_i valueForm hform hnew
    split at h
    · rename_i haccepts
      cases h
      simp [takeOperand, without, Arguments.without, hform, hnew, haccepts]
    · cases h
  · cases h

theorem startOption_without {option? : Option OptionForm} {carried : Option String}
    (hfound : s.found.option? name = some value)
    (h : s.startOption text option? carried = .ok s') :
    (s.without name).startOption text option? carried = .ok (s'.without name) := by
  cases option? with
  | none => cases h
  | some option =>
      simp only [startOption] at h ⊢
      split at h
      · exact takeOption_without hfound h
      · cases h
      · exact takeOption_without hfound h
      · cases h
        rfl

/-- An argument is read alike with an option found before and without it. -/
theorem step_without (hfound : s.found.option? name = some value)
    (h : step form s text = .ok s') :
    step form (s.without name) text = .ok (s'.without name) := by
  simp only [step] at h ⊢
  split at h
  · rename_i option value hawaiting hvalue
    simpa [without, hawaiting, hvalue] using takeOption_without hfound h
  · cases h
  · rename_i argument hawaiting
    have hawaiting' : (s.without name).awaiting = none := hawaiting
    rw [hawaiting']
    change (if s.divided then _ else _) = _
    split at h
    · rename_i hdivided
      rw [if_pos hdivided]
      exact takeOperand_without h
    · rename_i hdivided
      rw [if_neg hdivided]
      split at h
      · exact takeOperand_without h
      · cases h
        simp [without, hawaiting]
      · cases h
      · cases h
      · exact startOption_without hfound h
      · exact startOption_without hfound h

/-- What an option is found with stays. -/
theorem option?_of_step (h : step form s text = .ok s')
    (hfound : s.found.option? name = some value) : s'.found.option? name = some value := by
  have taken {option : OptionForm} {given : String} (htake : s.takeOption option given = .ok s') :
      s'.found.option? name = some value := by
    have hne := long_ne_of_takeOption hfound htake
    obtain ⟨-, -, rfl⟩ := takeOption_eq_ok_iff.1 htake
    rw [option?_put_of_ne hne.symm, hfound]
  cases step_ok h with
  | awaited _ _ htake => exact taken htake
  | option _ _ _ htake => exact taken htake
  | name _ _ _ _ hnext =>
      rw [hnext]
      exact hfound
  | other _ _ hoptions => rwa [Arguments.option?, hoptions]

/-- The arguments behind an option are read alike with it and without it, and it keeps the value
that it was found with. -/
theorem foldlM_without (hfound : s.found.option? name = some value)
    (h : texts.foldlM (step form) s = .ok s') :
    texts.foldlM (step form) (s.without name) = .ok (s'.without name) ∧
      s'.found.option? name = some value := by
  induction texts generalizing s with
  | nil =>
      cases h
      exact ⟨rfl, hfound⟩
  | cons text texts ih =>
      obtain ⟨s₁, hstep, hrest⟩ := Steps.of_bind_ok h
      obtain ⟨hwithout, hkept⟩ := ih (option?_of_step hstep hfound) hrest
      rw [List.foldlM_cons, step_without hfound hstep]
      exact ⟨hwithout, hkept⟩

/-! ### The place of an option -/

theorem without_put (hawaiting : s.awaiting = none) (hnew : s.found.option? name = none) :
    (s.put name value).without name = s := by
  have hkept : s.found.without name = s.found := Arguments.without_of_option?_eq_none hnew
  obtain ⟨found, awaiting, divided⟩ := s
  cases hawaiting
  simpa [put, without, Arguments.without] using hkept

/-- Behind the place of an option the arguments are read as from before it, less the option. -/
theorem foldlM_behind (hawaiting : s.awaiting = none) (hnew : s.found.option? name = none)
    {given : String} (hfound : s'.found.option? name = some value)
    (h : texts.foldlM (step form) (s.put name given) = .ok s') :
    given = value ∧ texts.foldlM (step form) s = .ok (s'.without name) := by
  have hput : (s.put name given).found.option? name = some given := List.lookup_cons_self
  obtain ⟨hwithout, hkept⟩ := foldlM_without hput h
  rw [without_put hawaiting hnew] at hwithout
  exact ⟨Option.some.inj (hkept.symm.trans hfound), hwithout⟩

/-- Behind the name of an option its value has to come next. -/
theorem foldlM_awaiting (hnew : s.found.option? name = none)
    (hfound : s'.found.option? name = some value)
    (h : texts.foldlM (step form) { s with awaiting := some option } = .ok s') :
    ∃ next given rest, texts = next :: rest ∧ Argument.ofText next = .operand given ∧
      rest.foldlM (step form) (s.put option.long given) = .ok s' := by
  cases texts with
  | nil =>
      cases h
      rw [show s.found.option? name = some value from hfound] at hnew
      cases hnew
  | cons next rest =>
      obtain ⟨s₁, hstep, hrest⟩ := Steps.of_bind_ok h
      cases step_ok hstep with
      | @awaited _ given hawaiting hvalue htake =>
          cases hawaiting
          obtain ⟨-, -, rfl⟩ := takeOption_eq_ok_iff.1 htake
          exact ⟨next, given, rest, rfl, hvalue, hrest⟩
      | option hawaiting => cases hawaiting
      | name hawaiting => cases hawaiting
      | other hawaiting => cases hawaiting

/-- An option is not found so far, and its value does not come next. -/
structure Misses (s : ArgumentScan) (name : String) : Prop where
  found : s.found.option? name = none
  awaiting : ∀ option, s.awaiting = some option → option.long ≠ name

theorem Misses.take (h : s.Misses name) (hne : option.long ≠ name)
    (htake : s.takeOption option value = .ok s') : s'.Misses name := by
  obtain ⟨-, -, rfl⟩ := takeOption_eq_ok_iff.1 htake
  exact ⟨(option?_put_of_ne hne.symm).trans h.found, nofun⟩

/-- Arguments that lead from one reading to another spell an option with a value at one place, and
without that place they lead to the same, less the option. -/
def Omits (form : CommandForm) (name value : String) (texts : List String)
    (s s' : ArgumentScan) : Prop :=
  ∃ option ∈ form.options, option.long = name ∧ ∃ rest,
    option.OmittedFrom value texts rest ∧ rest.foldlM (step form) s = .ok (s'.without name)

theorem Omits.cons {s₁ : ArgumentScan} (hstep : step form s text = .ok s₁)
    (h : Omits form name value texts s₁ s') : Omits form name value (text :: texts) s s' := by
  obtain ⟨option, hmem, hname, rest, homitted, hrun⟩ := h
  refine ⟨option, hmem, hname, text :: rest, homitted.cons text, ?_⟩
  rw [List.foldlM_cons, hstep]
  exact hrun

/-- The induction is on the arguments. It meets no state that waits for the value of the option,
since its name and its value are taken away at once. -/
theorem foldlM_omits (hs : s.Misses name) (hfound : s'.found.option? name = some value)
    (h : texts.foldlM (step form) s = .ok s') : Omits form name value texts s s' := by
  induction texts generalizing s with
  | nil =>
      cases h
      rw [hs.found] at hfound
      cases hfound
  | cons text texts ih =>
      obtain ⟨s₁, hstep, hrest⟩ := Steps.of_bind_ok h
      cases step_ok hstep with
      | awaited hwaits _ htake =>
          exact .cons hstep (ih (hs.take (hs.awaiting _ hwaits) htake) hrest)
      | @option option given hwaits hmem hspelling htake =>
          by_cases hname : option.long = name
          · obtain ⟨-, -, rfl⟩ := takeOption_eq_ok_iff.1 htake
            subst hname
            obtain ⟨rfl, hrun⟩ := foldlM_behind hwaits hs.found hfound hrest
            exact ⟨option, hmem, rfl, texts, .intro [] texts hspelling, hrun⟩
          · exact .cons hstep (ih (hs.take hname htake) hrest)
      | @name option hwaits hmem hnamed hform hnext =>
          subst hnext
          by_cases hname : option.long = name
          · subst hname
            obtain ⟨next, given, texts, rfl, hvalue, hrun⟩ :=
              foldlM_awaiting hs.found hfound hrest
            obtain ⟨rfl, hrun⟩ := foldlM_behind hwaits hs.found hfound hrun
            exact ⟨option, hmem, rfl, texts, .intro [] texts (.apart hnamed hform hvalue), hrun⟩
          · refine .cons hstep (ih ⟨hs.found, ?_⟩ hrest)
            rintro other ⟨⟩
            exact hname
      | other _ hnext hoptions =>
          refine .cons hstep (ih ⟨?_, ?_⟩ hrest)
          · rw [Arguments.option?, hoptions]
            exact hs.found
          · intro other hother
            rw [hnext] at hother
            cases hother

end ArgumentScan

namespace CommandForm

variable {form : CommandForm} {texts : List String} {found : Arguments}

theorem read_eq_ok_iff : form.read texts = .ok found ↔
    ∃ s, texts.foldlM (ArgumentScan.step form) {} = .ok s ∧ s.awaiting = none ∧
      s.found = found := by
  simp only [read]
  cases texts.foldlM (ArgumentScan.step form) {} with
  | error e => simp [bind, Except.bind]
  | ok s =>
      cases hawaiting : s.awaiting <;>
        simp [bind, Except.bind, pure, Except.pure, throw, throwThe, MonadExceptOf.throw, hawaiting]

theorem read_omitted {name value : String} (h : form.read texts = .ok found)
    (hfound : found.option? name = some value) :
    ∃ option ∈ form.options, option.long = name ∧ ∃ rest,
      option.OmittedFrom value texts rest ∧ form.read rest = .ok (found.without name) := by
  obtain ⟨s, hscan, hawaiting, rfl⟩ := read_eq_ok_iff.1 h
  have hstart : ({} : ArgumentScan).Misses name := ⟨rfl, nofun⟩
  obtain ⟨option, hmem, hname, rest, homitted, hrun⟩ :=
    ArgumentScan.foldlM_omits hstart hfound hscan
  exact ⟨option, hmem, hname, rest, homitted, read_eq_ok_iff.2 ⟨_, hrun, hawaiting, rfl⟩⟩

end CommandForm

namespace Command

variable {schema path : String} {format : TargetFormat} {texts : List String}

/-- The option that names the file which a conversion is written to. -/
def outputOption : OptionForm :=
  ⟨"output", some 'o', some .path⟩

theorem readConvert_omitted (h : readConvert texts = .ok (.convert schema format (some path))) :
    ∃ rest, outputOption.OmittedFrom path texts rest ∧
      readConvert rest = .ok (.convert schema format none) := by
  obtain ⟨found, hread, h⟩ := Steps.of_bind_ok h
  obtain ⟨operand, hoperand, h⟩ := Steps.of_bind_ok h
  obtain ⟨format', hformat, h⟩ := Steps.of_bind_ok h
  injection h with hconvert
  injection hconvert with hschema hformat' hpath
  subst hschema hformat'
  obtain ⟨option, hmem, hname, rest, homitted, hrest⟩ := CommandForm.read_omitted hread hpath
  have hoption : option = outputOption := by
    simp only [List.mem_cons, List.not_mem_nil, or_false] at hmem
    rcases hmem with rfl | rfl
    · exact absurd hname (by decide)
    · rfl
  subst hoption
  refine ⟨rest, homitted, ?_⟩
  have hkept : (found.without "output").option? "format" = found.option? "format" :=
    Arguments.option?_without_of_ne (by decide) found
  have hgone : (found.without "output").option? "output" = none :=
    Arguments.option?_without found "output"
  have hsame : (found.without "output").required "SCHEMA" = .ok operand := hoperand
  rw [readConvert, hrest]
  simp only [bind, Except.bind, hsame, hkept, hformat, hgone, pure, Except.pure]

theorem reader?_of_convert {name : String} {reader : List String → Except Interruption Command}
    {output : Option String} (hreader : reader? name = some reader)
    (h : reader texts = .ok (.convert schema format output)) : reader = readConvert := by
  unfold reader? at hreader
  split at hreader
  · cases hreader
    obtain ⟨found, -, h⟩ := Steps.of_bind_ok h
    obtain ⟨operand, -, h⟩ := Steps.of_bind_ok h
    split at h <;> cases h
  · exact (Option.some.inj hreader).symm
  · cases hreader
    obtain ⟨found, -, h⟩ := Steps.of_bind_ok h
    obtain ⟨operand, -, h⟩ := Steps.of_bind_ok h
    obtain ⟨summaryFormat, -, h⟩ := Steps.of_bind_ok h
    cases h
  · cases hreader
    obtain ⟨found, -, h⟩ := Steps.of_bind_ok h
    cases h
  · cases hreader
    obtain ⟨found, -, h⟩ := Steps.of_bind_ok h
    obtain ⟨shell, -, h⟩ := Steps.of_bind_ok h
    cases h
  · cases hreader

end Command

namespace Request

variable {schema path : String} {format : TargetFormat} {texts : List String}

theorem read_of_ofArguments {c : Command} (h : ofArguments texts = .ok (.command c)) :
    read texts = .ok (.command c) := by
  unfold ofArguments at h
  split at h
  · rename_i hread
    cases h
    exact hread
  · cases h
  · cases h

theorem ofHelp_ne_command (texts : List String) (c : Command) :
    ofHelp texts ≠ .ok (.command c) := by
  intro h
  unfold ofHelp at h
  split at h
  · cases h
  · split at h
    · cases h
    · split at h <;> cases h

/-- A conversion into a file is asked for by arguments that ask, less the name of the file, for the
same conversion onto the standard output. -/
theorem ofArguments_omitted
    (h : ofArguments texts = .ok (.command (.convert schema format (some path)))) :
    ∃ rest, Command.outputOption.OmittedFrom path texts rest ∧
      ofArguments rest = .ok (.command (.convert schema format none)) := by
  have hread := read_of_ofArguments h
  cases texts with
  | nil => cases hread
  | cons first texts =>
      simp only [read] at hread
      split at hread
      · exact absurd hread (ofHelp_ne_command texts _)
      · rename_i name hname hshape
        split at hread
        · rename_i reader hreader
          have hconvert : reader texts = .ok (.convert schema format (some path)) := by
            cases hresult : reader texts <;> rw [hresult] at hread <;> cases hread
            rfl
          have hreader' := Command.reader?_of_convert hreader hconvert
          subst hreader'
          obtain ⟨rest, homitted, hrest⟩ := Command.readConvert_omitted hconvert
          refine ⟨first :: rest, homitted.cons first, ?_⟩
          simp [ofArguments, read, hshape, hreader, hrest, Functor.map, Except.map]
        · cases hread
      · cases hread
      · cases hread
      · cases hread
      · cases hread
      · cases hread

end Request

end SchemaBridge
