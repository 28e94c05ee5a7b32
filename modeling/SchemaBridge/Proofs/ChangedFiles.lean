import SchemaBridge.Execution
import SchemaBridge.Proofs.OmittedOption
import SchemaBridge.Proofs.PathResolution

/-!
What runs of the program change in a tree of files. A run that fails changes nothing. A run that
succeeds changes at most the file that its arguments name, wherever the path leads: the output of a
conversion takes the text that the same conversion prints without that file, and the settings take
their defaults, where nothing may exist unless overwriting it is asked for. Main statement: this
holds of each run in a sequence, whatever the runs before it wrote, and a location that differs in
the end holds what one of the runs wrote to it.
-/

namespace SchemaBridge

namespace FileTree

variable {f : FileTree} {path : String} {l : Location}

/-! ### The settings file -/

theorem isAbsence_of_permit {access : Access} {fault : AccessFault}
    (h : f.permit access l = .error fault) : fault.isAbsence = false := by
  unfold permit at h
  split at h
  · cases h
    rfl
  · cases h

/-- A path that can be written and has nothing at its end leads to a location with nothing. -/
theorem at?_of_hasPath_eq_false (htarget : f.target path = .ok l)
    (h : Sources.hasPath f.read path = false) : f.at? l = none := by
  cases hentry : f.at? l with
  | none => rfl
  | some entry =>
      simp only [Sources.hasPath, read, (target_ok htarget).1, hentry, bind, Except.bind] at h
      cases hpermit : f.permit .read l with
      | error fault => simp [hpermit, isAbsence_of_permit hpermit] at h
      | ok =>
          rw [hpermit] at h
          cases entry with
          | file content => cases content <;> cases h
          | _ => cases h

theorem names_settings : names Settings.path = [Settings.path] := by
  decide +kernel

theorem target_settings (h : f.target Settings.path = .ok l)
    (hlink : ∀ path, f.at? (f.start ++ [Settings.path]) ≠ some (.link path)) :
    l = f.start ++ [Settings.path] := by
  obtain ⟨hresolve, -⟩ := target_ok h
  rw [names_settings] at hresolve
  obtain ⟨next, hstep, hnext⟩ := walk_cons hresolve
  have hstart : f.step f.start Settings.path = .ok (f.start ++ [Settings.path]) := by
    rw [step, enter_eq_ok_iff.2 (at?_above_start List.prefix_rfl)]
    rfl
  rw [show origin f.start Settings.path = f.start by rfl, hstart] at hstep
  cases hstep
  rcases hnext with ⟨path, hpath, -⟩ | ⟨-, hend⟩
  · exact absurd hpath (hlink path)
  · cases hend
    rfl

end FileTree

/-! ### What a command decides -/

/-- The path that an effect writes to, with the text. -/
def Effect.written? : Effect → Option (String × String)
  | print _ => none
  | writeOutput path text => some (path, text)
  | writeSettings => some (Settings.path, Settings.defaultText)

/-- The path of the file that a request asks to write. -/
def Request.target? : Request → Option String
  | command (.convert _ _ output) => output
  | command (.init _) => some Settings.path
  | _ => none

namespace Command

variable {w : Wording} {read : Sources} {effect : Effect}

/-- A conversion into a file writes what the conversion onto the standard output prints. -/
theorem effect_convert_output {schema path : String} {format : TargetFormat}
    (h : (convert schema format (some path)).effect w read = .ok effect) :
    ∃ text, effect = .writeOutput path text ∧
      (convert schema format none).effect w read = .ok (.print text) := by
  obtain ⟨settings, hsettings, h⟩ := Steps.of_bind_ok h
  obtain ⟨s, hschema, h⟩ := Steps.of_bind_ok h
  obtain ⟨text, htext, h⟩ := Steps.of_bind_ok h
  cases h
  refine ⟨text ++ "\n", rfl, ?_⟩
  simp only [Command.effect, hsettings, hschema, htext, bind, Except.bind, pure, Except.pure]

theorem effect_init {force : Bool} (h : (init force).effect w read = .ok effect) :
    effect = .writeSettings ∧ (force = false → read.hasPath Settings.path = false) := by
  simp only [Command.effect] at h
  split at h
  · cases h
  · rename_i habsent
    cases h
    refine ⟨rfl, fun hforce => ?_⟩
    rw [not_and] at habsent
    exact Bool.eq_false_iff.2 fun hpath => habsent hpath hforce

/-- A command writes to the file that it asks for, or to none. -/
theorem map_written?_effect {c : Command} (h : c.effect w read = .ok effect) :
    effect.written?.map Prod.fst = (Request.command c).target? := by
  cases c with
  | validate path source =>
      obtain ⟨settings, -, h⟩ := Steps.of_bind_ok h
      obtain ⟨s, -, h⟩ := Steps.of_bind_ok h
      obtain ⟨⟨text, name⟩, -, h⟩ := Steps.of_bind_ok h
      dsimp only at h
      split at h
      · cases h
      · obtain ⟨-, -, h⟩ := Steps.of_bind_ok h
        cases h
        rfl
  | convert path format output =>
      cases output with
      | none =>
          obtain ⟨settings, -, h⟩ := Steps.of_bind_ok h
          obtain ⟨s, -, h⟩ := Steps.of_bind_ok h
          obtain ⟨text, -, h⟩ := Steps.of_bind_ok h
          cases h
          rfl
      | some target =>
          obtain ⟨text, rfl, -⟩ := effect_convert_output h
          rfl
  | inspect path format =>
      obtain ⟨s, -, h⟩ := Steps.of_bind_ok h
      cases h
      rfl
  | init force =>
      obtain ⟨rfl, -⟩ := effect_init h
      rfl
  | completions shell =>
      cases h
      rfl

end Command

theorem Request.ending_command {w : Wording} {arguments : List String} {read : Sources}
    {c : Command} {effect : Effect} (h : c.effect w read = .ok effect) :
    (command c).ending w arguments read = effect.ending := by
  rw [ending, h]

theorem FileTree.run_of_ofArguments {arguments : List String} {request : Request}
    (h : Request.ofArguments arguments = .ok request) (f : FileTree) (w : Wording) :
    f.run w arguments = f.finish (request.ending w arguments f.read) := by
  rw [run, h]

/-! ### One run -/

/-- A run of the program: its wording, the tree that it finds, and its arguments. -/
structure Run where
  wording : Wording
  before : FileTree
  arguments : List String

namespace Run

variable {r : Run} {l : Location}

/-- What a run reports, and the tree that it leaves. -/
def result (r : Run) : Outcome × FileTree :=
  r.before.run r.wording r.arguments

def outcome (r : Run) : Outcome :=
  r.result.1

def after (r : Run) : FileTree :=
  r.result.2

def Changes (r : Run) (l : Location) : Prop :=
  r.after.at? l ≠ r.before.at? l

/-- How a run may go: it fails, or it succeeds without a file to write, or it writes the text that
its command decides on. -/
inductive Goes (r : Run) : Prop
  | failed (hexit : r.outcome.exit ≠ 0) (hafter : r.after = r.before)
  | printed {request : Request} (hrequest : Request.ofArguments r.arguments = .ok request)
      (htarget : request.target? = none) (hexit : r.outcome.exit = 0) (hafter : r.after = r.before)
  | wrote {c : Command} {effect : Effect} {path text : String}
      (hrequest : Request.ofArguments r.arguments = .ok (.command c))
      (heffect : c.effect r.wording r.before.read = .ok effect)
      (hwritten : effect.written? = some (path, text)) (hexit : r.outcome.exit = 0)
      (hafter : r.before.write path text = .ok r.after)

theorem goes_of_finished {request : Request} {outcome : Outcome}
    (hrequest : Request.ofArguments r.arguments = .ok request)
    (hending : request.ending r.wording r.arguments r.before.read = .finished outcome)
    (h : outcome.exit ≠ 0 ∨ outcome.exit = 0 ∧ request.target? = none) : r.Goes := by
  have hresult : r.result = (outcome, r.before) := by
    rw [result, FileTree.run_of_ofArguments hrequest, hending]
    rfl
  rcases h with hexit | ⟨hexit, htarget⟩
  · exact .failed (by rwa [Run.outcome, hresult]) (by rw [after, hresult])
  · exact .printed hrequest htarget (by rwa [Run.outcome, hresult]) (by rw [after, hresult])

theorem goes_of_writing {c : Command} {effect : Effect} {path text : String} {written : Outcome}
    {failed : AccessFault → Failure}
    (hrequest : Request.ofArguments r.arguments = .ok (.command c))
    (heffect : c.effect r.wording r.before.read = .ok effect)
    (hwritten : effect.written? = some (path, text))
    (hending : effect.ending = .writing path text written failed) (hexit : written.exit = 0) :
    r.Goes := by
  have hresult : r.result = r.before.finish (.writing path text written failed) := by
    rw [result, FileTree.run_of_ofArguments hrequest, Request.ending_command heffect, hending]
  cases hwrite : r.before.write path text with
  | ok g =>
      simp only [FileTree.finish, hwrite] at hresult
      refine .wrote hrequest heffect hwritten (by rwa [Run.outcome, hresult]) ?_
      rw [hwrite, after, hresult]
  | error fault =>
      simp only [FileTree.finish, hwrite] at hresult
      exact .failed (by rw [Run.outcome, hresult]; exact Nat.one_ne_zero) (by rw [after, hresult])

theorem goes (r : Run) : r.Goes := by
  cases hrequest : Request.ofArguments r.arguments with
  | error e =>
      have hresult : r.result = (e.outcome r.wording r.arguments, r.before) := by
        rw [result, FileTree.run, hrequest]
      exact .failed (by rw [outcome, hresult]; exact Nat.succ_ne_zero 1) (by rw [after, hresult])
  | ok request =>
      cases request with
      | help => exact goes_of_finished hrequest rfl (.inr ⟨rfl, rfl⟩)
      | version => exact goes_of_finished hrequest rfl (.inr ⟨rfl, rfl⟩)
      | command c =>
          cases heffect : c.effect r.wording r.before.read with
          | error e =>
              have hending : (Request.command c).ending r.wording r.arguments r.before.read =
                  .finished e.outcome := by rw [Request.ending, heffect]
              exact goes_of_finished hrequest hending (.inl Nat.one_ne_zero)
          | ok effect =>
              cases effect with
              | print text =>
                  exact goes_of_finished hrequest (Request.ending_command heffect)
                    (.inr ⟨rfl, (Command.map_written?_effect heffect).symm⟩)
              | writeOutput path text => exact goes_of_writing hrequest heffect rfl rfl rfl
              | writeSettings => exact goes_of_writing hrequest heffect rfl rfl rfl

/-- What a run may do to the files. -/
structure KeepsFiles (r : Run) : Prop where
  failed : r.outcome.exit ≠ 0 → r.after = r.before
  atMostOne : ∀ {l l'}, r.Changes l → r.Changes l' → l = l'
  /-- A conversion with a file for its output writes what it prints without that option. -/
  convert : ∀ {schema format path},
    Request.ofArguments r.arguments = .ok (.command (.convert schema format (some path))) →
      r.outcome.exit = 0 → ∃ l text rest, r.before.Rewritten r.after path l text ∧
        Command.outputOption.OmittedFrom path r.arguments rest ∧
        Request.ofArguments rest = .ok (.command (.convert schema format none)) ∧
        r.before.run r.wording rest = ({ stdout := text }, r.before)
  /-- The default settings are written where nothing is, or anything may be overwritten: at their
  path in the folder of the run, or where a link there leads. -/
  init : ∀ {force}, Request.ofArguments r.arguments = .ok (.command (.init force)) →
    r.outcome.exit = 0 →
      ∃ l, r.before.Rewritten r.after Settings.path l Settings.defaultText ∧
        ((∀ path, r.before.at? (r.before.start ++ [Settings.path]) ≠ some (.link path)) →
          l = r.before.start ++ [Settings.path]) ∧
        (force = false → r.before.at? l = none)
  /-- Nothing else is written. -/
  others : ∀ {request}, Request.ofArguments r.arguments = .ok request → request.target? = none →
    r.after = r.before

/-- A file that a run changes is the one that its request asks to write. -/
theorem Changes.named (h : r.Changes l) : r.outcome.exit = 0 ∧ ∃ request path,
    Request.ofArguments r.arguments = .ok request ∧ request.target? = some path ∧
      r.before.target path = .ok l := by
  cases r.goes with
  | failed _ hafter => exact absurd (by rw [hafter]) h
  | printed _ _ _ hafter => exact absurd (by rw [hafter]) h
  | @wrote c effect path text hrequest heffect hwritten hexit hafter =>
      obtain ⟨l', hl'⟩ := FileTree.rewritten_of_write hafter
      have hl : l = l' := Decidable.byContradiction fun hne => h (hl'.others l hne)
      refine ⟨hexit, .command c, path, hrequest, ?_, hl ▸ hl'.named⟩
      rw [← Command.map_written?_effect heffect, hwritten]
      rfl

/-- A run that succeeds has written the file that its command asks to write. -/
theorem rewritten_of_target {c : Command} {path : String}
    (hrequest : Request.ofArguments r.arguments = .ok (.command c))
    (htarget : (Request.command c).target? = some path) (hexit : r.outcome.exit = 0) :
    ∃ effect text l, c.effect r.wording r.before.read = .ok effect ∧
      effect.written? = some (path, text) ∧ r.before.Rewritten r.after path l text := by
  cases r.goes with
  | failed hfails _ => exact absurd hexit hfails
  | printed hrequest' hnone _ _ =>
      rw [hrequest] at hrequest'
      cases hrequest'
      rw [hnone] at htarget
      cases htarget
  | @wrote _ effect path' text hrequest' heffect hwritten _ hafter =>
      rw [hrequest] at hrequest'
      cases hrequest'
      have hpath : path' = path := by
        rw [← Command.map_written?_effect heffect, hwritten] at htarget
        exact Option.some.inj htarget
      subst hpath
      obtain ⟨l, hl⟩ := FileTree.rewritten_of_write hafter
      exact ⟨effect, text, l, heffect, hwritten, hl⟩

theorem keepsFiles (r : Run) : r.KeepsFiles where
  failed hexit := by
    cases r.goes with
    | failed _ hafter => exact hafter
    | printed _ _ hzero _ => exact absurd hzero hexit
    | wrote _ _ _ hzero _ => exact absurd hzero hexit
  atMostOne h h' := by
    obtain ⟨-, request, path, hrequest, htarget, hl⟩ := h.named
    obtain ⟨-, request', path', hrequest', htarget', hl'⟩ := h'.named
    rw [hrequest] at hrequest'
    cases hrequest'
    rw [htarget] at htarget'
    cases htarget'
    exact Except.ok.inj (hl.symm.trans hl')
  convert := by
    intro schema format path hrequest hexit
    obtain ⟨effect, written, l, heffect, hwritten, hl⟩ := rewritten_of_target hrequest rfl hexit
    obtain ⟨text, rfl, hprint⟩ := Command.effect_convert_output heffect
    cases hwritten
    obtain ⟨rest, homitted, hrest⟩ := Request.ofArguments_omitted hrequest
    refine ⟨l, _, rest, hl, homitted, hrest, ?_⟩
    rw [FileTree.run_of_ofArguments hrest, Request.ending_command hprint]
    rfl
  init := by
    intro force hrequest hexit
    obtain ⟨effect, written, l, heffect, hwritten, hl⟩ := rewritten_of_target hrequest rfl hexit
    obtain ⟨rfl, habsent⟩ := Command.effect_init heffect
    cases hwritten
    exact ⟨l, hl, FileTree.target_settings hl.named,
      fun hforce => FileTree.at?_of_hasPath_eq_false hl.named (habsent hforce)⟩
  others := by
    intro request hrequest htarget
    cases r.goes with
    | failed _ hafter => exact hafter
    | printed _ _ _ hafter => exact hafter
    | wrote hrequest' heffect hwritten _ _ =>
        rw [hrequest] at hrequest'
        cases hrequest'
        have hpath := Command.map_written?_effect heffect
        rw [hwritten, htarget] at hpath
        cases hpath

end Run

/-! ### A sequence of runs -/

namespace FileTree

/-- The runs with the given arguments, each in the tree that the run before leaves. -/
def runs (f : FileTree) (w : Wording) : List (List String) → List Run
  | [] => []
  | arguments :: rest => ⟨w, f, arguments⟩ :: runs (f.run w arguments).2 w rest

/-- The tree that a sequence of runs leaves. -/
def afterRuns (f : FileTree) (w : Wording) (commands : List (List String)) : FileTree :=
  commands.foldl (fun g arguments => (g.run w arguments).2) f

/-- A location is as it was before a sequence of runs, or as the last run that changed it left
it. -/
theorem at?_afterRuns (f : FileTree) (w : Wording) (commands : List (List String))
    (l : Location) : (f.afterRuns w commands).at? l = f.at? l ∨
      ∃ r ∈ f.runs w commands, r.Changes l ∧
        (f.afterRuns w commands).at? l = r.after.at? l := by
  induction commands generalizing f with
  | nil => exact .inl rfl
  | cons arguments rest ih =>
      rcases ih (f.run w arguments).2 with hkept | ⟨r, hmem, hchanges, hentry⟩
      · by_cases hsame : (f.run w arguments).2.at? l = f.at? l
        · exact .inl (hkept.trans hsame)
        · exact .inr ⟨⟨w, f, arguments⟩, List.mem_cons_self, hsame, hkept⟩
      · exact .inr ⟨r, List.mem_cons_of_mem _ hmem, hchanges, hentry⟩

/-- Each run in a sequence keeps the files, and a location that differs after the sequence holds
what a successful run that names it wrote. -/
theorem runs_keepFiles (f : FileTree) (w : Wording) (commands : List (List String)) :
    (∀ r ∈ f.runs w commands, r.KeepsFiles) ∧
      ∀ l, (f.afterRuns w commands).at? l = f.at? l ∨
        ∃ r ∈ f.runs w commands, r.outcome.exit = 0 ∧
          (∃ request path, Request.ofArguments r.arguments = .ok request ∧
            request.target? = some path ∧ r.before.target path = .ok l) ∧
          (f.afterRuns w commands).at? l = r.after.at? l := by
  refine ⟨fun r _ => r.keepsFiles, fun l => ?_⟩
  rcases f.at?_afterRuns w commands l with hkept | ⟨r, hmem, hchanges, hentry⟩
  · exact .inl hkept
  · obtain ⟨hexit, hnamed⟩ := hchanges.named
    exact .inr ⟨r, hmem, hexit, hnamed, hentry⟩

def pointText : String :=
  "\x7b\"title\": \"Point\", \"properties\": \x7b\"x\": \x7b\"type\": \"number\"\x7d\x7d\x7d"

def pointMessage : Content :=
  .text "message Point \x7b\n  optional double x;\n\x7d\n"

/-- A schema and a link in the folder of the runs, an empty folder beside it, and a location where
nothing may be written. -/
def pointTree : FileTree where
  entries := [(["work", "point.json"], .file (.text pointText)),
    (["work", "latest"], .link "../out/point"), (["out"], .folder)]
  start := ["work"]
  refusals := [((.write, ["work", "locked"]), ("Permission denied", 13))]

/-- Conversions to a path from the top, back from the folder, over the link and where nothing may be
written. Then the schema is overwritten by its conversion, so that it is no schema any more; and the
settings are written once. -/
def pointCommands : List (List String) :=
  [["convert", "point.json", "-f", "parquet", "-o", "/out/message"],
    ["convert", "point.json", "-f", "parquet", "-o", "../message"],
    ["convert", "point.json", "-f", "parquet", "-o", "latest"],
    ["convert", "point.json", "-f", "parquet", "-o", "locked"],
    ["convert", "point.json", "-f", "parquet", "-opoint.json"],
    ["inspect", "point.json"], ["init"], ["init"]]

/-- A wording without texts. -/
def silent : Wording where
  help _ := ""
  misuse _ _ := ""
  completion _ := ""

theorem runs_keepFiles_point :
    (pointTree.runs silent pointCommands).map (fun r => r.outcome.exit) =
        [0, 0, 0, 1, 0, 1, 0, 1] ∧
      (pointTree.afterRuns silent pointCommands).entries =
        [(["work", "point.json"], .file pointMessage), (["work", "latest"], .link "../out/point"),
          (["out"], .folder), (["out", "message"], .file pointMessage),
          (["message"], .file pointMessage), (["out", "point"], .file pointMessage),
          (["work", Settings.path], .file (.text Settings.defaultText))] ∧
      (∀ r ∈ pointTree.runs silent pointCommands, r.KeepsFiles) ∧
      ∃ r ∈ pointTree.runs silent pointCommands, r.outcome.exit = 0 ∧
        (pointTree.afterRuns silent pointCommands).at? ["work", "point.json"] =
          r.after.at? ["work", "point.json"] := by
  obtain ⟨hkeeps, hentries⟩ := runs_keepFiles pointTree silent pointCommands
  refine ⟨by decide +kernel, by decide +kernel, hkeeps, ?_⟩
  rcases hentries ["work", "point.json"] with hkept | ⟨r, hmem, hexit, -, hentry⟩
  · exact absurd hkept (by decide +kernel)
  · exact ⟨r, hmem, hexit, hentry⟩

end FileTree

end SchemaBridge
