import SchemaBridge.Proofs.PointerLaws
import SchemaBridge.Validation

/-!
Reading the text of a path. Each step starts with a dot or a bracket, so a text is cut in front of
these signs and each piece is read as a step, as long as no key has one of them. In a message the
path is followed by a colon and a blank. Main statement: the path is read back from its text, so
two paths have two texts, and a message tells the path unless a key of one path and what the other
message says of the value both have the two signs that separate them.
-/

namespace SchemaBridge

/-- The signs that steps start with. -/
def startsStep (c : Char) : Bool :=
  c == '.' || c == '['

theorem startsStep_eq_false {c : Char} (hdot : c ≠ '.') (hbracket : c ≠ '[') :
    startsStep c = false := by
  simp [startsStep, hdot, hbracket]

/-- The text in front of the first step, and the pieces from there on, each up to the next start. -/
def cutSteps : List Char → List Char × List (List Char)
  | [] => ([], [])
  | c :: rest =>
    let (piece, pieces) := cutSteps rest
    if startsStep c then ([], (c :: piece) :: pieces) else (c :: piece, pieces)

theorem cutSteps_append {xs : List Char} (hxs : ∀ c ∈ xs, startsStep c = false) (ys : List Char) :
    cutSteps (xs ++ ys) = (xs ++ (cutSteps ys).1, (cutSteps ys).2) := by
  induction xs with
  | nil => rfl
  | cons c rest ih =>
      obtain ⟨hc, hrest⟩ := List.forall_mem_cons.mp hxs
      rw [List.cons_append, cutSteps, ih hrest]
      simp [hc]

namespace Segment

/-- A step whose key has no sign that a step starts with. -/
def Plain : Segment → Prop
  | key name => '.' ∉ name.toList ∧ '[' ∉ name.toList
  | index _ => True

/-- The step that a piece of text shows. -/
def ofText? : List Char → Option Segment
  | '.' :: name => some (.key (String.ofList name))
  | '[' :: rest => (Pointer.index? (String.ofList rest.dropLast)).map .index
  | _ => none

/-- The first sign of a step. -/
def sign : Segment → Char
  | key _ => '.'
  | index _ => '['

/-- What follows the first sign of a step. -/
def body : Segment → List Char
  | key name => name.toList
  | index position => (toString position).toList ++ [']']

theorem toList_text (segment : Segment) : segment.text.toList = segment.sign :: segment.body := by
  cases segment with
  | key name => simp [text, sign, body]
  | index position => simp [text, sign, body]

theorem startsStep_sign (segment : Segment) : startsStep segment.sign = true := by
  cases segment <;> rfl

theorem startsStep_body {segment : Segment} (h : segment.Plain) :
    ∀ c ∈ segment.body, startsStep c = false := by
  cases segment with
  | key name =>
      intro c hc
      exact startsStep_eq_false (fun heq => h.1 (heq ▸ hc)) (fun heq => h.2 (heq ▸ hc))
  | index position =>
      intro c hc
      rcases List.mem_append.mp hc with hdigit | hclose
      · have hc := Pointer.isDigit_of_mem_toString hdigit
        apply startsStep_eq_false
        · rintro rfl
          exact absurd hc (by decide)
        · rintro rfl
          exact absurd hc (by decide)
      · rw [List.mem_singleton.mp hclose]
        rfl

theorem ofText?_text (segment : Segment) : ofText? segment.text.toList = some segment := by
  rw [toList_text]
  cases segment with
  | key name => simp [ofText?, sign, body]
  | index position =>
      rw [sign, body, ofText?, List.dropLast_concat, String.ofList_toList, Pointer.index?_toString]
      rfl

end Segment

namespace InstancePath

/-- A path whose keys have no sign that a step starts with. -/
def Plain (path : InstancePath) : Prop :=
  ∀ segment ∈ path, segment.Plain

/-- The path that a text shows. -/
def ofText? (text : String) : Option InstancePath :=
  match cutSteps text.toList with
  | (['$'], pieces) => pieces.mapM Segment.ofText?
  | _ => none

theorem toList_text (path : InstancePath) :
    path.text.toList = '$' :: path.flatMap (·.text.toList) := by
  simp [text, String.toList_join, List.flatMap_map]

theorem cutSteps_flatMap {path : InstancePath} (h : path.Plain) :
    cutSteps (path.flatMap (·.text.toList)) = ([], path.map (·.text.toList)) := by
  induction path with
  | nil => rfl
  | cons segment rest ih =>
      obtain ⟨hsegment, hrest⟩ := List.forall_mem_cons.mp h
      rw [List.flatMap_cons, Segment.toList_text, List.cons_append, cutSteps,
        cutSteps_append (Segment.startsStep_body hsegment), ih hrest]
      simp [Segment.startsStep_sign, Segment.toList_text]

theorem mapM_ofText? (path : InstancePath) :
    (path.map (·.text.toList)).mapM Segment.ofText? = some path := by
  induction path with
  | nil => rfl
  | cons segment rest ih =>
      rw [List.map_cons, List.mapM_cons, Segment.ofText?_text, ih]
      rfl

theorem ofText?_text {path : InstancePath} (h : path.Plain) : ofText? path.text = some path := by
  have hcut : cutSteps path.text.toList = (['$'], path.map (·.text.toList)) := by
    rw [toList_text, cutSteps, cutSteps_flatMap h]
    rfl
  rw [ofText?, hcut]
  exact path.mapM_ofText?

theorem text_injective {path path' : InstancePath} (h : path.Plain) (h' : path'.Plain)
    (heq : path.text = path'.text) : path = path' := by
  have hread := ofText?_text h
  rw [heq, ofText?_text h'] at hread
  exact (Option.some.inj hread).symm

end InstancePath

/-! ### Paths in messages -/

/-- A text has the two signs in it that follow the path in a message. -/
def ShowsEnd (text : String) : Prop :=
  [':', ' '] <:+: text.toList

theorem ShowsEnd.colon_mem {text : String} (h : ShowsEnd text) : ':' ∈ text.toList :=
  h.subset List.mem_cons_self

/-- A key of a path has the two signs in it that follow the path in a message. -/
def InstancePath.KeyShowsEnd (path : InstancePath) : Prop :=
  ∃ name, Segment.key name ∈ path ∧ ShowsEnd name

/-- What is longer by some text, in front of the same two signs, has them twice. -/
theorem end_of_longer {more said said' : List Char}
    (h : ':' :: ' ' :: said = more ++ ':' :: ' ' :: said') :
    more = [] ∨ [':', ' '] <:+: more ∧ [':', ' '] <:+: said := by
  match more, h with
  | [], _ => exact .inl rfl
  -- one sign more would be a colon with a colon behind it
  | [c], h => exact absurd (List.cons.inj (List.cons.inj h).2).1 (by decide)
  | c :: d :: rest, h =>
      obtain ⟨rfl, htail⟩ := List.cons.inj h
      obtain ⟨rfl, rfl⟩ := List.cons.inj htail
      exact .inr ⟨⟨[], rest, rfl⟩, rest, said', by simp⟩

/-- Two texts that go on with the same two signs are the same up to there, or one of them has the
signs before and the other one has them behind. -/
theorem end_cases {text text' said said' : List Char}
    (h : text ++ ':' :: ' ' :: said = text' ++ ':' :: ' ' :: said') :
    text = text' ∨ [':', ' '] <:+: text ∧ [':', ' '] <:+: said' ∨
      [':', ' '] <:+: text' ∧ [':', ' '] <:+: said := by
  rcases List.append_eq_append_iff.mp h with ⟨more, rfl, hmore⟩ | ⟨more, rfl, hmore⟩
  · rcases end_of_longer hmore with rfl | ⟨hin, hsaid⟩
    · exact .inl (List.append_nil text).symm
    · exact .inr (.inr ⟨hin.trans (List.suffix_append text more).isInfix, hsaid⟩)
  · rcases end_of_longer hmore with rfl | ⟨hin, hsaid⟩
    · exact .inl (List.append_nil text')
    · exact .inr (.inl ⟨hin.trans (List.suffix_append text' more).isInfix, hsaid⟩)

/-- The two signs are in one of two texts, unless the second text starts with a blank. -/
theorem end_mem_append {xs ys : List Char} (h : [':', ' '] <:+: xs ++ ys)
    (hys : ys.head? ≠ some ' ') : [':', ' '] <:+: xs ∨ [':', ' '] <:+: ys := by
  rcases List.infix_append_iff.mp h with hxs | hys' | ⟨l, r, heq, hsuffix, hprefix⟩
  · exact .inl hxs
  · exact .inr hys'
  · match l, r, heq with
    | [], r, heq =>
        rw [List.nil_append] at heq
        exact .inr (heq ▸ hprefix.isInfix)
    | [c], [d], heq =>
        -- the blank would be the first sign of the second text
        cases heq
        obtain ⟨rest, rfl⟩ := hprefix
        exact (hys rfl).elim
    | [c, d], [], heq =>
        rw [List.append_nil] at heq
        exact .inl (heq ▸ hsuffix.isInfix)

/-- Only a key can have the two signs in it. -/
theorem Segment.showsEnd_of_text {segment : Segment} (h : ShowsEnd segment.text) :
    ∃ name, segment = .key name ∧ ShowsEnd name := by
  rw [ShowsEnd, toList_text] at h
  cases segment with
  | key name =>
      rw [sign, body] at h
      rcases List.infix_cons_iff.mp h with hprefix | hname
      · exact absurd (List.cons_prefix_cons.mp hprefix).1 (by decide)
      · exact ⟨name, rfl, hname⟩
  | index position =>
      have hcolon : ':' ∈ '[' :: ((toString position).toList ++ [']']) := h.subset List.mem_cons_self
      rw [List.mem_cons, List.mem_append, List.mem_singleton] at hcolon
      rcases hcolon with hopen | hdigit | hclose
      · exact absurd hopen (by decide)
      · exact absurd (Pointer.isDigit_of_mem_toString hdigit) (by decide)
      · exact absurd hclose (by decide)

namespace InstancePath

/-- The steps of a path do not start with a blank. -/
theorem head?_steps (path : InstancePath) : (path.flatMap (·.text.toList)).head? ≠ some ' ' := by
  cases path with
  | nil => simp
  | cons segment rest =>
      rw [List.flatMap_cons, Segment.toList_text, List.cons_append, List.head?_cons]
      cases segment <;> simp [Segment.sign]

theorem keyShowsEnd_of_steps {path : InstancePath}
    (h : [':', ' '] <:+: path.flatMap (·.text.toList)) : path.KeyShowsEnd := by
  induction path with
  | nil => exact absurd (List.eq_nil_of_infix_nil h) (by simp)
  | cons segment rest ih =>
      rw [List.flatMap_cons] at h
      rcases end_mem_append h (head?_steps rest) with hfirst | hrest
      · obtain ⟨name, rfl, hname⟩ := Segment.showsEnd_of_text hfirst
        exact ⟨name, List.mem_cons_self, hname⟩
      · obtain ⟨name, hmem, hname⟩ := ih hrest
        exact ⟨name, List.mem_cons_of_mem _ hmem, hname⟩

theorem keyShowsEnd_of_text {path : InstancePath} (h : ShowsEnd path.text) : path.KeyShowsEnd := by
  rw [ShowsEnd, toList_text] at h
  rcases List.infix_cons_iff.mp h with hprefix | hsteps
  · exact absurd (List.cons_prefix_cons.mp hprefix).1 (by decide)
  · exact keyShowsEnd_of_steps hsteps

end InstancePath

namespace ValidationError

/-- The path in an error, and what is said of the value there. -/
def report? : ValidationError → Option (InstancePath × String)
  | invalid path violation => some (path, violation.message)
  | cycle path target => some (path, cycleMessage target)
  | tooDeep => none

theorem message_of_report {e : ValidationError} {path : InstancePath} {said : String}
    (h : e.report? = some (path, said)) : e.message = path.text ++ ": " ++ said := by
  cases e with
  | invalid path violation =>
      cases h
      rfl
  | cycle path target =>
      cases h
      rfl
  | tooDeep => cases h

end ValidationError

namespace InstancePath

/-- Two messages that are the same have the same text of a path, or a key of one path and what the
other message says have the two signs in them that follow a path. -/
theorem text_of_message {path path' : InstancePath} {e e' : ValidationError} {said said' : String}
    (he : e.report? = some (path, said)) (he' : e'.report? = some (path', said'))
    (h : e.message = e'.message) :
    path.text = path'.text ∨ path.KeyShowsEnd ∧ ShowsEnd said' ∨
      path'.KeyShowsEnd ∧ ShowsEnd said := by
  rw [ValidationError.message_of_report he, ValidationError.message_of_report he'] at h
  have hlists := congrArg String.toList h
  simp only [String.toList_append, List.append_assoc] at hlists
  rcases end_cases hlists with htext | ⟨hkey, hsaid⟩ | ⟨hkey, hsaid⟩
  · exact .inl (String.toList_injective htext)
  · exact .inr (.inl ⟨keyShowsEnd_of_text hkey, hsaid⟩)
  · exact .inr (.inr ⟨keyShowsEnd_of_text hkey, hsaid⟩)

theorem text_of_message_said {path path' : InstancePath} {e e' : ValidationError} {said : String}
    (he : e.report? = some (path, said)) (he' : e'.report? = some (path', said))
    (h : e.message = e'.message) : path.text = path'.text := by
  rw [ValidationError.message_of_report he, ValidationError.message_of_report he',
    String.append_assoc, String.append_assoc] at h
  exact (String.append_left_inj _).mp h

/-- The text of a path whose keys have neither a dot nor an opening bracket identifies the path: it
is read back from the text, and two such paths have two texts. So a message tells the path, given
what it says of the value there; and it tells the path by itself, unless a key of one path and what
the other message says both have a colon with a blank behind it. -/
theorem text_identifies {path path' : InstancePath} (h : path.Plain) (h' : path'.Plain) :
    ofText? path.text = some path ∧ (path ≠ path' → path.text ≠ path'.text) ∧
      ∀ (e e' : ValidationError) (said said' : String), e.report? = some (path, said) →
        e'.report? = some (path', said') → e.message = e'.message →
        said = said' ∨ ¬(path.KeyShowsEnd ∧ ShowsEnd said') ∧ ¬(path'.KeyShowsEnd ∧ ShowsEnd said) →
          path = path' := by
  refine ⟨ofText?_text h, fun hne heq => hne (text_injective h h' heq), ?_⟩
  intro e e' said said' he he' hmessage hclear
  apply text_injective h h'
  rcases hclear with rfl | ⟨hfirst, hsecond⟩
  · exact text_of_message_said he he' hmessage
  · rcases text_of_message he he' hmessage with htext | hambiguous | hambiguous
    · exact htext
    · exact (hfirst hambiguous).elim
    · exact (hsecond hambiguous).elim

/-- A schema of objects with the key `0]` in an array under the empty key. -/
def slotSchema : Schema where
  nodes := #[{ kind := .primitive .string }, { kind := .object { properties := [("0]", 0)] } },
    { kind := .array 1 }, { kind := .object { properties := [("", 2)] } }]
  root := 3

def slotInstance : Json :=
  .object [("", .array [.object [("0]", .bool true)]])]

/-- The path to the value that is no text. -/
def slotPath : InstancePath :=
  [.key "", .index 0, .key "0]"]

/-- A path of the same steps in another order. -/
def otherSlotPath : InstancePath :=
  [.key "", .key "0]", .index 0]

def slotViolation : Violation :=
  .typeMismatch (.primitive .string) (.primitive .boolean)

def slotError : ValidationError :=
  .invalid slotPath slotViolation

theorem validate_slot : slotSchema.validate slotInstance = .error slotError := by
  rfl

theorem text_identifies_slot :
    slotPath.Plain ∧ otherSlotPath.Plain ∧ slotPath.text = "$.[0].0]" ∧
      otherSlotPath.text = "$..0][0]" ∧ ofText? "$.[0].0]" = some slotPath ∧
      slotPath.text ≠ otherSlotPath.text ∧ slotSchema.validate slotInstance = .error slotError ∧
      slotError.message ≠ (ValidationError.cycle otherSlotPath "#").message := by
  have hplain : slotPath.Plain := by
    simp [InstancePath.Plain, slotPath, Segment.Plain]
  have hplain' : otherSlotPath.Plain := by
    simp [InstancePath.Plain, otherSlotPath, Segment.Plain]
  have hne : slotPath ≠ otherSlotPath := by decide
  have htext : slotPath.text = "$.[0].0]" := by decide
  obtain ⟨hread, hdiffers, hmessage⟩ := text_identifies hplain hplain'
  rw [htext] at hread
  refine ⟨hplain, hplain', htext, by decide, hread, hdiffers hne, validate_slot, fun heq => ?_⟩
  have hsaid : ':' ∉ slotViolation.message.toList := by decide
  have hsaid' : ':' ∉ (cycleMessage "#").toList := by decide
  exact hne (hmessage slotError (.cycle otherSlotPath "#") _ _ rfl rfl heq
    (.inr ⟨fun h => hsaid' h.2.colon_mem, fun h => hsaid h.2.colon_mem⟩))

/-- An object under each of two keys. What the first one requires is named like the end of the
second key, and what the second one requires. -/
def twinSchema : Schema where
  nodes := #[{ kind := .untyped }, { kind := .object {
      properties := [("b`: missing required property `c", 0)]
      required := ["b`: missing required property `c"] } },
    { kind := .untyped }, { kind := .object { properties := [("c", 2)], required := ["c"] } },
    { kind := .object {
      properties := [("a", 1), ("a: missing required property `b`", 3)] } }]
  root := 4

/-- Without what a message says of the value, the message does not tell the path: two instances
fail at different places with the same message. -/
theorem messages_coincide :
    ∃ e e' path path' said said',
      twinSchema.validate (.object [("a", .object [])]) = .error e ∧
      twinSchema.validate (.object [("a: missing required property `b`", .object [])]) = .error e' ∧
      e.report? = some (path, said) ∧ e'.report? = some (path', said') ∧
      path.Plain ∧ path'.Plain ∧ path ≠ path' ∧ e.message = e'.message := by
  refine ⟨.invalid [.key "a"] (.missingRequired "b`: missing required property `c"),
    .invalid [.key "a: missing required property `b`"] (.missingRequired "c"), _, _, _, _,
    rfl, rfl, rfl, rfl, ?_, ?_, by decide, by decide⟩
  · simp [InstancePath.Plain, Segment.Plain]
  · simp [InstancePath.Plain, Segment.Plain]

end InstancePath

end SchemaBridge
