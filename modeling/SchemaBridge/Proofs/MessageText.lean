import Mathlib.Data.List.Forall2
import SchemaBridge.ParquetEmission

/-!
Reading the text of a message. Each line of the text is a column, the opening of a group or the
closing of one; its words are separated by blanks, and the blanks before them say nothing that the
openings and closings do not say. Main statement: the text determines the name of the message and
its fields, as long as the name is on one line and the names of the fields are single words.
-/

namespace SchemaBridge

/-- A character that separates words or lines. -/
def IsGap (c : Char) : Prop :=
  c = ' ' ∨ c = '\n'

theorem Repetition.word_injective {r r' : Repetition} (h : r.word = r'.word) : r = r' := by
  revert h
  cases r <;> cases r' <;> decide

theorem Repetition.gap_not_mem {c : Char} (hc : IsGap c) (r : Repetition) : c ∉ r.word.toList := by
  rcases hc with rfl | rfl <;> cases r <;> decide

theorem PhysicalType.word_injective {p p' : PhysicalType} (h : p.word = p'.word) : p = p' := by
  revert h
  cases p <;> cases p' <;> decide

theorem PhysicalType.word_ne_group (p : PhysicalType) : p.word ≠ "group" := by
  cases p <;> decide

theorem PhysicalType.gap_not_mem {c : Char} (hc : IsGap c) (p : PhysicalType) :
    c ∉ p.word.toList := by
  rcases hc with rfl | rfl <;> cases p <;> decide

theorem LogicalType.word_injective {l l' : LogicalType} (h : l.word = l'.word) : l = l' := by
  revert h
  cases l <;> cases l' <;> decide

theorem LogicalType.gap_not_mem {c : Char} (hc : IsGap c) (l : LogicalType) :
    c ∉ l.word.toList := by
  rcases hc with rfl | rfl <;> cases l <;> decide

/-- What is in joined texts is in one of them or in what joins them. -/
theorem mem_of_mem_intercalate {α : Type} {a : α} {separator : List α} {texts : List (List α)}
    (h : a ∈ separator.intercalate texts) : a ∈ separator ∨ ∃ text ∈ texts, a ∈ text := by
  induction texts with
  | nil => simp at h
  | cons text rest ih =>
      cases rest with
      | nil => exact .inr ⟨text, List.mem_cons_self, by simpa using h⟩
      | cons next rest =>
          rw [List.intercalate_cons_cons, List.mem_append, List.mem_append] at h
          rcases h with (htext | hseparator) | hrest
          · exact .inr ⟨text, List.mem_cons_self, htext⟩
          · exact .inl hseparator
          · exact (ih hrest).imp_right fun ⟨t, ht, hmem⟩ => ⟨t, List.mem_cons_of_mem _ ht, hmem⟩

/-! ### Lines and their words -/

/-- What a line of a message says. -/
inductive MessageLine where
  | column (repetition : Repetition) (physical : PhysicalType) (logical : Option LogicalType)
      (name : String)
  | opening (repetition : Repetition) (name : String)
  | closing

namespace MessageLine

def words : MessageLine → List String
  | column repetition physical none name => [repetition.word, physical.word, name ++ ";"]
  | column repetition physical (some logical) name =>
    [repetition.word, physical.word, name, "(" ++ logical.word ++ ");"]
  | opening repetition name => [repetition.word, "group", name, "\x7b"]
  | closing => ["\x7d"]

def text (line : MessageLine) : String :=
  " ".intercalate line.words

/-- The name in a line, if there is one. -/
def name? : MessageLine → Option String
  | column _ _ _ name => some name
  | opening _ name => some name
  | closing => none

/-- The words of a line of a text, behind its blanks. -/
def wordsOf (line : String) : List (List Char) :=
  (line.toList.dropWhile (· == ' ')).splitOn ' '

theorem words_ne_nil (line : MessageLine) : line.words ≠ [] := by
  unfold words
  split <;> exact List.cons_ne_nil _ _

theorem words_injective {line line' : MessageLine} (h : line.words = line'.words) :
    line = line' := by
  rcases line with ⟨r, p, _ | l, n⟩ | ⟨r, n⟩ | _ <;>
    rcases line' with ⟨r', p', _ | l', n'⟩ | ⟨r', n'⟩ | _
  case column.none.column.none =>
    obtain ⟨hr, hp, rfl⟩ : r.word = r'.word ∧ p.word = p'.word ∧ n = n' := by simpa [words] using h
    rw [Repetition.word_injective hr, PhysicalType.word_injective hp]
  case column.some.column.some =>
    obtain ⟨hr, hp, rfl, hl⟩ : r.word = r'.word ∧ p.word = p'.word ∧ n = n' ∧ l.word = l'.word := by
      simpa [words] using h
    rw [Repetition.word_injective hr, PhysicalType.word_injective hp, LogicalType.word_injective hl]
  case opening.opening =>
    obtain ⟨hr, rfl⟩ : r.word = r'.word ∧ n = n' := by simpa [words] using h
    rw [Repetition.word_injective hr]
  case closing.closing => rfl
  case column.some.opening =>
    exact (p.word_ne_group (List.cons.inj (List.cons.inj h).2).1).elim
  case opening.column.some =>
    exact (p'.word_ne_group (List.cons.inj (List.cons.inj h).2).1.symm).elim
  -- the other lines have different numbers of words
  all_goals exact absurd (congrArg List.length h) (by simp [words])

/-- A line whose name has no gap has none in its words. -/
theorem gap_not_mem_words {c : Char} (hc : IsGap c) {line : MessageLine}
    (hname : ∀ name ∈ line.name?, c ∉ name.toList) : ∀ word ∈ line.words, c ∉ word.toList := by
  have hsign : ∀ sign ∈ [";", "\x7b", "\x7d", "group", "(", ");"], c ∉ String.toList sign := by
    rcases hc with rfl | rfl <;> decide
  have happend : ∀ s t : String, c ∉ s.toList → c ∉ t.toList → c ∉ (s ++ t).toList := by
    intro s t hs ht
    rw [String.toList_append, List.mem_append, not_or]
    exact ⟨hs, ht⟩
  rcases line with ⟨r, p, _ | l, n⟩ | ⟨r, n⟩ | _ <;>
    simp only [words, List.forall_mem_cons]
  case column.none =>
    exact ⟨r.gap_not_mem hc, p.gap_not_mem hc, happend _ _ (hname n rfl) (hsign _ (by simp)),
      by simp⟩
  case column.some =>
    refine ⟨r.gap_not_mem hc, p.gap_not_mem hc, hname n rfl, ?_, by simp⟩
    exact happend _ _ (happend _ _ (hsign _ (by simp)) (l.gap_not_mem hc)) (hsign _ (by simp))
  case opening =>
    exact ⟨r.gap_not_mem hc, hsign _ (by simp), hname n rfl, hsign _ (by simp), by simp⟩
  case closing => exact ⟨hsign _ (by simp), by simp⟩

theorem toList_text (line : MessageLine) :
    line.text.toList = [' '].intercalate (line.words.map String.toList) := by
  rw [text, String.toList_intercalate]
  rfl

/-- A line does not start with a blank. -/
theorem dropWhile_text (line : MessageLine) :
    line.text.toList.dropWhile (· == ' ') = line.text.toList := by
  rcases line with ⟨r, p, _ | l, n⟩ | ⟨r, n⟩ | _ <;> try cases r
  all_goals simp [toList_text, words, Repetition.word, List.intercalate_cons_cons]

/-- A text spells a line if only blanks are before it. -/
def SpelledBy (line : MessageLine) (text : String) : Prop :=
  ∃ blanks : String, (∀ c ∈ blanks.toList, c = ' ') ∧ text = blanks ++ line.text

/-- The words of a line are read back from its text. -/
theorem SpelledBy.wordsOf_eq {line : MessageLine} {text : String} (h : line.SpelledBy text)
    (hname : ∀ name ∈ line.name?, ' ' ∉ name.toList) :
    wordsOf text = line.words.map String.toList := by
  obtain ⟨blanks, hblanks, rfl⟩ := h
  rw [wordsOf, String.toList_append, List.dropWhile_append_of_pos (by simpa using hblanks),
    dropWhile_text, toList_text]
  refine List.splitOn_intercalate ' ' ?_ (by simpa using line.words_ne_nil)
  simpa using gap_not_mem_words (.inl rfl) hname

theorem SpelledBy.newline_not_mem {line : MessageLine} {text : String} (h : line.SpelledBy text)
    (hname : ∀ name ∈ line.name?, '\n' ∉ name.toList) : '\n' ∉ text.toList := by
  obtain ⟨blanks, hblanks, rfl⟩ := h
  rw [String.toList_append, List.mem_append, not_or]
  refine ⟨fun hmem => absurd (hblanks _ hmem) (by decide), fun hmem => ?_⟩
  rw [toList_text] at hmem
  rcases mem_of_mem_intercalate hmem with hblank | ⟨word, hword, hmem⟩
  · exact absurd hblank (by decide)
  · obtain ⟨w, hw, rfl⟩ := List.mem_map.mp hword
    exact gap_not_mem_words (.inr rfl) hname w hw hmem

end MessageLine

/-! ### Fields and their lines -/

namespace ParquetField

mutual
/-- The lines of a field. -/
def messageLines : ParquetField → List MessageLine
  | column repetition physical logical name => [.column repetition physical logical name]
  | group repetition name fields =>
    .opening repetition name :: (messageLinesOfAll fields ++ [.closing])

def messageLinesOfAll : List ParquetField → List MessageLine
  | [] => []
  | field :: rest => messageLines field ++ messageLinesOfAll rest
end

mutual
/-- The names in a field, at any depth. -/
def names : ParquetField → List String
  | column _ _ _ name => [name]
  | group _ name fields => name :: namesOfAll fields

def namesOfAll : List ParquetField → List String
  | [] => []
  | field :: rest => names field ++ namesOfAll rest
end

/-- Every line of a text spells the line of the field. -/
abbrev Spell (texts : List String) (lines : List MessageLine) : Prop :=
  List.Forall₂ (fun text line => MessageLine.SpelledBy line text) texts lines

mutual
theorem linesAt_spell {indent : String} (hindent : ∀ c ∈ indent.toList, c = ' ') :
    ∀ field : ParquetField, Spell (linesAt indent field) (messageLines field)
  | column repetition physical none name => by
      refine .cons ⟨indent, hindent, ?_⟩ .nil
      apply String.toList_injective
      simp [MessageLine.toList_text, annotation, MessageLine.words, List.intercalate_cons_cons]
  | column repetition physical (some logical) name => by
      refine .cons ⟨indent, hindent, ?_⟩ .nil
      apply String.toList_injective
      simp [MessageLine.toList_text, annotation, MessageLine.words, List.intercalate_cons_cons]
  | group repetition name fields => by
      have hdeeper : ∀ c ∈ (indent ++ "  ").toList, c = ' ' := by
        simpa [or_imp, forall_and] using hindent
      have hclosing : MessageLine.closing.SpelledBy (indent ++ "\x7d") := ⟨indent, hindent, rfl⟩
      refine .cons ⟨indent, hindent, ?_⟩
        (List.rel_append (linesOfAll_spell hdeeper fields) (.cons hclosing .nil))
      apply String.toList_injective
      simp [MessageLine.toList_text, MessageLine.words, List.intercalate_cons_cons]

theorem linesOfAll_spell {indent : String} (hindent : ∀ c ∈ indent.toList, c = ' ') :
    ∀ fields : List ParquetField, Spell (linesOfAll indent fields) (messageLinesOfAll fields)
  | [] => .nil
  | field :: rest => List.rel_append (linesAt_spell hindent field) (linesOfAll_spell hindent rest)
end

mutual
theorem name_mem_names : ∀ (field : ParquetField) {line : MessageLine} {name : String},
    line ∈ messageLines field → name ∈ line.name? → name ∈ names field
  | column _ _ _ _, line, name, hline, hname => by
      obtain rfl := List.mem_singleton.mp hline
      cases hname
      exact List.mem_singleton_self _
  | group _ _ fields, line, name, hline, hname => by
      rcases List.mem_cons.mp hline with rfl | hline
      · cases hname
        exact List.mem_cons_self
      · rcases List.mem_append.mp hline with hline | hline
        · exact List.mem_cons_of_mem _ (name_mem_namesOfAll fields hline hname)
        · obtain rfl := List.mem_singleton.mp hline
          cases hname

theorem name_mem_namesOfAll : ∀ (fields : List ParquetField) {line : MessageLine} {name : String},
    line ∈ messageLinesOfAll fields → name ∈ line.name? → name ∈ namesOfAll fields
  | [], _, _, hline, _ => nomatch hline
  | field :: rest, line, name, hline, hname => by
      rcases List.mem_append.mp hline with hline | hline
      · exact List.mem_append_left _ (name_mem_names field hline hname)
      · exact List.mem_append_right _ (name_mem_namesOfAll rest hline hname)
end

/-! A group is closed by the line that its opening asks for, so the lines of a field tell where it
ends, whatever follows. -/

mutual
theorem messageLines_append_inj : ∀ (field field' : ParquetField) {rest rest' : List MessageLine},
    messageLines field ++ rest = messageLines field' ++ rest' → field = field' ∧ rest = rest'
  | column _ _ _ _, column _ _ _ _, _, _, h => by
      obtain ⟨hline, hrest⟩ := List.cons.inj h
      cases hline
      exact ⟨rfl, hrest⟩
  | group _ _ fields, group _ _ fields', rest, rest', h => by
      simp only [messageLines, List.cons_append, List.append_assoc, List.nil_append] at h
      obtain ⟨hline, hrest⟩ := List.cons.inj h
      cases hline
      obtain ⟨rfl, hafter⟩ := messageLinesOfAll_closing_inj fields fields' hrest
      exact ⟨rfl, hafter⟩
  | column _ _ _ _, group _ _ _, _, _, h => nomatch (List.cons.inj h).1
  | group _ _ _, column _ _ _ _, _, _, h => nomatch (List.cons.inj h).1

theorem messageLinesOfAll_closing_inj :
    ∀ (fields fields' : List ParquetField) {rest rest' : List MessageLine},
      messageLinesOfAll fields ++ .closing :: rest =
        messageLinesOfAll fields' ++ .closing :: rest' → fields = fields' ∧ rest = rest'
  | [], [], _, _, h => ⟨rfl, (List.cons.inj h).2⟩
  | field :: fields, field' :: fields', rest, rest', h => by
      rw [messageLinesOfAll, messageLinesOfAll, List.append_assoc, List.append_assoc] at h
      obtain ⟨rfl, hfields⟩ := messageLines_append_inj field field' h
      obtain ⟨rfl, hrest⟩ := messageLinesOfAll_closing_inj fields fields' hfields
      exact ⟨rfl, hrest⟩
  | [], .column _ _ _ _ :: _, _, _, h => nomatch (List.cons.inj h).1
  | [], .group _ _ _ :: _, _, _, h => nomatch (List.cons.inj h).1
  | .column _ _ _ _ :: _, [], _, _, h => nomatch (List.cons.inj h).1
  | .group _ _ _ :: _, [], _, _, h => nomatch (List.cons.inj h).1
end

theorem messageLinesOfAll_injective {fields fields' : List ParquetField}
    (h : messageLinesOfAll fields = messageLinesOfAll fields') : fields = fields' :=
  (messageLinesOfAll_closing_inj fields fields' (congrArg (· ++ [.closing]) h)).1

/-- Lines that are spelled by the same texts are the same. -/
theorem Spell.unique {texts : List String} {lines lines' : List MessageLine}
    (h : Spell texts lines) (h' : Spell texts lines')
    (hnames : ∀ line ∈ lines, ∀ name ∈ line.name?, ' ' ∉ name.toList)
    (hnames' : ∀ line ∈ lines', ∀ name ∈ line.name?, ' ' ∉ name.toList) : lines = lines' := by
  induction h generalizing lines' with
  | nil =>
      cases h'
      rfl
  | @cons text line texts lines hline _ ih =>
      cases h' with
      | @cons _ line' _ lines' hline' hrest' =>
          rw [List.forall_mem_cons] at hnames hnames'
          have hwords := hline.wordsOf_eq hnames.1
          rw [hline'.wordsOf_eq hnames'.1] at hwords
          have heq := List.map_injective_iff.mpr (fun _ _ => String.toList_injective) hwords
          rw [MessageLine.words_injective heq, ih hrest' hnames.2 hnames'.2]

theorem Spell.newline_not_mem {texts : List String} {lines : List MessageLine}
    (h : Spell texts lines) (hnames : ∀ line ∈ lines, ∀ name ∈ line.name?, '\n' ∉ name.toList) :
    ∀ text ∈ texts, '\n' ∉ text.toList := by
  induction h with
  | nil => exact fun _ hmem => nomatch hmem
  | cons hline _ ih =>
      rw [List.forall_mem_cons] at hnames
      exact List.forall_mem_cons.mpr ⟨hline.newline_not_mem hnames.1, ih hnames.2⟩

end ParquetField

/-! ### Messages -/

namespace ParquetMessage

/-- A wrapped text is taken apart into its lines. -/
theorem splitOn_wrap {name : String} {lines : List String} (hname : '\n' ∉ name.toList)
    (hlines : ∀ line ∈ lines, '\n' ∉ line.toList) :
    (wrap name lines).toList.splitOn '\n' =
      ("message ".toList ++ name.toList ++ [' ', '\x7b']) ::
        (lines.map fun line => ' ' :: ' ' :: line.toList) ++ [['\x7d']] := by
  rw [wrap, String.toList_intercalate]
  refine (List.splitOn_intercalate '\n' ?_ (by simp)).trans ?_
  · simpa [hname, or_imp, forall_and] using hlines
  · simp

theorem wrap_injective {name name' : String} {lines lines' : List String}
    (hname : '\n' ∉ name.toList) (hname' : '\n' ∉ name'.toList)
    (hlines : ∀ line ∈ lines, '\n' ∉ line.toList) (hlines' : ∀ line ∈ lines', '\n' ∉ line.toList)
    (h : wrap name lines = wrap name' lines') : name = name' ∧ lines = lines' := by
  have hsplit := congrArg (fun text => text.toList.splitOn '\n') h
  simp only [splitOn_wrap hname hlines, splitOn_wrap hname' hlines', List.cons_append] at hsplit
  obtain ⟨hheader, hrest⟩ := List.cons.inj hsplit
  have hnames := List.append_cancel_left (List.append_cancel_right hheader)
  have hmap := List.append_cancel_right hrest
  refine ⟨String.toList_injective hnames, List.map_injective_iff.mpr ?_ hmap⟩
  intro line line' heq
  exact String.toList_injective (List.cons.inj (List.cons.inj heq).2).2

/-- A message whose name is on one line, and whose fields have names without blanks and line breaks
at every depth. -/
structure Legible (m : ParquetMessage) : Prop where
  name : '\n' ∉ m.name.toList
  fields : ∀ name ∈ ParquetField.namesOfAll m.fields, ' ' ∉ name.toList ∧ '\n' ∉ name.toList

theorem lines_spell (m : ParquetMessage) :
    ParquetField.Spell m.lines (ParquetField.messageLinesOfAll m.fields) :=
  ParquetField.linesOfAll_spell (by simp) m.fields

theorem Legible.names {m : ParquetMessage} (hm : m.Legible) :
    ∀ line ∈ ParquetField.messageLinesOfAll m.fields, ∀ name ∈ line.name?,
      ' ' ∉ name.toList ∧ '\n' ∉ name.toList :=
  fun _ hline name hname => hm.fields name (ParquetField.name_mem_namesOfAll _ hline hname)

theorem Legible.newline_not_mem_lines {m : ParquetMessage} (hm : m.Legible) :
    ∀ line ∈ m.lines, '\n' ∉ line.toList :=
  m.lines_spell.newline_not_mem fun line hline name hname => (hm.names line hline name hname).2

/-- The text of a legible message determines the message: its name, and the repetition, the types,
the names and the nesting of its fields. -/
theorem text_determines {m m' : ParquetMessage} (hm : m.Legible) (hm' : m'.Legible)
    (h : m.text = m'.text) : m = m' := by
  obtain ⟨hname, htexts⟩ :=
    wrap_injective hm.name hm'.name hm.newline_not_mem_lines hm'.newline_not_mem_lines h
  have hspell := m.lines_spell
  rw [htexts] at hspell
  have hlines := hspell.unique m'.lines_spell
    (fun line hline name hname => (hm.names line hline name hname).1)
    (fun line hline name hname => (hm'.names line hline name hname).1)
  have hfields := ParquetField.messageLinesOfAll_injective hlines
  cases m
  cases m'
  cases hname
  cases hfields
  rfl

/-- A message with a name of several words, and with names that look like ends of lines. -/
def awkwardMessage : ParquetMessage where
  name := "Line \x7b Item"
  fields := [.group .repeated "" [.column .required .binary (some .utf8) "a;",
      .group .optional "group" []], .column .optional .int32 none "(UTF8);"]

/-- A schema that is converted to that message. -/
def awkwardSchema : Schema where
  nodes := #[{ kind := .primitive .string }, { kind := .object {} },
    { kind := .object { properties := [("a;", 0), ("group", 1)], required := ["a;"] } },
    { kind := .array 2 }, { kind := .primitive .integer },
    { title := some "Line \x7b Item", kind := .object { properties := [("", 3), ("(UTF8);", 4)] } }]
  root := 5

theorem text_determines_awkward : ∃ m, awkwardSchema.parquetMessage none = .ok m ∧
    awkwardMessage.Legible ∧ m.Legible ∧ awkwardMessage.text = m.text ∧ awkwardMessage = m := by
  have hlegible : awkwardMessage.Legible := ⟨by decide, by decide⟩
  have hconverted : awkwardSchema.parquetMessage none = .ok awkwardMessage := by cbv
  exact ⟨awkwardMessage, hconverted, hlegible, hlegible, rfl,
    text_determines hlegible hlegible rfl⟩

example : awkwardMessage.lines = ["repeated group  \x7b", "  required binary a; (UTF8);",
    "  optional group group \x7b", "  \x7d", "\x7d", "optional int32 (UTF8);;"] := by
  decide

end ParquetMessage

end SchemaBridge
