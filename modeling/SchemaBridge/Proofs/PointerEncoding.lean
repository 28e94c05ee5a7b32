import SchemaBridge.Proofs.FaithfulReading
import SchemaBridge.Proofs.FirstViolation

/-!
Pointers that are built from steps. Each step appends its token to the pointer, and a token is
written by two replacements that are taken back in the opposite order when it is read. Main
statement: the pointer of a path leads to the part that the path leads to, no two lists of tokens
have one pointer, and so no two parts of a document have one entry in a table of locations.
-/

namespace SchemaBridge

/-- The token of a step: a key as it is, an index by its decimal digits. -/
def Segment.token : Segment → String
  | key name => name
  | index position => toString position

namespace Pointer

/-- The pointer of a list of tokens. -/
def ofTokens (tokens : List String) : String :=
  tokens.foldl child ""

/-- The pointer one step further. -/
def append (base : String) : Segment → String
  | .key name => child base name
  | .index position => element base position

/-- The pointer of a path. -/
def ofPath (path : InstancePath) : String :=
  path.foldl append ""

/-! ### Writing and reading a token -/

/-- A text with every occurrence of another one, from the left on, replaced. -/
def replaceAll (old new : List Char) : List Char → List Char
  | [] => []
  | c :: rest =>
    if old.isPrefixOf (c :: rest) then new ++ replaceAll old new (rest.drop (old.length - 1))
    else c :: replaceAll old new rest
termination_by text => text.length
decreasing_by
  · simp only [List.length_drop, List.length_cons]; omega
  · simp only [List.length_cons]; omega

theorem replaceAll_nil (old new : List Char) : replaceAll old new [] = [] := by
  rw [replaceAll]

theorem replaceAll_single_self (a : Char) (new rest : List Char) :
    replaceAll [a] new (a :: rest) = new ++ replaceAll [a] new rest := by
  rw [replaceAll]
  simp

theorem replaceAll_pair_self (a b : Char) (new rest : List Char) :
    replaceAll [a, b] new (a :: b :: rest) = new ++ replaceAll [a, b] new rest := by
  rw [replaceAll]
  simp

theorem replaceAll_of_ne {a c : Char} (hne : a ≠ c) (old new rest : List Char) :
    replaceAll (a :: old) new (c :: rest) = c :: replaceAll (a :: old) new rest := by
  rw [replaceAll]
  simp [hne]

/-- After the first sign of a pair, a text that does not go on with the second one. -/
theorem replaceAll_pair_of_head {a b : Char} {rest : List Char} (hrest : rest.head? ≠ some b)
    (new : List Char) : replaceAll [a, b] new (a :: rest) = a :: replaceAll [a, b] new rest := by
  rw [replaceAll]
  cases rest with
  | nil => simp
  | cons c rest =>
      have hne : b ≠ c := fun h => hrest (by rw [h, List.head?_cons])
      simp [hne]

theorem head?_replaceAll_pair {a b d e : Char} {text : List Char} (hne : d ≠ e)
    (htext : text.head? ≠ some e) : (replaceAll [a, b] [d] text).head? ≠ some e := by
  cases text with
  | nil => simp [replaceAll]
  | cons c rest =>
      rw [replaceAll]
      split
      · simpa using hne
      · simpa using htext

/-- A token is written by replacing the tildes, and then the slashes. -/
theorem encode_eq_replaceAll (token : List Char) :
    encode token = replaceAll ['/'] ['~', '1'] (replaceAll ['~'] ['~', '0'] token) := by
  fun_induction encode token with
  | case1 => simp only [replaceAll_nil]
  | case2 rest ih =>
      rw [replaceAll_single_self, List.cons_append, List.cons_append, List.nil_append,
        replaceAll_of_ne (by decide), replaceAll_of_ne (by decide), ih]
  | case3 rest ih =>
      rw [replaceAll_of_ne (by decide), replaceAll_single_self, ih]
      rfl
  | case4 c rest htilde hslash ih =>
      rw [replaceAll_of_ne (fun h => htilde h.symm), replaceAll_of_ne (fun h => hslash h.symm), ih]

/-- A written token is read by replacing what stands for a slash, and then what stands for a
tilde. -/
theorem decode_eq_replaceAll (text : List Char) :
    decode text = replaceAll ['~', '0'] ['~'] (replaceAll ['~', '1'] ['/'] text) := by
  fun_induction decode text with
  | case1 => simp only [replaceAll_nil]
  | case2 rest ih =>
      rw [replaceAll_pair_of_head (by simp), @replaceAll_of_ne '~' '0' (by decide),
        replaceAll_pair_self, ih]
      rfl
  | case3 rest ih =>
      rw [replaceAll_pair_self, List.cons_append, List.nil_append, replaceAll_of_ne (by decide), ih]
  | case4 c rest hzero hone ih =>
      by_cases hc : '~' = c
      · subst hc
        have hhead : ∀ {b : Char}, (∀ tail, rest = b :: tail → False) → rest.head? ≠ some b := by
          intro b hb hhead
          obtain ⟨tail, htail⟩ := List.head?_eq_some_iff.mp hhead
          exact hb tail htail
        have hzero' : rest.head? ≠ some '0' := hhead fun tail htail => hzero tail rfl htail
        have hone' : rest.head? ≠ some '1' := hhead fun tail htail => hone tail rfl htail
        -- the first replacement leaves no digit after the tilde that was not there before
        rw [replaceAll_pair_of_head hone',
          replaceAll_pair_of_head (head?_replaceAll_pair (by decide) hzero'), ih]
      · rw [replaceAll_of_ne hc, replaceAll_of_ne hc, ih]

/-! ### Tokens and paths -/

theorem tokens?_foldl_child {base : String} {before : List String}
    (hbase : tokens? base = some before) (tokens : List String) :
    tokens? (tokens.foldl child base) = some (before ++ tokens) := by
  induction tokens generalizing base before with
  | nil => rw [List.foldl_nil, List.append_nil, hbase]
  | cons token rest ih =>
      rw [List.foldl_cons, ih (tokens?_child hbase), List.append_assoc]
      rfl

theorem tokens?_ofTokens (tokens : List String) : tokens? (ofTokens tokens) = some tokens :=
  @tokens?_foldl_child "" [] (by decide) tokens

theorem ofTokens_injective {tokens tokens' : List String} (h : ofTokens tokens = ofTokens tokens') :
    tokens = tokens' := by
  have htokens := tokens?_ofTokens tokens
  rw [h, tokens?_ofTokens] at htokens
  exact (Option.some.inj htokens).symm

theorem append_eq_child (base : String) (segment : Segment) :
    append base segment = child base segment.token := by
  cases segment <;> rfl

theorem ofPath_eq_ofTokens (path : InstancePath) :
    ofPath path = ofTokens (path.map Segment.token) := by
  rw [ofPath, ofTokens, List.foldl_map, funext₂ append_eq_child]

end Pointer

/-- A step of a path is a step of the pointer. -/
theorem Json.step?_token {v w : Json} {segment : Segment} (h : v.part? segment = some w) :
    v.step? segment.token = some w := by
  unfold Json.part? at h
  split at h
  · exact h
  · exact Json.step?_element h
  · cases h

theorem Json.at?_foldl_append {document v w : Json} {base : String} {path : InstancePath}
    (hbase : document.at? base = some v) (hpath : path.value? v = some w) :
    document.at? (path.foldl Pointer.append base) = some w := by
  induction path generalizing base v with
  | nil =>
      cases hpath
      exact hbase
  | cons segment rest ih =>
      obtain ⟨next, hnext, hrest⟩ := Option.bind_eq_some_iff.mp hpath
      refine ih ?_ hrest
      rw [Pointer.append_eq_child, Json.at?_child hbase]
      exact Json.step?_token hnext

/-- Two steps from one value with the same token are the same step. -/
theorem Json.segment_eq_of_token {v w w' : Json} {segment segment' : Segment}
    (h : v.part? segment = some w) (h' : v.part? segment' = some w')
    (htoken : segment.token = segment'.token) : segment = segment' := by
  cases v with
  | object members =>
      cases segment with
      | index => cases h
      | key =>
          cases segment' with
          | index => cases h'
          | key => exact congrArg Segment.key htoken
  | array values =>
      cases segment with
      | key => cases h
      | index =>
          cases segment' with
          | key => cases h'
          | index => exact congrArg Segment.index (Pointer.toString_injective htoken)
  | _ => cases h

/-- Two paths into one value that have the same tokens are the same path. -/
theorem InstancePath.eq_of_tokens {v w w' : Json} {path path' : InstancePath}
    (h : path.value? v = some w) (h' : path'.value? v = some w')
    (htokens : path.map Segment.token = path'.map Segment.token) : path = path' := by
  induction path generalizing v path' with
  | nil => exact (List.map_eq_nil_iff.mp htokens.symm).symm
  | cons segment rest ih =>
      cases path' with
      | nil => cases htokens
      | cons segment' rest' =>
          obtain ⟨next, hnext, hrest⟩ := Option.bind_eq_some_iff.mp h
          obtain ⟨next', hnext', hrest'⟩ := Option.bind_eq_some_iff.mp h'
          obtain ⟨htoken, hrestTokens⟩ := List.cons.inj htokens
          obtain rfl := Json.segment_eq_of_token hnext hnext' htoken
          rw [hnext] at hnext'
          cases hnext'
          rw [ih hrest hrest' hrestTokens]

theorem Pointer.ofPath_ne {v w w' : Json} {path path' : InstancePath}
    (h : path.value? v = some w) (h' : path'.value? v = some w') (hne : path ≠ path') :
    ofPath path ≠ ofPath path' := by
  rw [ofPath_eq_ofTokens, ofPath_eq_ofTokens]
  exact fun heq => hne (InstancePath.eq_of_tokens h h' (ofTokens_injective heq))

/-! ### The table of locations -/

/-- A node that is read at one pointer leaves the entry of every other pointer as it is. -/
theorem Draft.lookup_place_of_ne {pointer pointer' : String} (hne : pointer' ≠ pointer) (d : Draft)
    (n : Node) : (d.place pointer n).2.locations.lookup pointer' = d.locations.lookup pointer' := by
  rw [Draft.place, List.lookup_cons, beq_eq_false_iff_ne.mpr hne]

/-- The entries of two pointers hold two nodes. -/
theorem Draft.Indexed.lookup_ne {d : Draft} (h : d.Indexed) {pointer pointer' : String}
    {id id' : NodeId} (hid : d.locations.lookup pointer = some id)
    (hid' : d.locations.lookup pointer' = some id') (hne : pointer ≠ pointer') : id ≠ id' := by
  rintro rfl
  have hpointer := h.pointer?_of_lookup hid
  rw [h.pointer?_of_lookup hid'] at hpointer
  exact hne (Option.some.inj hpointer).symm

theorem Resolves.indexed {document : Json} {d d' : Draft} {demands : List String}
    (h : Resolves document d demands d') (hd : d.Indexed) : d'.Indexed := by
  induction h with
  | done => exact hd
  | skip _ _ _ ih => exact ih ⟨hd.lt, hd.nodup⟩
  | @known d _ _ _ rest _ _ _ _ _ _ _ _ _ ih =>
      have hd₀ : ({ d with pending := rest } : Draft).Indexed := ⟨hd.lt, hd.nodup⟩
      exact ih (hd₀.bind _ _)
  | @demand d _ _ _ _ rest _ _ _ _ _ _ _ _ _ _ hreads _ ih =>
      have hd₀ : ({ d with pending := rest } : Draft).Indexed := ⟨hd.lt, hd.nodup⟩
      exact ih ((hreads.indexed hd₀).bind _ _)

theorem Schema.ReadTo.indexed {document : Json} {s : Schema} {demands : List String} {d : Draft}
    (h : s.ReadTo document demands d) : d.Indexed := by
  obtain ⟨d₀, hroot, hresolves, -⟩ := h
  exact hresolves.indexed (hroot.indexed Draft.indexed_empty)

/-- Two pointers never share an entry of a table of locations: a node that is read at the first one
leaves the entry of the second as it is, and at the end of a run their entries hold two nodes. -/
structure ApartInTables (document : Json) (pointer pointer' : String) : Prop where
  place (d : Draft) (n : Node) :
    (d.place pointer n).2.locations.lookup pointer' = d.locations.lookup pointer'
  run (s : Schema) (demands : List String) (d : Draft) : s.ReadTo document demands d →
    ∀ id id', d.locations.lookup pointer = some id → d.locations.lookup pointer' = some id' →
      id ≠ id'

theorem ApartInTables.of_ne {document : Json} {pointer pointer' : String}
    (hne : pointer ≠ pointer') : ApartInTables document pointer pointer' where
  place d n := d.lookup_place_of_ne hne.symm n
  run _ _ _ hrun _ _ hid hid' := hrun.indexed.lookup_ne hid hid' hne

/-- A pointer is undone by following it. A token is written and read by two replacements in opposite
orders. The pointer of a path leads to the part of a document that the path leads to, and a
reference to it is read as it is. Different lists of tokens have different pointers, so different
parts of a document never share an entry of a table of locations. -/
theorem Json.at?_ofPath (document : Json) :
    (∀ token, Pointer.decode (Pointer.encode token) = token ∧
      Pointer.encode token = Pointer.replaceAll ['/'] ['~', '1']
        (Pointer.replaceAll ['~'] ['~', '0'] token) ∧
      Pointer.decode token = Pointer.replaceAll ['~', '0'] ['~']
        (Pointer.replaceAll ['~', '1'] ['/'] token)) ∧
    (∀ path value, path.value? document = some value →
      document.at? (Pointer.ofPath path) = some value) ∧
    (∀ path, Pointer.ofPath path = Pointer.ofTokens (path.map Segment.token)) ∧
    (∀ tokens, Pointer.ofReference? ("#" ++ Pointer.ofTokens tokens) =
      some (Pointer.ofTokens tokens)) ∧
    (∀ tokens tokens', Pointer.ofTokens tokens = Pointer.ofTokens tokens' → tokens = tokens') ∧
    ∀ path path' value value', path.value? document = some value →
      path'.value? document = some value' → path ≠ path' →
      ApartInTables document (Pointer.ofPath path) (Pointer.ofPath path') := by
  refine ⟨fun token => ⟨Pointer.decode_encode token, Pointer.encode_eq_replaceAll token,
      Pointer.decode_eq_replaceAll token⟩, fun path value hvalue => ?_, Pointer.ofPath_eq_ofTokens,
    fun tokens => Pointer.ofReference?_of_tokens? (Pointer.tokens?_ofTokens tokens),
    fun tokens tokens' => Pointer.ofTokens_injective, ?_⟩
  · exact Json.at?_foldl_append (Json.at?_empty document) hvalue
  · intro path path' value value' hvalue hvalue' hne
    exact .of_ne (Pointer.ofPath_ne hvalue hvalue' hne)

/-- A document whose keys look like written tokens, separators and indexes. -/
def disguisedDocument : Json :=
  .object [("properties", .object [
    ("a/b", .object [("type", .string "string")]),
    ("a~1b", .object [("type", .string "integer")]),
    ("", .object [("items", .array [.bool true, .object [("properties", .object [
      ("0", .bool true), ("~01", .bool true)])]])])])]

def disguisedDraft : Draft where
  nodes := #[{ kind := .primitive .string }, { kind := .primitive .integer }, { kind := .untyped },
    { kind := .untyped }, { kind := .untyped },
    { kind := .object { properties := [("0", 3), ("~01", 4)] } }, { kind := .tuple [2, 5] },
    { kind := .object { properties := [("a/b", 0), ("a~1b", 1), ("", 6)] } }]
  locations := [("", 7), ("/properties/", 6), ("/properties//items/1", 5),
    ("/properties//items/1/properties/~001", 4), ("/properties//items/1/properties/0", 3),
    ("/properties//items/0", 2), ("/properties/a~01b", 1), ("/properties/a~1b", 0)]
  pending := []

def disguisedSchema : Schema :=
  ⟨disguisedDraft.nodes, 7⟩

theorem schema_disguisedDocument :
    (Reader.schema disguisedDocument "" disguisedDocument).run {} = .ok (7, disguisedDraft) := by
  cbv

theorem disguisedSchema_readTo : disguisedSchema.ReadTo disguisedDocument [] disguisedDraft :=
  ⟨disguisedDraft, Reader.schema_reads schema_disguisedDocument, .done rfl, rfl⟩

/-- The path to the property that looks like a written tilde and a one. -/
def disguisedPath : InstancePath :=
  [.key "properties", .key "", .key "items", .index 1, .key "properties", .key "~01"]

theorem Json.at?_ofPath_disguised :
    disguisedPath.value? disguisedDocument = some (.bool true) ∧
      disguisedDocument.at? (Pointer.ofPath disguisedPath) = some (.bool true) ∧
      disguisedSchema.ReadTo disguisedDocument [] disguisedDraft ∧
      ∃ v w id id', InstancePath.value? [.key "properties", .key "a/b"] disguisedDocument = some v ∧
        InstancePath.value? [.key "properties", .key "a~1b"] disguisedDocument = some w ∧
        disguisedDraft.locations.lookup
          (Pointer.ofPath [.key "properties", .key "a/b"]) = some id ∧
        disguisedDraft.locations.lookup
          (Pointer.ofPath [.key "properties", .key "a~1b"]) = some id' ∧ id ≠ id' := by
  obtain ⟨-, hat, -, -, -, hapart⟩ := Json.at?_ofPath disguisedDocument
  have hvalue : disguisedPath.value? disguisedDocument = some (.bool true) := by rfl
  have hentry : disguisedDraft.locations.lookup
      (Pointer.ofPath [.key "properties", .key "a/b"]) = some 0 := by decide
  have hentry' : disguisedDraft.locations.lookup
      (Pointer.ofPath [.key "properties", .key "a~1b"]) = some 1 := by decide
  refine ⟨hvalue, hat _ _ hvalue, disguisedSchema_readTo, _, _, 0, 1, rfl, rfl, hentry, hentry', ?_⟩
  exact (hapart _ _ _ _ rfl rfl (by decide)).run _ _ _ disguisedSchema_readTo _ _ hentry hentry'

end SchemaBridge
