import SchemaBridge.JsonText
import SchemaBridge.Proofs.DistinctKeys
import SchemaBridge.YamlValue

/-!
Documents that are read from texts. A repeated key takes the place of the key before it, in JSON
text as in YAML. Main statement: no object of a document that is read from a text names a key twice.
-/

namespace SchemaBridge

namespace Entries

theorem mem_put {α : Type} {key : String} {value : α} {entries : List (String × α)}
    {e : String × α} (h : e ∈ put key value entries) : e = (key, value) ∨ e ∈ entries := by
  induction entries with
  | nil => exact .inl (List.mem_singleton.mp h)
  | cons entry rest ih =>
      rw [put] at h
      split at h
      · rename_i hkey
        rw [eq_of_beq hkey] at h
        exact (List.mem_cons.mp h).imp_right (List.mem_cons_of_mem _)
      · rcases List.mem_cons.mp h with rfl | hrest
        · exact .inr List.mem_cons_self
        · exact (ih hrest).imp_right (List.mem_cons_of_mem _)

theorem keys_put_nodup {α : Type} {key : String} {value : α} {entries : List (String × α)}
    (h : (entries.map Prod.fst).Nodup) : ((put key value entries).map Prod.fst).Nodup := by
  induction entries with
  | nil => simp [put]
  | cons entry rest ih =>
      obtain ⟨k, v⟩ := entry
      rw [List.map_cons, List.nodup_cons] at h
      rw [put]
      split
      · exact List.nodup_cons.mpr h
      · rename_i hkey
        refine List.nodup_cons.mpr ⟨fun hmem => ?_, ih h.2⟩
        obtain ⟨e, he, hfst⟩ := List.mem_map.mp hmem
        rcases mem_put he with rfl | hrest
        · exact hkey (beq_iff_eq.mpr hfst.symm)
        · exact h.1 (List.mem_map.mpr ⟨e, hrest, hfst⟩)

end Entries

namespace Json

theorem DistinctKeys.put {members : Members} {key : String} {value : Json}
    (h : (Json.object members).DistinctKeys) (hvalue : value.DistinctKeys) :
    (Json.object (Entries.put key value members)).DistinctKeys := by
  cases h with
  | object hkeys hmembers =>
      refine .object (Entries.keys_put_nodup hkeys) fun m hm => ?_
      rcases Entries.mem_put hm with rfl | hm
      · exact hvalue
      · exact hmembers m hm

theorem DistinctKeys.emptyObject : (Json.object []).DistinctKeys :=
  .object List.nodup_nil fun _ hm => nomatch hm

/-! ### JSON text -/

end Json

namespace JsonToken

/-- A token carries no object with a repeated key. -/
def Plain (token : JsonToken) : Prop :=
  ∀ value, token = .scalar value → value.DistinctKeys

theorem next?_plain {cs rest : List Char} {token : JsonToken} (h : next? cs = some (token, rest)) :
    token.Plain := by
  intro value hscalar
  subst hscalar
  unfold next? at h
  split at h
  any_goals cases h
  · obtain ⟨⟨s, rest⟩, -, h⟩ := Option.map_eq_some_iff.mp h
    cases h
  · exact .null
  · exact .bool true
  · exact .bool false
  · obtain ⟨⟨numeral, rest⟩, -, h⟩ := Option.bind_eq_some_iff.mp h
    obtain ⟨n, -, h⟩ := Option.bind_eq_some_iff.mp h
    cases h
    exact .number n
  · obtain ⟨⟨numeral, rest⟩, -, h⟩ := Option.bind_eq_some_iff.mp h
    obtain ⟨n, -, h⟩ := Option.bind_eq_some_iff.mp h
    cases h
    exact .number n

theorem ofChars?_plain {cs : List Char} {tokens : List JsonToken} (h : ofChars? cs = some tokens) :
    ∀ token ∈ tokens, token.Plain := by
  induction hlength : cs.length using Nat.strongRecOn generalizing cs tokens with
  | ind n ih =>
      rw [ofChars?] at h
      split at h
      · rename_i token rest hnext
        split at h
        · rename_i hlt
          obtain ⟨tail, htail, rfl⟩ := Option.map_eq_some_iff.mp h
          exact List.forall_mem_cons.mpr
            ⟨next?_plain hnext, ih rest.length (hlength ▸ hlt) htail rfl⟩
        · cases h
      · split at h
        · cases h
          simp
        · cases h

end JsonToken

namespace Json

/-- The value of what an open container holds so far. -/
def OpenContainer.held : OpenContainer → Json
  | array elements => .array elements
  | object members => .object members
  | member members _ => .object members

namespace ReadState

/-- All that was read so far has distinct keys. -/
structure HasDistinctKeys (s : ReadState) : Prop where
  stack : ∀ container ∈ s.stack, container.held.DistinctKeys
  result : ∀ value, s.expected = .nothing value → value.DistinctKeys

theorem deliver_distinct {value : Json} {stack : List OpenContainer} {s : ReadState}
    (hvalue : value.DistinctKeys) (hstack : ∀ container ∈ stack, container.held.DistinctKeys)
    (h : deliver value stack = some s) : s.HasDistinctKeys := by
  unfold deliver at h
  split at h
  · cases h
    exact ⟨by simp, fun _ h => by cases h; exact hvalue⟩
  · cases h
    obtain ⟨helements, hrest⟩ := List.forall_mem_cons.mp hstack
    refine ⟨List.forall_mem_cons.mpr ⟨?_, hrest⟩, fun _ h => nomatch h⟩
    cases helements with
    | array helements => exact .array (List.forall_mem_cons.mpr ⟨hvalue, helements⟩)
  · cases h
    obtain ⟨hmembers, hrest⟩ := List.forall_mem_cons.mp hstack
    exact ⟨List.forall_mem_cons.mpr ⟨hmembers.put hvalue, hrest⟩, fun _ h => nomatch h⟩
  · cases h

theorem enter_distinct {container : OpenContainer} {expected : Expected}
    {stack : List OpenContainer} {s : ReadState} (hcontainer : container.held.DistinctKeys)
    (hexpected : ∀ value, expected ≠ .nothing value)
    (hstack : ∀ container ∈ stack, container.held.DistinctKeys)
    (h : enter container expected stack = some s) : s.HasDistinctKeys := by
  unfold enter at h
  split at h
  · cases h
    exact ⟨List.forall_mem_cons.mpr ⟨hcontainer, hstack⟩, fun value h => (hexpected value h).elim⟩
  · cases h

theorem beginValue_distinct {stack : List OpenContainer} {token : JsonToken} {s : ReadState}
    (hstack : ∀ container ∈ stack, container.held.DistinctKeys) (htoken : token.Plain)
    (h : beginValue stack token = some s) : s.HasDistinctKeys := by
  unfold beginValue at h
  split at h
  · have hempty : (OpenContainer.array []).held.DistinctKeys := .array fun _ h => nomatch h
    exact enter_distinct hempty (by simp) hstack h
  · have hempty : (OpenContainer.object []).held.DistinctKeys := .emptyObject
    exact enter_distinct hempty (by simp) hstack h
  · exact deliver_distinct (.string _) hstack h
  · exact deliver_distinct (htoken _ rfl) hstack h
  · cases h

theorem beginMember_distinct {stack : List OpenContainer} {token : JsonToken} {s : ReadState}
    (hstack : ∀ container ∈ stack, container.held.DistinctKeys)
    (h : beginMember stack token = some s) : s.HasDistinctKeys := by
  unfold beginMember at h
  split at h
  · cases h
    exact ⟨hstack, fun _ h => nomatch h⟩
  · cases h

theorem continueContainer_distinct {stack : List OpenContainer} {token : JsonToken} {s : ReadState}
    (hstack : ∀ container ∈ stack, container.held.DistinctKeys)
    (h : continueContainer stack token = some s) : s.HasDistinctKeys := by
  unfold continueContainer at h
  split at h
  · cases h
    exact ⟨hstack, fun _ h => nomatch h⟩
  · obtain ⟨helements, hrest⟩ := List.forall_mem_cons.mp hstack
    refine deliver_distinct ?_ hrest h
    cases helements with
    | array helements => exact .array fun v hv => helements v (List.mem_reverse.mp hv)
  · cases h
    exact ⟨hstack, fun _ h => nomatch h⟩
  · obtain ⟨hmembers, hrest⟩ := List.forall_mem_cons.mp hstack
    exact deliver_distinct hmembers hrest h
  · cases h

/-- One token keeps all keys distinct. -/
theorem step_distinct {s s' : ReadState} {token : JsonToken} (hs : s.HasDistinctKeys)
    (htoken : token.Plain) (h : s.step token = some s') : s'.HasDistinctKeys := by
  unfold step at h
  split at h
  · exact beginValue_distinct hs.stack htoken h
  · exact continueContainer_distinct hs.stack h
  · exact beginValue_distinct hs.stack htoken h
  · exact continueContainer_distinct hs.stack h
  · exact beginMember_distinct hs.stack h
  · exact beginMember_distinct hs.stack h
  · split at h
    · rename_i hstack
      cases h
      have hall := hs.stack
      rw [hstack] at hall
      obtain ⟨hmembers, hrest⟩ := List.forall_mem_cons.mp hall
      exact ⟨List.forall_mem_cons.mpr ⟨hmembers, hrest⟩, fun _ h => nomatch h⟩
    · cases h
  · cases h
  · exact continueContainer_distinct hs.stack h
  · cases h

theorem foldlM_step_distinct {tokens : List JsonToken} {s s' : ReadState} (hs : s.HasDistinctKeys)
    (htokens : ∀ token ∈ tokens, token.Plain) (h : tokens.foldlM step s = some s') :
    s'.HasDistinctKeys := by
  induction tokens generalizing s with
  | nil => cases h; exact hs
  | cons token rest ih =>
      obtain ⟨htoken, htokens⟩ := List.forall_mem_cons.mp htokens
      obtain ⟨next, hnext, h⟩ := Option.bind_eq_some_iff.mp h
      exact ih (step_distinct hs htoken hnext) htokens h

end ReadState

/-- No object of a document that is read from JSON text names a key twice. -/
theorem ofText?_distinctKeys {text : String} {value : Json} (h : ofText? text = some value) :
    value.DistinctKeys := by
  obtain ⟨tokens, htokens, h⟩ := Option.bind_eq_some_iff.mp h
  unfold ofTokens? at h
  split at h
  · rename_i stack result hfold
    cases h
    have hstart : ReadState.HasDistinctKeys ⟨[], .value⟩ := ⟨by simp, fun _ h => nomatch h⟩
    exact (ReadState.foldlM_step_distinct hstart (JsonToken.ofChars?_plain htokens) hfold).result
      _ rfl
  · cases h

end Json

namespace YamlScalar

/-- A scalar is no object. -/
theorem toReal?_distinctKeys {text : String} {value : Json} (h : toReal? text = some value) :
    value.DistinctKeys := by
  rw [toReal?] at h
  extract_lets at h
  split at h
  · cases h
    exact .null
  · obtain ⟨x, -, rfl⟩ := Option.map_eq_some_iff.mp h
    exact .number _

theorem plainValue?_distinctKeys {text : String} {value : Json} (h : plainValue? text = some value) :
    value.DistinctKeys := by
  unfold plainValue? at h
  split at h
  · cases h
    exact .null
  · split at h
    · cases h
      exact .bool _
    · split at h
      · cases h
        exact .number _
      · cases h
      · split at h
        · cases h
          exact .string _
        · obtain rfl := Option.some.inj h
          cases hreal : toReal? text with
          | none => exact .string _
          | some x => exact toReal?_distinctKeys hreal

theorem value?_distinctKeys {tag : Option String} {style : ScalarStyle} {text : String}
    {value : Json} (h : value? tag style text = some value) : value.DistinctKeys := by
  unfold value? at h
  split at h
  · cases h
  · split at h
    · split at h
      · exact plainValue?_distinctKeys h
      · cases h
        exact .string _
    · split at h
      · obtain ⟨b, -, rfl⟩ := Option.map_eq_some_iff.mp h
        exact .bool b
      · split at h
        · split at h
          · cases h
            exact .number _
          · cases h
        · split at h
          · exact toReal?_distinctKeys h
          · split at h
            · split at h
              · cases h
                exact .null
              · cases h
            · cases h
              exact .string _

end YamlScalar

namespace YamlDocument

theorem bind_some {α β : Type} {x : Reader α} {f : α → Reader β} {left left' : Nat} {b : β}
    (h : (x >>= f).run left = some (b, left')) :
    ∃ a next, x.run left = some (a, next) ∧ (f a).run next = some (b, left') := by
  rw [StateT.run_bind] at h
  obtain ⟨⟨a, next⟩, hx, hf⟩ := Option.bind_eq_some_iff.mp h
  exact ⟨a, next, hx, hf⟩

/-- What a reader returns has distinct keys. -/
def Yields (read : YamlNode → Reader Json) : Prop :=
  ∀ node left value left', (read node).run left = some (value, left') → value.DistinctKeys

theorem items_distinctKeys {read : YamlNode → Reader Json} (hread : Yields read)
    {nodes : List YamlNode} {left left' : Nat} {values : List Json}
    (h : (items read nodes).run left = some (values, left')) :
    ∀ v ∈ values, v.DistinctKeys := by
  induction nodes generalizing left values with
  | nil => cases h; simp
  | cons node rest ih =>
      rw [items] at h
      obtain ⟨value, next, hvalue, h⟩ := bind_some h
      obtain ⟨tail, last, htail, h⟩ := bind_some h
      cases h
      exact List.forall_mem_cons.mpr ⟨hread _ _ _ _ hvalue, ih htail⟩

theorem entries_distinctKeys {read : YamlNode → Reader Json} (hread : Yields read)
    {d : YamlDocument} {nodes : List (YamlNode × YamlNode)} {left left' : Nat}
    {known members : Members} (hknown : (Json.object known).DistinctKeys)
    (h : (entries read d nodes known).run left = some (members, left')) :
    (Json.object members).DistinctKeys := by
  induction nodes generalizing left known with
  | nil => cases h; exact hknown
  | cons entry rest ih =>
      obtain ⟨keyNode, valueNode⟩ := entry
      rw [entries] at h
      obtain ⟨key, next, -, h⟩ := bind_some h
      obtain ⟨value, last, hvalue, h⟩ := bind_some h
      exact ih (hknown.put (hread _ _ _ _ hvalue)) h

theorem valueWith_distinctKeys {d : YamlDocument} {read? : Option (YamlNode → Reader Json)}
    (hread : ∀ read, read? = some read → Yields read) : Yields (d.valueWith read?) := by
  intro node left result left' h
  rw [valueWith] at h
  obtain ⟨target, next, -, h⟩ := bind_some h
  split at h
  · obtain ⟨value, hvalue, h⟩ := Option.bind_eq_some_iff.mp h
    cases h
    exact YamlScalar.value?_distinctKeys hvalue
  · split at h
    · cases h
    · obtain ⟨values, last, hvalues, h⟩ := bind_some h
      cases h
      exact .array (items_distinctKeys (hread _ rfl) hvalues)
  · split at h
    · cases h
    · obtain ⟨members, last, hmembers, h⟩ := bind_some h
      cases h
      exact entries_distinctKeys (hread _ rfl) .emptyObject hmembers
  · cases h

theorem value_distinctKeys (d : YamlDocument) (depth : Nat) : Yields (d.value depth) := by
  induction depth with
  | zero => exact valueWith_distinctKeys fun _ h => nomatch h
  | succ depth ih =>
      refine valueWith_distinctKeys fun read hread => ?_
      cases hread
      exact ih

end YamlDocument

/-- No object of a document that is read from YAML text names a key twice. -/
theorem Json.ofYaml?_distinctKeys {text : String} {value : Json} (h : ofYaml? text = some value) :
    value.DistinctKeys := by
  obtain ⟨d, -, h⟩ := Option.bind_eq_some_iff.mp h
  unfold YamlDocument.toJson? at h
  split at h
  · cases h
    exact .null
  · obtain ⟨⟨result, left⟩, hvalue, rfl⟩ := Option.map_eq_some_iff.mp h
    exact d.value_distinctKeys _ _ _ _ _ hvalue

end SchemaBridge
