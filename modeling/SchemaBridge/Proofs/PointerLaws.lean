import SchemaBridge.Pointer

/-!
Pointers as lists of tokens. Appending a token to a pointer appends it to the list of its tokens,
and the pointer then leads one step further. An index is read back from its decimal digits.
-/

namespace SchemaBridge

namespace Pointer

/-! ### Array indexes -/

theorem toDigits_head_ne_zero {n : Nat} (hn : 0 < n) (rest : List Char) :
    Nat.toDigits 10 n ≠ '0' :: rest := by
  induction n using Nat.strongRecOn generalizing rest with
  | ind n ih =>
      by_cases hlt : n < 10
      · rw [Nat.toDigits_of_lt_base hlt]
        intro h
        have hdigit := Nat.toNat_digitChar_sub_48_of_lt_ten hlt
        rw [(List.cons.inj h).1, show '0'.toNat - 48 = 0 from rfl] at hdigit
        omega
      · rw [Nat.toDigits_of_base_le (by decide) (by omega)]
        intro h
        cases hd : Nat.toDigits 10 (n / 10) with
        | nil => exact Nat.toDigits_ne_nil hd
        | cons c cs =>
            rw [hd, List.cons_append] at h
            exact ih (n / 10) (by omega) (by omega) cs (by rw [hd, (List.cons.inj h).1])

theorem index?_toString (n : Nat) : index? (toString n) = some n := by
  have hlist : (toString n).toList = Nat.toDigits 10 n := Nat.toList_repr
  rw [index?, hlist]
  split
  · exact absurd ‹_› Nat.toDigits_ne_nil
  · rename_i hzero
    have hvalue := Nat.ofDigitChars_ten_toDigits (n := n)
    rw [hzero] at hvalue
    exact congrArg some hvalue
  · rename_i rest hrest hzero
    rcases Nat.eq_zero_or_pos n with rfl | hn
    · exact (hrest (List.cons.inj hzero).2.symm).elim
    · exact absurd hzero (toDigits_head_ne_zero hn rest)
  · rw [if_pos (List.all_eq_true.mpr fun c hc =>
      Nat.isDigit_of_mem_toDigits (by decide) (by decide) hc), Nat.ofDigitChars_ten_toDigits]

theorem toString_injective {m n : Nat} (h : toString m = toString n) : m = n := by
  have hindex := index?_toString m
  rw [h, index?_toString] at hindex
  exact (Option.some.inj hindex).symm

theorem isDigit_of_mem_toString {n : Nat} {c : Char} (h : c ∈ (toString n).toList) :
    c.isDigit = true :=
  Nat.isDigit_of_mem_toDigits (b := 10) (by decide) (by decide) (by rwa [← Nat.toList_repr])

/-! ### Tokens -/

theorem splitSlashes_ne_nil (cs : List Char) : splitSlashes cs ≠ [] := by
  induction cs with
  | nil => simp [splitSlashes]
  | cons c rest ih =>
      rw [splitSlashes]
      split
      · simp
      · split <;> simp

theorem splitSlashes_append (xs ys : List Char) :
    splitSlashes (xs ++ '/' :: ys) = splitSlashes xs ++ splitSlashes ys := by
  induction xs with
  | nil => simp [splitSlashes]
  | cons c rest ih =>
      rw [List.cons_append, splitSlashes, splitSlashes, ih]
      split
      · rfl
      · cases h : splitSlashes rest with
        | nil => exact absurd h (splitSlashes_ne_nil rest)
        | cons part parts => rfl

theorem splitSlashes_of_not_mem {cs : List Char} (h : '/' ∉ cs) : splitSlashes cs = [cs] := by
  induction cs with
  | nil => rfl
  | cons c rest ih =>
      simp only [List.mem_cons, not_or] at h
      rw [splitSlashes, if_neg (Ne.symm h.1), ih h.2]

theorem tokens?_child {pointer token : String} {tokens : List String}
    (h : tokens? pointer = some tokens) : tokens? (child pointer token) = some (tokens ++ [token]) := by
  have hlist : (child pointer token).toList =
      pointer.toList ++ '/' :: encode token.toList := by
    simp [child]
  have hlast : (splitSlashes (encode token.toList)).map (fun part => String.ofList (decode part)) =
      [token] := by
    rw [splitSlashes_of_not_mem (slash_not_mem_encode _)]
    simp [decode_encode]
  unfold tokens? at h ⊢
  rw [hlist]
  split at h
  · rename_i hp
    cases h
    rw [hp, List.nil_append]
    simp only [hlast, List.nil_append]
  · rename_i rest hp
    cases h
    rw [hp]
    simp only [List.cons_append, splitSlashes_append, List.map_append, hlast]
  · cases h

/-- The reference to a pointer that has tokens leads to the pointer. -/
theorem ofReference?_of_tokens? {pointer : String} {tokens : List String}
    (h : tokens? pointer = some tokens) : ofReference? ("#" ++ pointer) = some pointer := by
  have hlist : ("#" ++ pointer).toList = '#' :: pointer.toList := by
    rw [String.toList_append]
    rfl
  unfold tokens? at h
  rw [ofReference?, hlist]
  split at h
  · rename_i hempty
    rw [hempty, ← String.ofList_toList (s := pointer), hempty]
    rfl
  · rename_i rest hslash
    rw [hslash, ← String.ofList_toList (s := pointer), hslash]
    rfl
  · cases h

/-- The pointer to a part of a document is read back from the reference that it is written as. -/
theorem ofReference?_of_at? {document value : Json} {pointer : String}
    (h : document.at? pointer = some value) : ofReference? ("#" ++ pointer) = some pointer := by
  obtain ⟨tokens, htokens, -⟩ := Option.bind_eq_some_iff.mp h
  exact ofReference?_of_tokens? htokens

end Pointer

namespace Json

theorem at?_child {document value : Json} {pointer token : String}
    (h : document.at? pointer = some value) :
    document.at? (Pointer.child pointer token) = value.step? token := by
  unfold at? at h ⊢
  obtain ⟨tokens, htokens, hvalue⟩ := Option.bind_eq_some_iff.mp h
  rw [Pointer.tokens?_child htokens]
  show (tokens ++ [token]).foldlM step? document = _
  rw [List.foldlM_append]
  have hfold : tokens.foldlM step? document = some value := hvalue
  rw [hfold]
  simp

theorem step?_element {elements : List Json} {index : Nat} {value : Json}
    (h : elements[index]? = some value) :
    (Json.array elements).step? (toString index) = some value := by
  simp only [step?, Pointer.index?_toString]
  exact h

end Json

end SchemaBridge
