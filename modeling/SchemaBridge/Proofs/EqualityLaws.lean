import Mathlib.Data.List.Perm.Subperm
import SchemaBridge.Proofs.DistinctKeys
import SchemaBridge.Proofs.EqualValues

/-!
Equality as data as a relation. It is reflexive, and symmetric although members are looked up on one
side only, since as many distinct keys on the other side leave none over. It is not transitive: an
integer meets a floating-point number as the nearest one, and beyond `2 ^ 53` several integers have
the same nearest number. Main statement: two values that equal a third are equal exactly if they
hold the same integer wherever both hold one, and up to `2 ^ 53` they do.
-/

namespace SchemaBridge

namespace Binary64

variable {x y z : Binary64}

theorem sameValue_iff :
    x.sameValue y = true ↔ x.rank = y.rank ∧ (x.rank = 0 ∨ x.negative = y.negative) := by
  simp [sameValue]

theorem sameValue_trans (hxy : x.sameValue y = true) (hyz : y.sameValue z = true) :
    x.sameValue z = true := by
  rw [sameValue_iff] at hxy hyz ⊢
  obtain ⟨hrank, hsign⟩ := hxy
  obtain ⟨hrank', hsign'⟩ := hyz
  refine ⟨hrank.trans hrank', ?_⟩
  rcases hsign with hzero | hsign
  · exact .inl hzero
  · rcases hsign' with hzero' | hsign'
    · exact .inl (hrank.trans hzero')
    · exact .inr (hsign.trans hsign')

theorem units_eq_of_rank_eq (h : x.rank = y.rank) : x.units = y.units := by
  simp only [units, significand, shift, h]

/-! ### Integers that are met exactly -/

/-- What needs no rounding is the magnitude itself. -/
theorem units_eq_of_dvd {num : Nat} (hnum : 2 ^ 52 ≤ num) (hdvd : 2 ^ (num.log2 - 52) ∣ num)
    (hrank : x.rank = nearestRank num 1) : x.units = num := by
  obtain ⟨hlow, hhigh⟩ := quotient_bounds hnum
  simp only [nearestRank, Nat.div_one, Nat.one_mul] at hrank
  rw [roundHalfEven_of_dvd (Nat.two_pow_pos _) (Nat.mod_eq_zero_of_dvd hdvd)] at hrank
  rw [units_eq_of_rank hlow hhigh hrank, Nat.div_mul_cancel hdvd]

theorem two_pow_dvd_of_le {n e : Nat} (hpos : 0 < n) (hn : n ≤ 2 ^ 53) :
    2 ^ ((n * 2 ^ e).log2 - 52) ∣ n * 2 ^ e := by
  rcases Nat.lt_or_eq_of_le hn with hlt | heq
  · have hne : n * 2 ^ e ≠ 0 := (Nat.mul_pos hpos (Nat.two_pow_pos _)).ne'
    have hbound : n * 2 ^ e < 2 ^ (53 + e) := by
      rw [Nat.pow_add]
      exact Nat.mul_lt_mul_of_pos_right hlt (Nat.two_pow_pos _)
    have hlog := (Nat.log2_lt hne).mpr hbound
    exact Nat.dvd_mul_left_of_dvd (Nat.pow_dvd_pow 2 (by omega)) n
  · rw [heq, ← Nat.pow_add, Nat.log2_two_pow]
    exact Nat.pow_dvd_pow 2 (by omega)

/-- The magnitude nearest to a small multiple of a power of two is that multiple, if the power is
large enough. -/
theorem units_eq_of_le {n e : Nat} (he : 52 ≤ e) (hn : n ≤ 2 ^ 53)
    (hrank : x.rank = nearestRank (n * 2 ^ e) 1) : x.units = n * 2 ^ e := by
  rcases Nat.eq_zero_or_pos n with rfl | hpos
  · rw [Nat.zero_mul] at hrank ⊢
    have hzero : x.rank = 0 := hrank
    simp [units, significand, hzero]
  · refine units_eq_of_dvd ?_ (two_pow_dvd_of_le hpos hn) hrank
    calc 2 ^ 52 ≤ 2 ^ e := Nat.pow_le_pow_right (by decide) he
      _ ≤ n * 2 ^ e := Nat.le_mul_of_pos_left _ hpos

/-- Up to `2 ^ 53`, the number nearest to an integer is the integer. -/
theorem units_of_ofInt? {i : Int} (h : ofInt? i = some x) (hi : i.natAbs ≤ 2 ^ 53) :
    x.units = i.natAbs * 2 ^ 1074 := by
  have hrank := rank_of_nearest? h
  exact units_eq_of_le (n := i.natAbs) (e := 1074) (by decide) hi hrank

theorem negative_of_ofInt? {i : Int} (h : ofInt? i = some x) : x.negative = decide (i < 0) := by
  unfold ofInt? nearest? at h
  split at h
  · cases h
    rfl
  · cases h

/-- Up to `2 ^ 53`, distinct integers have distinct nearest numbers. -/
theorem eq_of_ofInt?_sameValue {i j : Int} (hi : i.natAbs ≤ 2 ^ 53) (hj : j.natAbs ≤ 2 ^ 53)
    (hx : ofInt? i = some x) (hy : ofInt? j = some y) (h : x.sameValue y = true) : i = j := by
  obtain ⟨hrank, hsign⟩ := sameValue_iff.mp h
  have hunits := units_eq_of_rank_eq hrank
  rw [units_of_ofInt? hx hi, units_of_ofInt? hy hj] at hunits
  have habs := Nat.eq_of_mul_eq_mul_right (Nat.two_pow_pos _) hunits
  rcases hsign with hzero | hsign
  · have hnone : x.units = 0 := by simp [units, significand, hzero]
    rw [units_of_ofInt? hx hi] at hnone
    have hpos := Nat.two_pow_pos 1074
    have hzero' : i.natAbs = 0 := (Nat.mul_eq_zero.mp hnone).resolve_right hpos.ne'
    omega
  · rw [negative_of_ofInt? hx, negative_of_ofInt? hy, decide_eq_decide] at hsign
    omega

end Binary64

namespace JsonNumber

theorem sameValue_refl (n : JsonNumber) : n.sameValue n = true := by
  cases n with
  | integer i => exact beq_self_eq_true i
  | real x => exact x.sameValue_refl

theorem sameValue_integer_iff {i j : Int} :
    (integer i).sameValue (integer j) = true ↔ i = j := by
  simp [sameValue]

theorem sameValue_real_iff {i : Int} {y : Binary64} :
    (integer i).sameValue (real y) = true ↔
      ∃ x, Binary64.ofInt? i = some x ∧ x.sameValue y = true := by
  rw [sameValue, Option.any_eq_true_iff_get]
  constructor
  · rintro ⟨hsome, h⟩
    exact ⟨_, Option.eq_some_of_isSome hsome, h⟩
  · rintro ⟨x, hx, h⟩
    exact ⟨by rw [hx]; rfl, by simpa [hx] using h⟩

/-- Two numbers with the value of a third have the same value, unless they are integers and
differ. -/
theorem sameValue_trans {l m n : JsonNumber} (hlm : l.sameValue m = true)
    (hmn : m.sameValue n = true) (hagree : ∀ i j, l = integer i → n = integer j → i = j) :
    l.sameValue n = true := by
  cases l with
  | integer i =>
      cases n with
      | integer j => exact sameValue_integer_iff.mpr (hagree i j rfl rfl)
      | real z =>
          cases m with
          | integer k =>
              obtain rfl := sameValue_integer_iff.mp hlm
              exact hmn
          | real y =>
              obtain ⟨x, hx, hxy⟩ := sameValue_real_iff.mp hlm
              exact sameValue_real_iff.mpr ⟨x, hx, Binary64.sameValue_trans hxy hmn⟩
  | real x =>
      cases m with
      | integer k =>
          rw [sameValue_comm] at hlm
          obtain ⟨y, hy, hyx⟩ := sameValue_real_iff.mp hlm
          cases n with
          | integer j =>
              obtain rfl := sameValue_integer_iff.mp hmn
              rw [sameValue_comm]
              exact hlm
          | real z =>
              obtain ⟨y', hy', hyz⟩ := sameValue_real_iff.mp hmn
              rw [hy] at hy'
              cases hy'
              rw [Binary64.sameValue_comm] at hyx
              exact Binary64.sameValue_trans hyx hyz
      | real y =>
          cases n with
          | integer j =>
              rw [sameValue_comm] at hlm hmn ⊢
              obtain ⟨z, hz, hzy⟩ := sameValue_real_iff.mp hmn
              exact sameValue_real_iff.mpr ⟨z, hz, Binary64.sameValue_trans hzy hlm⟩
          | real z => exact Binary64.sameValue_trans hlm hmn

/-- Distinct integers with the value of one number are not both met exactly. -/
theorem lt_natAbs_of_sameValue {i j : Int} {m : JsonNumber}
    (him : (integer i).sameValue m = true) (hmj : m.sameValue (integer j) = true) (hne : i ≠ j) :
    2 ^ 53 < i.natAbs ∨ 2 ^ 53 < j.natAbs := by
  by_contra hsmall
  obtain ⟨hi, hj⟩ := not_or.mp hsmall
  cases m with
  | integer k =>
      exact hne ((sameValue_integer_iff.mp him).trans (sameValue_integer_iff.mp hmj))
  | real y =>
      rw [sameValue_comm] at hmj
      obtain ⟨x, hx, hxy⟩ := sameValue_real_iff.mp him
      obtain ⟨z, hz, hzy⟩ := sameValue_real_iff.mp hmj
      rw [Binary64.sameValue_comm] at hzy
      exact hne (Binary64.eq_of_ofInt?_sameValue (Nat.le_of_not_lt hi) (Nat.le_of_not_lt hj) hx hz
        (Binary64.sameValue_trans hxy hzy))

end JsonNumber

namespace Json

/-! ### Parts of equal values -/

theorem sameElements_iff {xs ys : List Json} :
    sameElements xs ys = true ↔ List.Forall₂ (fun x y => x.same y = true) xs ys := by
  induction xs generalizing ys with
  | nil => cases ys <;> simp [sameElements]
  | cons x xs ih => cases ys <;> simp [sameElements, ih]

theorem sameMembers_iff {xs ys : Members} : sameMembers xs ys = true ↔
    ∀ m ∈ xs, ∃ y, ys.lookup m.1 = some y ∧ m.2.same y = true := by
  induction xs with
  | nil => simp [sameMembers]
  | cons m xs ih =>
      obtain ⟨key, x⟩ := m
      rw [sameMembers, Bool.and_eq_true, ih, List.forall_mem_cons]
      cases ys.lookup key <;> simp

theorem same_array_iff {xs ys : List Json} : (array xs).same (array ys) = true ↔
    List.Forall₂ (fun x y => x.same y = true) xs ys := by
  rw [same, sameElements_iff]

theorem same_object_iff {xs ys : Members} : (object xs).same (object ys) = true ↔
    xs.length = ys.length ∧ ∀ m ∈ xs, ∃ y, ys.lookup m.1 = some y ∧ m.2.same y = true := by
  rw [same, Bool.and_eq_true, beq_iff_eq, sameMembers_iff]

/-- What equals a value is of the same form. -/
theorem same_null_iff {v : Json} : null.same v = true ↔ v = null := by
  cases v <;> simp [same]

theorem same_bool_iff {b : Bool} {v : Json} : (bool b).same v = true ↔ v = bool b := by
  cases v with
  | bool c => rw [same, beq_iff_eq, bool.injEq, eq_comm]
  | _ => simp [same]

theorem same_string_iff {s : String} {v : Json} : (string s).same v = true ↔ v = string s := by
  cases v with
  | string t => rw [same, beq_iff_eq, string.injEq, eq_comm]
  | _ => simp [same]

theorem exists_number_of_same {m : JsonNumber} {v : Json} (h : (number m).same v = true) :
    ∃ n, v = number n ∧ m.sameValue n = true := by
  cases v with
  | number n => exact ⟨n, rfl, h⟩
  | _ => cases h

theorem exists_array_of_same {xs : List Json} {v : Json} (h : (array xs).same v = true) :
    ∃ ys, v = array ys := by
  cases v with
  | array ys => exact ⟨ys, rfl⟩
  | _ => cases h

theorem exists_object_of_same {xs : Members} {v : Json} (h : (object xs).same v = true) :
    ∃ ys, v = object ys := by
  cases v with
  | object ys => exact ⟨ys, rfl⟩
  | _ => cases h

/-- The part of a value at which a token leads to something has an equal one in an equal value. -/
theorem exists_step?_of_same {v w part : Json} {token : String} (h : v.same w = true)
    (hpart : v.step? token = some part) : ∃ part', w.step? token = some part' ∧
      part.same part' = true := by
  cases v with
  | array xs =>
      obtain ⟨ys, rfl⟩ := exists_array_of_same h
      have helements := same_array_iff.mp h
      obtain ⟨index, hindex, hget⟩ := Option.bind_eq_some_iff.mp hpart
      obtain ⟨hx, rfl⟩ := List.getElem?_eq_some_iff.mp hget
      have hy : index < ys.length := helements.length_eq ▸ hx
      refine ⟨ys[index], ?_, helements.get hx hy⟩
      simp only [step?, hindex]
      exact List.getElem?_eq_getElem hy
  | object xs =>
      obtain ⟨ys, rfl⟩ := exists_object_of_same h
      exact (same_object_iff.mp h).2 _ (mem_of_lookup hpart)
  | _ => cases hpart

theorem exists_follow?_of_same {v w part : Json} {tokens : List String} (h : v.same w = true)
    (hpart : v.follow? tokens = some part) : ∃ part', w.follow? tokens = some part' ∧
      part.same part' = true := by
  induction tokens generalizing v w with
  | nil =>
      cases hpart
      exact ⟨w, rfl, h⟩
  | cons token rest ih =>
      obtain ⟨next, hnext, hpart⟩ := Option.bind_eq_some_iff.mp hpart
      obtain ⟨next', hnext', hsame⟩ := exists_step?_of_same h hnext
      obtain ⟨part', hpart', hequal⟩ := ih hsame hpart
      exact ⟨part', Option.bind_eq_some_iff.mpr ⟨next', hnext', hpart'⟩, hequal⟩

/-! ### The laws -/

theorem same_self {v : Json} (h : v.DistinctKeys) : v.same v = true := by
  induction h with
  | null => rfl
  | bool b => exact beq_self_eq_true b
  | number n => exact n.sameValue_refl
  | string s => exact beq_self_eq_true s
  | array _ ih => exact same_array_iff.mpr (List.forall₂_same.mpr ih)
  | object hkeys _ ih =>
      refine same_object_iff.mpr ⟨rfl, fun m hm => ?_⟩
      exact ⟨m.2, lookup_of_mem hkeys hm, ih m hm⟩

/-- If each of one side's distinct keys is a key of the other side, and there are as many, then each
key of the other side is one of the first. -/
theorem keys_subset_of_subset {xs ys : Members} (hkeys : (xs.map Prod.fst).Nodup)
    (hlength : xs.length = ys.length) (hsubset : xs.map Prod.fst ⊆ ys.map Prod.fst) :
    ys.map Prod.fst ⊆ xs.map Prod.fst := by
  have hsubperm := List.subperm_of_subset hkeys hsubset
  exact (hsubperm.perm_of_length_le (by simp [hlength])).symm.subset

theorem same_symm {v : Json} (hv : v.DistinctKeys) :
    ∀ {w : Json}, w.DistinctKeys → v.same w = true → w.same v = true := by
  induction hv with
  | array _ ih =>
      intro w hw h
      obtain ⟨ys, rfl⟩ := exists_array_of_same h
      cases hw with
      | array hys =>
          have hequal := same_array_iff.mp h
          refine same_array_iff.mpr (List.forall₂_iff_get.mpr ⟨hequal.length_eq.symm, ?_⟩)
          intro index hy hx
          exact ih _ (List.get_mem _ _) (hys _ (List.get_mem _ _)) (hequal.get hx hy)
  | @object xs hkeys _ ih =>
      intro w hw h
      obtain ⟨ys, rfl⟩ := exists_object_of_same h
      obtain ⟨hlength, hequal⟩ := same_object_iff.mp h
      cases hw with
      | object hkeys' hys =>
          have hsubset : xs.map Prod.fst ⊆ ys.map Prod.fst := by
            intro key hkey
            obtain ⟨m, hm, rfl⟩ := List.mem_map.mp hkey
            obtain ⟨y, hy, -⟩ := hequal m hm
            exact List.mem_map.mpr ⟨_, mem_of_lookup hy, rfl⟩
          refine same_object_iff.mpr ⟨hlength.symm, fun m hm => ?_⟩
          have hkey := keys_subset_of_subset hkeys hlength hsubset (List.mem_map_of_mem hm)
          obtain ⟨n, hn, hname⟩ := List.mem_map.mp hkey
          obtain ⟨y, hy, hsame⟩ := hequal n hn
          rw [hname, lookup_of_mem hkeys' hm] at hy
          cases hy
          exact ⟨n.2, hname ▸ lookup_of_mem hkeys hn, ih n hn (hys m hm) hsame⟩
  | number m =>
      intro w _ h
      obtain ⟨n, rfl, hsame⟩ := exists_number_of_same h
      rw [same, JsonNumber.sameValue_comm]
      exact hsame
  | null =>
      intro w _ h
      rw [same_null_iff.mp h]
      rfl
  | bool b =>
      intro w _ h
      rw [same_bool_iff.mp h]
      exact same_bool_iff.mpr rfl
  | string s =>
      intro w _ h
      rw [same_string_iff.mp h]
      exact same_string_iff.mpr rfl

/-- Two values hold the same integer wherever both hold one. -/
def SameIntegers (v w : Json) : Prop :=
  ∀ tokens i j, v.follow? tokens = some (number (.integer i)) →
    w.follow? tokens = some (number (.integer j)) → i = j

theorem SameIntegers.step {v w part part' : Json} (h : v.SameIntegers w) {token : String}
    (hpart : v.step? token = some part) (hpart' : w.step? token = some part') :
    part.SameIntegers part' := by
  intro tokens i j hi hj
  exact h (token :: tokens) i j (Option.bind_eq_some_iff.mpr ⟨part, hpart, hi⟩)
    (Option.bind_eq_some_iff.mpr ⟨part', hpart', hj⟩)

theorem sameIntegers_of_same {v w : Json} (h : v.same w = true) : v.SameIntegers w := by
  intro tokens i j hi hj
  obtain ⟨part, hpart, hsame⟩ := exists_follow?_of_same h hi
  rw [hj] at hpart
  cases hpart
  exact JsonNumber.sameValue_integer_iff.mp hsame

theorem same_trans {u : Json} (hu : u.DistinctKeys) : ∀ {v w : Json}, u.same v = true →
    v.same w = true → u.SameIntegers w → u.same w = true := by
  induction hu with
  | @array xs _ ih =>
      intro v w huv hvw hagree
      obtain ⟨ys, rfl⟩ := exists_array_of_same huv
      obtain ⟨zs, rfl⟩ := exists_array_of_same hvw
      have hxy := same_array_iff.mp huv
      have hyz := same_array_iff.mp hvw
      refine same_array_iff.mpr (List.forall₂_iff_get.mpr
        ⟨hxy.length_eq.trans hyz.length_eq, fun index hx hz => ?_⟩)
      have hy : index < ys.length := hxy.length_eq ▸ hx
      refine ih _ (List.get_mem _ _) (hxy.get hx hy) (hyz.get hy hz) ?_
      exact hagree.step (step?_element (List.getElem?_eq_getElem hx))
        (step?_element (List.getElem?_eq_getElem hz))
  | @object xs hkeys _ ih =>
      intro v w huv hvw hagree
      obtain ⟨ys, rfl⟩ := exists_object_of_same huv
      obtain ⟨zs, rfl⟩ := exists_object_of_same hvw
      obtain ⟨hlength, hxy⟩ := same_object_iff.mp huv
      obtain ⟨hlength', hyz⟩ := same_object_iff.mp hvw
      refine same_object_iff.mpr ⟨hlength.trans hlength', fun m hm => ?_⟩
      obtain ⟨y, hy, hsame⟩ := hxy m hm
      obtain ⟨z, hz, hsame'⟩ := hyz _ (mem_of_lookup hy)
      have hstep : (object xs).step? m.1 = some m.2 := lookup_of_mem hkeys hm
      exact ⟨z, hz, ih m hm hsame hsame' (hagree.step hstep hz)⟩
  | number l =>
      intro v w huv hvw hagree
      obtain ⟨m, rfl, hlm⟩ := exists_number_of_same huv
      obtain ⟨n, rfl, hmn⟩ := exists_number_of_same hvw
      refine JsonNumber.sameValue_trans hlm hmn fun i j hi hj => ?_
      exact hagree [] i j (by rw [hi]; rfl) (by rw [hj]; rfl)
  | null =>
      intro v w huv hvw _
      rwa [same_null_iff.mp huv] at hvw
  | bool b =>
      intro v w huv hvw _
      rwa [same_bool_iff.mp huv] at hvw
  | string s =>
      intro v w huv hvw _
      rwa [same_string_iff.mp huv] at hvw

/-- Distinct integers at one place of two values that equal a third are not both met exactly. -/
theorem lt_natAbs_of_same {u v w : Json} (huv : u.same v = true) (hvw : v.same w = true)
    {tokens : List String} {i j : Int} (hi : u.follow? tokens = some (number (.integer i)))
    (hj : w.follow? tokens = some (number (.integer j))) (hne : i ≠ j) :
    2 ^ 53 < i.natAbs ∨ 2 ^ 53 < j.natAbs := by
  obtain ⟨part, hpart, hsame⟩ := exists_follow?_of_same huv hi
  obtain ⟨part', hpart', hsame'⟩ := exists_follow?_of_same hvw hpart
  rw [hj] at hpart'
  cases hpart'
  cases part with
  | number m => exact JsonNumber.lt_natAbs_of_sameValue hsame hsame' hne
  | _ => cases hsame

/-- Equality as data is reflexive and symmetric. Two values that equal a third equal each other
exactly if they hold the same integer wherever both hold one, and where they do not, one of the
integers is beyond `2 ^ 53`. -/
theorem same_laws {u v w : Json} (hu : u.DistinctKeys) (hv : v.DistinctKeys) :
    u.same u = true ∧ u.same v = v.same u ∧
    (u.same v = true → v.same w = true → (u.same w = true ↔ u.SameIntegers w) ∧
      ∀ tokens i j, u.follow? tokens = some (number (.integer i)) →
        w.follow? tokens = some (number (.integer j)) → i ≠ j →
        2 ^ 53 < i.natAbs ∨ 2 ^ 53 < j.natAbs) := by
  refine ⟨same_self hu, ?_, fun huv hvw => ⟨⟨sameIntegers_of_same, same_trans hu huv hvw⟩, ?_⟩⟩
  · exact Bool.eq_iff_iff.mpr ⟨same_symm hu hv, same_symm hv hu⟩
  · intro tokens i j hi hj hne
    exact lt_natAbs_of_same huv hvw hi hj hne

/-- A document that holds a count. -/
def countDocument (count : JsonNumber) : Json :=
  .object [("unit", .string "byte"), ("counts", .array [.number count])]

/-- The floating-point number `2 ^ 53`, which is nearest to `2 ^ 53` and to `2 ^ 53 + 1`. -/
def wholeCount : Binary64 :=
  ⟨false, 1076 * 2 ^ 52, by decide⟩

theorem same_wholeCount :
    (countDocument (.integer 9007199254740993)).same (countDocument (.real wholeCount)) = true ∧
      (countDocument (.real wholeCount)).same (countDocument (.integer 9007199254740992)) =
        true := by
  decide +kernel

theorem same_laws_count :
    (countDocument (.integer 9007199254740993)).DistinctKeys ∧
      (countDocument (.real wholeCount)).DistinctKeys ∧
      (countDocument (.integer 9007199254740993)).same (countDocument (.real wholeCount)) = true ∧
      (countDocument (.real wholeCount)).same (countDocument (.integer 9007199254740992)) = true ∧
      (countDocument (.integer 9007199254740993)).same (countDocument (.real wholeCount)) =
        (countDocument (.real wholeCount)).same (countDocument (.integer 9007199254740993)) ∧
      ((countDocument (.integer 9007199254740993)).same
          (countDocument (.integer 9007199254740992)) = true ↔
        (countDocument (.integer 9007199254740993)).SameIntegers
          (countDocument (.integer 9007199254740992))) ∧
      (2 ^ 53 < (9007199254740993 : Int).natAbs ∨ 2 ^ 53 < (9007199254740992 : Int).natAbs) := by
  have hcount : (countDocument (.integer 9007199254740993)).DistinctKeys := by decide
  have hwhole : (countDocument (.real wholeCount)).DistinctKeys := by decide
  obtain ⟨hleft, hright⟩ := same_wholeCount
  obtain ⟨-, hsymm, htrans⟩ := same_laws hcount hwhole
  obtain ⟨hiff, hbeyond⟩ := htrans hleft hright
  exact ⟨hcount, hwhole, hleft, hright, hsymm, hiff,
    hbeyond ["counts", "0"] _ _ rfl rfl (by decide)⟩

/-- Equality as data is not transitive: two distinct integers equal one floating-point number. -/
theorem same_not_transitive :
    ¬∀ u v w : Json, u.DistinctKeys → v.DistinctKeys → w.DistinctKeys → u.same v = true →
      v.same w = true → u.same w = true := by
  intro htrans
  obtain ⟨hleft, hright⟩ := same_wholeCount
  have hsame := htrans _ _ _ (by decide) (by decide) (by decide) hleft hright
  exact absurd hsame (by decide +kernel)

end Json

end SchemaBridge
