import Mathlib

/-!
# Bytes

Big-endian integers, the UTF-8 bytes of a string, and the order of byte strings that end with a
separator above all their bytes.
-/

namespace Bytes

open List

/-! ## Big-endian integers -/

/-- The `width` low bytes of `n`, the most significant first. -/
def toBe : ℕ → ℕ → List UInt8
  | 0, _ => []
  | width + 1, n => UInt8.ofNat (n / 256 ^ width) :: toBe width n

/-- The number that bytes write, the most significant first. -/
def fromBe : List UInt8 → ℕ
  | [] => 0
  | b :: bs => b.toNat * 256 ^ bs.length + fromBe bs

section BigEndian

variable (width n m : ℕ)

@[simp] lemma length_toBe : (toBe width n).length = width := by
  induction width with
  | zero => rfl
  | succ width ih => simp [toBe, ih]

lemma mod_succ : n % 256 ^ (width + 1) = n / 256 ^ width % 256 * 256 ^ width + n % 256 ^ width := by
  rw [pow_succ, Nat.mod_mul]
  ring

lemma fromBe_toBe : fromBe (toBe width n) = n % 256 ^ width := by
  induction width with
  | zero => simp [toBe, fromBe, Nat.mod_one]
  | succ width ih =>
    rw [mod_succ, toBe, fromBe, ih, length_toBe, UInt8.toNat_ofNat']

variable {width n m}

lemma toBe_add_mul (width n k : ℕ) : toBe width (n + k * 256 ^ width) = toBe width n := by
  induction width generalizing k with
  | zero => rfl
  | succ width ih =>
    have hsplit : n + k * 256 ^ (width + 1) = n + k * 256 * 256 ^ width := by ring
    have hdiv : (n + k * 256 * 256 ^ width) / 256 ^ width = n / 256 ^ width + k * 256 :=
      Nat.add_mul_div_right _ _ (by positivity)
    rw [toBe, toBe, hsplit, ih, hdiv]
    congr 1
    rw [← UInt8.toNat_inj, UInt8.toNat_ofNat', UInt8.toNat_ofNat']
    omega

lemma fromBe_lt (bs : List UInt8) : fromBe bs < 256 ^ bs.length := by
  induction bs with
  | nil => simp [fromBe]
  | cons b bs ih =>
    have hb : b.toNat < 256 := b.toNat_lt
    rw [fromBe, length_cons, pow_succ]
    nlinarith

/-- **Bytes are those of the number that they write.** -/
lemma toBe_fromBe (bs : List UInt8) : toBe bs.length (fromBe bs) = bs := by
  induction bs with
  | nil => rfl
  | cons b bs ih =>
    have hdiv : (b.toNat * 256 ^ bs.length + fromBe bs) / 256 ^ bs.length = b.toNat := by
      rw [Nat.mul_comm, Nat.mul_add_div (by positivity), Nat.div_eq_of_lt (fromBe_lt bs), Nat.add_zero]
    rw [length_cons, toBe, fromBe, hdiv, UInt8.ofNat_toNat, Nat.add_comm, toBe_add_mul, ih]

lemma toBe_inj (hn : n < 256 ^ width) (hm : m < 256 ^ width) (h : toBe width n = toBe width m) : n = m := by
  have := congrArg fromBe h
  rwa [fromBe_toBe, fromBe_toBe, Nat.mod_eq_of_lt hn, Nat.mod_eq_of_lt hm] at this

lemma compare_toNat (a b : UInt8) : compare a b = compare a.toNat b.toNat := by
  show compareOfLessAndEq a b = compareOfLessAndEq a.toNat b.toNat
  simp only [compareOfLessAndEq, UInt8.lt_iff_toNat_lt, UInt8.toNat_inj]

lemma compare_digit {K a b x y : ℕ} (hx : x < K) (hy : y < K) :
    compare (a * K + x) (b * K + y) = (compare a b).then (compare x y) := by
  have hdigit : ∀ {a b x y : ℕ}, x < K → a < b → a * K + x < b * K + y := fun {a b x y} hx hab => by
    have := Nat.mul_le_mul_right K hab
    rw [Nat.succ_mul] at this
    omega
  rcases lt_trichotomy a b with h | rfl | h
  · rw [compare_lt_iff_lt.2 (hdigit hx h), compare_lt_iff_lt.2 h]
    rfl
  · rw [compare_eq_iff_eq.2 (rfl : a = a), Ordering.eq_then]
    rcases lt_trichotomy x y with h | rfl | h
    · rw [compare_lt_iff_lt.2 h, compare_lt_iff_lt.2 (by omega)]
    · rw [compare_eq_iff_eq.2 rfl, compare_eq_iff_eq.2 rfl]
    · rw [compare_gt_iff_gt.2 h, compare_gt_iff_gt.2 (by omega)]
  · rw [compare_gt_iff_gt.2 (hdigit hy h), compare_gt_iff_gt.2 h]
    rfl

/-- **The byte order of big-endian numbers is their numeric order.** -/
theorem compare_toBe : compare (toBe width n) (toBe width m) =
    compare (n % 256 ^ width) (m % 256 ^ width) := by
  induction width with
  | zero => simp [toBe, Nat.mod_one]
  | succ width ih =>
    have hn := Nat.mod_lt n (pow_pos (by norm_num : 0 < 256) width)
    have hm := Nat.mod_lt m (pow_pos (by norm_num : 0 < 256) width)
    rw [toBe, toBe, List.compare_cons_cons, ih, compare_toNat, UInt8.toNat_ofNat', UInt8.toNat_ofNat',
      mod_succ, mod_succ, compare_digit hn hm]

end BigEndian

/-! ## UTF-8 -/

/-- The UTF-8 bytes of a string. -/
def utf8 (s : String) : List UInt8 :=
  s.toUTF8.data.toList

/-- The string that bytes encode, when they are valid UTF-8. -/
def fromUtf8 (bytes : List UInt8) : Option String :=
  String.fromUTF8? ⟨bytes.toArray⟩

section Utf8

lemma fromUtf8_utf8 (s : String) : fromUtf8 (utf8 s) = some s := by
  exact dif_pos s.isValidUTF8

lemma utf8_of_fromUtf8 {bytes : List UInt8} {s : String} (h : fromUtf8 bytes = some s) : utf8 s = bytes := by
  unfold fromUtf8 String.fromUTF8? at h
  split at h
  · cases h
    rfl
  · cases h

lemma utf8_inj {s t : String} (h : utf8 s = utf8 t) : s = t := by
  have := congrArg fromUtf8 h
  rw [fromUtf8_utf8, fromUtf8_utf8] at this
  exact Option.some.inj this

lemma utf8EncodeChar_lt (c : Char) : ∀ b ∈ String.utf8EncodeChar c, b.toNat < 0xFF := by
  intro b hb
  simp only [String.utf8EncodeChar] at hb
  split_ifs at hb <;> simp only [mem_cons, not_mem_nil, or_false] at hb
  · rw [hb, UInt8.toNat_ofNat']
    omega
  · rcases hb with rfl | rfl <;> rw [UInt8.toNat_ofNat'] <;> omega
  · rcases hb with rfl | rfl | rfl <;> rw [UInt8.toNat_ofNat'] <;> omega
  · rcases hb with rfl | rfl | rfl | rfl <;> rw [UInt8.toNat_ofNat'] <;> omega

theorem utf8_lt (s : String) : ∀ b ∈ utf8 s, b.toNat < 0xFF := by
  intro b hb
  rw [utf8, String.toUTF8_eq_toByteArray, ← String.utf8Encode_toList, List.utf8Encode,
    toList_data_toByteArray] at hb
  obtain ⟨c, -, hb⟩ := mem_flatMap.1 hb
  exact utf8EncodeChar_lt c b hb

end Utf8

/-! ## Terminated strings -/

section Terminated

variable {α : Type} {sep : α} {u v as bs : List α}

lemma terminated_prefix_iff (hu : sep ∉ u) (hv : sep ∉ v) :
    u ++ sep :: as <+: v ++ sep :: bs ↔ u = v ∧ as <+: bs := by
  induction u generalizing v with
  | nil =>
    cases v with
    | nil => simp
    | cons b v => simp [(not_or.1 (mem_cons.not.1 hv)).1]
  | cons a u ih =>
    rw [mem_cons, not_or] at hu
    cases v with
    | nil => simp [Ne.symm hu.1]
    | cons b v =>
      rw [mem_cons, not_or] at hv
      simp only [cons_append, cons_prefix_cons, ih hu.2 hv.2, List.cons.injEq, and_assoc]

variable [Ord α] [Std.LawfulEqOrd α]

lemma compare_append_left (u as bs : List α) : compare (u ++ as) (u ++ bs) = compare as bs := by
  induction u with
  | nil => rfl
  | cons a u ih =>
    rw [List.cons_append, List.cons_append, List.compare_cons_cons, Std.ReflOrd.compare_self,
      Ordering.eq_then, ih]

lemma compare_append (huv : ¬ u <+: v) (hvu : ¬ v <+: u) (as bs : List α) :
    compare (u ++ as) (v ++ bs) = compare u v := by
  induction u generalizing v with
  | nil => exact absurd nil_prefix huv
  | cons a u ih =>
    cases v with
    | nil => exact absurd nil_prefix hvu
    | cons b v =>
      rw [List.cons_append, List.cons_append, List.compare_cons_cons, List.compare_cons_cons]
      by_cases hab : a = b
      · subst hab
        rw [cons_prefix_cons] at huv hvu
        rw [ih (fun h => huv ⟨rfl, h⟩) (fun h => hvu ⟨rfl, h⟩)]
      · have hne : compare a b ≠ .eq := fun h => hab (Std.LawfulEqOrd.eq_of_compare h)
        cases hcmp : compare a b with
        | eq => exact absurd hcmp hne
        | lt | gt => rfl

lemma compare_terminated_start {b : α} (hb : compare b sep = .lt) (hsep : compare sep b = .gt) :
    compare u (u ++ b :: v) = .lt ∧ compare (u ++ sep :: as) (u ++ b :: v ++ bs) = .gt ∧
      compare (u ++ b :: v) u = .gt ∧ compare (u ++ b :: v ++ bs) (u ++ sep :: as) = .lt := by
  have hlt := compare_append_left u [] (b :: v)
  have hgt := compare_append_left u (b :: v) []
  rw [append_nil] at hlt hgt
  rw [append_assoc, cons_append, hlt, hgt, compare_append_left, compare_append_left,
    List.compare_cons_cons, List.compare_cons_cons, hb, hsep]
  exact ⟨rfl, rfl, rfl, rfl⟩

end Terminated

end Bytes
