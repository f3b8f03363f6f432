import HaranaMatrix.Lib.Sim

/-!
# Tables of rows

A table is a list of rows in no particular order, where a row is found by a test. When the test is
that of a key, rewriting the first match rewrites the only one, and a table may be replaced by any
permutation of it.

* `modifyFirst p f rs` — the first row with `p` is rewritten by `f`;
* `removeIndices rs (indicesOf p rs)` — the rows with `p` are removed one by one, the last one first.
-/

namespace HaranaMatrix.Rows

open List

variable {α : Type}

/-- The first row with `p` is rewritten by `f`. -/
def modifyFirst (p : α → Bool) (f : α → α) : List α → List α
  | [] => []
  | r :: rs => if p r then f r :: rs else r :: modifyFirst p f rs

/-- The indices of the rows with `p`. -/
def indicesOf (p : α → Bool) (rs : List α) : List ℕ :=
  (rs.zipIdx.filter fun x => p x.1).map Prod.snd

/-- The rows at the given indices are removed, the last one first. -/
def removeIndices (rs : List α) (indices : List ℕ) : List α := indices.reverse.foldl List.eraseIdx rs

section Remove

variable (p : α → Bool)

lemma foldr_eraseIdx_indices (A rs : List α) :
    (((rs.zipIdx A.length).filter fun x => p x.1).map Prod.snd).foldr (fun i l => l.eraseIdx i) (A ++ rs) =
      A ++ rs.filter fun r => !p r := by
  induction rs generalizing A with
  | nil => simp
  | cons r rs ih =>
    have hrest := ih (A ++ [r])
    rw [length_append, length_singleton] at hrest
    rw [zipIdx_cons]
    cases hp : p r with
    | true =>
      rw [filter_cons_of_pos (by simpa using hp), filter_cons_of_neg (by simpa using hp), map_cons, foldr_cons]
      simp only [append_assoc, cons_append, nil_append] at hrest ⊢
      rw [hrest, eraseIdx_append_of_length_le le_rfl, Nat.sub_self, eraseIdx_cons_zero]
    | false =>
      rw [filter_cons_of_neg (by simpa using hp), filter_cons_of_pos (by simpa using hp)]
      simpa using hrest

/-- **Removing the matches one by one is a filter.** -/
theorem removeIndices_indicesOf (rs : List α) :
    removeIndices rs (indicesOf p rs) = rs.filter fun r => !p r := by
  rw [removeIndices, foldl_reverse]
  simpa [indicesOf] using foldr_eraseIdx_indices p [] rs

lemma length_indicesOf (rs : List α) : (indicesOf p rs).length = (rs.filter p).length := by
  have hfst : (rs.zipIdx.filter fun x => p x.1).map Prod.fst = rs.filter p := by
    conv_rhs => rw [← zipIdx_map_fst 0 rs, filter_map]
    rfl
  rw [indicesOf, length_map, ← hfst, length_map]

variable {p} {q : α → Bool} {rs : List α}

lemma filter_eraseP_of_not (hq : ∀ r, p r → q r = false) : (rs.eraseP p).filter q = rs.filter q := by
  induction rs with
  | nil => rfl
  | cons r rs ih =>
    cases hp : p r with
    | true => simp [hp, hq r hp]
    | false => simp [hp, filter_cons, ih]

lemma filter_eraseP (hpq : ∀ r, p r → q r) : (rs.eraseP p).filter q = (rs.filter q).eraseP p := by
  rw [eraseP_filter]
  congr 1
  refine congrArg (List.eraseP · rs) (funext fun r => ?_)
  cases hp : p r with
  | true => simp [hpq r hp]
  | false => rfl

/-- **With one match, removing the first is removing all.** -/
lemma eraseP_eq_filter {r : α} (h : rs.filter p = [r]) : rs.eraseP p = rs.filter fun x => !p x := by
  induction rs with
  | nil => rfl
  | cons x rs ih =>
    cases hp : p x with
    | true =>
      rw [filter_cons_of_pos hp] at h
      have hnone : ∀ y ∈ rs, p y = false := by simpa using filter_eq_nil_iff.1 (List.cons.inj h).2
      have hrest : rs.filter (fun y => !p y) = rs := filter_eq_self.2 (by simpa using hnone)
      simp [hp, hrest]
    | false =>
      rw [filter_cons_of_neg (by simp [hp])] at h
      simp [hp, ih h]

end Remove

section Modify

variable {p q : α → Bool} {f : α → α} {rs : List α}

lemma modifyFirst_of_find_none (h : rs.find? p = none) : modifyFirst p f rs = rs := by
  induction rs with
  | nil => rfl
  | cons r rs ih =>
    cases hp : p r with
    | true => simp [hp] at h
    | false =>
      rw [List.find?_cons_of_neg (by simp [hp])] at h
      simp [modifyFirst, hp, ih h]

/-- **What a test sees of a rewrite**: nothing exactly when the rewritten row fails it, or does not
change. -/
lemma filter_modifyFirst_eq_iff {r : α} (h : rs.find? p = some r) (hf : q (f r) = q r) :
    (modifyFirst p f rs).filter q = rs.filter q ↔ (q r → f r = r) := by
  induction rs with
  | nil => cases h
  | cons x rs ih =>
    cases hp : p x with
    | true =>
      obtain rfl : x = r := by simpa [hp] using h
      cases hq : q x <;> simp [modifyFirst, hp, hq, hf]
    | false =>
      rw [List.find?_cons_of_neg (by simp [hp])] at h
      rw [← ih h]
      cases hq : q x <;> simp [modifyFirst, hp, hq]

lemma filter_modifyFirst_of_not (hq : ∀ r, p r → q r = false ∧ q (f r) = false) :
    (modifyFirst p f rs).filter q = rs.filter q := by
  cases h : rs.find? p with
  | none => rw [modifyFirst_of_find_none h]
  | some r =>
    obtain ⟨hr, hfr⟩ := hq r (List.find?_some h)
    exact (filter_modifyFirst_eq_iff h (hfr.trans hr.symm)).2 (by simp [hr])

lemma filter_modifyFirst {r : α} (h : rs.find? p = some r) (hr : q r) (hf : q (f r)) :
    (modifyFirst p f rs).filter q = modifyFirst p f (rs.filter q) := by
  induction rs with
  | nil => rfl
  | cons x rs ih =>
    cases hp : p x with
    | true =>
      obtain rfl : x = r := by simpa [hp] using h
      simp [modifyFirst, hp, hr, hf]
    | false =>
      rw [List.find?_cons_of_neg (by simp [hp])] at h
      cases hq : q x <;> simp [modifyFirst, hp, hq, ih h]

lemma modifyFirst_eq_self_iff {r : α} (h : rs.find? p = some r) : modifyFirst p f rs = rs ↔ f r = r := by
  have hall := @filter_modifyFirst_eq_iff α p (fun _ => true) f rs r h rfl
  simpa using hall

lemma modifyFirst_of_find {r : α} (h : rs.find? p = some r) (hf : f r = r) : modifyFirst p f rs = rs :=
  (modifyFirst_eq_self_iff h).2 hf

lemma any_modifyFirst (hf : ∀ r, q (f r) = q r) : (modifyFirst p f rs).any q = rs.any q := by
  induction rs with
  | nil => rfl
  | cons x rs ih => cases hp : p x <;> simp [modifyFirst, hp, hf, ih]

/-- **With one match, a rewrite is a map.** -/
lemma modifyFirst_eq_map {r : α} (h : rs.filter p = [r]) :
    modifyFirst p f rs = rs.map fun x => if p x then f x else x := by
  induction rs with
  | nil => rfl
  | cons x rs ih =>
    cases hp : p x with
    | true =>
      rw [filter_cons_of_pos hp] at h
      have hnone : ∀ y ∈ rs, p y = false := by simpa using filter_eq_nil_iff.1 (List.cons.inj h).2
      have hmap : (rs.map fun y => if p y then f y else y) = rs := by
        conv_rhs => rw [← map_id rs]
        exact map_congr_left fun y hy => by simp [hnone y hy]
      simp [modifyFirst, hp, hmap]
    | false =>
      rw [filter_cons_of_neg (by simp [hp])] at h
      simp [modifyFirst, hp, ih h]

end Modify

/-! ## Keys and permutations -/

section Keys

variable {κ β ε : Type} {key : α → κ} {rs rs' : List α}

lemma exists_filter_eq_singleton [BEq κ] [LawfulBEq κ] {k : κ} (hn : (rs.map key).Nodup)
    (hk : k ∈ rs.map key) :
    ∃ r, key r = k ∧ (rs.filter fun r => key r == k) = [r] := by
  obtain ⟨r, hr, rfl⟩ := mem_map.1 hk
  refine ⟨r, rfl, ?_⟩
  induction rs with
  | nil => cases hr
  | cons x rs ih =>
    rw [map_cons, nodup_cons] at hn
    rcases mem_cons.1 hr with rfl | hr
    · have hnone : (rs.filter fun y => key y == key r) = [] := by
        refine filter_eq_nil_iff.2 fun y hy hkey => hn.1 ?_
        rw [← beq_iff_eq.1 hkey]
        exact mem_map_of_mem hy
      simp [hnone]
    · have hne : (key x == key r) = false := by
        refine beq_false_of_ne fun heq => hn.1 ?_
        rw [heq]
        exact mem_map_of_mem hr
      rw [filter_cons_of_neg (by simp [hne])]
      exact ih hn.2 hr (mem_map_of_mem hr)

lemma find?_of_filter {p : α → Bool} {r : α} (h : rs.filter p = [r]) : rs.find? p = some r := by
  rw [← List.head?_filter, h]
  rfl

lemma find?_filter_of_imp {p q : α → Bool} (hpq : ∀ r, p r → q r) : (rs.filter q).find? p = rs.find? p := by
  rw [List.find?_filter]
  congr 1
  funext r
  cases hp : p r with
  | true => simp [hpq r hp]
  | false => simp

lemma mapM_cons_eq_ok {f : α → Except ε β} {r : α} {ys : List β} :
    (r :: rs).mapM f = .ok ys ↔ ∃ y zs, f r = .ok y ∧ rs.mapM f = .ok zs ∧ ys = y :: zs := by
  rw [mapM_cons]
  constructor
  · intro h
    obtain ⟨y, hy, h⟩ := bind_eq_ok h
    obtain ⟨zs, hzs, h⟩ := bind_eq_ok h
    cases h
    exact ⟨y, zs, hy, hzs, rfl⟩
  · rintro ⟨y, zs, hy, hzs, rfl⟩
    rw [hy, hzs]
    rfl

lemma mapM_map_eq_ok {γ : Type} {g : γ → α} {f : α → Except ε β} {k : γ → β} {xs : List γ}
    (h : ∀ x ∈ xs, f (g x) = .ok (k x)) : (xs.map g).mapM f = .ok (xs.map k) := by
  induction xs with
  | nil => rfl
  | cons x xs ih =>
    obtain ⟨hx, hxs⟩ := forall_mem_cons.1 h
    exact mapM_cons_eq_ok.2 ⟨_, _, hx, ih hxs, rfl⟩

lemma exists_mapM {γ : Type} {f : α → Except ε β} {g : β → γ} {k : α → γ}
    (h : ∀ r ∈ rs, ∃ y, f r = .ok y ∧ g y = k r) :
    ∃ ys, rs.mapM f = .ok ys ∧ ys.map g = rs.map k := by
  induction rs with
  | nil => exact ⟨[], rfl, rfl⟩
  | cons r rs ih =>
    obtain ⟨⟨y, hy, hk⟩, hrs⟩ := forall_mem_cons.1 h
    obtain ⟨ys, hys, hmap⟩ := ih hrs
    exact ⟨y :: ys, mapM_cons_eq_ok.2 ⟨y, ys, hy, hys, rfl⟩, by rw [map_cons, map_cons, hk, hmap]⟩

/-- **A pass over a table, in another order.** -/
lemma mapM_perm {f : α → Except ε β} (hp : rs.Perm rs') {ys : List β} (h : rs'.mapM f = .ok ys) :
    ∃ zs, rs.mapM f = .ok zs ∧ zs.Perm ys := by
  induction hp generalizing ys with
  | nil => exact ⟨ys, h, .rfl⟩
  | cons r _ ih =>
    obtain ⟨y, ys, hr, hys, rfl⟩ := mapM_cons_eq_ok.1 h
    obtain ⟨zs, hzs, hperm⟩ := ih hys
    exact ⟨y :: zs, mapM_cons_eq_ok.2 ⟨y, zs, hr, hzs, rfl⟩, hperm.cons y⟩
  | swap r r' rs =>
    obtain ⟨y, ys, hr, hrest, rfl⟩ := mapM_cons_eq_ok.1 h
    obtain ⟨y', ys, hr', hys, rfl⟩ := mapM_cons_eq_ok.1 hrest
    exact ⟨y' :: y :: ys, mapM_cons_eq_ok.2 ⟨y', _, hr', mapM_cons_eq_ok.2 ⟨y, ys, hr, hys, rfl⟩,
      rfl⟩, .swap _ _ _⟩
  | trans _ _ ih₁ ih₂ =>
    obtain ⟨zs, hzs, hperm⟩ := ih₂ h
    obtain ⟨ws, hws, hperm'⟩ := ih₁ hzs
    exact ⟨ws, hws, hperm'.trans hperm⟩

end Keys

end HaranaMatrix.Rows
