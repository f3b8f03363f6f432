import Mathlib

/-!
# Maps that keep the order of insertion

An `IndexMap` as a list of entries: a key that is present keeps its place, a new one goes to the
end. -/

namespace HaranaMatrix.IndexMap

open List

variable {κ ν : Type} [DecidableEq κ]

def get : List (κ × ν) → κ → Option ν
  | [], _ => none
  | entry :: m, k => if entry.1 = k then some entry.2 else get m k

def insert : List (κ × ν) → κ → ν → List (κ × ν)
  | [], k, v => [(k, v)]
  | entry :: m, k, v => if entry.1 = k then (k, v) :: m else entry :: insert m k v

variable {m : List (κ × ν)} {k k' : κ} {v : ν}

variable (m)

@[simp] lemma get_insert_self (k : κ) (v : ν) : get (insert m k v) k = some v := by
  induction m with
  | nil => simp [insert, get]
  | cons entry m ih => by_cases h : entry.1 = k <;> simp [insert, get, h, ih]

lemma get_insert_ne (v : ν) (h : k' ≠ k) : get (insert m k v) k' = get m k' := by
  induction m with
  | nil => simp [insert, get, h.symm]
  | cons entry m ih =>
    by_cases hk : entry.1 = k
    · simp [insert, get, hk, h.symm]
    · simp [insert, get, hk, ih]

lemma get_insert (k k' : κ) (v : ν) : get (insert m k v) k' = if k' = k then some v else get m k' := by
  by_cases h : k' = k
  · rw [h, get_insert_self, if_pos rfl]
  · rw [get_insert_ne m v h, if_neg h]

lemma map_fst_insert (k : κ) (v : ν) :
    (insert m k v).map Prod.fst = if k ∈ m.map Prod.fst then m.map Prod.fst else m.map Prod.fst ++ [k] := by
  induction m with
  | nil => simp [insert]
  | cons entry m ih =>
    by_cases h : entry.1 = k
    · simp [insert, h]
    · have h' : k ≠ entry.1 := fun heq => h heq.symm
      by_cases hk : k ∈ m.map Prod.fst
      · simp [insert, h, ih, hk]
      · simp [insert, h, h', ih, hk]

variable {m}

lemma nodup_insert (h : (m.map Prod.fst).Nodup) (k : κ) (v : ν) : ((insert m k v).map Prod.fst).Nodup := by
  rw [map_fst_insert]
  split
  · exact h
  · next hk =>
    refine nodup_append.2 ⟨h, by simp, fun a ha b hb heq => hk ?_⟩
    rwa [← mem_singleton.1 hb, ← heq]

lemma get_of_mem (h : (m.map Prod.fst).Nodup) (hm : (k, v) ∈ m) : get m k = some v := by
  induction m with
  | nil => cases hm
  | cons entry m ih =>
    rw [map_cons, nodup_cons] at h
    rcases mem_cons.1 hm with rfl | hm
    · simp [get]
    · have hne : entry.1 ≠ k := by
        rintro rfl
        exact h.1 (mem_map.2 ⟨_, hm, rfl⟩)
      rw [get, if_neg hne, ih h.2 hm]

lemma insert_eq_append (v : ν) (h : ∀ entry ∈ m, entry.1 ≠ k) : insert m k v = m ++ [(k, v)] := by
  induction m with
  | nil => rfl
  | cons entry m ih =>
    rw [insert, if_neg (h entry mem_cons_self), ih fun e he => h e (mem_cons_of_mem _ he), cons_append]

lemma mem_of_get (h : get m k = some v) : (k, v) ∈ m := by
  induction m with
  | nil => cases h
  | cons entry m ih =>
    unfold get at h
    split at h
    · next hk =>
      obtain rfl := Option.some.inj h
      simp [← hk]
    · exact mem_cons_of_mem _ (ih h)

lemma mem_insert {entry : κ × ν} (h : entry ∈ insert m k v) : entry = (k, v) ∨ entry ∈ m := by
  induction m with
  | nil => exact .inl (mem_singleton.1 h)
  | cons first m ih =>
    unfold insert at h
    split at h
    · rcases mem_cons.1 h with rfl | h
      · exact .inl rfl
      · exact .inr (mem_cons_of_mem _ h)
    · rcases mem_cons.1 h with rfl | h
      · exact .inr mem_cons_self
      · exact (ih h).imp_right (mem_cons_of_mem _)

lemma get_filter (m : List (κ × ν)) (p : κ → Prop) [DecidablePred p] (k : κ) :
    get (m.filter (p ·.1)) k = if p k then get m k else none := by
  induction m with
  | nil => simp [get]
  | cons entry m ih =>
    by_cases hp : p entry.1
    · rw [filter_cons_of_pos (by simpa using hp), get, get, ih]
      by_cases hk : entry.1 = k
      · rw [if_pos hk, if_pos hk, if_pos (hk ▸ hp)]
      · rw [if_neg hk, if_neg hk]
    · rw [filter_cons_of_neg (by simpa using hp), ih, get]
      by_cases hk : entry.1 = k
      · rw [if_neg (hk ▸ hp), if_neg (hk ▸ hp)]
      · rw [if_neg hk]

lemma get_filter_self (m : List (κ × ν)) (k : κ) : get (m.filter (·.1 ≠ k)) k = none :=
  (get_filter m (· ≠ k) k).trans (if_neg fun h => h rfl)

lemma get_filter_ne (m : List (κ × ν)) (h : k' ≠ k) : get (m.filter (·.1 ≠ k)) k' = get m k' :=
  (get_filter m (· ≠ k) k').trans (if_pos h)

omit [DecidableEq κ] in
lemma nodup_filter (h : (m.map Prod.fst).Nodup) (p : κ × ν → Bool) : ((m.filter p).map Prod.fst).Nodup :=
  h.sublist (filter_sublist.map Prod.fst)

/-! ## Inserting entries one by one -/

def insertAll (m entries : List (κ × ν)) : List (κ × ν) :=
    entries.foldl (fun m entry => insert m entry.1 entry.2) m

lemma get_eq_none_of_notMem (h : k ∉ m.map Prod.fst) : get m k = none := by
  induction m with
  | nil => rfl
  | cons entry m ih =>
    rw [map_cons, mem_cons, not_or] at h
    rw [get, if_neg fun heq => h.1 heq.symm, ih h.2]

/-- **The entries take precedence** over what was there. -/
lemma get_insertAll (m : List (κ × ν)) {entries : List (κ × ν)} (h : (entries.map Prod.fst).Nodup) (k : κ) :
    get (insertAll m entries) k = (get entries k).or (get m k) := by
  induction entries generalizing m with
  | nil => rfl
  | cons entry entries ih =>
    rw [map_cons, nodup_cons] at h
    have hrest := ih (insert m entry.1 entry.2) h.2
    refine hrest.trans ?_
    rw [get_insert, get]
    by_cases hk : entry.1 = k
    · subst hk
      rw [if_pos rfl, if_pos rfl, get_eq_none_of_notMem h.1]
      rfl
    · rw [if_neg fun heq => hk heq.symm, if_neg hk]

lemma mem_keys_iff : k ∈ m.map Prod.fst ↔ (get m k).isSome := by
  induction m with
  | nil => simp [get]
  | cons entry m ih =>
    by_cases h : entry.1 = k
    · simp [get, h]
    · have h' : k ≠ entry.1 := fun heq => h heq.symm
      simp only [map_cons, mem_cons, h', false_or, get, if_neg h, ih]

end HaranaMatrix.IndexMap
