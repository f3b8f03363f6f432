import HaranaMatrix.Lib.IndexMap

/-!
# Maps that forget

A map with the order in which its keys were inserted. When it is full, the oldest key makes room for
a new one. -/

namespace HaranaMatrix

open List

/-- The queue holds the keys of the map, each once. -/
structure Bounded (κ ν : Type) where
  entries : List (κ × ν)
  insertionOrder : List κ
  tracked : insertionOrder = entries.map Prod.fst
  nodup : insertionOrder.Nodup

namespace Bounded

variable {κ ν : Type} [DecidableEq κ] {m : Bounded κ ν} {k k' : κ} {v w : ν} {cap : ℕ}

def empty : Bounded κ ν := ⟨[], [], rfl, nodup_nil⟩

def get (m : Bounded κ ν) (k : κ) : Option ν := IndexMap.get m.entries k

lemma mem_insertionOrder : k ∈ m.insertionOrder ↔ (m.get k).isSome := by
  rw [m.tracked]
  exact IndexMap.mem_keys_iff

/-- The oldest key is removed if there are `cap` keys. -/
def makeRoom (cap : ℕ) (m : Bounded κ ν) : Bounded κ ν :=
  match h : m.insertionOrder with
  | [] => m
  | oldest :: order =>
    if cap ≤ m.insertionOrder.length then
      { entries := m.entries.filter (·.1 ≠ oldest)
        insertionOrder := order
        tracked := by
          have hn := m.nodup
          have hkeys : (m.entries.filter (·.1 ≠ oldest)).map Prod.fst =
            m.insertionOrder.filter (· ≠ oldest) := by
            rw [m.tracked, filter_map]
            rfl
          rw [h, nodup_cons] at hn
          rw [hkeys, h, filter_cons_of_neg (by simp), filter_eq_self.2]
          exact fun k hk => decide_eq_true (ne_of_mem_of_not_mem hk hn.1)
        nodup := (nodup_cons.1 (h ▸ m.nodup)).2 }
    else m

lemma makeRoom_of_lt (h : m.insertionOrder.length < cap) : m.makeRoom cap = m := by
  unfold makeRoom
  split
  · rfl
  · rw [if_neg h.not_ge]

lemma get_of_makeRoom (h : (m.makeRoom cap).get k = some v) : m.get k = some v := by
  unfold makeRoom at h
  split at h
  · exact h
  · split at h
    · rw [get, IndexMap.get_filter m.entries (· ≠ _)] at h
      split at h
      · exact h
      · cases h
    · exact h

/-- A new key is inserted, where there is room. -/
def add (cap : ℕ) (m : Bounded κ ν) (k : κ) (v : ν) : Bounded κ ν :=
  if h : m.get k = none then
    have hk : k ∉ (m.makeRoom cap).insertionOrder := by
      rw [mem_insertionOrder, Option.isSome_iff_exists]
      rintro ⟨w, hw⟩
      rw [get_of_makeRoom hw] at h
      cases h
    { entries := IndexMap.insert (m.makeRoom cap).entries k v
      insertionOrder := (m.makeRoom cap).insertionOrder ++ [k]
      tracked := by rw [IndexMap.map_fst_insert, ← tracked, if_neg hk]
      nodup := by simpa using (m.makeRoom cap).nodup.concat hk }
  else m

def modify (m : Bounded κ ν) (k : κ) (f : ν → ν) : Bounded κ ν where
  __ := m
  entries := m.entries.map fun entry => if entry.1 = k then (entry.1, f entry.2) else entry
  tracked := by
    rw [m.tracked, map_map]
    exact map_congr_left fun entry _ => by simp only [Function.comp_apply]; split <;> rfl

lemma get_modify (f : ν → ν) : (m.modify k f).get k' = if k' = k then (m.get k').map f else m.get k' := by
  unfold modify get
  simp only
  induction m.entries with
  | nil => simp [IndexMap.get]
  | cons entry entries ih =>
    by_cases hk : entry.1 = k' <;> by_cases hk' : entry.1 = k <;> simp_all [IndexMap.get]

lemma get_add_self : (m.add cap k v).get k = some ((m.get k).getD v) := by
  unfold add
  split
  · next h => rw [get, IndexMap.get_insert_self, h]; rfl
  · next h =>
    obtain ⟨w, hw⟩ := Option.ne_none_iff_exists'.1 h
    rw [hw]; rfl

lemma get_of_add (h : (m.add cap k v).get k' = some w) : m.get k' = some w ∨ k' = k ∧ w = v := by
  unfold add at h
  split at h
  · rw [get, IndexMap.get_insert] at h
    split at h
    · next hk => exact .inr ⟨hk, (Option.some.inj h).symm⟩
    · exact .inl (get_of_makeRoom h)
  · exact .inl h

lemma get_add (hroom : m.get k = none → m.insertionOrder.length < cap) :
    (m.add cap k v).get k' = if k' = k then some ((m.get k').getD v) else m.get k' := by
  split
  · next hk => rw [hk, get_add_self]
  · next hk =>
    unfold add
    split
    · next h => rw [get, IndexMap.get_insert_ne _ _ hk, makeRoom_of_lt (hroom h), get]
    · rfl

lemma mem_of_mem_add (h : k' ∈ (m.add cap k v).insertionOrder) : k' ∈ m.insertionOrder ∨ k' = k := by
  obtain ⟨w, hw⟩ := Option.isSome_iff_exists.1 (mem_insertionOrder.1 h)
  exact (get_of_add hw).imp (fun hw => mem_insertionOrder.2 (by simp [hw])) And.left

lemma card_le {ks ks' : List κ} (h : ks ⊆ ks') : ks.toFinset.card ≤ ks'.toFinset.card :=
  Finset.card_le_card fun _ hk => mem_toFinset.2 (h (mem_toFinset.1 hk))

lemma length_lt {ks : List κ} (hks : m.insertionOrder ⊆ ks) (hk : k ∈ ks) (hcard : ks.toFinset.card ≤ cap)
    (h : m.get k = none) : m.insertionOrder.length < cap := by
  have hnot : k ∉ m.insertionOrder := by rw [mem_insertionOrder, h]; simp
  have hlength := card_le (cons_subset.2 ⟨hk, hks⟩)
  rw [toFinset_card_of_nodup (nodup_cons.2 ⟨hnot, m.nodup⟩), length_cons] at hlength
  omega

end Bounded

end HaranaMatrix
