import HaranaMatrix.Lib.IndexMap

/-!
# Grouping by a key

The values of a list are gathered by their key, in one pass that takes each value into the group of
its key with `add`. A hash map gives its groups in any order. -/

namespace HaranaMatrix

open List IndexMap

variable {κ δ : Type}

/-- The order in which a hash map is walked. -/
structure HashOrder (κ ν : Type) where
  order : List (κ × ν) → List (κ × ν)
  perm : ∀ m, (order m).Perm m

namespace Grouped

variable [DecidableEq κ] (key : δ → κ) (add : List δ → δ → List δ)

/-- The groups, in the order of the first value of each. -/
def groups (ds : List δ) : List (κ × List δ) :=
  ds.foldl (fun m d => insert m (key d) (add ((get m (key d)).getD []) d)) []

/-- The values with a key. -/
def withKey (k : κ) (ds : List δ) : List δ := ds.filter (key · = k)

variable {key add}

lemma groups_concat (ds : List δ) (d : δ) :
    groups key add (ds ++ [d]) = insert (groups key add ds) (key d)
      (add ((get (groups key add ds) (key d)).getD []) d) := by
  rw [groups, foldl_append]
  rfl

lemma nodup_groups (ds : List δ) : ((groups key add ds).map Prod.fst).Nodup := by
  induction ds using List.reverseRecOn with
  | nil => exact nodup_nil
  | append_singleton ds d ih =>
    rw [groups_concat]
    exact nodup_insert ih _ _

/-- **A group is made of the values of its key**, whatever stands between them. -/
lemma get_groups (ds : List δ) (k : κ) :
    get (groups key add ds) k =
      if withKey key k ds = [] then none else some ((withKey key k ds).foldl add []) := by
  induction ds using List.reverseRecOn with
  | nil => rfl
  | append_singleton ds d ih =>
    rw [groups_concat, get_insert]
    by_cases h : k = key d
    · subst h
      have hgroup : (get (groups key add ds) (key d)).getD [] = (withKey key (key d) ds).foldl add [] := by
        rw [ih]
        split
        · next hnil => rw [hnil]; rfl
        · rfl
      simp [withKey, filter_append, hgroup]
    · have h' : ¬ key d = k := fun heq => h heq.symm
      simp [withKey, filter_append, h, h', ih]

section Walk

variable (walk : HashOrder κ (List δ))

/-- The groups one after the other. -/
def walked (key : δ → κ) (add : List δ → δ → List δ) (ds : List δ) : List δ :=
  (walk.order (groups key add ds)).flatMap Prod.snd

variable {walk}

lemma group_of_mem {ds : List δ} {group : κ × List δ} (h : group ∈ walk.order (groups key add ds)) :
    withKey key group.1 ds ≠ [] ∧ group.2 = (withKey key group.1 ds).foldl add [] := by
  have hget := get_of_mem (nodup_groups ds) ((walk.perm _).mem_iff.1 h)
  rw [get_groups] at hget
  split at hget
  · cases hget
  · next hne => exact ⟨hne, (Option.some.inj hget).symm⟩

lemma walked_eq (ds : List δ) :
    walked walk key add ds =
      ((walk.order (groups key add ds)).map Prod.fst).flatMap fun k => (withKey key k ds).foldl add [] := by
  rw [walked, flatMap_map]
  exact flatMap_congr fun group hgroup => (group_of_mem hgroup).2

lemma mem_walk_iff (ds : List δ) (k : κ) :
    k ∈ (walk.order (groups key add ds)).map Prod.fst ↔ withKey key k ds ≠ [] := by
  rw [((walk.perm _).map Prod.fst).mem_iff, mem_keys_iff, get_groups]
  split <;> next h => simp [h]

section

variable (hadd : ∀ prevs d, ∀ e ∈ add prevs d, e ∈ prevs ∨ e = d)
include hadd

lemma mem_foldl_add (ds : List δ) : ∀ e ∈ ds.foldl add [], e ∈ ds := by
  induction ds using List.reverseRecOn with
  | nil => simp
  | append_singleton ds d ih =>
    intro e he
    rw [foldl_append] at he
    rcases hadd _ _ e he with he | rfl
    · exact mem_append_left _ (ih e he)
    · simp

/-- **What is kept of a key** is what `add` makes of the values with it. -/
lemma withKey_walked (ds : List δ) (k : κ) :
    withKey key k (walked walk key add ds) = (withKey key k ds).foldl add [] := by
  have hkey (k' : κ) : ∀ e ∈ (withKey key k' ds).foldl add [], key e = k' := fun e he => by
    simpa using (mem_filter.1 (mem_foldl_add hadd _ e he)).2
  have hself : withKey key k ((withKey key k ds).foldl add []) = (withKey key k ds).foldl add [] :=
    filter_eq_self.2 fun e he => by simpa using hkey k e he
  have hother (ks : List κ) (hks : k ∉ ks) :
      withKey key k (ks.flatMap fun k' => (withKey key k' ds).foldl add []) = [] := by
    refine filter_eq_nil_iff.2 fun e he heq => hks ?_
    obtain ⟨k', hk', he⟩ := mem_flatMap.1 he
    rwa [← of_decide_eq_true heq, hkey k' e he]
  have hnodup : ((walk.order (groups key add ds)).map Prod.fst).Nodup :=
    ((walk.perm _).map Prod.fst).nodup_iff.2 (nodup_groups ds)
  rw [walked_eq]
  by_cases hk : k ∈ (walk.order (groups key add ds)).map Prod.fst
  · obtain ⟨before, after, heq⟩ := append_of_mem hk
    rw [heq] at hnodup ⊢
    obtain ⟨hbefore, hafter⟩ : k ∉ before ∧ k ∉ after := by
      simpa using (nodup_cons.1 (nodup_middle.1 hnodup)).1
    rw [flatMap_append, flatMap_cons, withKey, filter_append, filter_append]
    change withKey key k _ ++ (withKey key k _ ++ withKey key k _) = _
    rw [hother _ hbefore, hself, hother _ hafter, nil_append, append_nil]
  · rw [hother _ hk, not_not.1 (mt (mem_walk_iff ds k).2 hk)]
    rfl

end

end Walk

end Grouped

end HaranaMatrix
