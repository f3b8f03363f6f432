import Mathlib.Data.List.Perm.Basic
import Mathlib.Data.List.Sort

/-!
# Lists kept sorted by a comparator

A new element finds its place by binary search. Sorted lists of the same elements differ by ties
only. -/

namespace HaranaMatrix.Sorted

open List Std

variable {α : Type} (cmp : α → α → Ordering)

/-- The positions that a binary search for `x` may return. -/
def IsPlace (l : List α) (x : α) (n : ℕ) : Prop :=
  (∀ a ∈ l.take n, (cmp a x).isLE) ∧ ∀ b ∈ l.drop n, (cmp x b).isLE

instance (l : List α) (x : α) (n : ℕ) : Decidable (IsPlace cmp l x n) := inferInstanceAs (Decidable (_ ∧ _))

variable {cmp} {l l' : List α} {x : α}

lemma IsPlace.pairwise {n : ℕ} (hn : IsPlace cmp l x n) (h : l.Pairwise fun a b => (cmp a b).isLE) :
    (l.take n ++ x :: l.drop n).Pairwise fun a b => (cmp a b).isLE := by
  rw [← take_append_drop n l, pairwise_append] at h
  refine pairwise_append.mpr ⟨h.1, pairwise_cons.mpr ⟨hn.2, h.2.1⟩, fun a ha => ?_⟩
  rw [forall_mem_cons]
  exact ⟨hn.1 a ha, h.2.2 a ha⟩

variable [TransCmp cmp]

lemma exists_isPlace (x : α) (h : l.Pairwise fun a b => (cmp a b).isLE) : ∃ n, IsPlace cmp l x n := by
  induction l with
  | nil => exact ⟨0, by simp [IsPlace]⟩
  | cons a l ih =>
    rw [pairwise_cons] at h
    by_cases hle : (cmp a x).isLE
    · obtain ⟨n, hbefore, hafter⟩ := ih h.2
      exact ⟨n + 1, by simpa [hle] using hbefore, hafter⟩
    · have hx : (cmp x a).isLE := by
        rw [@OrientedCmp.eq_swap _ cmp _ x a]
        cases hcmp : cmp a x <;> simp_all
      refine ⟨0, by simp, ?_⟩
      rw [drop_zero, forall_mem_cons]
      exact ⟨hx, fun b hb => TransCmp.isLE_trans hx (h.1 b hb)⟩

theorem forall₂_eq_of_perm (h : l.Pairwise fun a b => (cmp a b).isLE)
    (h' : l'.Pairwise fun a b => (cmp a b).isLE) (hp : l ~ l') : Forall₂ (cmp · · = .eq) l l' := by
  -- Tied elements compare in the same way with everything, so `cmp a` stands for all that are tied with `a`.
  have key : l.map cmp = l'.map cmp := by
    refine @Perm.eq_of_pairwise _ (Relation.Map (fun a b => (cmp a b).isLE) cmp cmp) _ _ ?_ ?_ ?_ (hp.map cmp)
    · rintro _ _ - - ⟨a, b, hab, rfl, rfl⟩ ⟨b', a', hba, hb, ha⟩
      have hb : (cmp b a).isLE := by
        rw [← OrientedCmp.isGE_iff_isLE, ← ha, OrientedCmp.isGE_iff_isLE, ← hb]
        exact hba
      exact funext fun c => TransCmp.congr_left (OrientedCmp.isLE_antisymm hab hb)
    · exact pairwise_map.mpr (h.imp fun hab => ⟨_, _, hab, rfl, rfl⟩)
    · exact pairwise_map.mpr (h'.imp fun hab => ⟨_, _, hab, rfl, rfl⟩)
  have hrows := forall₂_eq_eq_eq (α := α → Ordering) ▸ key
  rw [forall₂_map_left_iff, forall₂_map_right_iff] at hrows
  exact hrows.imp fun a b hab => by rw [hab]; exact ReflCmp.compare_self

end HaranaMatrix.Sorted
