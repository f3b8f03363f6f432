import Mathlib

/-!
# Queues that are served by priority

Entries have a key and a priority. Among entries of one priority, those that were served come first,
in the order in which they were queued, and then those that wait. -/

namespace HaranaMatrix

open List

variable {κ : Type}

/-- `x` is the first entry of its priority. -/
def IsFirst (x : κ × ℕ) (waiting : List (κ × ℕ)) : Prop := (waiting.filter (·.2 = x.2)).head? = some x

section IsFirst

variable {x y : κ × ℕ} {l l' : List (κ × ℕ)}

lemma IsFirst.mem (h : IsFirst x l) : x ∈ l := mem_of_mem_filter (mem_of_mem_head? h)

lemma IsFirst.concat (h : IsFirst x l) (y : κ × ℕ) : IsFirst x (l ++ [y]) := by
  unfold IsFirst at h ⊢
  rw [filter_append, List.head?_append, h, Option.some_or]

lemma IsFirst.of_sublist (h : IsFirst x l) (hnodup : l.Nodup) (hsub : l'.Sublist l) (hx : x ∈ l') :
    IsFirst x l' := by
  unfold IsFirst at h ⊢
  obtain ⟨rest, hrest⟩ : ∃ rest, l.filter (·.2 = x.2) = x :: rest := List.head?_eq_some_iff.1 h
  have hfilter : (l'.filter (·.2 = x.2)).Sublist (x :: rest) := hrest ▸ hsub.filter _
  have hmem : x ∈ l'.filter (·.2 = x.2) := mem_filter.2 ⟨hx, by simp⟩
  rcases sublist_cons_iff.1 hfilter with hrest' | ⟨rest', heq, -⟩
  · have hcons : (x :: rest).Nodup := hrest ▸ hnodup.filter _
    exact absurd (hrest'.subset hmem) (nodup_cons.1 hcons).1
  · rw [heq]
    rfl

lemma isFirst_of_head_insertionSort {α : Type} (key : α → κ × ℕ) {as : List α} {a : α}
    (h : (as.insertionSort fun b c => (key c).2 ≤ (key b).2).head? = some a) :
      IsFirst (key a) (as.map key) := by
  set r : α → α → Prop := fun b c => (key c).2 ≤ (key b).2 with hr
  have hfilter : (as.insertionSort r).filter (fun b => (key b).2 = (key a).2) =
      as.filter fun b => (key b).2 = (key a).2 := by
    have hpair : (as.filter fun b => (key b).2 = (key a).2).Pairwise r := by
      refine pairwise_of_forall_mem_list fun b hb c hc => ?_
      have hb' : (key b).2 = (key a).2 := by simpa using (mem_filter.1 hb).2
      have hc' : (key c).2 = (key a).2 := by simpa using (mem_filter.1 hc).2
      simp [hr, hb', hc']
    have hsub := (sublist_insertionSort hpair filter_sublist).filter fun b => (key b).2 = (key a).2
    rw [filter_filter] at hsub
    simp only [Bool.and_self] at hsub
    refine (hsub.eq_of_length ?_).symm
    exact ((perm_insertionSort r as).filter _).length_eq.symm
  obtain ⟨rest, hrest⟩ := List.head?_eq_some_iff.1 h
  unfold IsFirst
  rw [filter_map, List.head?_map]
  have hhead : (as.filter fun b => (key b).2 = (key a).2).head? = some a := by
    rw [← hfilter, hrest]
    simp
  rw [Function.comp_def, hhead, Option.map_some]

end IsFirst

/-- Among the entries of a priority, those that were served and then those that wait are in the
order of the queue. -/
structure Served (queued served waiting : List (κ × ℕ)) : Prop where
  nodup : (queued.map Prod.fst).Nodup
  order : ∀ p, ((served ++ waiting).filter (·.2 = p)).Sublist (queued.filter (·.2 = p))

namespace Served

variable {queued served waiting waiting' : List (κ × ℕ)} {x : κ × ℕ}

lemma nil : Served ([] : List (κ × ℕ)) [] [] := ⟨nodup_nil, fun _ => List.Sublist.refl _⟩

section

variable (h : Served queued served waiting)
include h

lemma push (hx : x.1 ∉ queued.map Prod.fst) : Served (queued ++ [x]) served (waiting ++ [x]) where
  nodup := by
    rw [map_append, nodup_append]
    refine ⟨h.nodup, by simp, fun k hk k' hk' heq => hx ?_⟩
    rw [map_singleton, mem_singleton] at hk'
    rwa [← hk', ← heq]
  order p := by
    have hlast := (h.order p).append (List.Sublist.refl ([x].filter (·.2 = p)))
    rwa [← filter_append, ← filter_append, append_assoc] at hlast

lemma drop (hsub : waiting'.Sublist waiting) : Served queued served waiting' where
  nodup := h.nodup
  order p := (((List.Sublist.refl served).append hsub).filter _).trans (h.order p)

lemma mem_queued (hx : x ∈ served ++ waiting) : x ∈ queued :=
  mem_of_mem_filter ((h.order x.2).subset (mem_filter.2 ⟨hx, by simp⟩))

lemma eq_of_fst {y : κ × ℕ} (hx : x ∈ queued) (hy : y ∈ queued) (hfst : x.1 = y.1) : x = y :=
  inj_on_of_nodup_map h.nodup hx hy hfst

lemma nodup_append [DecidableEq κ] : ((served ++ waiting).map Prod.fst).Nodup := by
  have hqueued : queued.Nodup := h.nodup.of_map
  refine List.Nodup.map_on (fun x hx y hy => h.eq_of_fst (h.mem_queued hx) (h.mem_queued hy)) ?_
  refine nodup_iff_count_le_one.2 fun x => ?_
  have hcount : ((served ++ waiting).filter (·.2 = x.2)).count x = (served ++ waiting).count x :=
    count_filter (by simp)
  rw [← hcount]
  exact nodup_iff_count_le_one.1 ((h.order x.2).nodup (hqueued.filter _)) x

lemma nodup_waiting [DecidableEq κ] : (waiting.map Prod.fst).Nodup :=
  h.nodup_append.sublist ((sublist_append_right served waiting).map _)

lemma not_mem_served [DecidableEq κ] (hx : x ∈ waiting) : x.1 ∉ served.map Prod.fst := by
  have hnodup := h.nodup_append
  rw [List.map_append, List.nodup_append] at hnodup
  exact fun hmem => hnodup.2.2 _ hmem _ (List.mem_map_of_mem hx) rfl

lemma serve [DecidableEq κ] (hx : IsFirst x waiting) :
    Served queued (served ++ [x]) (waiting.eraseP (·.1 = x.1)) where
  nodup := h.nodup
  order p := by
    obtain ⟨y, l₁, l₂, hl₁, hy, hsplit, herase⟩ := exists_of_eraseP (p := (·.1 = x.1)) hx.mem (by simp)
    have hwaiting (z : κ × ℕ) (hz : z ∈ waiting) : z ∈ queued := h.mem_queued (mem_append_right _ hz)
    obtain rfl : y = x := h.eq_of_fst (hwaiting y (by simp [hsplit])) (hwaiting x hx.mem) (by simpa using hy)
    -- nothing of its priority stands before it
    have hnone : l₁.filter (·.2 = y.2) = [] := by
      unfold IsFirst at hx
      rw [hsplit, filter_append, List.head?_append] at hx
      cases hfilter : l₁.filter (·.2 = y.2) with
      | nil => rfl
      | cons z rest =>
        rw [hfilter, List.head?_cons, Option.some_or, Option.some.injEq] at hx
        have hz : z ∈ l₁ := mem_of_mem_filter (by rw [hfilter]; exact mem_cons_self)
        exact absurd (by simp [hx]) (hl₁ z hz)
    rw [herase]
    refine List.Sublist.trans ?_ (h.order p)
    rw [hsplit]
    by_cases hp : y.2 = p
    · subst hp
      simp [hnone]
    · simp [hp]

lemma sublist_of_isFirst (hx : IsFirst x waiting) {y : κ × ℕ} (hy : y ∈ waiting)
    (hpriority : y.2 = x.2) (hne : y ≠ x) : [x, y].Sublist queued := by
  obtain ⟨rest, hrest⟩ : ∃ rest, waiting.filter (·.2 = x.2) = x :: rest := List.head?_eq_some_iff.1 hx
  have hmem : y ∈ x :: rest := by
    rw [← hrest]
    exact mem_filter.2 ⟨hy, by simpa using hpriority⟩
  have hpair : [x, y].Sublist (x :: rest) :=
    (singleton_sublist.2 ((mem_cons.1 hmem).resolve_left hne)).cons_cons x
  rw [← hrest] at hpair
  have hwaiting : (waiting.filter (·.2 = x.2)).Sublist ((served ++ waiting).filter (·.2 = x.2)) :=
    (sublist_append_right served waiting).filter _
  exact (hpair.trans (hwaiting.trans (h.order x.2))).trans filter_sublist

end

end Served

end HaranaMatrix
