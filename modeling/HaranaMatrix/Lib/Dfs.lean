import Mathlib

/-!
# Depth-first search

A depth-first search as a relation: from the nodes visited so far and the nodes on the current path
to the nodes visited afterwards, the nodes finished in between and the edges that lead back to the
path. The order in which nodes finish sorts the edges that do not lead back, so these form no cycle;
an edge that leads back closes one. -/

namespace Dfs

open List

variable {α : Type} [DecidableEq α] (children : α → List α)

/-- `Walk children path visited u cs visited' finished back`: the search that has come to `u` along
`path` goes through the children `cs` of `u`. -/
inductive Walk : Finset α → Finset α → α → List α → Finset α → List α → List (α × α) → Prop
  | nil (path visited : Finset α) (u : α) : Walk path visited u [] visited [] []
  | back {path visited visited' : Finset α} {u c : α} {cs finished : List α} {back : List (α × α)}
      (hc : c ∈ path) (h : Walk path visited u cs visited' finished back) :
      Walk path visited u (c :: cs) visited' finished ((u, c) :: back)
  | seen {path visited visited' : Finset α} {u c : α} {cs finished : List α} {back : List (α × α)}
      (hc : c ∉ path) (hv : c ∈ visited) (h : Walk path visited u cs visited' finished back) :
      Walk path visited u (c :: cs) visited' finished back
  | down {path visited visited₁ visited₂ : Finset α} {u c : α} {cs finished₁ finished₂ : List α}
      {back₁ back₂ : List (α × α)} (hc : c ∉ path) (hv : c ∉ visited)
      (h₁ : Walk (insert c path) (insert c visited) c (children c) visited₁ finished₁ back₁)
      (h₂ : Walk path visited₁ u cs visited₂ finished₂ back₂) :
      Walk path visited u (c :: cs) visited₂ (finished₁ ++ c :: finished₂) (back₁ ++ back₂)

/-- An edge that does not lead back. -/
def Kept (back : List (α × α)) (a b : α) : Prop := b ∈ children a ∧ (a, b) ∉ back

/-- Every kept child of a node stands before the node. -/
inductive Sorted (back : List (α × α)) : List α → Prop
  | nil : Sorted back []
  | concat {l : List α} {a : α} (h : Sorted back l) (ha : ∀ b ∈ children a, (a, b) ∈ back ∨ b ∈ l) :
      Sorted back (l ++ [a])

variable {children} {path visited visited' : Finset α} {u : α} {cs finished l : List α}
  {back back' : List (α × α)}

section

variable (h : Walk children path visited u cs visited' finished back)
include h

lemma Walk.append {visited₂ : Finset α} {ds finished₂ : List α} {back₂ : List (α × α)}
    (h₂ : Walk children path visited' u ds visited₂ finished₂ back₂) :
    Walk children path visited u (cs ++ ds) visited₂ (finished ++ finished₂) (back ++ back₂) := by
  induction h with
  | nil => exact h₂
  | back hc _ ih => exact .back hc (ih h₂)
  | seen hc hv _ ih => exact .seen hc hv (ih h₂)
  | down hc hv h₁ _ _ ih =>
    rw [append_assoc, append_assoc, cons_append]
    exact .down hc hv h₁ (ih h₂)

lemma Walk.subset : visited ⊆ visited' := by
  induction h with
  | nil => exact subset_rfl
  | back _ _ ih => exact ih
  | seen _ _ _ ih => exact ih
  | down _ _ _ _ ih₁ ih₂ => exact ((Finset.subset_insert _ _).trans ih₁).trans ih₂

end

/-! ## The edges that are kept -/

omit [DecidableEq α] in
lemma Sorted.mono (h : Sorted children back l) (hb : back ⊆ back') : Sorted children back' l := by
  induction h with
  | nil => exact .nil
  | concat _ ha ih => exact .concat ih fun b hchild => (ha b hchild).imp_left fun hmem => hb hmem

/-- **The finished nodes are sorted**, when every visited node is on the path or finished. -/
theorem Walk.sorted (h : Walk children path visited u cs visited' finished back)
    (hv : ∀ x ∈ visited, x ∈ path ∨ x ∈ l) (hl : Sorted children back' l) :
    Sorted children (back' ++ back) (l ++ finished) ∧
      (∀ x ∈ visited', x ∈ path ∨ x ∈ l ++ finished) ∧
      ∀ c ∈ cs, (c ∈ path ∧ (u, c) ∈ back) ∨ c ∈ l ++ finished := by
  induction h generalizing l back' with
  | nil => exact ⟨by simpa using hl, by simpa using hv, by simp⟩
  | @back path visited visited' u c cs finished back hc h ih =>
    obtain ⟨hsorted, hvisited, hcs⟩ := ih hv hl
    refine ⟨hsorted.mono fun e he => ?_, hvisited, ?_⟩
    · rw [mem_append] at he ⊢
      exact he.imp_right (mem_cons_of_mem _)
    rintro d hd
    rcases mem_cons.1 hd with rfl | hd
    · exact .inl ⟨hc, mem_cons_self⟩
    · exact (hcs d hd).imp_left fun h => ⟨h.1, mem_cons_of_mem _ h.2⟩
  | @seen path visited visited' u c cs finished back hc hmem h ih =>
    obtain ⟨hsorted, hvisited, hcs⟩ := ih hv hl
    refine ⟨hsorted, hvisited, ?_⟩
    rintro d hd
    rcases mem_cons.1 hd with rfl | hd
    · exact .inr (mem_append_left _ ((hv d hmem).resolve_left hc))
    · exact hcs d hd
  | @down path visited visited₁ visited₂ u c cs finished₁ finished₂ back₁ back₂ hc hnew h₁ h₂ ih₁ ih₂ =>
    have hbelow : ∀ x ∈ insert c visited, x ∈ insert c path ∨ x ∈ l := by
      intro x hx
      rcases Finset.mem_insert.1 hx with rfl | hx
      · exact .inl (Finset.mem_insert_self _ _)
      · exact (hv x hx).imp_left fun h => Finset.mem_insert_of_mem h
    obtain ⟨hsorted₁, hvisited₁, hchildren⟩ := ih₁ hbelow hl
    -- `c` itself finishes after all its children
    have hsorted : Sorted children (back' ++ back₁) (l ++ finished₁ ++ [c]) := by
      refine hsorted₁.concat fun b hb => ?_
      exact (hchildren b hb).imp_left fun h => mem_append_right _ h.2
    obtain ⟨hsorted₂, hvisited₂, hcs⟩ := ih₂ (fun x hx => by
      rcases hvisited₁ x hx with hx | hx
      · rcases Finset.mem_insert.1 hx with rfl | hx
        · exact .inr (by simp)
        · exact .inl hx
      · exact .inr (mem_append_left _ hx)) hsorted
    have heq : l ++ finished₁ ++ [c] ++ finished₂ = l ++ (finished₁ ++ c :: finished₂) := by simp
    rw [heq] at hsorted₂ hvisited₂ hcs
    rw [append_assoc] at hsorted₂
    refine ⟨hsorted₂, hvisited₂, ?_⟩
    rintro d hd
    rcases mem_cons.1 hd with rfl | hd
    · exact .inr (by simp)
    · exact (hcs d hd).imp_left fun h => ⟨h.1, mem_append_right _ h.2⟩

section

variable (h : Sorted children back l)
include h

lemma Sorted.idxOf_lt {a b : α} (ha : a ∈ l) (hab : Kept children back a b) :
    b ∈ l ∧ l.idxOf b < l.idxOf a := by
  induction h with
  | nil => cases ha
  | @concat l c h hc ih =>
    by_cases hal : a ∈ l
    · obtain ⟨hb, hlt⟩ := ih hal
      rw [idxOf_append_of_mem hal, idxOf_append_of_mem hb]
      exact ⟨mem_append_left _ hb, hlt⟩
    · obtain rfl : a = c := by simpa [hal] using ha
      have hb : b ∈ l := (hc b hab.1).resolve_left hab.2
      rw [idxOf_append_of_mem hb, idxOf_append_of_notMem hal]
      refine ⟨mem_append_left _ hb, ?_⟩
      have := idxOf_lt_length_of_mem hb
      omega

section

variable (hl : ∀ a b, Kept children back a b → a ∈ l)
include hl

/-- **The kept edges form no cycle.** -/
theorem Sorted.acyclic (a : α) : ¬ Relation.TransGen (Kept children back) a a := by
  have hlt : ∀ b, Relation.TransGen (Kept children back) a b → l.idxOf b < l.idxOf a := by
    intro b hab
    induction hab with
    | single hab => exact (h.idxOf_lt (hl _ _ hab) hab).2
    | tail _ hbc ih => exact (h.idxOf_lt (hl _ _ hbc) hbc).2.trans ih
  exact fun haa => lt_irrefl _ (hlt a haa)

theorem Sorted.reachable_from_root
    {a : α} (ha : a ∈ l) :
    ∃ r ∈ l, (∀ b, ¬ Kept children back b r) ∧ Relation.ReflTransGen (Kept children back) r a := by
  induction hn : l.length - l.idxOf a using Nat.strong_induction_on generalizing a with
  | _ n ih =>
    by_cases hroot : ∃ b, Kept children back b a
    · obtain ⟨b, hba⟩ := hroot
      have hb := hl b a hba
      have hlt := (h.idxOf_lt hb hba).2
      have hlen := idxOf_lt_length_of_mem hb
      obtain ⟨r, hr, hnone, hpath⟩ := ih (l.length - l.idxOf b) (by omega) hb rfl
      exact ⟨r, hr, hnone, hpath.tail hba⟩
    · exact ⟨a, ha, fun b hba => hroot ⟨b, hba⟩, .refl⟩

end

end

/-! ## The edges that lead back -/

/-- **An edge that leads back lies on a cycle.** -/
theorem Walk.back_on_cycle (h : Walk children path visited u cs visited' finished back)
    (hcs : path.Nonempty → ∀ c ∈ cs, c ∈ children u)
    (hpath : ∀ p ∈ path, Relation.ReflTransGen (fun a b => b ∈ children a) p u) :
    ∀ e ∈ back, e.2 ∈ children e.1 ∧ Relation.ReflTransGen (fun a b => b ∈ children a) e.2 e.1 := by
  induction h with
  | nil => simp
  | back hc _ ih =>
    have hmem := hcs ⟨_, hc⟩
    rintro e he
    rcases mem_cons.1 he with rfl | he
    · exact ⟨hmem _ mem_cons_self, hpath _ hc⟩
    · exact ih (fun _ c hc => hmem c (mem_cons_of_mem _ hc)) hpath e he
  | seen _ _ _ ih =>
    exact ih (fun hne c hc => hcs hne c (mem_cons_of_mem _ hc)) hpath
  | down hc _ _ _ ih₁ ih₂ =>
    rintro e he
    rcases mem_append.1 he with he | he
    · refine ih₁ (fun _ d hd => hd) (fun p hp => ?_) e he
      rcases Finset.mem_insert.1 hp with rfl | hp
      · exact .refl
      · exact (hpath p hp).tail (hcs ⟨p, hp⟩ _ mem_cons_self)
    · exact ih₂ (fun hne d hd => hcs hne d (mem_cons_of_mem _ hd)) hpath e he

end Dfs
