import Mathlib

/-!
# Lists that change at one place

What insertions and removals at an index do to a list that is split there.
-/

namespace HaranaMatrix

open List

variable {α : Type}

lemma insertIdx_append_length (A B : List α) (x : α) : (A ++ B).insertIdx A.length x = A ++ x :: B := by
  induction A with
  | nil => rfl
  | cons a A ih => simp [ih]

lemma eraseIdx_append_length (A B : List α) (x : α) : (A ++ x :: B).eraseIdx A.length = A ++ B := by
  rw [eraseIdx_append_of_length_le le_rfl, Nat.sub_self, eraseIdx_cons_zero]

lemma insertIdx_append_of_le {l : List α} {n : ℕ} (h : n ≤ l.length) (x y : α) :
    (l ++ [y]).insertIdx n x = l.insertIdx n x ++ [y] := by
  obtain ⟨A, B, rfl, rfl⟩ : ∃ A B, l = A ++ B ∧ n = A.length :=
    ⟨l.take n, l.drop n, (take_append_drop n l).symm, by simp [h]⟩
  rw [append_assoc, insertIdx_append_length, insertIdx_append_length]
  simp

lemma eraseP_eq_filter_of_nodup_map {β : Type} [DecidableEq β] {f : α → β} {l : List α}
    (h : (l.map f).Nodup) (b : β) :
    l.eraseP (f · = b) = l.filter (f · ≠ b) := by
  induction l with
  | nil => rfl
  | cons a l ih =>
    obtain ⟨hnew, hnodup⟩ := nodup_cons.1 h
    by_cases ha : f a = b
    · subst ha
      have hall : ∀ x ∈ l, f x ≠ f a := fun x hx heq => hnew (heq ▸ mem_map_of_mem hx)
      rw [eraseP_cons_of_pos (by simp), filter_cons_of_neg (by simp), filter_eq_self.2 (by simpa using hall)]
    · rw [eraseP_cons_of_neg (by simpa using ha), filter_cons_of_pos (by simpa using ha), ih hnodup]

lemma concat_eq_append_cons {α : Type} {l pre post : List α} {a b : α} (h : l ++ [a] = pre ++ b :: post) :
    (pre = l ∧ b = a ∧ post = []) ∨ ∃ mid, post = mid ++ [a] ∧ l = pre ++ b :: mid := by
  rcases eq_nil_or_concat post with rfl | ⟨mid, c, rfl⟩
  · obtain ⟨hl, ha⟩ := append_inj' h rfl
    exact .inl ⟨hl.symm, (singleton_inj.1 ha).symm, rfl⟩
  · rw [concat_eq_append, ← cons_append, ← append_assoc] at h
    obtain ⟨hl, ha⟩ := append_inj' h rfl
    exact .inr ⟨mid, by rw [concat_eq_append, singleton_inj.1 ha], hl⟩

/-! ## Chunks -/

/-- The rest of a list in chunks of `n`, where `chunk` is being filled. -/
def chunksFrom (n : ℕ) (chunk : List α) : List α → List (List α)
  | [] => [chunk]
  | x :: xs => if chunk.length < n then chunksFrom n (chunk ++ [x]) xs else chunk :: chunksFrom n [x] xs

/-- Pieces of length `n`; the last one can be shorter. -/
def chunks (n : ℕ) : List α → List (List α)
  | [] => []
  | x :: xs => chunksFrom n [x] xs

lemma flatten_chunksFrom (n : ℕ) (chunk xs : List α) : (chunksFrom n chunk xs).flatten = chunk ++ xs := by
  induction xs generalizing chunk with
  | nil => simp [chunksFrom]
  | cons x xs ih =>
    unfold chunksFrom
    split
    · rw [ih, append_assoc, singleton_append]
    · rw [flatten_cons, ih, singleton_append]

lemma flatten_chunks (n : ℕ) (xs : List α) : (chunks n xs).flatten = xs := by
  cases xs with
  | nil => rfl
  | cons x xs => rw [chunks, flatten_chunksFrom, singleton_append]

lemma mem_of_mem_chunks {n : ℕ} {xs chunk : List α} {x : α} (hchunk : chunk ∈ chunks n xs)
    (hx : x ∈ chunk) : x ∈ xs := by
  rw [← flatten_chunks n xs]
  exact mem_flatten.2 ⟨chunk, hchunk, hx⟩

end HaranaMatrix
