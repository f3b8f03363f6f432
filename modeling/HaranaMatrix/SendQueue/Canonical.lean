import HaranaMatrix.SendQueue.Storage

/-!
# Canonical dependent requests

Besides edits and redactions, a client can ask for a reaction or a reply to an event that has not
been sent yet, and the event of a media waits for its uploads. Of the dependent requests of a
parent, those that the others do not override are kept. -/

namespace HaranaMatrix.SendQueue

open List

variable {C O : Type}

/-- The dependent requests of a parent. -/
abbrev ofParent (transactionId : TransactionId) (ds : List (DependentQueuedRequest C O)) :
    List (DependentQueuedRequest C O) :=
  Grouped.withKey (·.parentTransactionId) transactionId ds

/-- What matters of the requests of one parent: the first redaction, or else the last edit and then
what is no edit. -/
def mostMeaningful (ds : List (DependentQueuedRequest C O)) : List (DependentQueuedRequest C O) :=
  match ds.find? (·.kind.isRedact) with
  | some d => [d]
  | none => (ds.filter (·.kind.isEdit)).getLast?.toList ++ ds.filter (!·.kind.isEdit)

lemma mostMeaningful_of_find {ds : List (DependentQueuedRequest C O)} {d : DependentQueuedRequest C O}
    (h : ds.find? (·.kind.isRedact) = some d) : mostMeaningful ds = [d] := by
  rw [mostMeaningful, h]

lemma mostMeaningful_of_none {ds : List (DependentQueuedRequest C O)}
    (h : ds.find? (·.kind.isRedact) = none) :
    mostMeaningful ds = (ds.filter (·.kind.isEdit)).getLast?.toList ++ ds.filter (!·.kind.isEdit) := by
  rw [mostMeaningful, h]

lemma mem_of_mostMeaningful {ds : List (DependentQueuedRequest C O)} {d : DependentQueuedRequest C O}
    (h : d ∈ mostMeaningful ds) : d ∈ ds := by
  cases hfind : ds.find? (·.kind.isRedact) with
  | some r =>
    rw [mostMeaningful_of_find hfind, mem_singleton] at h
    exact h ▸ mem_of_find?_eq_some hfind
  | none =>
    rw [mostMeaningful_of_none hfind, mem_append, Option.mem_toList] at h
    rcases h with h | h
    · exact mem_of_mem_filter (mem_of_getLast? h)
    · exact mem_of_mem_filter h

section Add

variable {prevs : List (DependentQueuedRequest C O)} {d : DependentQueuedRequest C O}

lemma addCanonical_of_any (h : prevs.any (·.kind.isRedact) = true) : addCanonical prevs d = prevs := if_pos h

lemma addCanonical_redact (h : prevs.any (·.kind.isRedact) = false) (hd : d.kind.isRedact = true) :
    addCanonical prevs d = [d] := by
  rw [addCanonical, h]
  cases hkind : d.kind <;> simp_all [DependentQueuedRequestKind.isRedact]

lemma addCanonical_edit {edit : Option (DependentQueuedRequest C O)}
    {others : List (DependentQueuedRequest C O)}
    (h : (edit.toList ++ others).any (·.kind.isRedact) = false) (hedit : ∀ e ∈ edit, e.kind.isEdit = true)
    (hothers : ∀ e ∈ others, e.kind.isEdit = false) (hd : d.kind.isEdit = true) :
    addCanonical (edit.toList ++ others) d = d :: others := by
  obtain ⟨newContent, hkind⟩ : ∃ newContent, d.kind = .editEvent newContent := by
    cases hkind : d.kind <;> simp_all [DependentQueuedRequestKind.isEdit]
  rw [addCanonical, h, hkind]
  cases edit with
  | some e => simp [List.findIdx?_cons, hedit e rfl]
  | none =>
    have hnone : others.findIdx? (·.kind.isEdit) = none := by simpa using hothers
    simp [hnone]

lemma addCanonical_other (h : prevs.any (·.kind.isRedact) = false) (hd : d.kind.isRedact = false)
    (hd' : d.kind.isEdit = false) : addCanonical prevs d = prevs ++ [d] := by
  rw [addCanonical, h]
  cases hkind : d.kind <;> simp_all [DependentQueuedRequestKind.isRedact, DependentQueuedRequestKind.isEdit]

end Add

lemma foldl_addCanonical (ds : List (DependentQueuedRequest C O)) :
    ds.foldl addCanonical [] = mostMeaningful ds := by
  induction ds using List.reverseRecOn with
  | nil => rfl
  | append_singleton ds d ih =>
    rw [foldl_append, ih]
    change addCanonical (mostMeaningful ds) d = _
    cases hfind : ds.find? (·.kind.isRedact) with
    | some r =>
      have hr := List.find?_some hfind
      rw [mostMeaningful_of_find hfind, addCanonical_of_any (by simpa using hr), mostMeaningful_of_find]
      rw [List.find?_append, hfind, Option.some_or]
    | none =>
      have hnone : ∀ e ∈ ds, e.kind.isRedact = false := by simpa using hfind
      have hany : (mostMeaningful ds).any (·.kind.isRedact) = false := by
        simpa using fun e he => hnone e (mem_of_mostMeaningful he)
      have hfind' : (ds ++ [d]).find? (·.kind.isRedact) = if d.kind.isRedact then some d else none := by
        rw [List.find?_append, hfind, Option.none_or, List.find?_singleton]
      cases hredact : d.kind.isRedact with
      | true =>
        rw [hredact] at hfind'
        rw [addCanonical_redact hany hredact, mostMeaningful_of_find hfind']
      | false =>
        rw [hredact] at hfind'
        rw [mostMeaningful_of_none hfind', filter_append, filter_append]
        cases hedit : d.kind.isEdit with
        | true =>
          rw [mostMeaningful_of_none hfind] at hany ⊢
          rw [addCanonical_edit hany _ _ hedit]
          · simp [hedit]
          · exact fun e he => by simpa using (mem_filter.1 (mem_of_getLast? he)).2
          · exact fun e he => by simpa using (mem_filter.1 he).2
        | false =>
          rw [addCanonical_other hany hredact hedit, mostMeaningful_of_none hfind]
          simp [hedit]

lemma mem_addCanonical (prevs : List (DependentQueuedRequest C O)) (d : DependentQueuedRequest C O) :
    ∀ e ∈ addCanonical prevs d, e ∈ prevs ∨ e = d := by
  intro e he
  unfold addCanonical at he
  split at he
  · exact .inl he
  · split at he
    · split at he
      · exact mem_or_eq_of_mem_set he
      · exact (mem_cons.1 he).symm
    · exact (mem_append.1 he).imp_right mem_singleton.1
    all_goals exact .inr (mem_singleton.1 he)

section Canonicalize

variable (walk walk' : HashOrder TransactionId (List (DependentQueuedRequest C O)))
  (ds : List (DependentQueuedRequest C O))

/-- **What is kept of a parent** depends on its own requests only. -/
lemma ofParent_canonicalize (transactionId : TransactionId) :
    ofParent transactionId (canonicalizeDependentRequests walk ds) =
      mostMeaningful (ofParent transactionId ds) := by
  rw [canonicalizeDependentRequests, ofParent, Grouped.withKey_walked mem_addCanonical, foldl_addCanonical]

lemma mostMeaningful_idem (ds : List (DependentQueuedRequest C O)) :
    mostMeaningful (mostMeaningful ds) = mostMeaningful ds := by
  cases hfind : ds.find? (·.kind.isRedact) with
  | some r =>
    have hr := List.find?_some hfind
    rw [mostMeaningful_of_find hfind, mostMeaningful_of_find (List.find?_cons_of_pos hr)]
  | none =>
    have hnone : ∀ e ∈ ds, e.kind.isRedact = false := by simpa using hfind
    have hfind' : (mostMeaningful ds).find? (·.kind.isRedact) = none := by
      simpa using fun e he => hnone e (mem_of_mostMeaningful he)
    rw [mostMeaningful_of_none hfind', mostMeaningful_of_none hfind]
    cases hlast : (ds.filter (·.kind.isEdit)).getLast? with
    | none => simp
    | some e =>
      have he : e.kind.isEdit = true := by simpa using (mem_filter.1 (mem_of_getLast? hlast)).2
      simp [he]

/-- The parents, in the order in which the map is walked. -/
def parents : List TransactionId :=
  (walk.order (Grouped.groups (·.parentTransactionId) addCanonical ds)).map Prod.fst

lemma canonicalize_eq_flatMap :
    canonicalizeDependentRequests walk ds =
      (parents walk ds).flatMap fun transactionId => mostMeaningful (ofParent transactionId ds) := by
  rw [canonicalizeDependentRequests, Grouped.walked_eq]
  exact flatMap_congr fun _ _ => foldl_addCanonical _

lemma canonicalize_twice :
    canonicalizeDependentRequests walk' (canonicalizeDependentRequests walk ds) =
      (parents walk' (canonicalizeDependentRequests walk ds)).flatMap fun transactionId =>
        mostMeaningful (ofParent transactionId ds) := by
  rw [canonicalize_eq_flatMap walk']
  refine flatMap_congr fun transactionId _ => ?_
  rw [ofParent_canonicalize, mostMeaningful_idem]

lemma mostMeaningful_eq_nil {ds : List (DependentQueuedRequest C O)} : mostMeaningful ds = [] ↔ ds = [] := by
  refine ⟨fun h => ?_, fun h => by rw [h]; rfl⟩
  cases hfind : ds.find? (·.kind.isRedact) with
  | some r => simp [mostMeaningful_of_find hfind] at h
  | none =>
    rw [mostMeaningful_of_none hfind, append_eq_nil_iff, Option.toList_eq_nil_iff, getLast?_eq_none_iff] at h
    exact eq_nil_iff_forall_not_mem.2 fun d hd => by
      cases hedit : d.kind.isEdit with
      | true => exact not_mem_nil (h.1 ▸ mem_filter.2 ⟨hd, hedit⟩)
      | false => exact not_mem_nil (h.2 ▸ mem_filter.2 ⟨hd, by simp [hedit]⟩)

lemma nodup_parents : (parents walk ds).Nodup :=
  ((walk.perm _).map Prod.fst).nodup_iff.2 (Grouped.nodup_groups ds)

/-- Canonical requests have the parents of the list. -/
lemma parents_canonicalize : (parents walk' (canonicalizeDependentRequests walk ds)).Perm (parents walk ds) := by
  rw [perm_ext_iff_of_nodup (nodup_parents _ _) (nodup_parents _ _)]
  intro transactionId
  rw [parents, Grouped.mem_walk_iff, parents, Grouped.mem_walk_iff]
  change ofParent _ _ ≠ [] ↔ ofParent _ _ ≠ []
  rw [ofParent_canonicalize, Ne, mostMeaningful_eq_nil]

/-- **Canonical requests**: of each parent what matters is kept, in the order of the list, and
nothing else; requests of other parents make no difference. When it is done twice, the result is
that of doing it once, up to the order of the parents: in whatever order the maps are walked, each
parent has the same requests, one after the other. -/
theorem canonicalizeDependentRequests_keeps :
    (∀ transactionId, ofParent transactionId (canonicalizeDependentRequests walk ds) =
      mostMeaningful (ofParent transactionId ds)) ∧
    (∀ transactionId, ∀ ds', ofParent transactionId ds' = ofParent transactionId ds →
      ofParent transactionId (canonicalizeDependentRequests walk' ds') =
        ofParent transactionId (canonicalizeDependentRequests walk ds)) ∧
    (parents walk' (canonicalizeDependentRequests walk ds)).Perm (parents walk ds) ∧
    (canonicalizeDependentRequests walk ds =
      (parents walk ds).flatMap fun transactionId => mostMeaningful (ofParent transactionId ds)) ∧
    canonicalizeDependentRequests walk' (canonicalizeDependentRequests walk ds) =
      (parents walk' (canonicalizeDependentRequests walk ds)).flatMap fun transactionId =>
        mostMeaningful (ofParent transactionId ds) := by
  refine ⟨ofParent_canonicalize walk ds, fun transactionId ds' h => ?_, parents_canonicalize walk walk' ds,
    canonicalize_eq_flatMap walk ds, canonicalize_twice walk walk' ds⟩
  rw [ofParent_canonicalize, ofParent_canonicalize, h]

end Canonicalize

/-- The edits of two messages. -/
def twoEdits : List (DependentQueuedRequest Unit) :=
  [⟨.editEvent (), "first", "edit1", none⟩, ⟨.editEvent (), "second", "edit2", none⟩]

/-- The walks of two maps. -/
abbrev walks : HashOrder TransactionId (List (DependentQueuedRequest Unit)) ×
    HashOrder TransactionId (List (DependentQueuedRequest Unit)) :=
  (⟨id, Perm.refl⟩, ⟨reverse, reverse_perm⟩)

/-- What is kept of the first message is what is kept of it alone. -/
theorem canonicalizeDependentRequests_keeps_first :
    ofParent "first" (canonicalizeDependentRequests walks.2 (twoEdits.take 1)) =
      ofParent "first" (canonicalizeDependentRequests walks.1 twoEdits) :=
  (canonicalizeDependentRequests_keeps walks.1 walks.2 twoEdits).2.1 "first" (twoEdits.take 1) (by decide)

/-- With two parents, a second walk in another order gives another list. -/
theorem canonicalizeDependentRequests_twice_differs :
    canonicalizeDependentRequests walks.2 (canonicalizeDependentRequests walks.1 twoEdits) ≠
      canonicalizeDependentRequests walks.1 twoEdits := by
  decide

end HaranaMatrix.SendQueue
