import HaranaMatrix.SendQueue.Canonical

/-!
# The dependent requests of a queue

Of the edits and redactions of a parent one is kept: the first redaction, or else the last edit. It
is then applied. -/

namespace HaranaMatrix.SendQueue

open List

variable {C W : Type}

lemma isEdit_of_not_isRedact {kind : DependentQueuedRequestKind C} (h : kind.isRedact = false) :
    kind.isEdit = true := by
  cases kind with
  | editEvent => rfl
  | other kind => exact kind.elim
  | _ => cases h

lemma mostMeaningful_eq_singleton {ds : List (DependentQueuedRequest C)} (h : ds ≠ []) :
    ∃ d ∈ ds, mostMeaningful ds = [d] := by
  cases hfind : ds.find? (·.kind.isRedact) with
  | some d => exact ⟨d, mem_of_find?_eq_some hfind, mostMeaningful_of_find hfind⟩
  | none =>
    have hedit : ∀ d ∈ ds, d.kind.isEdit = true := fun d hd => isEdit_of_not_isRedact (by simpa using find?_eq_none.1 hfind d hd)
    refine ⟨ds.getLast h, getLast_mem h, ?_⟩
    rw [mostMeaningful_of_none hfind, filter_eq_self.2 hedit, getLast?_eq_some_getLast h,
      filter_eq_nil_iff.2 fun d hd => by simp [hedit d hd]]
    rfl

section Canonicalize

variable {walk : HashOrder TransactionId (List (DependentQueuedRequest C))}
  {ds : List (DependentQueuedRequest C)}

lemma mem_dependents_of_canonical {d : DependentQueuedRequest C}
    (h : d ∈ canonicalizeDependentRequests walk ds) :
    d ∈ ds := by
  have hmem : d ∈ ofParent d.parentTransactionId (canonicalizeDependentRequests walk ds) := mem_filter.2 ⟨h, by simp⟩
  rw [ofParent_canonicalize] at hmem
  exact mem_of_mem_filter (mem_of_mostMeaningful hmem)

lemma nodup_canonical (walk : HashOrder TransactionId (List (DependentQueuedRequest C)))
    (ds : List (DependentQueuedRequest C)) :
    ((canonicalizeDependentRequests walk ds).map (·.parentTransactionId)).Nodup := by
  rw [canonicalize_eq_flatMap, map_flatMap, flatMap_congr (g := fun k => [k]), flatMap_singleton']
  · exact nodup_parents walk ds
  · intro k hk
    obtain ⟨d, hd, heq⟩ := mostMeaningful_eq_singleton ((Grouped.mem_walk_iff ds k).1 hk)
    have hparent : d.parentTransactionId = k := by simpa using (mem_filter.1 hd).2
    rw [heq, ← hparent]
    rfl

end Canonicalize

/-! ## Applying one of them -/

/-- What becomes of a dependent request: after an error it is kept, an edit that cannot be made is
dropped, and an edit or a redaction is applied to the parent while it is local, and requested once
it was sent. -/
inductive TryApplied (env : Surroundings C) (store : Store C W) (d : DependentQueuedRequest C) :
    Applied C W → Prop
  | stuck (h : d.parentKey.isSome) : TryApplied env store d ⟨store, none, []⟩
  | dropped {newContent key eventId} (hkind : d.kind = .editEvent newContent) (hkey : d.parentKey = some key)
      (hevent : key.intoEventId = some eventId) (hmakes : env.makesEdit eventId newContent = false) :
      TryApplied env store d ⟨store, some true, []⟩
  | edit {newContent key eventId} (hkind : d.kind = .editEvent newContent) (hkey : d.parentKey = some key)
      (hevent : key.intoEventId = some eventId) :
      TryApplied env store d
        ⟨store.saveSendQueueRequest d.ownTransactionId (.event (.edit eventId newContent)) QueueStorage.highPriority,
          some true, [.queued d.ownTransactionId QueueStorage.highPriority]⟩
  | localEdit {newContent} (hkind : d.kind = .editEvent newContent) (hkey : d.parentKey = none) :
      TryApplied env store d
        ⟨(store.updateSendQueueRequest d.parentTransactionId (.event (.new newContent))).2, some true, []⟩
  | redact {key eventId} (hkind : d.kind.isRedact) (hkey : d.parentKey = some key)
      (hevent : key.intoEventId = some eventId) :
      TryApplied env store d ⟨store, some (env.redacts eventId), [.redactionRequested eventId]⟩
  | localRedact (hkind : d.kind.isRedact) (hkey : d.parentKey = none) :
      TryApplied env store d ⟨(store.removeSendQueueRequest d.parentTransactionId).2, some true, []⟩

lemma tryApplied (env : Surroundings C) (store : Store C W) (d : DependentQueuedRequest C) :
    TryApplied env store d (tryApplySingleDependentRequest env store d) := by
  unfold tryApplySingleDependentRequest
  cases hkey : d.parentKey with
  | none =>
    cases hkind : d.kind with
    | editEvent newContent => exact .localEdit hkind hkey
    | redactEvent | redactEventWithReason => exact .localRedact (by rw [hkind]; rfl) hkey
    | other kind => exact kind.elim
  | some key =>
    have hsome : d.parentKey.isSome := by simp [hkey]
    cases hevent : key.intoEventId with
    | none =>
      cases hkind : d.kind with
      | other kind => exact kind.elim
      | _ => simpa [hevent] using .stuck hsome
    | some eventId =>
      cases hroom : env.hasRoom with
      | false =>
        cases hkind : d.kind with
        | other kind => exact kind.elim
        | _ => simpa [hevent] using .stuck hsome
      | true =>
        cases hkind : d.kind with
        | editEvent newContent =>
          cases hmakes : env.makesEdit eventId newContent with
          | false => simpa [hevent, hmakes] using .dropped hkind hkey hevent hmakes
          | true => simpa [hevent, hmakes] using .edit hkind hkey hevent
        | redactEvent | redactEventWithReason => simpa [hevent] using .redact (by rw [hkind]; rfl) hkey hevent
        | other kind => exact kind.elim

end HaranaMatrix.SendQueue
