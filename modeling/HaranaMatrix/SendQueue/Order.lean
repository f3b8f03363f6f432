import HaranaMatrix.Lib.Served
import HaranaMatrix.Lib.Splice
import HaranaMatrix.SendQueue.Dependents

/-!
# The queue delivers in order

Requests of one priority are sent in the order in which they were queued, one at a time, and leave
the queue only if they are sent, aborted, superseded or dropped. -/

namespace HaranaMatrix.SendQueue

open List Store List.Sublist QueuedRequest QueueStorage

variable {C W : Type}

/-! ## The requests of a store -/

/-- What the place of a request depends on. -/
def QueuedRequest.entry (request : QueuedRequest C W) : TransactionId × ℕ :=
    (request.transactionId, request.priority)

namespace Store

variable {store : Store C W} {transactionId : TransactionId} {f : QueuedRequest C W → QueuedRequest C W}
  {requests : List (QueuedRequest C W)} {request : QueuedRequest C W}

variable (store)

def waiting : List (TransactionId × ℕ) := store.requests.map QueuedRequest.entry

lemma map_updateFirst {β : Type} (g : QueuedRequest C W → β) (hf : ∀ request, g (f request) = g request)
    (transactionId : TransactionId) (requests : List (QueuedRequest C W)) :
    (updateFirst f transactionId requests).map g = requests.map g := by
  induction requests with
  | nil => rfl
  | cons request requests ih =>
    by_cases h : request.transactionId = transactionId
    · simp [updateFirst, h, hf]
    · simp [updateFirst, h, ih]

lemma mem_updateFirst_of_ne (h : request.transactionId ≠ transactionId) (hmem : request ∈ requests) :
    request ∈ updateFirst f transactionId requests := by
  induction requests with
  | nil => cases hmem
  | cons first requests ih =>
    by_cases hfirst : first.transactionId = transactionId
    · have hne : request ≠ first := fun heq => h (heq ▸ hfirst)
      rw [updateFirst, if_pos hfirst]
      exact mem_cons_of_mem _ ((mem_cons.1 hmem).resolve_left hne)
    · rw [updateFirst, if_neg hfirst]
      rcases mem_cons.1 hmem with rfl | hmem
      · exact mem_cons_self
      · exact mem_cons_of_mem _ (ih hmem)

lemma waiting_save (transactionId : TransactionId) (kind : QueuedRequestKind C) (priority : ℕ) :
    (store.saveSendQueueRequest transactionId kind priority).waiting =
      store.waiting ++ [(transactionId, priority)] := by
  simp [waiting, saveSendQueueRequest, entry]

lemma waiting_update (transactionId : TransactionId) (kind : QueuedRequestKind C) :
    (store.updateSendQueueRequest transactionId kind).2.waiting = store.waiting := by
  refine map_updateFirst entry (fun request => ?_) transactionId store.requests
  rfl

lemma waiting_updateStatus (transactionId : TransactionId) (error : Option W) :
    (store.updateSendQueueRequestStatus transactionId error).waiting = store.waiting := by
  refine map_updateFirst entry (fun request => ?_) transactionId store.requests
  rfl

lemma waiting_remove (transactionId : TransactionId) :
    (store.removeSendQueueRequest transactionId).2.waiting = store.waiting.eraseP (·.1 = transactionId) := by
  simp only [waiting, eraseP_map]
  rfl

variable {store}

lemma mem_waiting (h : request ∈ store.requests) : request.entry ∈ store.waiting := mem_map_of_mem h

lemma hasRequest_iff : store.hasRequest transactionId ↔ transactionId ∈ store.waiting.map Prod.fst := by
  simp only [hasRequest, waiting, map_map, any_eq_true, decide_eq_true_eq, mem_map]
  rfl

end Store

/-! ## What has happened -/

variable (log : List (Entry C))

/-- The requests in the order in which they were queued. -/
def queuedOf : List (TransactionId × ℕ) :=
  log.filterMap fun entry =>
    match entry with
    | .queued transactionId priority => some (transactionId, priority)
    | _ => none

/-- The requests in the order in which they were sent. -/
def sentOf : List (TransactionId × ℕ) :=
  log.filterMap fun entry =>
    match entry with
    | .sent transactionId priority _ => some (transactionId, priority)
    | _ => none

/-- The requests whose sending has started, and has not succeeded or failed. -/
def flights : List TransactionId :=
  log.foldl
    (fun flights entry =>
      match entry with
      | .started transactionId => flights ++ [transactionId]
      | .sent transactionId _ _ => flights.erase transactionId
      | .failed transactionId => flights.erase transactionId
      | _ => flights)
    []

lemma queuedOf_append (log log' : List (Entry C)) : queuedOf (log ++ log') = queuedOf log ++ queuedOf log' :=
  filterMap_append

lemma sentOf_append (log log' : List (Entry C)) : sentOf (log ++ log') = sentOf log ++ sentOf log' :=
  filterMap_append

/-- A request is not started once it was sent. -/
def StartsUnsent : Prop :=
  ∀ pre transactionId post, log = pre ++ .started transactionId :: post →
    transactionId ∉ (sentOf pre).map Prod.fst

variable {store : Store C W} {entry : Entry C} {transactionId : TransactionId} {log : List (Entry C)}

lemma startsUnsent_concat (h : StartsUnsent log)
    (hentry : ∀ transactionId, entry = .started transactionId → transactionId ∉ (sentOf log).map Prod.fst) :
    StartsUnsent (log ++ [entry]) := by
  intro pre transactionId post hsplit
  rcases concat_eq_append_cons hsplit with ⟨rfl, hlast, -⟩ | ⟨mid, -, hrest⟩
  · exact hentry transactionId hlast.symm
  · exact h pre transactionId mid hrest

/-- The request that is being sent. -/
def Task.request : Task C W → Option (QueuedRequest C W)
  | .sending request => some request
  | _ => none

/-! ## What holds in every state -/

/-- The dependent requests have transaction IDs of their own, which are not queued yet, and those
that redact come from aborts. -/
structure DependentsKnown (transactionIds : List TransactionId) (log : List (Entry C))
    (ds : List (DependentQueuedRequest C)) : Prop where
  nodup : (ds.map (·.ownTransactionId)).Nodup
  known : ∀ d ∈ ds, d.ownTransactionId ∈ transactionIds
  unqueued : ∀ d ∈ ds, d.ownTransactionId ∉ (queuedOf log).map Prod.fst
  aborted : ∀ d ∈ ds, d.kind.isRedact → .aborted d.parentTransactionId true ∈ log

/-- The request that is being sent is the first one of its priority in the queue. -/
structure Flying (storage : QueueStorage C W) (log : List (Entry C))
    (flying : Option (QueuedRequest C W)) : Prop where
  beingSent : storage.beingSent = flying.map (·.transactionId)
  flights : flights log = (flying.map (·.transactionId)).toList
  first : ∀ r, flying = some r → IsFirst r.entry storage.store.waiting
  kind : ∀ r, flying = some r → ∃ q ∈ storage.store.requests, q.transactionId = r.transactionId ∧
    q.kind = r.kind

structure Orderly (s : System C W) : Prop where
  served : Served (queuedOf s.log) (sentOf s.log) s.storage.store.waiting
  known : ∀ x ∈ queuedOf s.log, x.1 ∈ s.transactionIds
  dependents : DependentsKnown s.transactionIds s.log s.storage.store.dependents
  flying : Flying s.storage s.log s.task.request
  starts : StartsUnsent s.log

section DependentsKnown

variable {transactionIds transactionIds' : List TransactionId} {log log' : List (Entry C)}
  {ds ds' : List (DependentQueuedRequest C)}

section

variable (h : DependentsKnown transactionIds log ds)
include h

lemma DependentsKnown.sublist (hsub : ds'.Sublist ds) : DependentsKnown transactionIds log ds' where
  nodup := h.nodup.sublist (hsub.map _)
  known d hd := h.known d (hsub.subset hd)
  unqueued d hd := h.unqueued d (hsub.subset hd)
  aborted d hd := h.aborted d (hsub.subset hd)

lemma DependentsKnown.mono (hids : transactionIds ⊆ transactionIds') (hlog : log ⊆ log')
    (hqueued : ∀ x ∈ queuedOf log', x ∈ queuedOf log ∨ ∀ d ∈ ds, d.ownTransactionId ≠ x.1) :
    DependentsKnown transactionIds' log' ds where
  nodup := h.nodup
  known d hd := hids (h.known d hd)
  unqueued d hd hmem := by
    obtain ⟨x, hx, hfst⟩ := mem_map.1 hmem
    rcases hqueued x hx with hx | hne
    · exact h.unqueued d hd (mem_map.2 ⟨x, hx, hfst⟩)
    · exact hne d hd hfst.symm
  aborted d hd hredact := hlog (h.aborted d hd hredact)

lemma DependentsKnown.concat {d : DependentQueuedRequest C}
    (hnew : d.ownTransactionId ∉ transactionIds) (hqueued : ∀ x ∈ queuedOf log, x.1 ∈ transactionIds)
    (haborted : d.kind.isRedact → .aborted d.parentTransactionId true ∈ log) :
    DependentsKnown (d.ownTransactionId :: transactionIds) log (ds ++ [d]) where
  nodup := by
    rw [map_append, nodup_append]
    refine ⟨h.nodup, by simp, fun x hx y hy heq => hnew ?_⟩
    obtain ⟨e, he, rfl⟩ := mem_map.1 hx
    rw [map_singleton, mem_singleton] at hy
    rw [← hy, ← heq]
    exact h.known e he
  known := forall_mem_append.2 ⟨fun e he => mem_cons_of_mem _ (h.known e he), by simp⟩
  unqueued := by
    refine forall_mem_append.2 ⟨h.unqueued, forall_mem_singleton.2 fun hmem => ?_⟩
    obtain ⟨x, hx, hfst⟩ := mem_map.1 hmem
    exact hnew (hfst ▸ hqueued x hx)
  aborted := forall_mem_append.2 ⟨h.aborted, forall_mem_singleton.2 haborted⟩

end

end DependentsKnown

section Flying

variable {storage : QueueStorage C W} {store : Store C W} {log log' : List (Entry C)}
  {flying : Option (QueuedRequest C W)}

lemma Flying.sublist (h : Flying storage log flying) (hnodup : (storage.store.waiting.map Prod.fst).Nodup)
    (hsub : store.waiting.Sublist storage.store.waiting)
    (hlog : SendQueue.flights log' = SendQueue.flights log)
    (hkind : ∀ q ∈ storage.store.requests, storage.beingSent = some q.transactionId →
      ∃ q' ∈ store.requests, q'.transactionId = q.transactionId ∧ q'.kind = q.kind) :
    Flying { storage with store := store } log' flying where
  beingSent := h.beingSent
  flights := hlog.trans h.flights
  first r hr := by
    obtain ⟨q, hq, htxn, -⟩ := h.kind r hr
    obtain ⟨q', hq', htxn', -⟩ := hkind q hq (by rw [h.beingSent, hr, htxn]; rfl)
    have hfirst := h.first r hr
    have hentry : q'.entry = r.entry :=
      inj_on_of_nodup_map hnodup (hsub.subset (mem_waiting hq')) hfirst.mem (htxn'.trans htxn)
    exact hfirst.of_sublist hnodup.of_map hsub (hentry ▸ mem_waiting hq')
  kind r hr := by
    obtain ⟨q, hq, htxn, hkind'⟩ := h.kind r hr
    obtain ⟨q', hq', htxn', hkind''⟩ := hkind q hq (by rw [h.beingSent, hr, htxn]; rfl)
    exact ⟨q', hq', htxn'.trans htxn, hkind''.trans hkind'⟩

lemma Flying.save (h : Flying storage log flying) {kind : QueuedRequestKind C} {priority : ℕ} :
    Flying { storage with store := storage.store.saveSendQueueRequest transactionId kind priority }
      (log ++ [.queued transactionId priority]) flying where
  beingSent := h.beingSent
  flights := by simpa [SendQueue.flights] using h.flights
  first r hr := by
    rw [waiting_save]
    exact (h.first r hr).concat _
  kind r hr := by
    obtain ⟨q, hq, htxn⟩ := h.kind r hr
    exact ⟨q, mem_append_left _ hq, htxn⟩

end Flying

/-! ## Steps of clients -/

section Steps

variable {s s' : System C W} {transactionId child : TransactionId}

lemma Orderly.nodup (h : Orderly s) : (s.storage.store.waiting.map Prod.fst).Nodup := h.served.nodup_waiting

lemma Orderly.init : Orderly (System.init : System C W) where
  served := .nil
  known := by simp [System.init, queuedOf]
  dependents := ⟨nodup_nil, by simp [System.init], by simp [System.init], by simp [System.init]⟩
  flying := ⟨rfl, rfl, by simp [System.init, Task.request], by simp [System.init, Task.request]⟩
  starts := by intro pre t post h; simp [System.init] at h

section

variable (h : Orderly s)
include h

lemma Orderly.save (hnew : transactionId ∉ s.transactionIds)
    (hsub : store.waiting.Sublist s.storage.store.waiting)
    (hdependents : store.dependents = s.storage.store.dependents)
    (hkept : ∀ q ∈ s.storage.store.requests, s.storage.beingSent = some q.transactionId → q ∈ store.requests)
    (kind : QueuedRequestKind C) (priority : ℕ) :
    Orderly { s with
      storage := { s.storage with store := store.saveSendQueueRequest transactionId kind priority }
      transactionIds := transactionId :: s.transactionIds
      log := s.log ++ [.queued transactionId priority] } := by
  have hqueued : queuedOf (s.log ++ [.queued transactionId priority]) =
    queuedOf s.log ++ [(transactionId, priority)] :=
    queuedOf_append _ _
  have hunknown : transactionId ∉ (queuedOf s.log).map Prod.fst := by
    intro hmem
    obtain ⟨x, hx, hfst⟩ := mem_map.1 hmem
    exact hnew (hfst ▸ h.known x hx)
  constructor
  · have hserved := (h.served.drop hsub).push (x := (transactionId, priority)) hunknown
    rw [← hqueued, ← waiting_save store transactionId kind priority] at hserved
    have hsent : sentOf (s.log ++ [.queued transactionId priority]) = sentOf s.log := by simp [sentOf]
    rwa [← hsent] at hserved
  · rw [hqueued]
    exact forall_mem_append.2 ⟨fun x hx => mem_cons_of_mem _ (h.known x hx), by simp⟩
  · show DependentsKnown _ _ store.dependents
    rw [hdependents]
    refine h.dependents.mono (subset_cons_self _ _) (subset_append_left _ _) fun x hx => ?_
    rw [hqueued] at hx
    rcases mem_append.1 hx with hx | hx
    · exact .inl hx
    · rw [mem_singleton.1 hx]
      refine .inr fun d hd heq => hnew ?_
      have hknown := h.dependents.known d hd
      rwa [heq] at hknown
  · exact (h.flying.sublist h.nodup hsub rfl fun q hq hbeing => ⟨q, hkept q hq hbeing, rfl, rfl⟩).save
  · exact startsUnsent_concat h.starts nofun

lemma Orderly.call (hsub : store.waiting.Sublist s.storage.store.waiting)
    (hdependents : DependentsKnown (child :: s.transactionIds) (s.log ++ [entry]) store.dependents)
    (hkept : ∀ q ∈ s.storage.store.requests, s.storage.beingSent = some q.transactionId →
      ∃ q' ∈ store.requests, q'.transactionId = q.transactionId ∧ q'.kind = q.kind)
    (hentry : (∃ t content b, entry = .edited t content b) ∨ ∃ t b, entry = .aborted t b) :
    Orderly { s with
      storage := { s.storage with store := store }
      transactionIds := child :: s.transactionIds
      log := s.log ++ [entry] } := by
  have hqueued : queuedOf (s.log ++ [entry]) = queuedOf s.log := by
    rcases hentry with ⟨_, _, _, rfl⟩ | ⟨_, _, rfl⟩ <;> simp [queuedOf]
  have hsent : sentOf (s.log ++ [entry]) = sentOf s.log := by
    rcases hentry with ⟨_, _, _, rfl⟩ | ⟨_, _, rfl⟩ <;> simp [sentOf]
  have hflights : flights (s.log ++ [entry]) = flights s.log := by
    rcases hentry with ⟨_, _, _, rfl⟩ | ⟨_, _, rfl⟩ <;> simp [flights]
  constructor
  · rw [hqueued, hsent]
    exact h.served.drop hsub
  · intro x hx
    exact mem_cons_of_mem _ (h.known x (hqueued ▸ hx))
  · exact hdependents
  · exact h.flying.sublist h.nodup hsub hflights hkept
  · refine startsUnsent_concat h.starts fun t heq => ?_
    rcases hentry with ⟨_, _, _, rfl⟩ | ⟨_, _, rfl⟩ <;> cases heq

lemma Orderly.dependents_entry (hentry : queuedOf [entry] = []) :
    DependentsKnown s.transactionIds (s.log ++ [entry]) s.storage.store.dependents := by
  refine h.dependents.mono (List.Subset.refl _) (subset_append_left _ _) fun x hx => .inl ?_
  rwa [queuedOf_append, hentry, append_nil] at hx

lemma Orderly.known_entry (hentry : queuedOf [entry] = []) :
    ∀ x ∈ queuedOf (s.log ++ [entry]), x.1 ∈ s.transactionIds := by
  intro x hx
  rw [queuedOf_append, hentry, append_nil] at hx
  exact h.known x hx

lemma Orderly.edit (hnew : child ∉ s.transactionIds) (transactionId : TransactionId) (content : C) :
    Orderly { s with
      storage := (s.storage.replaceEvent transactionId content child).2
      transactionIds := child :: s.transactionIds
      log := s.log ++ [.edited transactionId content (s.storage.replaceEvent transactionId content child).1] } := by
  unfold replaceEvent
  split
  · next hbeing =>
    refine h.call (refl _) ?_ (fun q hq _ => ⟨q, hq, rfl, rfl⟩) (.inl ⟨_, _, _, rfl⟩)
    exact (h.dependents_entry rfl).concat (d := ⟨.editEvent content, transactionId, child, none⟩) hnew
      (h.known_entry rfl) nofun
  · next hbeing =>
    refine h.call ?_ ((h.dependents_entry rfl).mono (subset_cons_self _ _) (List.Subset.refl _) fun x hx => .inl hx)
      ?_ (.inl ⟨_, _, _, rfl⟩)
    · rw [waiting_update]
    · intro q hq hq'
      refine ⟨q, mem_updateFirst_of_ne ?_ hq, rfl, rfl⟩
      rintro rfl
      exact hbeing hq'

lemma Orderly.abort (hnew : child ∉ s.transactionIds) (transactionId : TransactionId)
    (reason : Option String) :
    Orderly { s with
      storage := (s.storage.cancelEvent transactionId reason child).2
      transactionIds := child :: s.transactionIds
      log := s.log ++ [.aborted transactionId (s.storage.cancelEvent transactionId reason child).1] } := by
  unfold cancelEvent
  split
  · next hbeing =>
    refine h.call (refl _) ?_ (fun q hq _ => ⟨q, hq, rfl, rfl⟩) (.inr ⟨_, _, rfl⟩)
    exact (h.dependents_entry rfl).concat (d := ⟨.redactEventWithReason reason, transactionId,
      child, none⟩) hnew
      (h.known_entry rfl) fun _ => by simp
  · next hbeing =>
    refine h.call ?_ ((h.dependents_entry rfl).mono (subset_cons_self _ _) (List.Subset.refl _) fun x hx => .inl hx)
      ?_ (.inr ⟨_, _, rfl⟩)
    · rw [waiting_remove]
      exact eraseP_sublist
    · intro q hq hq'
      refine ⟨q, (mem_eraseP_of_neg ?_).2 hq, rfl, rfl⟩
      simp only [decide_eq_true_eq]
      rintro rfl
      exact hbeing hq'

end

lemma exists_mem_updateFirst {f : QueuedRequest C W → QueuedRequest C W} {requests : List (QueuedRequest C W)}
    {q : QueuedRequest C W} (hf : ∀ r, (f r).transactionId = r.transactionId ∧ (f r).kind = r.kind)
    (hq : q ∈ requests) :
    ∃ q' ∈ Store.updateFirst f transactionId requests, q'.transactionId = q.transactionId ∧
      q'.kind = q.kind := by
  have hmap := Store.map_updateFirst (fun r => (r.transactionId, r.kind)) (fun r => Prod.ext (hf r).1 (hf r).2)
    transactionId requests
  have hmem : (q.transactionId, q.kind) ∈ requests.map fun r => (r.transactionId, r.kind) := mem_map_of_mem hq
  rw [← hmap] at hmem
  obtain ⟨q', hq', heq⟩ := mem_map.1 hmem
  exact ⟨q', hq', congrArg Prod.fst heq, congrArg Prod.snd heq⟩

lemma Orderly.unwedge (h : Orderly s) (transactionId : TransactionId) :
    Orderly { s with storage := s.storage.markAsUnwedged transactionId } where
  __ := h
  served := by
    show Served _ _ (s.storage.store.updateSendQueueRequestStatus transactionId none).waiting
    rw [waiting_updateStatus]
    exact h.served
  flying := by
    refine h.flying.sublist h.nodup ?_ rfl fun q hq _ => exists_mem_updateFirst (fun _ => ⟨rfl, rfl⟩) hq
    rw [waiting_updateStatus]

/-! ## Superseding requests -/

lemma foldl_supersede (key : SupersedesKey) (beingSent : Option TransactionId)
    (queued : List (QueuedRequest C W)) (store : Store C W) :
    let store' := queued.foldl
      (fun store queued =>
        if queued.kind.supersedesKey ≠ some key then store
        else if beingSent = some queued.transactionId then store
        else (store.removeSendQueueRequest queued.transactionId).2)
      store
    store'.dependents = store.dependents ∧ store'.requests.Sublist store.requests ∧
      ∀ r ∈ store.requests, r ∈ store'.requests ∨ ∃ q ∈ queued, q.transactionId = r.transactionId ∧
        q.kind.supersedesKey = some key ∧ beingSent ≠ some q.transactionId := by
  induction queued generalizing store with
  | nil => exact ⟨rfl, refl _, fun r hr => .inl hr⟩
  | cons q queued ih =>
    simp only [foldl_cons]
    by_cases hremove : q.kind.supersedesKey = some key ∧ beingSent ≠ some q.transactionId
    · obtain ⟨hdeps, hsub, hmem⟩ := ih (store.removeSendQueueRequest q.transactionId).2
      rw [if_neg (by simp [hremove.1]), if_neg hremove.2]
      refine ⟨hdeps, hsub.trans eraseP_sublist, fun r hr => ?_⟩
      by_cases htxn : q.transactionId = r.transactionId
      · exact .inr ⟨q, by simp, htxn, hremove⟩
      · have hr' : r ∈ (store.removeSendQueueRequest q.transactionId).2.requests :=
          (mem_eraseP_of_neg (by simpa using fun h => htxn h.symm)).2 hr
        rcases hmem r hr' with hr' | ⟨q', hq', hrest⟩
        · exact .inl hr'
        · exact .inr ⟨q', mem_cons_of_mem _ hq', hrest⟩
    · obtain ⟨hdeps, hsub, hmem⟩ := ih store
      have hskip : (if q.kind.supersedesKey ≠ some key then store
          else if beingSent = some q.transactionId then store
          else (store.removeSendQueueRequest q.transactionId).2) = store := by
        split_ifs <;> first | rfl | exact absurd ⟨not_not.1 ‹_›, ‹_›⟩ hremove
      rw [hskip]
      refine ⟨hdeps, hsub, fun r hr => ?_⟩
      rcases hmem r hr with hr' | ⟨q', hq', hrest⟩
      · exact .inl hr'
      · exact .inr ⟨q', mem_cons_of_mem _ hq', hrest⟩

lemma supersede_spec (storage : QueueStorage C W) (key : SupersedesKey) :
    (storage.supersede key).dependents = storage.store.dependents ∧
      (storage.supersede key).requests.Sublist storage.store.requests ∧
      ∀ r ∈ storage.store.requests, r ∈ (storage.supersede key).requests ∨
        ∃ q ∈ storage.store.requests, q.transactionId = r.transactionId ∧ q.kind.supersedesKey = some key ∧
          storage.beingSent ≠ some q.transactionId := by
  obtain ⟨hdeps, hsub, hmem⟩ := foldl_supersede key storage.beingSent storage.store.loadSendQueueRequests storage.store
  refine ⟨hdeps, hsub, fun r hr => (hmem r hr).imp_right ?_⟩
  rintro ⟨q, hq, hrest⟩
  exact ⟨q, (perm_insertionSort _ _).mem_iff.1 hq, hrest⟩

lemma superseded_spec (storage : QueueStorage C W) (kind : QueuedRequestKind C) :
    let store := match kind.supersedesKey with
      | some key => storage.supersede key
      | none => storage.store
    store.dependents = storage.store.dependents ∧ store.requests.Sublist storage.store.requests ∧
      ∀ r ∈ storage.store.requests, r ∈ store.requests ∨
        ∃ q ∈ storage.store.requests, q.transactionId = r.transactionId ∧
          q.kind.supersedesKey = kind.supersedesKey ∧
          q.kind.supersedesKey ≠ none ∧ storage.beingSent ≠ some q.transactionId := by
  cases hkey : kind.supersedesKey with
  | none => exact ⟨rfl, refl _, fun r hr => .inl hr⟩
  | some key =>
    obtain ⟨hdeps, hsub, hmem⟩ := supersede_spec storage key
    refine ⟨hdeps, hsub, fun r hr => (hmem r hr).imp_right ?_⟩
    rintro ⟨q, hq, htxn, hqkey, hbeing⟩
    exact ⟨q, hq, htxn, hqkey, by simp [hqkey], hbeing⟩

lemma Orderly.pushSuperseding (h : Orderly s) (hnew : transactionId ∉ s.transactionIds)
    (kind : QueuedRequestKind C) :
    Orderly { s with
      storage := s.storage.pushSuperseding kind transactionId
      transactionIds := transactionId :: s.transactionIds
      log := s.log ++ [.queued transactionId highPriority] } := by
  obtain ⟨hdeps, hsub, hmem⟩ := superseded_spec s.storage kind
  refine h.save hnew (hsub.map _) hdeps (fun q hq hbeing => ?_) kind highPriority
  rcases hmem q hq with hq' | ⟨q', -, htxn, -, -, hne⟩
  · exact hq'
  · exact absurd (htxn ▸ hbeing) hne

end Steps

/-! ## Dependent requests -/

section Applying

variable {env : Surroundings C} {transactionIds : List TransactionId} {log : List (Entry C)}
  {before : List (TransactionId × ℕ)} {ds : List (DependentQueuedRequest C)} {d : DependentQueuedRequest C}
  {r : Store C W × List (Entry C)}

/-- The loop over the canonical requests, with those that are left. -/
structure Applying (transactionIds : List TransactionId) (log : List (Entry C))
    (before : List (TransactionId × ℕ))
    (ds : List (DependentQueuedRequest C)) (r : Store C W × List (Entry C)) : Prop where
  served : Served (queuedOf (log ++ r.2)) (sentOf log) r.1.waiting
  known : ∀ x ∈ queuedOf (log ++ r.2), x.1 ∈ transactionIds
  dependents : DependentsKnown transactionIds (log ++ r.2) r.1.dependents
  rest : ∀ d ∈ ds, d ∈ r.1.dependents
  nodup : (ds.map (·.ownTransactionId)).Nodup
  entries : ∀ e ∈ r.2, (∃ t p, e = .queued t p) ∨ ∃ eventId, e = .redactionRequested eventId
  kept : ∀ x ∈ before, x ∈ r.1.waiting ∨ .aborted x.1 true ∈ log

section

variable (h : Applying transactionIds log before (d :: ds) r)
include h

lemma Applying.forget :
    Applying transactionIds log before ds (r.1.removeDependentQueuedRequest d.ownTransactionId, r.2) where
  __ := h
  dependents := h.dependents.sublist eraseP_sublist
  rest e he := by
    have hnodup := h.nodup
    rw [map_cons, nodup_cons] at hnodup
    refine (mem_eraseP_of_neg ?_).2 (h.rest e (mem_cons_of_mem _ he))
    simp only [decide_eq_true_eq]
    exact fun heq => hnodup.1 (heq ▸ mem_map_of_mem he)
  nodup := (nodup_cons.1 h.nodup).2

lemma Applying.skip : Applying transactionIds log before ds r :=
  { h with rest := fun e he => h.rest e (mem_cons_of_mem _ he), nodup := (nodup_cons.1 h.nodup).2 }

end

section

variable (h : Applying transactionIds log before ds r)
include h

lemma Applying.redact (eventId : EventId) :
    Applying transactionIds log before ds (r.1, r.2 ++ [.redactionRequested eventId]) := by
  have hqueued : queuedOf (log ++ (r.2 ++ [.redactionRequested eventId])) = queuedOf (log ++ r.2) := by
    simp [queuedOf]
  constructor
  · rw [hqueued]
    exact h.served
  · rw [hqueued]
    exact h.known
  · refine h.dependents.mono (List.Subset.refl _) (fun e he => ?_) fun x hx => .inl (hqueued ▸ hx)
    rw [← append_assoc]
    exact mem_append_left _ he
  · exact h.rest
  · exact h.nodup
  · exact forall_mem_append.2 ⟨h.entries, forall_mem_singleton.2 (.inr ⟨eventId, rfl⟩)⟩
  · exact h.kept

lemma Applying.save
    (hid : transactionId ∈ transactionIds) (hunqueued : transactionId ∉ (queuedOf (log ++ r.2)).map Prod.fst)
    (hdependents : ∀ d ∈ r.1.dependents, d.ownTransactionId ≠ transactionId)
    (kind : QueuedRequestKind C) (priority : ℕ) :
    Applying transactionIds log before ds
      (r.1.saveSendQueueRequest transactionId kind priority, r.2 ++ [.queued transactionId priority]) := by
  have hqueued : queuedOf (log ++ (r.2 ++ [.queued transactionId priority])) =
      queuedOf (log ++ r.2) ++ [(transactionId, priority)] := by
    rw [← append_assoc, queuedOf_append]
    rfl
  constructor
  · rw [hqueued, waiting_save]
    exact h.served.push hunqueued
  · rw [hqueued]
    exact forall_mem_append.2 ⟨h.known, forall_mem_singleton.2 hid⟩
  · refine h.dependents.mono (List.Subset.refl _) (fun e he => ?_) fun x hx => ?_
    · rw [← append_assoc]
      exact mem_append_left _ he
    · rw [hqueued] at hx
      rcases mem_append.1 hx with hx | hx
      · exact .inl hx
      · rw [mem_singleton.1 hx]
        exact .inr hdependents
  · exact h.rest
  · exact h.nodup
  · exact forall_mem_append.2 ⟨h.entries, forall_mem_singleton.2 (.inl ⟨transactionId, priority, rfl⟩)⟩
  · intro x hx
    rw [waiting_save]
    exact (h.kept x hx).imp_left (mem_append_left _)

lemma Applying.remove (haborted : .aborted transactionId true ∈ log) :
    Applying transactionIds log before ds ((r.1.removeSendQueueRequest transactionId).2, r.2) where
  __ := h
  served := by
    rw [waiting_remove]
    exact h.served.drop eraseP_sublist
  kept x hx := by
    rw [waiting_remove]
    by_cases heq : x.1 = transactionId
    · exact .inr (heq ▸ haborted)
    · exact (h.kept x hx).imp_left (mem_eraseP_of_neg (by simpa using heq)).2

lemma Applying.update (transactionId : TransactionId) (kind : QueuedRequestKind C) :
    Applying transactionIds log before ds ((r.1.updateSendQueueRequest transactionId kind).2, r.2) where
  __ := h
  served := by
    rw [waiting_update]
    exact h.served
  kept x hx := by
    rw [waiting_update]
    exact h.kept x hx

end

section

variable (h : Applying transactionIds log before (d :: ds) r)
include h

lemma Applying.aborted (hredact : d.kind.isRedact) : .aborted d.parentTransactionId true ∈ log := by
  rcases mem_append.1 (h.dependents.aborted d (h.rest d (by simp)) hredact) with hmem | hmem
  · exact hmem
  · rcases h.entries _ hmem with ⟨_, _, heq⟩ | ⟨_, heq⟩ <;> cases heq

lemma Applying.apply : Applying transactionIds log before ds (applyDependentRequest env r d) := by
  have happlied := tryApplied env r.1 d
  unfold applyDependentRequest
  generalize tryApplySingleDependentRequest env r.1 d = applied at happlied ⊢
  cases happlied with
  | stuck => simpa using h.skip
  | dropped => simpa using h.forget
  | edit hkind hkey hevent =>
    have hd := h.rest d (by simp)
    refine h.forget.save (h.dependents.known d hd) (h.dependents.unqueued d hd) (fun e he => ?_) _ _
    have he' : e ∈ r.1.dependents.eraseP (·.ownTransactionId = d.ownTransactionId) := he
    rw [eraseP_eq_filter_of_nodup_map h.dependents.nodup] at he'
    simpa using (mem_filter.1 he').2
  | localEdit hkind hkey =>
    simp only [append_nil]
    exact (h.update d.parentTransactionId _).forget
  | redact hkind hkey hevent =>
    rename_i key eventId
    cases hdone : env.redacts eventId with
    | true => simpa using (h.redact eventId).forget
    | false => simpa using (h.redact eventId).skip
  | localRedact hkind hkey =>
    simp only [append_nil]
    exact (h.remove (h.aborted hkind)).forget

end

lemma Applying.foldl (h : Applying transactionIds log before ds r) :
    Applying transactionIds log before [] (ds.foldl (applyDependentRequest env) r) := by
  induction ds generalizing r with
  | nil => exact h
  | cons d ds ih => exact ih h.apply

lemma foldl_removeNonCanonical (canonical originals : List (DependentQueuedRequest C)) (store : Store C W) :
    let store' := originals.foldl
      (fun store original =>
        if canonical.any (·.ownTransactionId = original.ownTransactionId) then store
        else store.removeDependentQueuedRequest original.ownTransactionId)
      store
    store'.requests = store.requests ∧ store'.dependents.Sublist store.dependents ∧
      ∀ d ∈ store.dependents, d ∈ canonical → d ∈ store'.dependents := by
  induction originals generalizing store with
  | nil => exact ⟨rfl, refl _, fun d hd _ => hd⟩
  | cons original originals ih =>
    simp only [foldl_cons]
    split
    · exact ih store
    · next hnone =>
      obtain ⟨hrequests, hsub, hmem⟩ := ih (store.removeDependentQueuedRequest original.ownTransactionId)
      refine ⟨hrequests, hsub.trans eraseP_sublist, fun d hd hcanonical => hmem d ?_ hcanonical⟩
      refine (mem_eraseP_of_neg ?_).2 hd
      exact fun heq => hnone (any_eq_true.2 ⟨d, hcanonical, by simpa using heq⟩)

lemma Applying.start (hserved : Served (queuedOf log) (sentOf log) store.waiting)
    (hknown : ∀ x ∈ queuedOf log, x.1 ∈ transactionIds)
    (hdependents : DependentsKnown transactionIds log store.dependents) (env : Surroundings C) :
    Applying transactionIds log store.waiting (canonicalizeDependentRequests env.walk store.dependents)
      (removeNonCanonical store (canonicalizeDependentRequests env.walk store.dependents), []) := by
  obtain ⟨hrequests, hsub, hmem⟩ :=
    foldl_removeNonCanonical (canonicalizeDependentRequests env.walk store.dependents) store.dependents store
  have hwaiting : (removeNonCanonical store (canonicalizeDependentRequests env.walk store.dependents)).waiting =
      store.waiting := congrArg (List.map entry) hrequests
  constructor
  · rwa [hwaiting, append_nil]
  · rwa [append_nil]
  · rw [append_nil]
    exact hdependents.sublist hsub
  · exact fun d hd => hmem d (mem_dependents_of_canonical hd) hd
  · refine List.Nodup.map_on (fun d hd e he heq => ?_) (nodup_canonical env.walk store.dependents).of_map
    exact inj_on_of_nodup_map hdependents.nodup (mem_dependents_of_canonical hd) (mem_dependents_of_canonical he) heq
  · exact nofun
  · intro x hx
    exact .inl (hwaiting.symm ▸ hx)

lemma Orderly.applying {s : System C W} (h : Orderly s) (env : Surroundings C) :
    Applying s.transactionIds s.log s.storage.store.waiting []
      ((s.storage.applyDependentRequests env).1.store, (s.storage.applyDependentRequests env).2) :=
  (Applying.start h.served h.known h.dependents env).foldl

end Applying

/-! ## Steps of the task -/

section TaskSteps

variable {s s' : System C W} {request : QueuedRequest C W}

lemma flights_append_quiet (log : List (Entry C)) {entries : List (Entry C)}
    (hentries : ∀ e ∈ entries, (∃ t p, e = .queued t p) ∨ ∃ eventId, e = .redactionRequested eventId) :
    flights (log ++ entries) = flights log ∧ sentOf (log ++ entries) = sentOf log ∧
      (StartsUnsent log → StartsUnsent (log ++ entries)) := by
  induction entries using List.reverseRecOn with
  | nil => simp
  | append_singleton entries e ih =>
    obtain ⟨hflights, hsent, hstarts⟩ := ih fun e' he' => hentries e' (mem_append_left _ he')
    rw [← append_assoc]
    have he := hentries e (by simp)
    refine ⟨?_, ?_, fun h => startsUnsent_concat (hstarts h) fun t heq => ?_⟩
    · rw [← hflights]
      rcases he with ⟨_, _, rfl⟩ | ⟨_, rfl⟩ <;> simp [flights]
    · rw [← hsent]
      rcases he with ⟨_, _, rfl⟩ | ⟨_, rfl⟩ <;> simp [sentOf]
    · rcases he with ⟨_, _, rfl⟩ | ⟨_, rfl⟩ <;> cases heq

lemma Flying.idle {storage : QueueStorage C W} (hbeing : storage.beingSent = none)
    (hflights : SendQueue.flights log = []) : Flying storage log none :=
  ⟨hbeing, hflights, nofun, nofun⟩

lemma Orderly.applyDependentRequests (h : Orderly s) (htask : s.task = .top) (env : Surroundings C) :
    Orderly { s with
      storage := (s.storage.applyDependentRequests env).1
      task := .applied
      log := s.log ++ (s.storage.applyDependentRequests env).2 } := by
  have happlying := h.applying env
  obtain ⟨hflights, hsent, hstarts⟩ := flights_append_quiet s.log happlying.entries
  have hflying := h.flying
  rw [htask] at hflying
  constructor
  · rw [hsent]
    exact happlying.served
  · exact happlying.known
  · exact happlying.dependents
  · exact .idle hflying.beingSent (hflights.trans hflying.flights)
  · exact hstarts h.starts

lemma Orderly.rest (h : Orderly s) (htask : s.task.request = none) {task : Task C W}
    (hrest : task.request = none)
    (enabled : Bool) : Orderly { s with task := task, enabled := enabled } where
  __ := h
  flying := by
    have hflying := h.flying
    rw [htask] at hflying
    rwa [hrest]

lemma Orderly.start (h : Orderly s) (htask : s.task.request = none)
    (hhead : s.storage.store.loadSendQueueRequests.head? = some request) :
    Orderly { s with
      storage := { s.storage with beingSent := some request.transactionId }
      task := .sending request
      log := s.log ++ [.started request.transactionId] } := by
  have hfirst : IsFirst request.entry s.storage.store.waiting := isFirst_of_head_insertionSort entry hhead
  have hmem : request ∈ s.storage.store.requests :=
    (perm_insertionSort _ _).mem_iff.1 (mem_of_mem_head? hhead)
  have hflying := h.flying
  rw [htask] at hflying
  constructor
  · simpa [queuedOf, sentOf] using h.served
  · exact h.known_entry rfl
  · exact h.dependents_entry rfl
  · refine ⟨rfl, ?_, ?_, ?_⟩
    · have hnone := hflying.flights
      simp only [flights, foldl_append] at hnone ⊢
      rw [hnone]
      rfl
    · rintro r ⟨rfl⟩
      exact hfirst
    · rintro r ⟨rfl⟩
      exact ⟨request, hmem, rfl, rfl⟩
  · refine startsUnsent_concat h.starts ?_
    rintro t ⟨rfl⟩
    exact h.served.not_mem_served hfirst.mem

lemma DependentsKnown.ready {transactionIds : List TransactionId}
    (h : DependentsKnown transactionIds log store.dependents) (transactionId : TransactionId)
    (key : SentRequestKey C) :
    DependentsKnown transactionIds log (store.markDependentQueuedRequestsAsReady transactionId key).dependents := by
  have hmem (d) (hd : d ∈ (store.markDependentQueuedRequestsAsReady transactionId key).dependents) :
      ∃ e ∈ store.dependents, d.ownTransactionId = e.ownTransactionId ∧ d.kind = e.kind ∧
        d.parentTransactionId = e.parentTransactionId := by
    obtain ⟨e, he, rfl⟩ := mem_map.1 hd
    refine ⟨e, he, ?_⟩
    split <;> exact ⟨rfl, rfl, rfl⟩
  constructor
  · have hmap : (store.markDependentQueuedRequestsAsReady transactionId key).dependents.map (·.ownTransactionId) =
        store.dependents.map (·.ownTransactionId) := by
      simp only [markDependentQueuedRequestsAsReady, map_map]
      refine map_congr_left fun d _ => ?_
      simp only [Function.comp_apply]
      split <;> rfl
    rw [hmap]
    exact h.nodup
  · intro d hd
    obtain ⟨e, he, hown, -⟩ := hmem d hd
    exact hown ▸ h.known e he
  · intro d hd
    obtain ⟨e, he, hown, -⟩ := hmem d hd
    exact hown ▸ h.unqueued e he
  · intro d hd hredact
    obtain ⟨e, he, -, hkind, hparent⟩ := hmem d hd
    exact hparent ▸ h.aborted e he (hkind ▸ hredact)

section Landing

variable (h : Orderly s) (htask : s.task = .sending request)
include h htask

lemma Orderly.flights_landed
    (hentry : (∃ p key, entry = .sent request.transactionId p key) ∨ entry = .failed request.transactionId) :
    flights (s.log ++ [entry]) = [] := by
  have hflights := h.flying.flights
  rw [htask] at hflights
  simp only [flights] at hflights ⊢
  rcases hentry with ⟨p, key, rfl⟩ | rfl <;> simp [hflights, Task.request]

lemma Orderly.first : IsFirst request.entry s.storage.store.waiting :=
  h.flying.first request (by rw [htask]; rfl)

lemma Orderly.succeed (key : SentRequestKey C) :
    Orderly { s with
      storage := s.storage.markAsSent request.transactionId key
      task := .top
      log := s.log ++ [.sent request.transactionId request.priority key] } := by
  constructor
  · show Served (queuedOf (s.log ++ _)) (sentOf (s.log ++ _)) (waiting (removeSendQueueRequest _ _).2)
    have hqueued : queuedOf [Entry.sent request.transactionId request.priority key] = [] := rfl
    rw [queuedOf_append, sentOf_append, waiting_remove, hqueued, append_nil]
    exact h.served.serve (h.first htask)
  · exact h.known_entry rfl
  · exact (h.dependents_entry rfl).ready _ _
  · exact .idle rfl (h.flights_landed htask (.inl ⟨_, _, rfl⟩))
  · exact startsUnsent_concat h.starts nofun

lemma Orderly.fail (hsub : store.waiting.Sublist s.storage.store.waiting)
    (hdependents : store.dependents = s.storage.store.dependents) :
    Orderly { s with
      storage := ⟨store, none⟩
      task := .top
      enabled := false
      log := s.log ++ [.failed request.transactionId] } := by
  constructor
  · simpa [queuedOf, sentOf] using h.served.drop hsub
  · exact h.known_entry rfl
  · rw [hdependents]
    exact h.dependents_entry rfl
  · exact .idle rfl (h.flights_landed htask (.inr rfl))
  · exact startsUnsent_concat h.starts nofun

end Landing

end TaskSteps

/-! ## Runs -/

section Runs

variable {s s' : System C W} {a : Action C W}

theorem Orderly.step (h : Orderly s) (hstep : s.step a = some s') : Orderly s' := by
  cases System.stepped hstep with
  | push hnew => exact h.save hnew (refl _) rfl (fun q hq _ => hq) _ _
  | pushSuperseding hnew => exact h.pushSuperseding hnew _
  | edit hnew => exact h.edit hnew _ _
  | abort hnew => exact h.abort hnew _ _
  | unwedge => exact h.unwedge _
  | setEnabled => exact { h with }
  | applyDependentRequests htask => exact h.applyDependentRequests htask _
  | wake htask | sleep htask => exact h.rest (by rw [htask]; rfl) rfl s.enabled
  | start htask hhead => exact h.start (by rw [htask]; rfl) hhead
  | succeed htask => exact h.succeed htask _
  | failRecoverably htask => exact h.fail htask (refl _) rfl
  | wedge htask =>
    refine h.fail htask ?_ rfl
    rw [waiting_updateStatus]
  | dropFailed htask =>
    refine h.fail htask ?_ rfl
    rw [waiting_remove]
    exact eraseP_sublist

theorem Orderly.run (h : Orderly s) {actions : List (Action C W)} (hrun : s.run actions = some s') :
    Orderly s' := by
  induction actions generalizing s with
  | nil =>
    obtain rfl := Option.some.inj hrun
    exact h
  | cons a actions ih =>
    obtain ⟨mid, hstep, hrest⟩ := Option.bind_eq_some_iff.1 hrun
    exact ih (h.step hstep) hrest

/-! ## Leaving the queue -/

/-- How a request leaves the queue: it is sent, it is aborted, also while it was being sent, it is
superseded by a request for the same thing, or it cannot be sent and others need not wait for it. -/
inductive Leaves (s : System C W) (q : QueuedRequest C W) : Action C W → Prop
  | sent {request eventId} (htask : s.task = .sending request)
    (hrequest : request.transactionId = q.transactionId) :
      Leaves s q (.succeed eventId)
  | aborted {reason child} : Leaves s q (.abort q.transactionId reason child)
  | abortedWhileSent {env} (haborted : .aborted q.transactionId true ∈ s.log) : Leaves s q (.applyDependentRequests env)
  | superseded {kind transactionId} (hsome : kind.supersedesKey ≠ none) (hkey : q.kind.supersedesKey = kind.supersedesKey) :
      Leaves s q (.pushSuperseding kind transactionId)
  | dropped {request reason} (htask : s.task = .sending request) (hrequest : request.transactionId =
    q.transactionId)
      (hsensitive : q.kind.isOrderSensitive = false) : Leaves s q (.failUnrecoverably reason)

lemma Orderly.nodup_transactionIds (h : Orderly s) :
    (s.storage.store.requests.map (·.transactionId)).Nodup := by
  have hwaiting := h.nodup
  rwa [waiting, map_map] at hwaiting

lemma Orderly.eq_of_transactionId (h : Orderly s) {q q' : QueuedRequest C W}
    (hq : q ∈ s.storage.store.requests)
    (hq' : q' ∈ s.storage.store.requests) (heq : q.transactionId = q'.transactionId) : q = q' :=
  inj_on_of_nodup_map h.nodup_transactionIds hq hq' heq

theorem Orderly.leaves (h : Orderly s) (hstep : s.step a = some s') {q : QueuedRequest C W}
    (hq : q ∈ s.storage.store.requests) (hgone : s'.storage.store.hasRequest q.transactionId =
      false) : Leaves s q a := by
  have hmem := mem_waiting hq
  have hlost : ¬ q.entry ∈ s'.storage.store.waiting := by
    intro hkept
    have hhas : s'.storage.store.hasRequest q.transactionId := hasRequest_iff.2 (mem_map_of_mem hkept)
    rw [hgone] at hhas
    cases hhas
  -- a request with another transaction ID stays
  have hstays {t : TransactionId} (hne : t ≠ q.transactionId) :
      q.entry ∈ waiting (s.storage.store.removeSendQueueRequest t).2 := by
    rw [waiting_remove]
    exact (mem_eraseP_of_neg (by simpa using fun heq => hne heq.symm)).2 hmem
  cases System.stepped hstep with
  | push hnew =>
    refine absurd ?_ hlost
    show q.entry ∈ waiting (saveSendQueueRequest _ _ _ _)
    rw [waiting_save]
    exact mem_append_left _ hmem
  | pushSuperseding hnew =>
    rename_i kind transactionId hkind
    obtain ⟨-, -, hkept⟩ := superseded_spec s.storage kind
    rcases hkept q hq with hq' | ⟨q', hq', heq, hkey, hsome, -⟩
    · refine absurd ?_ hlost
      show q.entry ∈ waiting (saveSendQueueRequest _ _ _ _)
      rw [waiting_save]
      exact mem_append_left _ (mem_waiting hq')
    · obtain rfl := h.eq_of_transactionId hq' hq heq
      exact .superseded (hkey ▸ hsome) hkey
  | edit hnew =>
    refine absurd ?_ hlost
    unfold replaceEvent
    split
    · exact hmem
    · rwa [waiting_update]
  | abort hnew =>
    rename_i transactionId reason child
    by_cases heq : transactionId = q.transactionId
    · subst heq
      exact .aborted
    · refine absurd ?_ hlost
      unfold cancelEvent
      split
      · exact hmem
      · exact hstays heq
  | applyDependentRequests htask =>
    rename_i env
    exact .abortedWhileSent (((h.applying env).kept _ hmem).resolve_left hlost)
  | succeed htask =>
    rename_i request eventId
    by_cases heq : request.transactionId = q.transactionId
    · exact .sent htask heq
    · exact absurd (hstays heq) hlost
  | unwedge | wedge htask =>
    refine absurd ?_ hlost
    show q.entry ∈ waiting (updateSendQueueRequestStatus _ _ _)
    rwa [waiting_updateStatus]
  | dropFailed htask hsensitive =>
    rename_i request reason
    by_cases heq : request.transactionId = q.transactionId
    · obtain ⟨q', hq', htxn, hkind⟩ := h.flying.kind request (by rw [htask]; rfl)
      obtain rfl := h.eq_of_transactionId hq' hq (htxn.trans heq)
      exact .dropped htask heq (hkind ▸ hsensitive)
    · exact absurd (hstays heq) hlost
  | setEnabled | wake | sleep | start | failRecoverably => exact absurd hmem hlost

/-! ## Delivery -/

lemma Orderly.not_overtaken (h : Orderly s) (hstep : s.step a = some s') (htask : s.task.request = none)
    {r q : QueuedRequest C W} (hsending : s'.task = .sending r) (hq : q ∈ s.storage.store.requests)
    (hpriority : q.priority = r.priority) (hne : q.transactionId ≠ r.transactionId) :
    [r.entry, q.entry].Sublist (queuedOf s.log) := by
  have hentry : q.entry ≠ r.entry := fun heq => hne (congrArg Prod.fst heq)
  cases System.stepped hstep with
  | start _ hhead =>
    obtain rfl := Task.sending.inj hsending
    exact h.served.sublist_of_isFirst (isFirst_of_head_insertionSort entry hhead)
      (mem_waiting hq) hpriority hentry
  | push | pushSuperseding | edit | abort | unwedge | setEnabled =>
    rw [show s.task = .sending r from hsending] at htask
    cases htask
  | wake | applyDependentRequests | sleep | succeed | failRecoverably | wedge | dropFailed => cases hsending

end Runs

/-- **The queue delivers in order**: over every run at most one request is in flight, requests of a
priority are sent in the order in which they were queued and none is picked while an earlier one is
in the queue, none is started again once it was sent, and a request leaves the queue only by being
sent, aborted, superseded or dropped. -/
theorem run_delivers_in_order {s : System C W} {actions : List (Action C W)}
    (h : System.init.run actions = some s) : (flights s.log).length ≤ 1 ∧
      (∀ p, ((sentOf s.log).filter (·.2 = p)).Sublist ((queuedOf s.log).filter (·.2 = p))) ∧
      (∀ a s' r q, s.step a = some s' → s.task.request = none → s'.task = .sending r →
        q ∈ s.storage.store.requests →
        q.priority = r.priority → q.transactionId ≠ r.transactionId →
          [r.entry, q.entry].Sublist (queuedOf s.log)) ∧
      (∀ pre transactionId post, s.log = pre ++ .started transactionId :: post →
        transactionId ∉ (sentOf pre).map Prod.fst) ∧
      ∀ a s' q, s.step a = some s' → q ∈ s.storage.store.requests →
        s'.storage.store.hasRequest q.transactionId = false → Leaves s q a := by
  have horderly : Orderly s := Orderly.init.run h
  refine ⟨?_, fun p => ?_, ?_, horderly.starts, ?_⟩
  · rw [horderly.flying.flights]
    cases s.task.request <;> simp
  · exact ((sublist_append_left _ _).filter _).trans (horderly.served.order p)
  · intro a s' r q hstep htask hsending hq hpriority hne
    exact horderly.not_overtaken hstep htask hsending hq hpriority hne
  · intro a s' q hstep hq hgone
    exact horderly.leaves hstep hq hgone

/-- Surroundings in which everything works out. -/
def Surroundings.fair : Surroundings C where
  walk := ⟨id, List.Perm.refl⟩
  hasRoom := true
  makesEdit _ _ := true
  redacts _ := true

/-- Two messages; the first is edited while it is being sent and fails once. -/
def twoMessages : List (Action String Unit) :=
  [.push (.event (.new "one")) "t1", .push (.event (.new "two")) "t2", .applyDependentRequests .fair, .peek,
    .edit "t1" "one!" "e1", .failRecoverably, .setEnabled true, .applyDependentRequests .fair, .peek, .succeed "$1",
    .applyDependentRequests .fair, .peek, .succeed "$2"]

theorem twoMessages_delivered : ∃ s, System.init.run twoMessages = some s ∧
    sentOf s.log = [("t1", 0), ("t2", 0)] ∧ (flights s.log).length ≤ 1 := by
  have hrun : (System.init.run twoMessages).isSome := rfl
  exact ⟨_, (Option.some_get hrun).symm, rfl, (run_delivers_in_order (Option.some_get hrun).symm).1⟩

end HaranaMatrix.SendQueue
