import HaranaMatrix.Timeline.Aggregations

/-!
# Which edit is shown

Of several remote edits the greatest one is selected, and only then it is checked. A greatest edit
that is refused hides the others. -/

namespace HaranaMatrix.Timeline

open Common TimelineItemContent

variable {M P B I : Type}

/-! ## Replaced contents -/

namespace TimelineItemContent

/-- The content that is shown once an edit has replaced it; an edit of another kind replaces
nothing. -/
def replaced : TimelineItemContent M P B I → PendingEditKind M P → TimelineItemContent M P B I
  | .msgLike ⟨.message _, reactions⟩, .roomMessage newContent => .msgLike ⟨.message ⟨newContent, true⟩, reactions⟩
  | .msgLike ⟨.poll state, reactions⟩, .poll pollStart text =>
    .msgLike ⟨.poll { state with pollStart := pollStart, fallbackText := text, hasBeenEdited := true }, reactions⟩
  | content, _ => content

/-- Edits of a message are for messages, and those of a poll for polls. -/
def matchesKind : TimelineItemContent M P B I → PendingEditKind M P → Bool
  | .msgLike ⟨.message _, _⟩, .roomMessage _ => true
  | .msgLike ⟨.poll _, _⟩, .poll _ _ => true
  | _, _ => false

def isEndedPoll : TimelineItemContent M P B I → Bool
  | .msgLike ⟨.poll state, _⟩ => state.endEventTimestamp.isSome
  | _ => false

def isEdited : TimelineItemContent M P B I → Bool
  | .msgLike ⟨.message msg, _⟩ => msg.edited
  | .msgLike ⟨.poll state, _⟩ => state.hasBeenEdited
  | _ => false

def isMessageOrOpenPoll : TimelineItemContent M P B I → Bool
  | .msgLike ⟨.message _, _⟩ => true
  | .msgLike ⟨.poll state, _⟩ => state.endEventTimestamp.isNone
  | _ => false

variable {content : TimelineItemContent M P B I} {edit : PendingEditKind M P}

lemma isEdited_replaced (h : content.matchesKind edit) : (content.replaced edit).isEdited := by
  unfold matchesKind at h
  split at h
  · rfl
  · rfl
  · cases h

lemma isEndedPoll_eq_false (h : content.isMessageOrOpenPoll) : content.isEndedPoll = false := by
  unfold isMessageOrOpenPoll at h
  split at h
  · rfl
  · simpa [isEndedPoll] using h
  · cases h

end TimelineItemContent

namespace EventTimelineItem

lemma editedContent_eq (content : TimelineItemContent M P B I) (edit : PendingEditKind M P) :
    editedContent content edit =
      if content.matchesKind edit ∧ content.isEndedPoll = false then some (content.replaced edit) else none := by
  unfold editedContent
  split
  · rfl
  · next state _ _ _ =>
    by_cases h : state.endEventTimestamp.isNone
    · simp [PollState.edit, matchesKind, isEndedPoll,
        replaced, h]
    · have hsome : state.endEventTimestamp.isSome := by simpa [Option.isSome_iff_ne_none] using h
      simp [PollState.edit, matchesKind, isEndedPoll, h, hsome]
  · next hmessage hpoll =>
    have hkind : content.matchesKind edit = false := by
      unfold matchesKind
      split
      · exact absurd rfl (hmessage _ _ _ rfl)
      · exact absurd rfl (hpoll _ _ _ _ rfl)
      · rfl
    simp [hkind]

/-- A remote edit that is valid, and of the matching kind. -/
def accepts (item : EventTimelineItem M P B I) (edit : PendingEdit M P I) : Bool :=
  item.isValidEdit edit && item.content.matchesKind edit.kind

lemma content_editItem (item : EventTimelineItem M P B I) (edit : PendingEdit M P I) :
    (item.editItem edit false).map content =
      if item.accepts edit ∧ item.content.isEndedPoll = false then some (item.content.replaced edit.kind) else none := by
  by_cases hvalid : item.isValidEdit edit
  · have hcontent (content : TimelineItemContent M P B I) :
        (if edit.encryptionInfo.isSome then
          (item.withContentAndLatestEdit content edit.editJson).withEncryptionInfo edit.encryptionInfo
        else item.withContentAndLatestEdit content edit.editJson).content = content := by
      split <;> rfl
    simp only [editItem, accepts, hvalid, editedContent_eq, Bool.true_and]
    by_cases h : item.content.matchesKind edit.kind ∧ item.content.isEndedPoll = false
    · simp [h, hcontent]
    · simp [h]
  · simp [editItem, accepts, hvalid]

end EventTimelineItem

/-! ## Selection -/

/-- The remote edits among the aggregations, with their event IDs. -/
def editsOf (aggregations : List (Aggregation M P I)) : List (PendingEdit M P I × EventId) :=
  aggregations.filterMap fun aggregation =>
    match aggregation.kind, aggregation.ownId with
    | .edit edit, .eventId eventId => some (edit, eventId)
    | _, _ => none

/-- The order of an edit with its event ID. -/
def editKey (events : List EventId) (edit : PendingEdit M P I × EventId) : RemoteEditOrder :=
  remoteEditOrder edit.1 edit.2 events

def Aggregation.isRemote (aggregation : Aggregation M P I) : Bool :=
  match aggregation.ownId with
  | .eventId _ => true
  | .transactionId _ => false

lemma foldl_consider (events : List EventId) {aggregations : List (Aggregation M P I)}
    (h : ∀ a ∈ aggregations, a.isRemote) :
    aggregations.foldl (BestEdits.consider events) ⟨none, none⟩ =
      ⟨none, (greatest (editKey events) (editsOf aggregations)).map fun e => (e.1, editKey events e)⟩ := by
  induction aggregations using List.reverseRecOn with
  | nil => rfl
  | append_singleton as a ih =>
    have ha : a.isRemote := h a (by simp)
    rw [List.foldl_append, ih fun b hb => h b (by simp [hb])]
    obtain ⟨kind, ownId⟩ := a
    cases ownId with
    | transactionId id => cases ha
    | eventId id =>
      cases kind with
      | edit edit =>
        have hedits : editsOf (as ++ [⟨.edit edit, .eventId id⟩]) = editsOf as ++ [(edit, id)] := by
          simp [editsOf]
        rw [hedits, greatest_concat]
        cases hbest : greatest (editKey events) (editsOf as) with
        | none => rfl
        | some b =>
          have hkey : editKey events (edit, id) = remoteEditOrder edit id events := rfl
          by_cases hlt : editKey events b < remoteEditOrder edit id events <;>
            simp [BestEdits.consider, keepGreater, hkey, hlt]
      | _ => simp [BestEdits.consider, editsOf]

lemma bestEdit_remote (events : List EventId) {aggregations : List (Aggregation M P I)}
    (h : ∀ a ∈ aggregations, a.isRemote) :
    bestEdit aggregations events = (greatest (editKey events) (editsOf aggregations)).map fun e => (e.1, false) := by
  simp only [bestEdit, foldl_consider events h, Option.map_map]
  rfl

/-! ## Edits known before their target -/

def remoteEdit (edit : PendingEdit M P I × EventId) : Aggregation M P I := ⟨.edit edit.1, .eventId edit.2⟩

lemma editsOf_map_remoteEdit (edits : List (PendingEdit M P I × EventId)) :
    editsOf (edits.map remoteEdit) = edits := by
  simp [editsOf, remoteEdit, List.filterMap_map, Function.comp_def]

namespace EventTimelineItem

variable {events : List EventId} {item : EventTimelineItem M P B I}
  {edits : List (PendingEdit M P I × EventId)}

lemma applyEach_remoteEdits (item : EventTimelineItem M P B I) (edits : List (PendingEdit M P I × EventId)) :
    item.applyEach (edits.map remoteEdit) = (item, none) := by
  induction edits with
  | nil => rfl
  | cons edit edits ih => simpa [applyEach, remoteEdit, Aggregation.apply] using ih

lemma applyAll_remoteEdits (events : List EventId) (item : EventTimelineItem M P B I)
    (edits : List (PendingEdit M P I × EventId)) :
    (item.applyAll (edits.map remoteEdit) events).1 =
      ((greatest (editKey events) edits).bind fun e => item.editItem e.1 false).getD item := by
  have hremote : ∀ a ∈ edits.map (remoteEdit (M := M)), a.isRemote := by
    intro a ha
    obtain ⟨edit, -, rfl⟩ := List.mem_map.1 ha
    rfl
  rw [applyAll, applyEach_remoteEdits]
  simp only [resolveEdits, bestEdit_remote events hremote, editsOf_map_remoteEdit, Option.bind_map]
  rfl

/-- What the edits of an item should show: the greatest one of those that are accepted, or the
original content. -/
def ShowsGreatestAccepted (events : List EventId) (item : EventTimelineItem M P B I)
    (edits : List (PendingEdit M P I × EventId)) (content : TimelineItemContent M P B I) : Prop :=
  (∃ e ∈ edits, item.accepts e.1 ∧ (∀ e' ∈ edits, item.accepts e'.1 → editKey events e' ≤ editKey events e) ∧
    content = item.content.replaced e.1.kind) ∨
  ((∀ e ∈ edits, ¬ item.accepts e.1) ∧ content = item.content)

lemma content_applyAll_of_accepts {g : PendingEdit M P I × EventId}
    (hg : greatest (editKey events) edits = some g)
    (hopen : item.content.isMessageOrOpenPoll) (h : item.accepts g.1) :
    (item.applyAll (edits.map remoteEdit) events).1.content = item.content.replaced g.1.kind := by
  have hcontent := content_editItem item g.1
  rw [if_pos ⟨h, isEndedPoll_eq_false hopen⟩, Option.map_eq_some_iff] at hcontent
  obtain ⟨edited, hedited, hcontent⟩ := hcontent
  rw [applyAll_remoteEdits, hg, Option.bind_some, hedited]
  exact hcontent

lemma content_applyAll_of_refuses (h : ∀ g, greatest (editKey events) edits = some g → ¬ item.accepts g.1) :
    (item.applyAll (edits.map remoteEdit) events).1.content = item.content := by
  rw [applyAll_remoteEdits]
  cases hg : greatest (editKey events) edits with
  | none => rfl
  | some g =>
    have hcontent := content_editItem item g.1
    rw [if_neg fun hand => h g hg hand.1, Option.map_eq_none_iff] at hcontent
    rw [Option.bind_some, hcontent]
    rfl

/-- **The greatest accepted edit is shown** exactly if the greatest edit of all is accepted, or no
edit is. The item is a message or an open poll, and not edited, as it is when it is inserted;
without its JSON no edit is accepted. -/
theorem applyAll_showsGreatestAccepted_iff (events : List EventId) (item : EventTimelineItem M P B I)
    (edits : List (PendingEdit M P I × EventId)) (hopen : item.content.isMessageOrOpenPoll)
    (hedited : item.content.isEdited = false) (hkeys : (edits.map (editKey events)).Nodup) :
    ShowsGreatestAccepted events item edits (item.applyAll (edits.map remoteEdit) events).1.content ↔
      (∀ e ∈ edits, ¬ item.accepts e.1) ∨
        ∃ g ∈ edits, item.accepts g.1 ∧ ∀ e ∈ edits, editKey events e ≤ editKey events g := by
  constructor
  · rintro (⟨e, he, haccepts, -, hshown⟩ | ⟨hnone, -⟩)
    · -- the content is edited, so the greatest edit was applied to it
      obtain ⟨g, hg⟩ : ∃ g, greatest (editKey events) edits = some g := exists_greatest he
      obtain ⟨hmem, hle⟩ := greatest_spec hg
      by_cases hg' : item.accepts g.1
      · exact .inr ⟨g, hmem, hg', hle⟩
      · have hsame : (item.applyAll (edits.map remoteEdit) events).1.content = item.content :=
          content_applyAll_of_refuses fun g' h' => by rwa [← Option.some.inj (hg.symm.trans h')]
        have hkind : item.content.matchesKind e.1.kind := by
          simp only [accepts, Bool.and_eq_true] at haccepts
          exact haccepts.2
        have hreplaced := TimelineItemContent.isEdited_replaced hkind
        rw [← hshown, hsame, hedited] at hreplaced
        cases hreplaced
    · exact .inl hnone
  · rintro (hnone | ⟨g, hmem, haccepts, hle⟩)
    · exact .inr ⟨hnone, content_applyAll_of_refuses fun g hg => hnone g (greatest_spec hg).1⟩
    · obtain ⟨g', hg'⟩ : ∃ g', greatest (editKey events) edits = some g' := exists_greatest hmem
      obtain ⟨hmem', hle'⟩ := greatest_spec hg'
      have hsame : g' = g :=
        List.inj_on_of_nodup_map hkeys hmem' hmem (le_antisymm (hle g' hmem') (hle' g hmem))
      rw [hsame] at hg'
      exact .inl ⟨g, hmem, haccepts, fun e he _ => hle e he, content_applyAll_of_accepts hg' hopen haccepts⟩

/-- The JSON of a message, or of an edit of it. -/
def messageJson (sender eventId : String) (timestamp : ℕ) (relatesTo : Option MinimalRelatesTo) : RawEvent :=
  ⟨some ⟨sender, eventId, "m.room.message", none, relatesTo, relatesTo.isSome⟩, some (timestamp, eventId)⟩

def aliceMessage : EventTimelineItem String String String Unit where
  content := .msgLike ⟨.message ⟨"hello", false⟩, []⟩
  remote := some ⟨some (messageJson "@alice" "$message" 1 none), none, none⟩
  uneditedItem := none

/-- A replacement of the message of Alice. -/
def messageEdit (sender eventId : String) (timestamp : ℕ) (newContent : String) :
    PendingEdit String String Unit × EventId :=
  (⟨.roomMessage newContent,
    some (messageJson sender eventId timestamp (some ⟨some replacementRelType, some "$message"⟩)), none, none⟩, eventId)

theorem applyAll_showsGreatestAccepted_aliceMessage :
    ShowsGreatestAccepted ["$message", "$forged", "$edit"] aliceMessage
      [messageEdit "@alice" "$edit" 2 "hello all", messageEdit "@mallory" "$forged" 3 "goodbye"]
      (aliceMessage.applyAll
        ([messageEdit "@alice" "$edit" 2 "hello all",
          messageEdit "@mallory" "$forged" 3 "goodbye"].map remoteEdit)
        ["$message", "$forged", "$edit"]).1.content :=
  (applyAll_showsGreatestAccepted_iff ["$message", "$forged", "$edit"] aliceMessage
    [messageEdit "@alice" "$edit" 2 "hello all", messageEdit "@mallory" "$forged" 3 "goodbye"]
    rfl rfl (by decide)).2 (.inr ⟨messageEdit "@alice" "$edit" 2 "hello all", by decide, by decide, by decide⟩)

/-- The edit of Alice is hidden by a later one that Mallory made up: the message is shown as it was
sent. -/
theorem applyAll_forged_hides_edit :
    aliceMessage.accepts (messageEdit "@alice" "$edit" 2 "hello all").1 = true ∧
    aliceMessage.accepts (messageEdit "@mallory" "$forged" 3 "goodbye").1 = false ∧
    (aliceMessage.applyAll
      ([messageEdit "@alice" "$edit" 2 "hello all",
        messageEdit "@mallory" "$forged" 3 "goodbye"].map remoteEdit)
      ["$message", "$edit", "$forged"]).1.content = aliceMessage.content ∧
    ¬ ShowsGreatestAccepted ["$message", "$edit", "$forged"] aliceMessage
      [messageEdit "@alice" "$edit" 2 "hello all", messageEdit "@mallory" "$forged" 3 "goodbye"]
      (aliceMessage.applyAll
        ([messageEdit "@alice" "$edit" 2 "hello all",
          messageEdit "@mallory" "$forged" 3 "goodbye"].map remoteEdit)
        ["$message", "$edit", "$forged"]).1.content := by
  have hshown : (aliceMessage.applyAll
      ([messageEdit "@alice" "$edit" 2 "hello all",
        messageEdit "@mallory" "$forged" 3 "goodbye"].map remoteEdit)
      ["$message", "$edit", "$forged"]).1.content = aliceMessage.content := by decide
  refine ⟨by decide, by decide, hshown, ?_⟩
  rintro (⟨e, he, -, -, hcontent⟩ | ⟨hnone, -⟩)
  · have hne : ∀ e ∈ [messageEdit "@alice" "$edit" 2 "hello all",
      messageEdit "@mallory" "$forged" 3 "goodbye"],
        aliceMessage.content ≠ aliceMessage.content.replaced e.1.kind := by decide
    exact hne e he hcontent
  · exact hnone (messageEdit "@alice" "$edit" 2 "hello all") (by simp) (by decide)

end EventTimelineItem

end HaranaMatrix.Timeline
