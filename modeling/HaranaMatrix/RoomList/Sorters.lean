import HaranaMatrix.Lib.Sorted

/-!
# The order of the room list

Rooms with an unsent latest event come first, then the most recent ones, then by name. The recency
of two rooms is read off their latest events as soon as one of them has one, and off their recency
stamps otherwise. -/

namespace HaranaMatrix.RoomList

open List Std Sorted

structure RoomListItem where
  cachedLatestEventTimestamp : Option ℕ
  cachedLatestEventIsUnsent : Bool
  cachedRecencyStamp : Option ℕ
  cachedDisplayName : Option String
deriving DecidableEq, Repr

abbrev Sorter := RoomListItem → RoomListItem → Ordering

def latestEventSorter : Sorter := fun left right =>
  match left.cachedLatestEventIsUnsent, right.cachedLatestEventIsUnsent with
  | false, false => .eq
  | false, true => .gt
  | true, false => .lt
  | true, true => .eq

def extractScores (left right : RoomListItem) : Option ℕ × Option ℕ :=
  if left.cachedLatestEventTimestamp.isSome || right.cachedLatestEventTimestamp.isSome then
    (left.cachedLatestEventTimestamp, right.cachedLatestEventTimestamp)
  else (left.cachedRecencyStamp, right.cachedRecencyStamp)

def cmpImpl : Option ℕ → Option ℕ → Ordering
  | some left, some right => (compare left right).swap
  | some _, none => .lt
  | none, some _ => .gt
  | none, none => .eq

def recencySorter : Sorter := fun left right =>
  let (a, b) := extractScores left right
  cmpImpl a b

def nameSorter : Sorter := fun left right => compare left.cachedDisplayName right.cachedDisplayName

/-- The first sorter that tells the rooms apart decides. -/
def lexicographicSorter : List Sorter → Sorter
  | [], _, _ => .eq
  | sorter :: sorters, left, right =>
    match sorter left right with
    | .eq => lexicographicSorter sorters left right
    | result => result

def roomListSorter : Sorter := lexicographicSorter [latestEventSorter, recencySorter, nameSorter]

/-! ## Each sorter compares keys -/

open RoomListItem

lemma cmpImpl_eq (a b : Option ℕ) : cmpImpl a b = compare b a := by
  cases a <;> cases b <;> first | rfl | exact OrientedCmp.eq_swap.symm

instance : TransCmp latestEventSorter := by
  have : latestEventSorter = fun left right => compareOn cachedLatestEventIsUnsent right left := by
    funext left right
    unfold latestEventSorter compareOn
    cases left.cachedLatestEventIsUnsent <;> cases right.cachedLatestEventIsUnsent <;> rfl
  rw [this]
  infer_instance

/-- The stamp of a room with a latest event is never looked at when the timestamps are tied. -/
def fallbackStamp (room : RoomListItem) : Option ℕ :=
  if room.cachedLatestEventTimestamp.isSome then none else room.cachedRecencyStamp

instance : TransCmp recencySorter := by
  have : recencySorter = fun left right =>
      compareLex (compareOn cachedLatestEventTimestamp) (compareOn fallbackStamp) right left := by
    funext left right
    simp only [recencySorter, extractScores, cmpImpl_eq, compareLex, compareOn, fallbackStamp]
    rcases hl : left.cachedLatestEventTimestamp with - | a <;>
      rcases hr : right.cachedLatestEventTimestamp with - | b <;> first | rfl | simp
  rw [this]
  infer_instance

instance : TransCmp nameSorter := inferInstanceAs (TransCmp (compareOn cachedDisplayName))

lemma transCmp_lexicographicSorter {sorters : List Sorter} (h : ∀ sorter ∈ sorters, TransCmp sorter) :
    TransCmp (lexicographicSorter sorters) := by
  induction sorters with
  | nil => exact { eq_swap := rfl, isLE_trans := fun _ _ => rfl }
  | cons sorter sorters ih =>
    have hs := h sorter mem_cons_self
    have ih := ih fun s hs => h s (mem_cons_of_mem _ hs)
    have : lexicographicSorter (sorter :: sorters) = compareLex sorter (lexicographicSorter sorters) := by
      funext left right
      rw [lexicographicSorter, compareLex]
      cases sorter left right <;> rfl
    rw [this]
    infer_instance

instance : TransCmp roomListSorter :=
  transCmp_lexicographicSorter (by simp only [mem_cons, not_mem_nil, or_false]; rintro _ (rfl | rfl | rfl) <;> infer_instance)

/-! ## The sorted list -/

def isLE (left right : RoomListItem) : Bool := (roomListSorter left right).isLE

/-- The rooms as they are sorted from scratch. -/
def sorted (rooms : List RoomListItem) : List RoomListItem := rooms.mergeSort isLE

/-- The room at `index` has changed and is sorted in again, at the position that a binary search
returns. -/
def updated (rooms : List RoomListItem) (index : ℕ) (changed : RoomListItem) (position : ℕ) :
    List RoomListItem :=
  (rooms.eraseIdx index).take position ++ changed :: (rooms.eraseIdx index).drop position

/-- **Room list order.** Comparing is antisymmetric and transitive, a list has one sorted form up to
ties, and a changed room sorted in by any binary search gives that form. -/
theorem roomListSorter_preorder :
    (∀ a b, roomListSorter b a = (roomListSorter a b).swap) ∧
    (∀ a b c, isLE a b → isLE b c → isLE a c) ∧
    (∀ rooms, sorted rooms ~ rooms ∧ (sorted rooms).Pairwise (isLE · ·)) ∧
    (∀ rooms rooms', rooms' ~ rooms → rooms'.Pairwise (isLE · ·) →
      Forall₂ (roomListSorter · · = .eq) rooms' (sorted rooms)) ∧
    ∀ (rooms : List RoomListItem) (index : Fin rooms.length) changed, rooms.Pairwise (isLE · ·) →
      (∃ position, IsPlace roomListSorter (rooms.eraseIdx index) changed position) ∧
      ∀ position, IsPlace roomListSorter (rooms.eraseIdx index) changed position →
        Forall₂ (roomListSorter · · = .eq) (updated rooms index changed position)
          (sorted (rooms.set index changed)) := by
  have htotal (a b : RoomListItem) : isLE a b || isLE b a := by
    rw [isLE, isLE, @OrientedCmp.eq_swap _ roomListSorter _ b]
    cases roomListSorter a b <;> rfl
  have hsorted (rooms : List RoomListItem) : (sorted rooms).Pairwise (isLE · ·) :=
    pairwise_mergeSort (fun _ _ _ => TransCmp.isLE_trans) htotal rooms
  refine ⟨fun _ _ => OrientedCmp.eq_swap, fun _ _ _ => TransCmp.isLE_trans,
    fun rooms => ⟨mergeSort_perm _ _, hsorted rooms⟩, fun rooms rooms' hp h => ?_, fun rooms index changed h => ?_⟩
  · exact forall₂_eq_of_perm h (hsorted rooms) (hp.trans (mergeSort_perm _ _).symm)
  · have hrest := h.sublist (eraseIdx_sublist rooms index)
    refine ⟨exists_isPlace changed hrest, fun position hplace => ?_⟩
    refine forall₂_eq_of_perm (hplace.pairwise hrest) (hsorted _) (perm_middle.trans ?_)
    rw [take_append_drop]
    exact (set_perm_cons_eraseIdx index.isLt changed).symm.trans (mergeSort_perm _ _).symm

/-- The second room has become the most recent one. -/
theorem roomListSorter_preorder_two :
    let rooms : List RoomListItem := [⟨some 2, false, none, none⟩, ⟨some 1, false, none, none⟩]
    Forall₂ (roomListSorter · · = .eq) (updated rooms 1 ⟨some 3, false, none, none⟩ 0)
      (sorted (rooms.set 1 ⟨some 3, false, none, none⟩)) :=
  (roomListSorter_preorder.2.2.2.2 [⟨some 2, false, none, none⟩, ⟨some 1, false, none, none⟩] 1
    ⟨some 3, false, none, none⟩ (by decide)).2 0 (by decide)

end HaranaMatrix.RoomList
