import HaranaMatrix.Lib.Postorder
import HaranaMatrix.Spaces.Graph

/-!
# The order in which a space is left

`flattened_bottom_up_subtree` lists the rooms below a space for leaving them, children first. It walks over the graph with
a stack, and it does not remember where it was: its list is the postorder of the paths.
-/

namespace HaranaMatrix.Spaces.SpaceGraph

open Postorder List

variable {RoomId : Type} [LinearOrder RoomId] {g : SpaceGraph RoomId} {n : RoomId}

/-- The loop of `flattened_bottom_up_subtree`, for at most `fuel` rooms. The head of the stack is
its top. -/
def flattenLoop (g : SpaceGraph RoomId) : ℕ → List RoomId → List RoomId → Option (List RoomId)
  | _, [], result => some result
  | 0, _ :: _, _ => none
  | fuel + 1, node :: stack, result =>
    flattenLoop g fuel ((g.childrenOf node).foldl (fun stack child => child :: stack) stack) (node :: result)

def flattenedBottomUpSubtree (g : SpaceGraph RoomId) (fuel : ℕ) (nodeId : RoomId) : Option (List RoomId) :=
  if !g.hasNode nodeId then some [] else g.flattenLoop fuel [nodeId] []

/-- **The loop lists the paths in postorder.** -/
lemma flattenLoop_lists {roots out : List RoomId} (h : Lists g.childrenOf roots out) (fuel : ℕ)
    (stack result : List RoomId) :
    g.flattenLoop (fuel + out.length) (roots.reverse ++ stack) result =
      g.flattenLoop fuel stack (out ++ result) := by
  induction h generalizing fuel stack result with
  | nil => rfl
  | @cons a as xs ys _ _ ihx ihy =>
    have hlength : fuel + (xs ++ a :: ys).length = (fuel + xs.length + 1) + ys.length := by
      simp only [length_append, length_cons]
      omega
    have hpush : (g.childrenOf a).foldl (fun stack child => child :: stack) stack =
      (g.childrenOf a).reverse ++ stack := by
      simp
    rw [hlength, reverse_cons, append_assoc, singleton_append, ihy, flattenLoop, hpush, ihx,
      append_assoc, cons_append]

/-- Each room below the space is listed once, before its parents below the space. -/
structure ChildrenFirst (g : SpaceGraph RoomId) (n : RoomId) (out : List RoomId) : Prop where
  once : out.Nodup
  below : ∀ room, room ∈ out ↔ Below g.childrenOf n room
  before : ∀ room, ∀ parent ∈ g.parentsOf room, Below g.childrenOf n parent →
    out.idxOf room < out.idxOf parent
  last : out.getLast? = some n

/-- No room has two parents below the space. -/
def OneParent (g : SpaceGraph RoomId) (n : RoomId) : Prop :=
  ∀ room, ∀ a ∈ g.parentsOf room, ∀ b ∈ g.parentsOf room, Below g.childrenOf n a →
    Below g.childrenOf n b → a = b

lemma childrenOf_nodup (g : SpaceGraph RoomId) (a : RoomId) : (g.childrenOf a).Nodup := by
  unfold childrenOf
  split
  · exact Finset.sort_nodup ..
  · exact nodup_nil

lemma idxOf_lt_of_before {out l r : List RoomId} {a b : RoomId} (hout : out = l ++ a :: r)
    (hn : out.Nodup) (hb : b ∈ l) :
    out.idxOf b < out.idxOf a := by
  subst hout
  have ha : a ∉ l := fun hmem => (nodup_append.1 hn).2.2 a hmem a (mem_cons_self ..) rfl
  rw [idxOf_append_of_mem hb, idxOf_append_of_notMem ha]
  exact Nat.lt_add_right _ (idxOf_lt_length_of_mem hb)

section Acyclic

variable (h : Wf g) (hacyclic : ∀ a, ¬ Relation.TransGen (fun a b => b ∈ g.childrenOf a) a a)
include h hacyclic

/-- **The walk over a graph without cycles ends**, after one round for every path. -/
lemma Wf.exists_lists (n : RoomId) : ∃ out, Lists g.childrenOf [n] out := by
  refine Postorder.exists_lists fun a _ => acc_of_acyclic (S := g.nodes.keys.toFinset) ?_ hacyclic a
  intro a b hb
  rw [mem_toFinset, Std.TreeMap.mem_keys]
  exact h.mem_child hb

/-- **The list is in the order for leaving exactly in trees.** -/
lemma Wf.childrenFirst_iff {out : List RoomId} (hout : Lists g.childrenOf [n] out) :
    g.ChildrenFirst n out ↔ g.OneParent n := by
  have hmem : ∀ room, room ∈ out ↔ Below g.childrenOf n room := by
    intro room
    simpa using hout.mem_iff (c := room)
  constructor
  · rintro ⟨hn, -, -, -⟩ room a ha b hb hna hnb
    exact (hout.tree hn).unique a ((hmem a).2 hna) b ((hmem b).2 hnb) room ((h.converse a room).2 ha)
      ((h.converse b room).2 hb)
  · intro hone
    have htree : Tree g.childrenOf [n] out := by
      refine ⟨fun r hr a ha hra => ?_, fun a ha b hb c hc hc' => ?_⟩
      · rw [mem_singleton] at hr
        subst hr
        exact hacyclic r (.tail' ((hmem a).1 ha) hra)
      · exact hone c a ((h.converse a c).1 hc) b ((h.converse b c).1 hc') ((hmem a).1 ha) ((hmem b).1 hb)
    have hn := hout.nodup (nodup_singleton n) g.childrenOf_nodup htree
    refine ⟨hn, hmem, fun room parent hparent hbelow => ?_, ?_⟩
    · obtain ⟨l, r, hsplit, hl⟩ := hout.before ((hmem parent).2 hbelow) ((h.converse parent room).2 hparent)
      exact idxOf_lt_of_before hsplit hn hl
    · cases hout with
      | cons _ hy =>
        cases hy
        simp

end Acyclic

/-- **The leave order of a space.** On a graph without cycles the walk returns; its list has every
room below the space once, before its parents there, exactly if no room has two parents below the
space. -/
theorem flattenedBottomUpSubtree_childrenFirst_iff (h : Wf g)
    (hacyclic : ∀ a, ¬ Relation.TransGen (fun a b => b ∈ g.childrenOf a) a a) (hn : g.hasNode n = true) :
    ∃ out, (∀ fuel, out.length ≤ fuel → g.flattenedBottomUpSubtree fuel n = some out) ∧
      (g.ChildrenFirst n out ↔ g.OneParent n) := by
  obtain ⟨out, hout⟩ := h.exists_lists hacyclic n
  refine ⟨out, fun fuel hfuel => ?_, h.childrenFirst_iff hacyclic hout⟩
  obtain ⟨k, rfl⟩ := Nat.exists_eq_add_of_le hfuel
  have hloop := flattenLoop_lists hout k [] []
  rw [Nat.add_comm] at hloop
  rw [flattenedBottomUpSubtree, hn]
  simpa [flattenLoop] using hloop

/-! ## A room with two parents -/

section Diamond

lemma childrenOf_eq {a : RoomId} {l : List RoomId} (hl : l.SortedLT) (h : ∀ b, b ∈ g.childrenOf a ↔ b ∈ l) :
    g.childrenOf a = l := by
  have hsorted : (g.childrenOf a).SortedLT := by
    unfold childrenOf
    split
    · exact Finset.sortedLT_sort _
    · exact List.Pairwise.nil.sortedLT
  refine List.Perm.eq_of_sortedLE hsorted.sortedLE hl.sortedLE ?_
  exact (perm_ext_iff_of_nodup (g.childrenOf_nodup a) hl.nodup).2 h

lemma acyclic_of_lt (h : ∀ a, ∀ b ∈ g.childrenOf a, a < b) (a : RoomId) :
    ¬ Relation.TransGen (fun a b => b ∈ g.childrenOf a) a a := by
  have hlt : ∀ b, Relation.TransGen (fun a b => b ∈ g.childrenOf a) a b → a < b := by
    intro b hab
    induction hab with
    | single hb => exact h _ _ hb
    | tail _ hc ih => exact ih.trans (h _ _ hc)
  exact fun hcycle => lt_irrefl a (hlt a hcycle)

/-- A space with two subspaces that share a room. -/
def diamond : SpaceGraph Char :=
  (((SpaceGraph.new.addEdge 'a' 'b').addEdge 'a' 'c').addEdge 'b' 'd').addEdge 'c' 'd'

lemma mem_childrenOf_diamond {a b : Char} : b ∈ diamond.childrenOf a ↔
    (a = 'c' ∧ b = 'd') ∨ (a = 'b' ∧ b = 'd') ∨ (a = 'a' ∧ b = 'c') ∨ (a = 'a' ∧ b = 'b') := by
  simp only [diamond, mem_childrenOf_addEdge, eq_comm (b := a), eq_comm (b := b)]
  simp [childrenOf, SpaceGraph.new]

lemma built_diamond : Built diamond := (((Built.new.addEdge _ _).addEdge _ _).addEdge _ _).addEdge _ _

/-- The shared room is listed twice, and the second time after one of its parents. -/
theorem flattenedBottomUpSubtree_diamond : Built diamond ∧
    (∀ a, ¬ Relation.TransGen (fun a b => b ∈ diamond.childrenOf a) a a) ∧ diamond.hasNode 'a' = true ∧
    diamond.flattenedBottomUpSubtree 5 'a' = some ['d', 'b', 'd', 'c', 'a'] := by
  have ha : diamond.childrenOf 'a' = ['b', 'c'] := childrenOf_eq (by decide) (by simp [mem_childrenOf_diamond, or_comm])
  have hb : diamond.childrenOf 'b' = ['d'] := childrenOf_eq (by decide) (by simp [mem_childrenOf_diamond])
  have hc : diamond.childrenOf 'c' = ['d'] := childrenOf_eq (by decide) (by simp [mem_childrenOf_diamond])
  have hd : diamond.childrenOf 'd' = [] := childrenOf_eq (by decide) (by simp [mem_childrenOf_diamond])
  have hnode : diamond.hasNode 'a' = true :=
    mem_of_mem_childrenOf (mem_childrenOf_diamond.2 (.inr (.inr (.inr ⟨rfl, rfl⟩))))
  refine ⟨built_diamond, acyclic_of_lt fun a b hab => ?_, hnode, ?_⟩
  · rcases mem_childrenOf_diamond.1 hab with ⟨rfl, rfl⟩ | ⟨rfl, rfl⟩ | ⟨rfl, rfl⟩ | ⟨rfl, rfl⟩ <;> decide
  · rw [flattenedBottomUpSubtree, hnode]
    simp [flattenLoop, ha, hb, hc, hd]

/-- A space with one room in it. -/
theorem flattenedBottomUpSubtree_childrenFirst_one_room : ∃ out,
    (∀ fuel, out.length ≤ fuel → (SpaceGraph.new.addEdge 'a' 'b').flattenedBottomUpSubtree fuel 'a' = some out) ∧
      (SpaceGraph.new.addEdge 'a' 'b').ChildrenFirst 'a' out := by
  have hedge : ∀ {a b : Char}, b ∈ (SpaceGraph.new.addEdge 'a' 'b').childrenOf a ↔ 'a' = a ∧ 'b' = b := by
    intro a b
    rw [mem_childrenOf_addEdge]
    simp [childrenOf, SpaceGraph.new]
  have hwf := (Built.new.addEdge 'a' 'b').wf
  obtain ⟨out, hout, hiff⟩ := flattenedBottomUpSubtree_childrenFirst_iff hwf
    (acyclic_of_lt fun a b hab => by obtain ⟨rfl, rfl⟩ := hedge.1 hab; decide)
    (mem_of_mem_childrenOf (hedge.2 ⟨rfl, rfl⟩))
  refine ⟨out, hout, hiff.2 fun room a ha b hb _ _ => ?_⟩
  obtain ⟨rfl, -⟩ := hedge.1 ((hwf.converse a room).2 ha)
  exact (hedge.1 ((hwf.converse b room).2 hb)).1

end Diamond

/-! ## After the cycles are removed -/

/-- **A space can be left whatever its edges were**: once the cycles are removed, the walk returns.
It lists the rooms below the space, and all children of a room before the last time that the room is
listed. -/
theorem flattenedBottomUpSubtree_removeCycles (h : Built g) : ∃ g', g.removeCycles = some g' ∧
    ∀ n, g.hasNode n = true → ∃ out, (∀ fuel, out.length ≤ fuel →
      g'.flattenedBottomUpSubtree fuel n = some out) ∧
      (∀ room, room ∈ out ↔ Below g'.childrenOf n room) ∧
      ∀ room ∈ out, ∀ child ∈ g'.childrenOf room, ∃ l r, out = l ++ room :: r ∧ child ∈ l := by
  obtain ⟨edges, finished, hedges, hsorted, hall, -⟩ := h.wf.edgesToRemove
  obtain ⟨hwf, hnodes, hchildren⟩ := foldl_removeEdge h.wf edges
  refine ⟨_, by rw [removeCycles, hedges]; rfl, fun n hn => ?_⟩
  have hacyclic : ∀ a, ¬ Relation.TransGen (fun a b => b ∈ (edges.foldl removeEdge g).childrenOf a) a a := by
    simp only [hchildren]
    exact hsorted.acyclic fun a b hab => hall a (mem_of_mem_childrenOf hab.1)
  obtain ⟨out, hout⟩ := hwf.exists_lists hacyclic n
  refine ⟨out, fun fuel hfuel => ?_, fun room => ?_, fun room hroom child hchild => hout.before hroom hchild⟩
  · obtain ⟨k, rfl⟩ := Nat.exists_eq_add_of_le' hfuel
    have hnode : (edges.foldl removeEdge g).hasNode n = true := (hnodes n).2 hn
    rw [flattenedBottomUpSubtree, hnode]
    simpa [flattenLoop] using flattenLoop_lists hout k [] []
  · simpa using hout.mem_iff (c := room)

/-- Two spaces that are children of each other. -/
theorem flattenedBottomUpSubtree_removeCycles_two_spaces :
    ∃ g', ((SpaceGraph.new.addEdge 'a' 'b').addEdge 'b' 'a').removeCycles = some g' ∧ ∃ out, 'a' ∈ out ∧
      ∀ fuel, out.length ≤ fuel → g'.flattenedBottomUpSubtree fuel 'a' = some out := by
  obtain ⟨g', hg', hleave⟩ := flattenedBottomUpSubtree_removeCycles ((Built.new.addEdge 'a' 'b').addEdge 'b' 'a')
  have ha : 'b' ∈ ((SpaceGraph.new.addEdge 'a' 'b').addEdge 'b' 'a').childrenOf 'a' := by
    simp [mem_childrenOf_addEdge]
  obtain ⟨out, hout, hmem, -⟩ := hleave 'a' (mem_of_mem_childrenOf ha)
  exact ⟨g', hg', out, (hmem 'a').2 .refl, hout⟩

end HaranaMatrix.Spaces.SpaceGraph
