import HaranaMatrix.Lib.Dfs

/-!
# The graph of spaces

Rooms and their parent-child relations. `removeCycles` searches the graph depth first from every
node, in the order of the room identifiers, and then removes the edges that led back to the path of
the search. The search is given fuel for its recursion; with one unit for each node and one more it
never runs out. -/

namespace HaranaMatrix.Spaces

open Dfs List

variable {RoomId : Type} [LinearOrder RoomId]

structure SpaceGraphNode (RoomId : Type) where
  id : RoomId
  parents : Finset RoomId
  children : Finset RoomId

def SpaceGraphNode.new (id : RoomId) : SpaceGraphNode RoomId := ⟨id, ∅, ∅⟩

structure SpaceGraph (RoomId : Type) [LinearOrder RoomId] where
  nodes : Std.TreeMap RoomId (SpaceGraphNode RoomId) compare

namespace SpaceGraph

def new : SpaceGraph RoomId := ⟨∅⟩

variable (g : SpaceGraph RoomId)

/-- The nodes without parents. -/
def rootNodes : List RoomId :=
  -- `BTreeMap::values`
  ((g.nodes.toList.map Prod.snd).filter (·.parents = ∅)).map (·.id)

variable (nodeId : RoomId)

def childrenOf : List RoomId :=
  match g.nodes[nodeId]? with
  | some node => node.children.sort
  | none => []

def parentsOf : List RoomId :=
  match g.nodes[nodeId]? with
  | some node => node.parents.sort
  | none => []

def addNode : SpaceGraph RoomId :=
  ⟨g.nodes.insertIfNew nodeId (.new nodeId)⟩

def hasNode : Bool := g.nodes.contains nodeId

/-- `entry(id).or_insert(new(id))`, and then a change of the entry -/
def modifyEntry (f : SpaceGraphNode RoomId → SpaceGraphNode RoomId) : SpaceGraph RoomId :=
  ⟨(g.nodes.insertIfNew nodeId (.new nodeId)).modify nodeId f⟩

def addEdge (parentId childId : RoomId) : SpaceGraph RoomId :=
  let g := g.modifyEntry parentId fun node => { node with children := insert childId node.children }
  g.modifyEntry childId fun node => { node with parents := insert parentId node.parents }

/-! ## Removing cycles -/

structure DfsState (RoomId : Type) where
  visited : Finset RoomId
  stack : Finset RoomId
  edgesToRemove : List (RoomId × RoomId)

def dfsRemoveCycles (g : SpaceGraph RoomId) : ℕ → RoomId → DfsState RoomId → Option (DfsState RoomId)
  | 0, _, _ => none
  | fuel + 1, nodeId, s =>
    if nodeId ∈ s.visited then some s
    else do
      let s := { s with visited := insert nodeId s.visited, stack := insert nodeId s.stack }
      let s ← (g.childrenOf nodeId).foldlM (fun s child =>
        if child ∈ s.stack then some { s with edgesToRemove := s.edgesToRemove ++ [(nodeId, child)] }
        else g.dfsRemoveCycles fuel child s) s
      return { s with stack := s.stack.erase nodeId }

/-- The edges that the search marks for removal. -/
def edgesToRemove : Option (List (RoomId × RoomId)) := do
  let s ← g.nodes.keys.foldlM (fun s nodeId => g.dfsRemoveCycles (g.nodes.size + 1) nodeId s) ⟨∅, ∅, []⟩
  return s.edgesToRemove

def removeEdge (edge : RoomId × RoomId) : SpaceGraph RoomId :=
  let nodes := g.nodes.modify edge.1 fun node => { node with children := node.children.erase edge.2 }
  ⟨nodes.modify edge.2 fun node => { node with parents := node.parents.erase edge.1 }⟩

def removeCycles : Option (SpaceGraph RoomId) := do
  let edges ← g.edgesToRemove
  return edges.foldl removeEdge g

/-! ## Entries -/

section Entries

variable {g : SpaceGraph RoomId} {a b k : RoomId}

lemma mem_childrenOf : b ∈ g.childrenOf a ↔ ∃ node, g.nodes[a]? = some node ∧ b ∈ node.children := by
  unfold childrenOf
  cases g.nodes[a]? with
  | none => simp
  | some node => simp

lemma mem_parentsOf : b ∈ g.parentsOf a ↔ ∃ node, g.nodes[a]? = some node ∧ b ∈ node.parents := by
  unfold parentsOf
  cases g.nodes[a]? with
  | none => simp
  | some node => simp

lemma mem_nodes_iff : a ∈ g.nodes ↔ ∃ node, g.nodes[a]? = some node := by
  rw [Std.TreeMap.mem_iff_isSome_getElem?, Option.isSome_iff_exists]

lemma getElem?_insertIfNew : (g.nodes.insertIfNew k (.new k))[a]? =
    if k = a then some (g.nodes[a]?.getD (.new a)) else g.nodes[a]? := by
  simp only [Std.TreeMap.getElem?_insertIfNew, compare_eq_iff_eq]
  by_cases h : k = a
  · subst h
    by_cases hk : k ∈ g.nodes <;> simp [hk]
  · simp [h]

lemma getElem?_modifyEntry (f : SpaceGraphNode RoomId → SpaceGraphNode RoomId) :
    (g.modifyEntry k f).nodes[a]? = if k = a then some (f (g.nodes[a]?.getD (.new a))) else g.nodes[a]? := by
  simp only [modifyEntry, Std.TreeMap.getElem?_modify, getElem?_insertIfNew, compare_eq_iff_eq]
  by_cases h : k = a
  · subst h
    simp
  · simp [h]

lemma mem_childrenOf_getD : b ∈ g.childrenOf a ↔ b ∈ (g.nodes[a]?.getD (.new a)).children := by
  unfold childrenOf
  cases g.nodes[a]? with
  | none => simp [SpaceGraphNode.new]
  | some node => simp

lemma mem_parentsOf_getD : b ∈ g.parentsOf a ↔ b ∈ (g.nodes[a]?.getD (.new a)).parents := by
  unfold parentsOf
  cases g.nodes[a]? with
  | none => simp [SpaceGraphNode.new]
  | some node => simp

lemma mem_childrenOf_addEdge {p c : RoomId} :
    b ∈ (g.addEdge p c).childrenOf a ↔ (p = a ∧ c = b) ∨ b ∈ g.childrenOf a := by
  simp only [mem_childrenOf_getD, addEdge, getElem?_modifyEntry]
  by_cases hc : c = a <;> by_cases hp : p = a <;> simp [hc, hp, eq_comm (a := b)]

lemma mem_parentsOf_addEdge {p c : RoomId} :
    b ∈ (g.addEdge p c).parentsOf a ↔ (c = a ∧ p = b) ∨ b ∈ g.parentsOf a := by
  simp only [mem_parentsOf_getD, addEdge, getElem?_modifyEntry]
  by_cases hc : c = a <;> by_cases hp : p = a <;> simp [hc, hp, eq_comm (a := b)]

lemma mem_childrenOf_addNode : b ∈ (g.addNode k).childrenOf a ↔ b ∈ g.childrenOf a := by
  simp only [mem_childrenOf_getD, addNode, getElem?_insertIfNew]
  by_cases h : k = a <;> simp [h]

lemma mem_parentsOf_addNode : b ∈ (g.addNode k).parentsOf a ↔ b ∈ g.parentsOf a := by
  simp only [mem_parentsOf_getD, addNode, getElem?_insertIfNew]
  by_cases h : k = a <;> simp [h]

/-- The graphs that `add_node` and `add_edge` build. -/
inductive Built : SpaceGraph RoomId → Prop
  | new : Built .new
  | addNode {g : SpaceGraph RoomId} (h : Built g) (nodeId : RoomId) : Built (g.addNode nodeId)
  | addEdge {g : SpaceGraph RoomId} (h : Built g) (parentId childId : RoomId) : Built (g.addEdge parentId childId)

/-- Nodes are stored under their identifiers. -/
def Stored (g : SpaceGraph RoomId) : Prop :=
  ∀ (a : RoomId) (node : SpaceGraphNode RoomId), g.nodes[a]? = some node → node.id = a

lemma Stored.getD (h : Stored g) (a : RoomId) : (g.nodes[a]?.getD (.new a)).id = a := by
  cases hnode : g.nodes[a]? with
  | none => rfl
  | some node => exact h a node hnode

lemma Stored.modifyEntry (h : Stored g) {f : SpaceGraphNode RoomId → SpaceGraphNode RoomId}
    (hf : ∀ node, (f node).id = node.id) (k : RoomId) : Stored (g.modifyEntry k f) := by
  intro a node hnode
  rw [getElem?_modifyEntry] at hnode
  split at hnode
  · cases hnode
    rw [hf, h.getD]
  · exact h a node hnode

lemma Stored.addNode (h : Stored g) (k : RoomId) : Stored (g.addNode k) := by
  intro a node hnode
  rw [SpaceGraph.addNode, getElem?_insertIfNew] at hnode
  split at hnode
  · cases hnode
    exact h.getD a
  · exact h a node hnode

lemma Stored.addEdge (h : Stored g) (p c : RoomId) : Stored (g.addEdge p c) := by
  refine (h.modifyEntry ?_ p).modifyEntry ?_ c
  · exact fun _ => rfl
  · exact fun _ => rfl

/-- Parents and children are converse to each other. -/
structure Wf (g : SpaceGraph RoomId) : Prop where
  stored : Stored g
  converse : ∀ a b, b ∈ g.childrenOf a ↔ a ∈ g.parentsOf b

lemma mem_of_mem_childrenOf (hab : b ∈ g.childrenOf a) : a ∈ g.nodes := by
  obtain ⟨node, hnode, -⟩ := mem_childrenOf.1 hab
  exact mem_nodes_iff.2 ⟨node, hnode⟩

lemma Wf.mem_child (h : Wf g) (hab : b ∈ g.childrenOf a) : b ∈ g.nodes := by
  obtain ⟨node, hnode, -⟩ := mem_parentsOf.1 ((h.converse a b).1 hab)
  exact mem_nodes_iff.2 ⟨node, hnode⟩

theorem Built.wf (h : Built g) : Wf g := by
  induction h with
  | new =>
    refine ⟨fun a node h => ?_, fun a b => ?_⟩
    · simp [SpaceGraph.new] at h
    · simp [mem_childrenOf, mem_parentsOf, SpaceGraph.new]
  | addNode _ nodeId ih =>
    refine ⟨ih.stored.addNode nodeId, fun a b => ?_⟩
    rw [mem_childrenOf_addNode, mem_parentsOf_addNode, ih.converse]
  | addEdge _ parentId childId ih =>
    refine ⟨ih.stored.addEdge parentId childId, fun a b => ?_⟩
    rw [mem_childrenOf_addEdge, mem_parentsOf_addEdge, ih.converse, and_comm]

end Entries

/-! ## The search -/

section Search

variable {g : SpaceGraph RoomId} {s : DfsState RoomId} {fuel : ℕ}

/-- The number of nodes that are not visited yet. -/
def unvisited (g : SpaceGraph RoomId) (visited : Finset RoomId) : ℕ := (g.nodes.keys.toFinset \ visited).card

lemma unvisited_anti {visited visited' : Finset RoomId} (h : visited ⊆ visited') :
    g.unvisited visited' ≤ g.unvisited visited :=
  Finset.card_le_card (Finset.sdiff_subset_sdiff subset_rfl h)

lemma unvisited_insert {visited : Finset RoomId} {a : RoomId} (ha : a ∈ g.nodes) (hv : a ∉ visited) :
    g.unvisited (insert a visited) < g.unvisited visited := by
  refine Finset.card_lt_card (Finset.ssubset_iff_subset_ne.2 ⟨Finset.sdiff_subset_sdiff subset_rfl
    (Finset.subset_insert _ _), fun heq => ?_⟩)
  have hmem : a ∈ g.nodes.keys.toFinset \ visited := by simp [ha, hv]
  rw [← heq] at hmem
  simp at hmem

/-- With enough fuel, the search from a node walks the part of the graph that it has not visited. -/
def Searches (g : SpaceGraph RoomId) (fuel : ℕ) : Prop :=
  ∀ nodeId s, nodeId ∈ g.nodes → nodeId ∉ s.stack → g.unvisited s.visited < fuel →
    ∃ s' finished back, g.dfsRemoveCycles fuel nodeId s = some s' ∧ s'.stack = s.stack ∧
      s'.edgesToRemove = s.edgesToRemove ++ back ∧
      ∀ u, Walk g.childrenOf s.stack s.visited u [nodeId] s'.visited finished back

lemma Searches.children (h : g.Searches fuel) (nodeId : RoomId) (cs : List RoomId)
    (hcs : ∀ c ∈ cs, c ∈ g.nodes) (hfuel : g.unvisited s.visited < fuel) :
    ∃ s' finished back, cs.foldlM (fun s child =>
        if child ∈ s.stack then some { s with edgesToRemove := s.edgesToRemove ++ [(nodeId, child)] }
        else g.dfsRemoveCycles fuel child s) s = some s' ∧ s'.stack = s.stack ∧
      s'.edgesToRemove = s.edgesToRemove ++ back ∧
      Walk g.childrenOf s.stack s.visited nodeId cs s'.visited finished back := by
  induction cs generalizing s with
  | nil => exact ⟨s, [], [], rfl, rfl, (append_nil _).symm, .nil _ _ _⟩
  | cons c cs ih =>
    obtain ⟨hc, hcs⟩ := forall_mem_cons.1 hcs
    rw [foldlM_cons]
    by_cases hstack : c ∈ s.stack
    · obtain ⟨s', finished, back, hs', hst, hedges, hwalk⟩ := ih
        (s := { s with edgesToRemove := s.edgesToRemove ++ [(nodeId, c)] }) hcs hfuel
      refine ⟨s', finished, (nodeId, c) :: back, ?_, hst, ?_, .back hstack hwalk⟩
      · rw [if_pos hstack]
        exact hs'
      · rw [hedges, append_assoc]
        rfl
    · obtain ⟨s₁, finished₁, back₁, hs₁, hst₁, hedges₁, hwalk₁⟩ := h c s hc hstack hfuel
      have hwalk := hwalk₁ nodeId
      obtain ⟨s', finished, back, hs', hst, hedges, hwalk₂⟩ := ih hcs
        ((unvisited_anti hwalk.subset).trans_lt hfuel)
      rw [hst₁] at hst hwalk₂
      refine ⟨s', _, _, ?_, hst, ?_, hwalk.append hwalk₂⟩
      · rw [if_neg hstack, hs₁]
        exact hs'
      · rw [hedges, hedges₁, append_assoc]

/-- **The search walks the graph**, when the fuel exceeds the number of nodes that are not
visited. -/
theorem Wf.searches (h : Wf g) (fuel : ℕ) : g.Searches fuel := by
  induction fuel with
  | zero => exact fun nodeId s _ _ hfuel => absurd hfuel (Nat.not_lt_zero _)
  | succ fuel ih =>
    intro nodeId s hnode hstack hfuel
    by_cases hvisited : nodeId ∈ s.visited
    · refine ⟨s, [], [], ?_, rfl, (append_nil _).symm, fun u => .seen hstack hvisited (.nil _ _ _)⟩
      rw [dfsRemoveCycles, if_pos hvisited]
    · have hlt := unvisited_insert hnode hvisited
      obtain ⟨s', finished, back, hs', hst, hedges, hwalk⟩ := ih.children
        (s := { s with visited := insert nodeId s.visited, stack := insert nodeId s.stack }) nodeId
        (g.childrenOf nodeId) (fun c hc => h.mem_child hc) (by simp only; omega)
      have hdone : ∀ u, Walk g.childrenOf s.stack s.visited u [nodeId] s'.visited (finished ++ [nodeId])
          (back ++ []) := fun u => .down hstack hvisited hwalk (.nil _ _ _)
      rw [append_nil] at hdone
      refine ⟨{ s' with stack := s'.stack.erase nodeId }, _, _, ?_, ?_, hedges, hdone⟩
      · rw [dfsRemoveCycles, if_neg hvisited]
        simp only [Option.bind_eq_bind]
        rw [hs']
        rfl
      · simp only [hst, Finset.erase_insert hstack]

lemma Searches.roots (h : g.Searches fuel) (u : RoomId) (cs : List RoomId) (hcs : ∀ c ∈ cs, c ∈ g.nodes)
    (hfuel : g.unvisited s.visited < fuel) (hstack : s.stack = ∅) :
    ∃ s' finished back, cs.foldlM (fun s nodeId => g.dfsRemoveCycles fuel nodeId s) s = some s' ∧
      s'.edgesToRemove = s.edgesToRemove ++ back ∧
      Walk g.childrenOf ∅ s.visited u cs s'.visited finished back := by
  induction cs generalizing s with
  | nil => exact ⟨s, [], [], rfl, (append_nil _).symm, .nil _ _ _⟩
  | cons c cs ih =>
    obtain ⟨hc, hcs⟩ := forall_mem_cons.1 hcs
    obtain ⟨s₁, finished₁, back₁, hs₁, hst₁, hedges₁, hwalk₁⟩ := h c s hc (by simp [hstack]) hfuel
    have hwalk := hwalk₁ u
    rw [hstack] at hwalk hst₁
    obtain ⟨s', finished, back, hs', hedges, hwalk₂⟩ := ih hcs
      ((unvisited_anti hwalk.subset).trans_lt hfuel) hst₁
    refine ⟨s', _, _, ?_, ?_, hwalk.append hwalk₂⟩
    · rw [foldlM_cons, hs₁]
      exact hs'
    · rw [hedges, hedges₁, append_assoc]

/-- **The search returns**, and the edges that it marks are those that lead back. -/
theorem Wf.edgesToRemove (h : Wf g) : ∃ edges finished, g.edgesToRemove = some edges ∧
    Sorted g.childrenOf edges finished ∧ (∀ a ∈ g.nodes, a ∈ finished) ∧
    ∀ e ∈ edges, e.2 ∈ g.childrenOf e.1 ∧
      Relation.ReflTransGen (fun a b => b ∈ g.childrenOf a) e.2 e.1 := by
  by_cases hempty : g.nodes.keys = []
  · refine ⟨[], [], ?_, .nil, fun a ha => ?_, by simp⟩
    · simp [SpaceGraph.edgesToRemove, hempty]
    · rw [← Std.TreeMap.mem_keys, hempty] at ha
      cases ha
  · obtain ⟨u, -, -⟩ := exists_cons_of_ne_nil hempty
    have hfuel : g.unvisited ∅ < g.nodes.size + 1 := by
      rw [unvisited, Finset.sdiff_empty, ← Std.TreeMap.length_keys]
      exact Nat.lt_succ_of_le (toFinset_card_le _)
    obtain ⟨s', finished, back, hs', hedges, hwalk⟩ := (h.searches (g.nodes.size + 1)).roots
      (s := ⟨∅, ∅, []⟩) u g.nodes.keys (fun c hc => Std.TreeMap.mem_keys.1 hc) hfuel rfl
    have hnil : Sorted g.childrenOf [] [] := .nil
    obtain ⟨hsorted, -, hall⟩ := hwalk.sorted (by simp) hnil
    refine ⟨back, finished, ?_, hsorted, fun a ha => ?_, hwalk.back_on_cycle (by simp) (by simp)⟩
    · rw [SpaceGraph.edgesToRemove, hs']
      exact congrArg some hedges
    · simpa using hall a (Std.TreeMap.mem_keys.2 ha)

end Search

/-! ## The graph without the marked edges -/

section Remove

variable {g : SpaceGraph RoomId} {a b : RoomId}

variable (edge : RoomId × RoomId)

lemma mem_removeEdge : a ∈ (g.removeEdge edge).nodes ↔ a ∈ g.nodes := by
  rw [removeEdge, Std.TreeMap.mem_modify, Std.TreeMap.mem_modify]

lemma getElem?_modify (nodes : Std.TreeMap RoomId (SpaceGraphNode RoomId) compare)
    (f : SpaceGraphNode RoomId → SpaceGraphNode RoomId) (k : RoomId) :
    (nodes.modify k f)[a]? = if k = a then nodes[a]?.map f else nodes[a]? := by
  rw [Std.TreeMap.getElem?_modify]
  by_cases h : k = a
  · subst h
    simp
  · simp [h]

lemma mem_childrenOf_removeEdge : b ∈ (g.removeEdge edge).childrenOf a ↔
    b ∈ g.childrenOf a ∧ edge ≠ (a, b) := by
  obtain ⟨p, c⟩ := edge
  simp only [childrenOf, removeEdge, getElem?_modify]
  cases g.nodes[a]? with
  | none => by_cases hc : c = a <;> by_cases hp : p = a <;> simp [hc, hp]
  | some node => by_cases hc : c = a <;> by_cases hp : p = a <;> simp [hc, hp, and_comm, eq_comm (a := b)]

lemma mem_parentsOf_removeEdge : a ∈ (g.removeEdge edge).parentsOf b ↔ a ∈ g.parentsOf b ∧ edge ≠ (a, b) := by
  obtain ⟨p, c⟩ := edge
  simp only [parentsOf, removeEdge, getElem?_modify]
  cases g.nodes[b]? with
  | none => by_cases hc : c = b <;> by_cases hp : p = b <;> simp [hc, hp]
  | some node => by_cases hc : c = b <;> by_cases hp : p = b <;> simp [hc, hp, and_comm, eq_comm (a := a)]

lemma Stored.removeEdge (h : Stored g) (edge : RoomId × RoomId) : Stored (g.removeEdge edge) := by
  intro a node hnode
  simp only [SpaceGraph.removeEdge, getElem?_modify] at hnode
  have hid := h a
  cases hentry : g.nodes[a]? with
  | none => split_ifs at hnode <;> simp [hentry] at hnode
  | some old =>
    have := hid old hentry
    split_ifs at hnode <;> simp only [hentry, Option.map_some, Option.some.injEq] at hnode <;> rw [← hnode] <;> exact this

lemma foldl_removeEdge (h : Wf g) (edges : List (RoomId × RoomId)) :
    Wf (edges.foldl removeEdge g) ∧ (∀ a, a ∈ (edges.foldl removeEdge g).nodes ↔ a ∈ g.nodes) ∧
      ∀ a b, b ∈ (edges.foldl removeEdge g).childrenOf a ↔ Kept g.childrenOf edges a b := by
  induction edges generalizing g with
  | nil => exact ⟨h, fun a => Iff.rfl, fun a b => by simp [Kept]⟩
  | cons edge edges ih =>
    have h₁ : Wf (g.removeEdge edge) := ⟨h.stored.removeEdge edge, fun a b => by
      rw [mem_childrenOf_removeEdge, mem_parentsOf_removeEdge, h.converse]⟩
    obtain ⟨hwf, hnodes, hchildren⟩ := ih h₁
    refine ⟨hwf, fun a => (hnodes a).trans (mem_removeEdge edge), fun a b => (hchildren a b).trans ?_⟩
    simp only [Kept, mem_childrenOf_removeEdge, mem_cons, not_or, and_assoc, ne_comm (b := edge)]

lemma Stored.mem_rootNodes (h : Stored g) (ha : a ∈ g.nodes) (hroot : ∀ b, b ∉ g.parentsOf a) :
    a ∈ g.rootNodes := by
  obtain ⟨node, hnode⟩ := mem_nodes_iff.1 ha
  refine mem_map.2 ⟨node, mem_filter.2 ⟨mem_map.2 ⟨(a, node), ?_, rfl⟩, ?_⟩, h a node hnode⟩
  · exact Std.TreeMap.mem_toList_iff_getElem?_eq_some.2 hnode
  · rw [decide_eq_true_iff, Finset.eq_empty_iff_forall_notMem]
    exact fun b hb => hroot b (mem_parentsOf.2 ⟨node, hnode, hb⟩)

end Remove

/-- **Removing cycles damages the hierarchy as little as possible.** It returns; afterwards the
graph has no directed cycle, the nodes are the same, parents and children are converse to each
other, only edges on a directed cycle are gone, a graph without cycles is left alone, and every node
is reachable from a root. -/
theorem removeCycles_hierarchy {g : SpaceGraph RoomId} (h : Built g) :
    ∃ g', g.removeCycles = some g' ∧
      (∀ a, ¬ Relation.TransGen (fun a b => b ∈ g'.childrenOf a) a a) ∧
      (∀ a, g'.hasNode a = g.hasNode a) ∧
      (∀ a b, b ∈ g'.childrenOf a ↔ a ∈ g'.parentsOf b) ∧
      (∀ a b, b ∈ g'.childrenOf a → b ∈ g.childrenOf a) ∧
      (∀ a b, b ∈ g.childrenOf a → b ∉ g'.childrenOf a →
        Relation.ReflTransGen (fun a b => b ∈ g.childrenOf a) b a) ∧
      ((∀ a, ¬ Relation.TransGen (fun a b => b ∈ g.childrenOf a) a a) → g' = g) ∧
      ∀ a, g'.hasNode a = true → ∃ r ∈ g'.rootNodes, Relation.ReflTransGen (fun a b => b ∈ g'.childrenOf a) r a := by
  obtain ⟨edges, finished, hedges, hsorted, hall, hcycle⟩ := h.wf.edgesToRemove
  obtain ⟨hwf, hnodes, hchildren⟩ := foldl_removeEdge h.wf edges
  set g' := edges.foldl removeEdge g with hg'
  have hkept : (fun a b => b ∈ g'.childrenOf a) = Kept g.childrenOf edges := by
    funext a b
    exact propext (hchildren a b)
  have hfinished : ∀ a b, Kept g.childrenOf edges a b → a ∈ finished :=
    fun a b hab => hall a (mem_of_mem_childrenOf hab.1)
  refine ⟨g', by rw [removeCycles, hedges]; rfl, ?_, ?_, hwf.converse, ?_, ?_, ?_, ?_⟩
  · rw [hkept]
    exact hsorted.acyclic hfinished
  · intro a
    rw [Bool.eq_iff_iff]
    exact hnodes a
  · exact fun a b hab => ((hchildren a b).1 hab).1
  · intro a b hab hgone
    have hmem : (a, b) ∈ edges := by
      by_contra hmem
      exact hgone ((hchildren a b).2 ⟨hab, hmem⟩)
    exact (hcycle _ hmem).2
  · intro hacyclic
    have hnil : edges = [] := by
      rw [eq_nil_iff_forall_not_mem]
      intro e he
      exact hacyclic e.1 (.head' (hcycle e he).1 (hcycle e he).2)
    rw [hg', hnil]
    rfl
  · intro a ha
    obtain ⟨r, -, hroot, hpath⟩ := hsorted.reachable_from_root hfinished (hall a ((hnodes a).1 ha))
    rw [← hkept] at hpath hroot
    have hr : r ∈ g'.nodes := by
      rcases hpath.cases_head with rfl | ⟨b, hrb, -⟩
      · exact ha
      · exact mem_of_mem_childrenOf hrb
    exact ⟨r, hwf.stored.mem_rootNodes hr fun b hb => hroot b ((hwf.converse b r).2 hb), hpath⟩

theorem removeCycles_hierarchy_two_spaces :
    ∃ g', ((SpaceGraph.new.addEdge 'a' 'b').addEdge 'b' 'a').removeCycles = some g' ∧
      g'.hasNode 'a' = true ∧ ∃ r ∈ g'.rootNodes, Relation.ReflTransGen (fun a b => b ∈ g'.childrenOf a) r 'b' := by
  obtain ⟨g', hg', -, hnodes, -, -, -, -, hroots⟩ :=
    removeCycles_hierarchy ((Built.new.addEdge 'a' 'b').addEdge 'b' 'a')
  have ha : 'a' ∈ ((SpaceGraph.new.addEdge 'a' 'b').addEdge 'b' 'a').nodes :=
    mem_of_mem_childrenOf (mem_childrenOf_addEdge.2 (.inr (mem_childrenOf_addEdge.2 (.inl ⟨rfl, rfl⟩))))
  have hb : 'b' ∈ ((SpaceGraph.new.addEdge 'a' 'b').addEdge 'b' 'a').nodes :=
    mem_of_mem_childrenOf (mem_childrenOf_addEdge.2 (.inl ⟨rfl, rfl⟩))
  exact ⟨g', hg', (hnodes 'a').trans ha, hroots 'b' ((hnodes 'b').trans hb)⟩

end SpaceGraph

end HaranaMatrix.Spaces
