import ManagedHeap.Proofs.RoundTrip

/-!
# Adjacency

Grouping the edges of a graph by source is a regrouping: it only fills in where the edges of each
node begin, and reading the nodes' children one node after the other gives back every edge once.
The main statement is about every graph that calls can build.
-/
namespace ManagedHeap.Graph

/-! ## Where edges begin -/

theorem layOut_layOut (start : Nat) (ns : List Node) :
    layOut start (layOut start ns) = layOut start ns := by
  induction ns generalizing start with
  | nil => rfl
  | cons n ns ih => rw [layOut, layOut, ih]

/-- Grouping reads neither the layout nor the grouping that it replaces. -/
theorem group_group (g : Graph) : g.group.group = g.group := by
  simp only [group, layOut_layOut]

/-- The edges of the nodes up to one are among the edges of the graph. -/
theorem childTotal_take_add_le {g : Graph} (h : g.Sound) {i : Nat} {n : Node}
    (hn : g.nodes[i]? = some n) :
    childTotal (g.nodes.toList.take i) + n.childCount ≤ g.edgeCount := by
  obtain ⟨hi, rfl⟩ := Array.getElem?_eq_some_iff.mp hn
  rw [childTotal_take h i (Nat.le_of_lt hi), h.counted i hi, edgesFrom, ← countBefore_succ]
  exact List.countP_le_length

/-! ## Every edge once -/

/-- The edges of the first `count` sources, source by source, are the edges that leave one of
them. -/
theorem flatMap_filter_source_perm (es : List Edge) (count : Nat) :
    ((List.range count).flatMap fun i => es.filter fun e => e.source == i).Perm
      (es.filter fun e => e.source < count) := by
  induction count with
  | zero => simp
  | succ count ih =>
    -- The sources below `count + 1` are those below `count`, and `count` itself.
    have hlow : ((es.filter fun e => e.source < count + 1).filter fun e => e.source < count) =
        es.filter fun e => e.source < count := by
      rw [List.filter_filter]
      exact List.filter_congr fun e _ => by grind
    have hlast : ((es.filter fun e => e.source < count + 1).filter
        fun e => !decide (e.source < count)) = es.filter fun e => e.source == count := by
      rw [List.filter_filter]
      exact List.filter_congr fun e _ => by grind
    have hsplit := List.filter_append_perm (fun e : Edge => decide (e.source < count))
      (es.filter fun e => e.source < count + 1)
    rw [hlow, hlast] at hsplit
    rw [List.range_succ, List.flatMap_append, List.flatMap_singleton]
    exact (ih.append_right _).trans hsplit

theorem flatMap_edgesFrom_perm {g : Graph} (h : g.Sound) :
    ((List.range g.nodeCount).flatMap g.edgesFrom).Perm g.edges.toList := by
  have hall : (g.edges.toList.filter fun e => e.source < g.nodeCount) = g.edges.toList :=
    List.filter_eq_self.mpr fun e he => by simpa using h.source_lt e he
  have hperm := flatMap_filter_source_perm g.edges.toList g.nodeCount
  rwa [hall] at hperm

/-- Nodes count the edges that leave them. Grouping gives each node the place behind the edges of
the nodes before it and changes nothing else of it; its children are then the edges that leave it,
in the order in which they were added. The children of all nodes are the edges of the graph, each
once. The list of edges stays as it was, and grouping once more changes nothing. -/
theorem group_build {calls : List Call} {g : Graph} (hbuild : build calls = .ok g) :
    (∀ i n, g.nodes[i]? = some n →
      n.childCount = g.edges.toList.countP (fun e => e.source == i) ∧
      g.group.nodes[i]? = some { n with childStart := childTotal (g.nodes.toList.take i) } ∧
      childTotal (g.nodes.toList.take i) + n.childCount ≤ g.edgeCount ∧
      g.group.children i = .ok (g.edges.toList.filter fun e => e.source == i)) ∧
    (∃ kids, (List.range g.group.nodeCount).mapM g.group.children = .ok kids ∧
      kids.flatten.Perm g.edges.toList) ∧
    g.group.nodeCount = g.nodeCount ∧ g.group.edges = g.edges ∧ g.group.group = g.group := by
  have hsound := sound_build hbuild
  refine ⟨?_, ?_, nodeCount_group g, rfl, group_group g⟩
  · intro i n hn
    obtain ⟨hi, heq⟩ := Array.getElem?_eq_some_iff.mp hn
    refine ⟨?_, ?_, childTotal_take_add_le hsound hn, children_group hsound hi⟩
    · rw [List.countP_eq_length_filter, ← heq]
      exact hsound.counted i hi
    · rw [getElem?_nodes_group hsound, hn, childTotal_take hsound i (Nat.le_of_lt hi)]
      rfl
  · have hkids := Document.mapM_ok (f := g.group.children)
      fun i (hi : i ∈ List.range g.nodeCount) => children_group hsound (List.mem_range.mp hi)
    refine ⟨_, by rw [nodeCount_group]; exact hkids, ?_⟩
    rw [← List.flatMap_def]
    exact flatMap_edgesFrom_perm hsound

/-- Three nodes whose edges are added in turns: the second has none, and the third one to
itself. -/
def interleaved : List Call :=
  [.node .synthetic "" .root 0 0, .node .object "leaf" ⟨20⟩ 8 0,
    .edge ⟨.element, .index 0, 0, 1⟩, .node .object "loop" ⟨22⟩ 16 0,
    .edge ⟨.property, .name "self", 2, 2⟩, .edge ⟨.element, .index 1, 0, 2⟩,
    .rename 0 "top", .edge ⟨.property, .name "leaf", 2, 1⟩]

theorem group_build_interleaved : ∃ g kids,
    build interleaved = .ok g ∧
    g.group.children 0 = .ok [⟨.element, .index 0, 0, 1⟩, ⟨.element, .index 1, 0, 2⟩] ∧
    g.group.children 1 = .ok [] ∧
    g.group.children 2 = .ok [⟨.property, .name "self", 2, 2⟩, ⟨.property, .name "leaf", 2, 1⟩] ∧
    g.group.nodes[2]? = some
      { kind := .object, name := "loop", id := ⟨22⟩, selfSize := 16, childCount := 2,
        childStart := 2 } ∧
    (List.range 3).mapM g.group.children = .ok kids ∧ kids.flatten.Perm g.edges.toList ∧
    g.group.group = g.group := by
  have hbuild : build interleaved = .ok _ := rfl
  obtain ⟨hnodes, ⟨kids, hkids, hperm⟩, -, -, hgroup⟩ := group_build hbuild
  exact ⟨_, kids, hbuild, (hnodes 0 _ rfl).2.2.2, (hnodes 1 _ rfl).2.2.2, (hnodes 2 _ rfl).2.2.2,
    (hnodes 2 _ rfl).2.1, hkids, hperm, hgroup⟩

end ManagedHeap.Graph
