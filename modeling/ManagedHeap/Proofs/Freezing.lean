import ManagedHeap.Proofs.Lookup
import ManagedHeap.Proofs.Numbering

/-!
# Lookups in the life of a graph

The first lookup sorts the nodes by number, and every later one relies on the order that it left.
This is sound because no use of a graph changes the number of a node, and none adds a node once
there is an order. So a lookup finds a node with its number whenever there is one, at any time.
-/
namespace ManagedHeap.Graph

/-! ## Uses -/

/-- A use of a graph that may change it. Reading it or making room in it does not. -/
inductive Use where
  | call (c : Call)
  | intern (text : String)
  | group
  | lookup (id : ObjectId)
  deriving DecidableEq, Repr

/-- What a refused call leaves of a graph. Nothing has changed, unless an edge was refused for its
label: it was counted at its source before. -/
def Call.remains (g : Graph) (f : Fault) : Call → Graph
  | .edge e =>
    if f = .mislabelled e.kind e.label then
      { g with
        nodes := g.nodes.modify e.source fun n => { n with childCount := n.childCount + 1 } }
    else g
  | _ => g

/-- The graph after a use, be it refused or not. Grouping checks that the nodes' counts add up to
the edges, which an edge refused for its label prevents; by then the nodes have been laid out. -/
def after (g : Graph) : Use → Graph
  | .call c =>
    match c.perform g with
    | .ok g' => g'
    | .error f => c.remains g f
  | .intern text => g.intern text
  | .group =>
    if childTotal g.nodes.toList = g.edgeCount then g.group
    else { g with nodes := (layOut 0 g.nodes.toList).toArray }
  | .lookup id => (g.lookup id).2

def afterAll (g : Graph) (uses : List Use) : Graph := uses.foldl after g

/-! ## Numbers stay -/

/-- Every node has kept its number. Where numbers had been put in order, there is no new node
either, and the order is still the same. -/
structure Keeps (g g' : Graph) : Prop where
  grown : g.ids.toList <+: g'.ids.toList
  fixed : ∀ order, g.idOrder = some order → g'.ids = g.ids ∧ g'.idOrder = some order

variable {g g' g'' : Graph}

theorem Keeps.of_eq (hids : g'.ids = g.ids) (horder : g'.idOrder = g.idOrder) : Keeps g g' where
  grown := hids ▸ List.prefix_refl _
  fixed _ h := ⟨hids, horder.trans h⟩

theorem Keeps.trans (h : Keeps g g') (h' : Keeps g' g'') : Keeps g g'' where
  grown := h.grown.trans h'.grown
  fixed order horder := by
    obtain ⟨hids, horder'⟩ := h.fixed order horder
    obtain ⟨hids', horder''⟩ := h'.fixed order horder'
    exact ⟨hids'.trans hids, horder''⟩

theorem addNode_of_ordered (h : g.idOrder.isSome) (n : Node) : g.addNode n = .error .nodesFixed :=
  if_pos h

theorem addRoots_of_ordered (h : g.idOrder.isSome) : ∃ f, g.addRoots = .error f := by
  unfold addRoots
  split
  · refine ⟨.nodesFixed, ?_⟩
    rw [syntheticNodes, List.foldlM_cons, addNode_of_ordered h]
    rfl
  · exact ⟨.rootsNotFirst, rfl⟩

theorem Call.idOrder_perform {c : Call} (h : c.perform g = .ok g') : g'.idOrder = g.idOrder := by
  cases c with
  | roots =>
    exact addRoots_invariant (P := fun g' => g'.idOrder = g.idOrder) (fun _ _ _ hg => hg) rfl h
  | node => rw [addNode_ok h]; rfl
  | edge e =>
    obtain ⟨-, -, -, rfl⟩ := addEdge_ok h
    rfl
  | rename index name => rw [nameIfEmptyAt_ok h, idOrder_nameIfEmpty]
  | samples taken => exact Except.ok.inj h ▸ rfl

theorem Call.keeps_perform {c : Call} (h : c.perform g = .ok g') : Keeps g g' := by
  have horder := c.idOrder_perform h
  cases c with
  | roots =>
    refine ⟨?_, fun order hfixed => ?_⟩
    · refine addRoots_invariant (P := fun g' => g.ids.toList <+: g'.ids.toList) ?_
        (List.prefix_refl _) h
      intro n _ g₁ hg₁
      rw [ids_pushNode, Array.toList_push]
      exact hg₁.trans (List.prefix_append ..)
    · obtain ⟨f, hf⟩ := addRoots_of_ordered (Option.isSome_of_eq_some hfixed)
      rw [Call.perform, hf] at h
      cases h
  | node kind name id selfSize traceNode =>
    refine ⟨?_, fun order hfixed => ?_⟩
    · rw [addNode_ok h, ids_pushNode, Array.toList_push]
      exact List.prefix_append ..
    · rw [Call.perform, addNode_of_ordered (Option.isSome_of_eq_some hfixed)] at h
      cases h
  | edge e =>
    obtain ⟨-, -, -, rfl⟩ := addEdge_ok h
    exact .of_eq (ids_pushEdge g e) rfl
  | rename index name =>
    refine .of_eq ?_ horder
    rw [nameIfEmptyAt_ok h, ids_nameIfEmpty]
  | samples taken => exact Except.ok.inj h ▸ .of_eq rfl rfl

/-- What a refused call changes are counts of edges. -/
theorem Call.remains_numbers (c : Call) (f : Fault) :
    (c.remains g f).ids = g.ids ∧ (c.remains g f).idOrder = g.idOrder := by
  cases c with
  | edge e =>
    rw [Call.remains]
    split
    · exact ⟨ids_pushEdge g e, rfl⟩
    · exact ⟨rfl, rfl⟩
  | roots | node | rename | samples => exact ⟨rfl, rfl⟩

theorem keeps_after (g : Graph) (u : Use) : Keeps g (g.after u) := by
  cases u with
  | call c =>
    rw [after]
    split
    · next g' hperform => exact c.keeps_perform hperform
    · next f _ =>
      obtain ⟨hids, horder⟩ := c.remains_numbers f
      exact .of_eq hids horder
  | intern text => exact .of_eq rfl rfl
  | group =>
    rw [after]
    split <;> exact .of_eq (ids_group g) rfl
  | lookup id =>
    refine ⟨List.prefix_refl _, fun order horder => ⟨rfl, ?_⟩⟩
    rw [after, lookup, horder]
    rfl

theorem keeps_afterAll (g : Graph) (uses : List Use) : Keeps g (g.afterAll uses) := by
  induction uses generalizing g with
  | nil => exact .of_eq rfl rfl
  | cons u uses ih => exact (keeps_after g u).trans (ih (g.after u))

/-! ## The order stays right -/

theorem sortKey_eq (nodes : Array Node) (i : NodeIndex) :
    sortKey nodes i = (((nodes.map (·.id))[i]?).map (·.raw)).getD 0 := by
  rw [sortKey, Array.getElem?_map, Option.map_map]
  rfl

/-- An order of numbers belongs to the numbers alone. -/
theorem IsIdOrder.congr {order : Array NodeIndex} (h : IsIdOrder g.nodes order)
    (hids : g'.ids = g.ids) : IsIdOrder g'.nodes order where
  perm := by
    have hsize : g'.nodes.size = g.nodes.size := by
      simpa [ids] using congrArg Array.size hids
    rw [hsize]
    exact h.perm
  sorted := by
    have hkey : sortKey g'.nodes = sortKey g.nodes := by
      funext i
      rw [sortKey_eq, sortKey_eq]
      exact congrArg (fun ids : Array ObjectId => ((ids[i]?).map (·.raw)).getD 0) hids
    rw [hkey]
    exact h.sorted

theorem searchId_congr (hids : g'.ids = g.ids) (order : Array NodeIndex) (id : ObjectId)
    (fuel lo hi : Nat) :
    searchId g'.nodes order id fuel lo hi = searchId g.nodes order id fuel lo hi := by
  have hid : ∀ i : NodeIndex, (g'.nodes[i]?).map (·.id) = (g.nodes[i]?).map (·.id) := by
    intro i
    rw [← Array.getElem?_map, ← Array.getElem?_map]
    exact congrArg (fun ids : Array ObjectId => ids[i]?) hids
  induction fuel generalizing lo hi with
  | zero => rfl
  | succ fuel ih =>
    simp only [searchId, ih]
    cases order[(lo + hi) / 2]? with
    | none => rfl
    | some i =>
      have hi := hid i
      cases hn : g.nodes[i]? with
      | none =>
        rw [hn, Option.map_none, Option.map_eq_none_iff] at hi
        simp only [hi, hn]
      | some n =>
        rw [hn, Option.map_some] at hi
        obtain ⟨n', hn', heq⟩ := Option.map_eq_some_iff.mp hi
        simp only [hn, hn', heq]

theorem Indexed.after (h : g.Indexed) (u : Use) : (g.after u).Indexed := by
  cases horder : g.idOrder with
  | some order =>
    obtain ⟨hids, horder'⟩ := (keeps_after g u).fixed order horder
    intro order' h'
    obtain rfl : order = order' := Option.some.inj (horder'.symm.trans h')
    exact (h order horder).congr hids
  | none =>
    -- Nodes may still be added here, but only a lookup brings an order, and it sorts all of them.
    cases u with
    | call c =>
      apply indexed_of_idOrder_none
      rw [Graph.after]
      split
      · next g' hperform => exact (c.idOrder_perform hperform).trans horder
      · next f _ => exact (c.remains_numbers f).2.trans horder
    | intern text => exact indexed_of_idOrder_none horder
    | group =>
      apply indexed_of_idOrder_none
      rw [Graph.after]
      split <;> exact horder
    | lookup id =>
      intro order h'
      rw [Graph.after, lookup, horder] at h'
      obtain rfl := Option.some.inj h'
      exact isIdOrder_sortIds g.nodes

theorem indexed_afterAll (uses : List Use) (h : g.Indexed) : (g.afterAll uses).Indexed := by
  induction uses generalizing g with
  | nil => exact h
  | cons u uses ih => exact ih (h.after u)

/-! ## Lookups at any time -/

theorem getElem?_ids_eq_some {i : NodeIndex} {id : ObjectId} :
    g.ids[i]? = some id ↔ ∃ n, g.nodes[i]? = some n ∧ n.id = id := by
  rw [ids, Array.getElem?_map, Option.map_eq_some_iff]

theorem Indexed.lookup_iff (h : g.Indexed) (hdistinct : g.ids.toList.Nodup) (id : ObjectId)
    (i : NodeIndex) : (g.lookup id).1 = some i ↔ g.ids[i]? = some id := by
  rw [getElem?_ids_eq_some]
  constructor
  · exact id_of_lookup
  · rintro ⟨n, hn, rfl⟩
    refine h.lookup_eq hn fun j m hm hid => ?_
    have hi := getElem?_ids_eq_some.mpr ⟨n, hn, rfl⟩
    have hj := getElem?_ids_eq_some.mpr ⟨m, hm, hid⟩
    rw [← Array.getElem?_toList] at hi hj
    have hlt := (List.getElem?_eq_some_iff.mp hj).1
    exact (List.getElem?_inj hlt hdistinct).mp (hj.trans hi.symm)

/-- After a lookup numbers and order stay as they are, so later lookups search the same list. -/
theorem lookup_afterAll_lookup (g : Graph) (id other : ObjectId) (later : List Use) :
    (((g.lookup id).2.afterAll later).lookup other).1 = (g.lookup other).1 := by
  obtain ⟨hids, horder⟩ := (keeps_afterAll (g.lookup id).2 later).fixed _ rfl
  rw [lookup, horder]
  exact searchId_congr hids ..

/-- Whatever a graph was used for before, a lookup leads to a node with the number if there is one
and fails only if there is none; where no number is given twice, it inverts the numbering. Nodes
never change their number. Once something was looked up, no use changes the numbers or the answer
to any lookup, and further nodes are refused. -/
theorem lookup_afterAll (uses : List Use) (id : ObjectId) :
    let g := empty.afterAll uses
    (∀ i, (g.lookup id).1 = some i → ∃ n, g.nodes[i]? = some n ∧ n.id = id) ∧
    ((g.lookup id).1 = none → ∀ n ∈ g.nodes.toList, n.id ≠ id) ∧
    (g.ids.toList.Nodup → ∀ i, (g.lookup id).1 = some i ↔ g.ids[i]? = some id) ∧
    ∀ later : List Use,
      g.ids.toList <+: (g.afterAll later).ids.toList ∧
      let g' := (g.lookup id).2.afterAll later
      g'.ids = g.ids ∧ (∀ other, (g'.lookup other).1 = (g.lookup other).1) ∧
      (∀ n, g'.addNode n = .error .nodesFixed) ∧ ∃ f, g'.addRoots = .error f := by
  intro g
  have hindexed : g.Indexed := indexed_afterAll uses (indexed_of_idOrder_none rfl)
  refine ⟨fun i => id_of_lookup, ?_, fun hdistinct => hindexed.lookup_iff hdistinct id, ?_⟩
  · intro hnone n hn hid
    obtain ⟨i, hi⟩ := List.mem_iff_getElem?.mp hn
    rw [Array.getElem?_toList] at hi
    obtain ⟨j, hj⟩ := hindexed.exists_lookup hi
    rw [hid, hnone] at hj
    cases hj
  · intro later
    obtain ⟨hids, horder⟩ := (keeps_afterAll (g.lookup id).2 later).fixed _ rfl
    have hsome := Option.isSome_of_eq_some horder
    exact ⟨(keeps_afterAll g later).grown, hids,
      fun other => lookup_afterAll_lookup g id other later, addNode_of_ordered hsome,
      addRoots_of_ordered hsome⟩

/-- An edge that is refused for its label, a lookup, and a node that is refused because of it. -/
def searched : List Use :=
  [.call (.node .synthetic "" .root 0 0), .call (.node .object "late" ⟨50⟩ 8 0),
    .call (.node .object "" ⟨40⟩ 8 0), .call (.edge ⟨.element, .name "x", 0, 1⟩), .lookup ⟨50⟩,
    .call (.node .object "more" ⟨60⟩ 8 0), .call (.rename 2 "early"), .group]

theorem lookup_afterAll_searched :
    let g := empty.afterAll searched
    g.ids.toList = [⟨2⟩, ⟨50⟩, ⟨40⟩] ∧ (g.lookup ⟨40⟩).1 = some 2 ∧
    (∃ n, g.nodes[2]? = some n ∧ n.id = ⟨40⟩) ∧
    (g.lookup ⟨60⟩).1 = none ∧ (∀ n ∈ g.nodes.toList, n.id ≠ ⟨60⟩) ∧
    ((g.lookup ⟨60⟩).2.afterAll [.intern "x"]).addNode default = .error .nodesFixed := by
  intro g
  have hids : g.ids.toList = [⟨2⟩, ⟨50⟩, ⟨40⟩] := by decide +kernel
  have hdistinct : g.ids.toList.Nodup := hids ▸ (by decide)
  obtain ⟨hfound, -, hinverse, -⟩ := lookup_afterAll searched ⟨40⟩
  obtain ⟨-, hmissed, hinverse', hlater⟩ := lookup_afterAll searched ⟨60⟩
  have htwo : (g.lookup ⟨40⟩).1 = some 2 := (hinverse hdistinct 2).mpr (by decide +kernel)
  have hnone : (g.lookup ⟨60⟩).1 = none := by
    refine Option.eq_none_iff_forall_ne_some.mpr fun i hi => ?_
    have hmem := List.mem_of_getElem? ((Array.getElem?_toList ..).trans
      ((hinverse' hdistinct i).mp hi))
    rw [hids] at hmem
    exact absurd hmem (by decide)
  exact ⟨hids, htwo, hfound 2 htwo, hnone, hmissed hnone, (hlater [.intern "x"]).2.2.2.1 default⟩

end ManagedHeap.Graph
