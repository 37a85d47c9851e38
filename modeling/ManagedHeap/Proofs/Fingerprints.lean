import ManagedHeap.Graph.Fingerprint
import ManagedHeap.Proofs.Depiction
import ManagedHeap.Proofs.Numbering

/-!
# What a fingerprint sees

Nodes and edges enter a fingerprint as sorted lists of keys, and keys are sorted by all that they
hold. So graphs with the same nodes and the same edges between numbers have the same fingerprint,
in whatever order these were added: `Fingerprint.compute_of_perm`.
-/
namespace ManagedHeap

/-- An edge between numbers. -/
structure Arc where
  source : ObjectId
  kind : EdgeKind
  label : Label
  target : ObjectId
  deriving DecidableEq, Repr

namespace Graph

/-- The number of the node at a position. -/
def numberAt (g : Graph) (index : NodeIndex) : ObjectId := (g.ids[index]?).getD .unknown

/-- The edges as edges between numbers. -/
def arcs (g : Graph) : List Arc :=
  g.edges.toList.map fun e => ⟨g.numberAt e.source, e.kind, e.label, g.numberAt e.target⟩

end Graph

/-! ## Keys -/

/-- The order that a list is sorted by leaves no choice. -/
structure Sorting {α : Type} (le : α → α → Bool) : Prop where
  trans : ∀ a b c, le a b = true → le b c = true → le a c = true
  total : ∀ a b, (le a b || le b a) = true
  antisymm : ∀ a b, le a b = true → le b a = true → a = b

/-- Lists with the same members are sorted into the same list. -/
theorem Sorting.mergeSort_eq {α : Type} {le : α → α → Bool} (h : Sorting le) {as bs : List α}
    (hperm : as.Perm bs) : as.mergeSort le = bs.mergeSort le := by
  have hsorted := List.pairwise_mergeSort h.trans h.total
  refine List.Perm.eq_of_pairwise (fun a b _ _ => h.antisymm a b) (hsorted as) (hsorted bs) ?_
  exact (List.mergeSort_perm as le).trans (hperm.trans (List.mergeSort_perm bs le).symm)

theorem NodeKey.le_iff (a b : NodeKey) : a.le b = true ↔
    a.id < b.id ∨ a.id = b.id ∧ (a.kind < b.kind ∨ a.kind = b.kind ∧ a.name ≤ b.name) := by
  simp [le]

theorem NodeKey.sorting : Sorting NodeKey.le where
  trans a b c hab hbc := by
    rw [le_iff] at hab hbc ⊢
    grind [String.le_trans]
  total a b := by
    have hname := String.le_total a.name b.name
    rw [Bool.or_eq_true, le_iff, le_iff]
    grind
  antisymm a b hab hba := by
    rw [le_iff] at hab hba
    cases a; cases b
    grind [String.le_antisymm]

theorem EdgeKey.le_iff (a b : EdgeKey) : a.le b = true ↔
    a.source < b.source ∨ a.source = b.source ∧ (a.kind < b.kind ∨ a.kind = b.kind ∧
      (a.label < b.label ∨ a.label = b.label ∧ a.target ≤ b.target)) := by
  simp [le]

theorem EdgeKey.sorting : Sorting EdgeKey.le where
  trans a b c hab hbc := by
    rw [le_iff] at hab hbc ⊢
    grind [String.lt_trans]
  total a b := by
    have hlabel : a.label < b.label ∨ a.label = b.label ∨ b.label < a.label := by
      grind [String.le_antisymm, String.not_lt]
    rw [Bool.or_eq_true, le_iff, le_iff]
    grind
  antisymm a b hab hba := by
    rw [le_iff] at hab hba
    cases a; cases b
    grind [String.lt_trans, String.lt_irrefl]

/-! ## Graphs with the same nodes and edges -/

namespace Graph

variable {g g' : Graph}

theorem nodeKeys_eq (g : Graph) : g.nodeKeys =
    (g.nodes.toList.map Node.face).map fun f => ⟨f.1.raw, f.2.kind.toCode, f.2.name⟩ := by
  rw [List.map_map]
  rfl

theorem idAt_eq (g : Graph) (index : NodeIndex) : g.idAt index = (g.numberAt index).raw := by
  rw [idAt, numberAt, ids, Array.getElem?_map]
  cases g.nodes[index]? <;> rfl

theorem edgeKeys_eq (g : Graph) : g.edgeKeys =
    g.arcs.map fun a => ⟨a.source.raw, a.kind.toCode, a.label.render, a.target.raw⟩ := by
  rw [arcs, List.map_map]
  refine List.map_congr_left fun e _ => ?_
  rw [idAt_eq, idAt_eq]
  rfl

/-- Sizes added up without a bound. -/
def summed (sizes : List Nat) : Nat := sizes.foldr (· + ·) 0

theorem summed_of_perm {sizes sizes' : List Nat} (h : sizes.Perm sizes') :
    summed sizes = summed sizes' :=
  h.foldr_eq' (fun m _ n _ sum => Nat.add_left_comm n m sum) 0

/-- A running sum overflows if and only if the whole sum does not fit. -/
theorem foldlM_addSize {size : Nat} (hsize : size < wordLimit 64) (ns : List Node) :
    ns.foldlM addSize size =
      if size + summed (ns.map (·.selfSize)) < wordLimit 64 then
        .ok (size + summed (ns.map (·.selfSize)))
      else .error .sizeOverflow := by
  induction ns generalizing size with
  | nil => exact (if_pos hsize).symm
  | cons n ns ih =>
    have hsum : size + summed ((n :: ns).map (·.selfSize)) =
        size + n.selfSize + summed (ns.map (·.selfSize)) := (Nat.add_assoc ..).symm
    rw [List.foldlM_cons, addSize, hsum]
    by_cases hfits : size + n.selfSize < wordLimit 64
    · rw [if_pos hfits]
      exact ih hfits
    · rw [if_neg hfits, if_neg fun hall => hfits (Nat.lt_of_le_of_lt (Nat.le_add_right ..) hall)]
      rfl

theorem totalSize_eq (g : Graph) :
    g.totalSize =
      if summed (g.nodes.toList.map (·.selfSize)) < wordLimit 64 then
        .ok (summed (g.nodes.toList.map (·.selfSize)))
      else .error .sizeOverflow := by
  rw [totalSize, foldlM_addSize (wordLimit_pos 64), Nat.zero_add]

end Graph

/-- The fingerprint of a graph depends on its nodes and edges, not on their order, and on the time
only as far as it tells that. -/
theorem Fingerprint.compute_of_perm {g g' : Graph}
    (hnodes : (g'.nodes.toList.map Node.face).Perm (g.nodes.toList.map Node.face))
    (harcs : g'.arcs.Perm g.arcs) (now later : Int) :
    (compute g' later).map ({ · with computedAt := now }) = compute g now := by
  have hnodeCount : g'.nodeCount = g.nodeCount := by
    have hlength := hnodes.length_eq
    rw [List.length_map, List.length_map] at hlength
    exact hlength
  have hedgeCount : g'.edgeCount = g.edgeCount := by
    have hlength := harcs.length_eq
    rw [Graph.arcs, Graph.arcs, List.length_map, List.length_map] at hlength
    exact hlength
  have hsize : g'.totalSize = g.totalSize := by
    have hsizes := hnodes.map fun f => f.2.size
    rw [List.map_map, List.map_map] at hsizes
    have hsummed : Graph.summed (g'.nodes.toList.map (·.selfSize)) =
        Graph.summed (g.nodes.toList.map (·.selfSize)) := Graph.summed_of_perm hsizes
    rw [Graph.totalSize_eq, Graph.totalSize_eq, hsummed]
  have hnodeRoll : g'.nodeRoll = g.nodeRoll := by
    rw [Graph.nodeRoll, Graph.nodeRoll, Graph.nodeKeys_eq, Graph.nodeKeys_eq,
      NodeKey.sorting.mergeSort_eq (hnodes.map _)]
  have hedgeRoll : g'.edgeRoll = g.edgeRoll := by
    rw [Graph.edgeRoll, Graph.edgeRoll, Graph.edgeKeys_eq, Graph.edgeKeys_eq,
      EdgeKey.sorting.mergeSort_eq (harcs.map _)]
  unfold compute
  rw [hsize, hnodeCount, hedgeCount, hnodeRoll, hedgeRoll]
  cases g.totalSize <;> rfl

end ManagedHeap
