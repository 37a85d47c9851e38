import ManagedHeap.Graph.Basic

/-!
# Lookup by number

A lookup sorts the positions of nodes by number and halves the range in which the number can lie.
It finds only nodes with the number and misses none, also when numbers repeat; a number that one
node alone has leads to that node.
-/
namespace ManagedHeap.Graph

/-! ## The order of numbers -/

/-- The number that a position is sorted by. -/
def sortKey (nodes : Array Node) (i : NodeIndex) : Nat := (nodes[i]?.map (·.id.raw)).getD 0

theorem sortKey_of_getElem? {nodes : Array Node} {i : NodeIndex} {n : Node}
    (hn : nodes[i]? = some n) : sortKey nodes i = n.id.raw := by
  rw [sortKey, hn]
  rfl

/-- Every node's position once, in the order of the nodes' numbers. -/
structure IsIdOrder (nodes : Array Node) (order : Array NodeIndex) : Prop where
  perm : order.toList.Perm (List.range nodes.size)
  sorted : order.toList.Pairwise fun i j => sortKey nodes i ≤ sortKey nodes j

theorem isIdOrder_sortIds (nodes : Array Node) : IsIdOrder nodes (sortIds nodes) where
  perm := List.mergeSort_perm _ _
  sorted := by
    have htrans : ∀ i j k, decide (sortKey nodes i ≤ sortKey nodes j) = true →
        decide (sortKey nodes j ≤ sortKey nodes k) = true →
        decide (sortKey nodes i ≤ sortKey nodes k) = true := by
      simp only [decide_eq_true_eq]
      exact fun _ _ _ => Nat.le_trans
    have htotal : ∀ i j, (decide (sortKey nodes i ≤ sortKey nodes j) ||
        decide (sortKey nodes j ≤ sortKey nodes i)) = true := by
      simp only [Bool.or_eq_true, decide_eq_true_eq]
      exact fun _ _ => Nat.le_total ..
    have hsorted := List.pairwise_mergeSort htrans htotal (List.range nodes.size)
    exact hsorted.imp of_decide_eq_true

namespace IsIdOrder

variable {nodes : Array Node} {order : Array NodeIndex} {i j : NodeIndex} {k l : Nat} {n m : Node}

theorem exists_node (h : IsIdOrder nodes order) (hk : order[k]? = some i) :
    ∃ n, nodes[i]? = some n := by
  have hmem : i ∈ order.toList :=
    List.mem_of_getElem? (by rw [Array.getElem?_toList]; exact hk)
  exact ⟨_, Array.getElem?_eq_getElem (List.mem_range.mp (h.perm.mem_iff.mp hmem))⟩

theorem exists_place (h : IsIdOrder nodes order) (hn : nodes[i]? = some n) :
    ∃ k, k < order.size ∧ order[k]? = some i := by
  have hi : i < nodes.size := (Array.getElem?_eq_some_iff.mp hn).1
  have hmem : i ∈ order.toList := h.perm.mem_iff.mpr (List.mem_range.mpr hi)
  obtain ⟨k, hk⟩ := List.mem_iff_getElem?.mp hmem
  rw [Array.getElem?_toList] at hk
  exact ⟨k, (Array.getElem?_eq_some_iff.mp hk).1, hk⟩

theorem raw_le (h : IsIdOrder nodes order) (hkl : k ≤ l) (hk : order[k]? = some i)
    (hl : order[l]? = some j) (hn : nodes[i]? = some n) (hm : nodes[j]? = some m) :
    n.id.raw ≤ m.id.raw := by
  rw [← sortKey_of_getElem? hn, ← sortKey_of_getElem? hm]
  rcases Nat.eq_or_lt_of_le hkl with rfl | hlt
  · rw [hk, Option.some.injEq] at hl
    exact Nat.le_of_eq (congrArg _ hl)
  · obtain ⟨hk', rfl⟩ := Array.getElem?_eq_some_iff.mp hk
    obtain ⟨hl', rfl⟩ := Array.getElem?_eq_some_iff.mp hl
    exact List.pairwise_iff_getElem.mp h.sorted k l hk' hl' hlt

end IsIdOrder

/-! ## The search -/

theorem id_of_searchId {nodes : Array Node} {order : Array NodeIndex} {id : ObjectId}
    {fuel lo hi : Nat} {i : NodeIndex} (h : searchId nodes order id fuel lo hi = some i) :
    ∃ n, nodes[i]? = some n ∧ n.id = id := by
  induction fuel generalizing lo hi with
  | zero => cases h
  | succ fuel ih =>
    rw [searchId] at h
    split at h
    · dsimp only at h
      split at h
      · cases h
      · split at h
        · cases h
        · next n hn =>
          split at h
          · exact ih h
          · split at h
            · exact ih h
            · next hge hle =>
              obtain rfl := Option.some.inj h
              have hraw : n.id.raw = id.raw := by omega
              exact ⟨n, hn, congrArg ObjectId.mk hraw⟩
    · cases h

/-- A node whose place lies in the range is not missed: as long as its number differs from the one
in the middle, its place stays in the half that the search goes on with. -/
theorem exists_searchId {nodes : Array Node} {order : Array NodeIndex}
    (horder : IsIdOrder nodes order) {i : NodeIndex} {n : Node} (hn : nodes[i]? = some n)
    {k : Nat} (hk : order[k]? = some i) {fuel lo hi : Nat} (hfuel : hi ≤ lo + fuel)
    (hlo : lo ≤ k) (hhi : k < hi) (hsize : hi ≤ order.size) :
    ∃ j, searchId nodes order n.id fuel lo hi = some j := by
  induction fuel generalizing lo hi with
  | zero => omega
  | succ fuel ih =>
    have hmid : (lo + hi) / 2 < order.size := by omega
    obtain ⟨j, hj⟩ : ∃ j, order[(lo + hi) / 2]? = some j := ⟨_, Array.getElem?_eq_getElem hmid⟩
    obtain ⟨m, hm⟩ := horder.exists_node hj
    rw [searchId, if_pos (Nat.lt_of_le_of_lt hlo hhi)]
    simp only [hj, hm]
    split
    · next hlt =>
      have hright : (lo + hi) / 2 < k := by
        refine Nat.lt_of_not_le fun hle => ?_
        exact absurd (horder.raw_le hle hk hj hn hm) (Nat.not_le.mpr hlt)
      exact ih (by omega) hright hhi hsize
    · split
      · next hgt =>
        have hleft : k < (lo + hi) / 2 := by
          refine Nat.lt_of_not_le fun hle => ?_
          exact absurd (horder.raw_le hle hj hk hm hn) (Nat.not_le.mpr hgt)
        exact ih (by omega) hlo hleft (Nat.le_of_lt hmid)
      · exact ⟨j, rfl⟩

/-! ## Lookups -/

/-- Positions that were sorted before are still in the order of numbers. -/
def Indexed (g : Graph) : Prop := ∀ order, g.idOrder = some order → IsIdOrder g.nodes order

variable {g : Graph} {id : ObjectId} {i : NodeIndex} {n : Node}

theorem idOrder_nameIfEmpty (g : Graph) (index : NodeIndex) (name : String) :
    (g.nameIfEmpty index name).idOrder = g.idOrder := by
  unfold nameIfEmpty
  split
  · split <;> rfl
  · rfl

theorem indexed_of_idOrder_none (h : g.idOrder = none) : g.Indexed := by
  intro order horder
  rw [h] at horder
  cases horder

theorem Indexed.isIdOrder (h : g.Indexed) :
    IsIdOrder g.nodes (g.idOrder.getD (sortIds g.nodes)) := by
  cases horder : g.idOrder with
  | none => exact isIdOrder_sortIds g.nodes
  | some order => exact h order horder

theorem id_of_lookup (h : (g.lookup id).1 = some i) : ∃ n, g.nodes[i]? = some n ∧ n.id = id :=
  id_of_searchId h

theorem Indexed.exists_lookup (h : g.Indexed) (hn : g.nodes[i]? = some n) :
    ∃ j, (g.lookup n.id).1 = some j := by
  obtain ⟨k, hlt, hk⟩ := h.isIdOrder.exists_place hn
  exact exists_searchId h.isIdOrder hn hk (Nat.le_add_left ..) (Nat.zero_le k) hlt (Nat.le_refl _)

/-- A number that one node alone has leads to that node. -/
theorem Indexed.lookup_eq (h : g.Indexed) (hn : g.nodes[i]? = some n)
    (hunique : ∀ j m, g.nodes[j]? = some m → m.id = n.id → j = i) :
    (g.lookup n.id).1 = some i := by
  obtain ⟨j, hj⟩ := h.exists_lookup hn
  obtain ⟨m, hm, hid⟩ := id_of_lookup hj
  rw [hj, hunique j m hm hid]

end ManagedHeap.Graph
