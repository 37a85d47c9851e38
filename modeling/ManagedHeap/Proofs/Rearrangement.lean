import ManagedHeap.Proofs.Fingerprints
import Mathlib.Data.List.FinRange
import Mathlib.Data.List.Perm.Basic
import Mathlib.Logic.Equiv.Basic

/-!
# Graphs with their nodes in another order

Two graphs may hold the same nodes at different positions, and the same edges between these in a
different order: `Graph.Rearranged`. A fingerprint knows nodes by their numbers and not by their
positions, so it takes such graphs for the same one, `Fingerprint.compute_rearranged`. Numbers may
be shared by several nodes, and edges may be repeated.
-/
namespace ManagedHeap

namespace Graph

variable {g g' : Graph} {place : Fin g.nodeCount ≃ Fin g'.nodeCount}

/-- What there is to see at a position. -/
def faceAt (g : Graph) (i : NodeIndex) : Option (ObjectId × Look) := (g.nodes[i]?).map Node.face

theorem numberAt_eq (g : Graph) (i : NodeIndex) :
    g.numberAt i = ((g.faceAt i).map Prod.fst).getD .unknown := by
  rw [numberAt, ids, Array.getElem?_map, faceAt, Option.map_map]
  rfl

theorem map_faceAt (g : Graph) :
    (List.finRange g.nodeCount).map (fun i : Fin g.nodeCount => g.faceAt i) =
      (g.nodes.toList.map Node.face).map some := by
  refine List.ext_getElem (by simp [nodeCount]) fun i hi _ => ?_
  have hi : i < g.nodes.size := by simpa [nodeCount] using hi
  simp [faceAt, hi]

/-- Where a position has gone. There is no node behind the last one, so nothing moves there. -/
def newPlace (place : Fin g.nodeCount ≃ Fin g'.nodeCount) (i : NodeIndex) : NodeIndex :=
  if h : i < g.nodeCount then place ⟨i, h⟩ else i

/-- The same edge between the nodes at their new places. -/
def movedEdge (place : Fin g.nodeCount ≃ Fin g'.nodeCount) (e : Edge) : Edge :=
  { e with source := newPlace place e.source, target := newPlace place e.target }

/-- The nodes of the one graph stand at other places in the other, under the same numbers, kinds,
names and sizes, and the edges between them are the same ones in some order. -/
structure Rearranged (g g' : Graph) (place : Fin g.nodeCount ≃ Fin g'.nodeCount) : Prop where
  node : ∀ i, g'.faceAt (place i) = g.faceAt i
  edges : g'.edges.toList.Perm (g.edges.toList.map (movedEdge place))

namespace Rearranged

theorem perm_faces (h : Rearranged g g' place) :
    (g'.nodes.toList.map Node.face).Perm (g.nodes.toList.map Node.face) := by
  -- Every position of the second graph is the new place of exactly one position of the first.
  have hplaces : (List.finRange g'.nodeCount).Perm ((List.finRange g.nodeCount).map place) := by
    refine (List.perm_ext_iff_of_nodup (List.nodup_finRange _)
      ((List.nodup_finRange _).map place.injective)).mpr fun i => ?_
    simp only [List.mem_finRange, List.mem_map, true_and, true_iff]
    exact place.surjective i
  have hnode : (fun i : Fin g'.nodeCount => g'.faceAt i) ∘ place =
      fun i : Fin g.nodeCount => g.faceAt i := funext h.node
  have hfaces := hplaces.map fun i : Fin g'.nodeCount => g'.faceAt i
  rw [List.map_map, hnode, map_faceAt, map_faceAt] at hfaces
  exact (List.map_perm_map_iff (Option.some_injective _)).mp hfaces

theorem nodeCount_eq (h : Rearranged g g' place) : g'.nodeCount = g.nodeCount := by
  have hlength := h.perm_faces.length_eq
  rw [List.length_map, List.length_map] at hlength
  exact hlength

theorem faceAt_newPlace (h : Rearranged g g' place) (i : NodeIndex) :
    g'.faceAt (newPlace place i) = g.faceAt i := by
  unfold newPlace
  split
  next hi => exact h.node ⟨i, hi⟩
  next hi =>
    have hi' : ¬ i < g'.nodeCount := h.nodeCount_eq ▸ hi
    rw [faceAt, faceAt, Array.getElem?_eq_none (Nat.not_lt.mp hi),
      Array.getElem?_eq_none (Nat.not_lt.mp hi')]

theorem perm_arcs (h : Rearranged g g' place) : g'.arcs.Perm g.arcs := by
  have harcs := h.edges.map fun e =>
    (⟨g'.numberAt e.source, e.kind, e.label, g'.numberAt e.target⟩ : Arc)
  rw [List.map_map] at harcs
  refine harcs.trans (List.Perm.of_eq (List.map_congr_left fun e _ => ?_))
  rw [Function.comp_apply, movedEdge, numberAt_eq, numberAt_eq, h.faceAt_newPlace,
    h.faceAt_newPlace, ← numberAt_eq, ← numberAt_eq]

end Rearranged
end Graph

namespace Fingerprint

variable {g : Graph} {f : Fingerprint} {now : Int}

theorem map_totalSize_compute (g : Graph) (now : Int) :
    (compute g now).map (·.totalSize) = g.totalSize := by
  unfold compute
  cases g.totalSize <;> rfl

/-- A sum that does not fit is all that can go wrong. -/
theorem compute_eq_error {fault : Graph.Fault} (h : compute g now = .error fault) :
    fault = .sizeOverflow := by
  have hsize := map_totalSize_compute g now
  rw [h, Graph.totalSize_eq] at hsize
  split at hsize
  · cases hsize
  · exact Except.error.inj hsize

/-- The time at which a fingerprint was taken does not matter for what it matches. -/
theorem matches?_eq_true {f' : Fingerprint} (h : compute g now = .ok f')
    (hid : f.snapshotId = f'.snapshotId) : f.matches? g = .ok true := by
  have hsame := compute_of_perm (.refl _) (.refl g.arcs) f.computedAt now
  rw [h] at hsame
  rw [matches?, ← hsame]
  exact congrArg Except.ok (beq_iff_eq.mpr hid)

/-- Graphs that differ in the places of their nodes and the order of their edges only have the same
fingerprint, which matches both, or are both too large to have one. -/
theorem compute_rearranged {g' : Graph} {place : Fin g.nodeCount ≃ Fin g'.nodeCount}
    (h : g.Rearranged g' place) (now later : Int) :
    (∃ f f', compute g now = .ok f ∧ compute g' later = .ok f' ∧
      f' = { f with computedAt := later } ∧ f.matches? g' = .ok true ∧ f'.matches? g = .ok true) ∨
    compute g now = .error .sizeOverflow ∧ compute g' later = .error .sizeOverflow := by
  have hsame := compute_of_perm h.perm_faces.symm h.perm_arcs.symm later now
  cases hnow : compute g now with
  | error fault =>
    rw [hnow] at hsame
    rw [compute_eq_error hnow] at hsame ⊢
    exact .inr ⟨rfl, hsame.symm⟩
  | ok f =>
    rw [hnow] at hsame
    exact .inl ⟨f, { f with computedAt := later }, rfl, hsame.symm, rfl,
      matches?_eq_true hsame.symm rfl, matches?_eq_true hnow rfl⟩

/-- Three nodes, two of them under one number, and a reference that is made twice. -/
def doubled : Graph :=
  let owner := Graph.empty.pushNode ⟨.synthetic, "", ⟨1⟩, 0, 0, 0, 0⟩
  let nodes := (owner.pushNode ⟨.object, "A", ⟨7⟩, 16, 0, 0, 0⟩).pushNode
    ⟨.string, "B", ⟨7⟩, 24, 0, 0, 0⟩
  ((nodes.pushEdge ⟨.element, .index 1, 0, 1⟩).pushEdge ⟨.property, .name "b", 1, 2⟩).pushEdge
    ⟨.element, .index 1, 0, 1⟩

/-- The same with the last two nodes exchanged. -/
def doubledBack : Graph :=
  let owner := Graph.empty.pushNode ⟨.synthetic, "", ⟨1⟩, 0, 0, 0, 0⟩
  let nodes := (owner.pushNode ⟨.string, "B", ⟨7⟩, 24, 0, 0, 0⟩).pushNode
    ⟨.object, "A", ⟨7⟩, 16, 0, 0, 0⟩
  ((nodes.pushEdge ⟨.property, .name "b", 2, 1⟩).pushEdge ⟨.element, .index 1, 0, 2⟩).pushEdge
    ⟨.element, .index 1, 0, 2⟩

def exchange : Fin doubled.nodeCount ≃ Fin doubledBack.nodeCount :=
  Equiv.swap ⟨1, by decide⟩ ⟨2, by decide⟩

theorem compute_doubledBack :
    doubled.Rearranged doubledBack exchange ∧
      ∃ f f', compute doubled 5 = .ok f ∧ compute doubledBack 8 = .ok f' ∧
        f' = { f with computedAt := 8 } ∧ f.totalSize = 40 ∧ f.matches? doubledBack = .ok true := by
  have hrearranged : doubled.Rearranged doubledBack exchange :=
    ⟨by decide +kernel, by decide +kernel⟩
  have hsize : (compute doubled 5).map (·.totalSize) = .ok 40 :=
    (map_totalSize_compute doubled 5).trans (by decide)
  refine ⟨hrearranged, ?_⟩
  obtain ⟨f, f', hf, hf', hsame, hmatches, -⟩ | ⟨hlarge, -⟩ := compute_rearranged hrearranged 5 8
  · rw [hf] at hsize
    exact ⟨f, f', hf, hf', hsame, Except.ok.inj hsize, hmatches⟩
  · rw [hlarge] at hsize
    cases hsize

end Fingerprint
end ManagedHeap
