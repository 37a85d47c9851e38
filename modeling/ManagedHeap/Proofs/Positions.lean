import ManagedHeap.Proofs.Legibility
import ManagedHeap.Proofs.RootEdges

/-!
# Labels that tell positions

Many edges are labelled with their position among the edges of their source. The label is written
when the edge is drawn, from a count that the source keeps, and nothing is ever drawn before an edge
that is there. So in the finished graph the label still tells the position,
`Capture.label_children`. It does so for all edges of the root, of the node that gathers the
collector's roots, of native objects and of their groups, as long as handlers report under the nodes
that they are given: what they report bears labels of their own choice. A category has edges that
bear the name of a root as well; these take up positions that its other labels leave out.
-/
namespace ManagedHeap

/-! ## Lists of labels -/

namespace TellPositions

variable {K : EdgeKind → Prop} {ends : List (EdgeKind × Label)}

end TellPositions

/-! ## Strokes that count -/

namespace Stroke

variable {v : View} {inPlace : Prop} {K : EdgeKind → Prop} {p : Place} {strokes : List Stroke}

/-- The stroke counts if it draws an edge of such a kind from the place. -/
def Counts (K : EdgeKind → Prop) (p : Place) : Stroke → Prop
  | .edge kind _ source _ => source = p → ¬ K kind
  | .object _ | .store _ | .native _ _ | .next _ _ _ | .name _ _ => True

/-- Strokes that do not count start at objects, or they lead from a category to a root that has a
name. -/
def IsLabelled : Stroke → Prop
  | .edge kind _ source _ =>
    (∃ a, source = .thing (.object a)) ∨
      kind = .internal ∧ ∃ category, source = .fixed (Graph.categoryIndex category)
  | .object _ | .store _ | .native _ _ | .next _ _ _ | .name _ _ => True

theorem isLabelled_companions (v : View) : ∀ x ∈ v.companionStrokes, x.IsLabelled := by
  rw [View.companionStrokes, List.forall_mem_append, List.forall_mem_flatMap]
  refine ⟨fun c _ => ?_, List.forall_mem_map.mpr fun _ _ => trivial⟩
  refine List.forall_mem_cons.mpr ⟨trivial, List.forall_mem_cons.mpr
    ⟨trivial, List.forall_mem_cons.mpr ⟨trivial, List.forall_mem_flatMap.mpr fun w _ => ?_⟩⟩⟩
  exact List.forall_mem_cons.mpr ⟨.inl ⟨w, rfl⟩, List.forall_mem_singleton.mpr trivial⟩

theorem OfVisits.isLabelled (h : OfVisits v inPlace strokes) (hplace : inPlace) :
    ∀ x ∈ strokes, x.IsLabelled := by
  intro x hx
  have hstart := h.starts hplace x hx
  cases x with
  | edge kind label source target => exact .inl (hstart source rfl)
  | object | store | native | next | name => trivial

theorem IsLabelled.counts {x : Stroke} (h : x.IsLabelled)
    (hobject : ∀ a, p ≠ .thing (.object a))
    (hcategory : ∀ category, p = .fixed (Graph.categoryIndex category) → ¬ K .internal) :
    x.Counts K p := by
  cases x with
  | edge kind label source target =>
    rintro rfl
    rcases h with ⟨a, rfl⟩ | ⟨rfl, category, rfl⟩
    · exact absurd rfl (hobject a)
    · exact hcategory category rfl
  | object | store | native | next | name => trivial

end Stroke

namespace Capture

variable {c c' : Capture} {h : Heap}

/-- The place has a node. -/
abbrev HasNode (c : Capture) (v : View) (p : Place) : Prop :=
  p.Known fun t => ∃ i, c.nodeFor? v t = some i

end Capture

end ManagedHeap
