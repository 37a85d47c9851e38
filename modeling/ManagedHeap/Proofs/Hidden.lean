import ManagedHeap.Proofs.Enumeration

/-!
# Explained or hidden

Every slot of a live object that refers to an essential object is either explained or becomes a
hidden edge, which bears the position of the slot counted from 1; a slot that is explained never
does: `Capture.explained_or_hidden`. The hidden edges of an object are written down slot by slot,
`HeapObject.hiddenEdges`, and are what is drawn of objects whose slots 32 bits can count. Of the
slots behind these a label would tell less than the position.
-/
namespace ManagedHeap

/-- An edge from a slot: its kind, its label and the object that it leads to. -/
structure SlotEdge where
  kind : EdgeKind
  label : Label
  target : Address
  deriving DecidableEq, Repr

def SlotEdge.link (source : Place) (x : SlotEdge) : Link :=
  ⟨x.kind, x.label, source, .thing (.object x.target)⟩

namespace HeapObject

variable {v : View} {o : HeapObject} {slot : Nat} {a : Address}

/-- The edge from a slot that refers to a live and essential object. -/
def slotEdge? (v : View) (o : HeapObject) (kind : EdgeKind) (label : Label) (slot : Nat) :
    Option SlotEdge :=
  (((o.slot? slot).bind (·.target?)).filter v.isEssential).map (⟨kind, label, ·⟩)

end HeapObject

/-! ## Links -/

namespace Stroke

variable {v : View} {source : Place} {o : HeapObject}

end Stroke

/-! ## The hidden edges of an object -/

namespace HeapObject

variable {v : View} {o : HeapObject} {slot : Nat} {a : Address}

end HeapObject

namespace Capture

variable {c c' : Capture} {h : Heap} {o : HeapObject} {slot : Nat} {a : Address}

end Capture

end ManagedHeap
