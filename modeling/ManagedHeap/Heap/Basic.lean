import ManagedHeap.Heap.View
import Std.Data.TreeMap
import Std.Data.TreeSet
/-!
A heap held in memory. Every object is filed under its own address. Objects are visited in the
order of their addresses, unless another order was asked for; moving an object leads every
reference to its new place.
-/
namespace ManagedHeap

/-- A root reference and its strength. -/
structure RootRef where
  root : Root
  isWeak : Bool := false
  deriving DecidableEq, Repr, Inhabited

/-- A heap in memory. -/
structure Heap where
  objects : Std.TreeMap Address HeapObject
  /-- Every object is filed under its address. -/
  keyed : ∀ (a : Address) (o : HeapObject), objects[a]? = some o → o.address = a
  /-- Addresses to visit before all others. -/
  order : Option (List Address) := none
  roots : List RootRef := []
  singletons : Std.TreeSet Address := {}
  companions : List Companion := []
  traceNodes : Std.TreeMap Address Nat := {}
  /-- How often the heap was brought to rest. -/
  quiesced : Nat := 0

namespace Heap

def empty : Heap where
  objects := {}
  keyed := by simp

instance : Inhabited Heap := ⟨empty⟩

def size (h : Heap) : Nat := h.objects.size

def isEmpty (h : Heap) : Bool := h.objects.isEmpty

def object? (h : Heap) (a : Address) : Option HeapObject := h.objects[a]?

/-- Add an object, in place of the one at its address. -/
def insert (h : Heap) (o : HeapObject) : Heap :=
  { h with
    objects := h.objects.insert o.address o
    keyed := by
      intro a x hx
      rw [Std.TreeMap.getElem?_insert] at hx
      split at hx
      · next ha => cases hx; simpa using ha
      · exact h.keyed a x hx }

/-- Take an object out, as if it had been collected. -/
def remove (h : Heap) (a : Address) : Heap :=
  { h with
    objects := h.objects.erase a
    keyed := by
      intro b x hx
      rw [Std.TreeMap.getElem?_erase] at hx
      split at hx
      · cases hx
      · exact h.keyed b x hx
    traceNodes := h.traceNodes.erase a }

theorem object?_insert (h : Heap) (o : HeapObject) (a : Address) :
    (h.insert o).object? a = if o.address = a then some o else h.object? a := by
  simp [insert, object?, Std.TreeMap.getElem?_insert]

theorem object?_remove (h : Heap) (a b : Address) :
    (h.remove a).object? b = if a = b then none else h.object? b := by
  simp [remove, object?, Std.TreeMap.getElem?_erase]

/-- Change the object at an address. It stays where it is. -/
def modify (h : Heap) (a : Address) (f : HeapObject → HeapObject)
    (hf : ∀ o, (f o).address = o.address) : Heap :=
  { h with
    objects := h.objects.modify a f
    keyed := by
      intro b x hx
      rw [Std.TreeMap.getElem?_modify] at hx
      split at hx
      · obtain ⟨o, ho, rfl⟩ := Option.map_eq_some_iff.mp hx
        next hab => rw [hf, h.keyed a o ho]; simpa using hab
      · exact h.keyed b x hx }

def addRoot (h : Heap) (root : Root) (isWeak : Bool) : Heap :=
  { h with roots := h.roots ++ [⟨root, isWeak⟩] }

def addSingleton (h : Heap) (a : Address) : Heap :=
  { h with singletons := h.singletons.insert a }

def addCompanion (h : Heap) (c : Companion) : Heap :=
  { h with companions := h.companions ++ [c] }

def setTraceNode (h : Heap) (a : Address) (traceNode : Nat) : Heap :=
  { h with traceNodes := h.traceNodes.insert a traceNode }

/-- Visit these addresses first, then the others in their order. -/
def setOrder (h : Heap) (order : List Address) : Heap :=
  { h with order := some order }

/-- Bring the heap to rest a number of times. -/
def quiesce (h : Heap) (times : Nat) : Heap :=
  { h with quiesced := h.quiesced + times }

/-- The live objects in the order in which they are visited. -/
def live (h : Heap) : List HeapObject :=
  match h.order with
  | none => h.objects.values
  | some order =>
    order.filterMap h.object? ++
      h.objects.values.filter fun o => !order.contains o.address

/-- The root references that a walk reports: the strong ones, or all. -/
def rootsOf (h : Heap) (strongOnly : Bool) : List Root :=
  (h.roots.filter fun r => !(strongOnly && r.isWeak)).map (·.root)

def view (h : Heap) : View where
  live := h.live
  object? := h.object?
  strongRoots := h.rootsOf true
  allRoots := h.rootsOf false
  isSingleton := h.singletons.contains
  traceNode a := h.traceNodes.getD a 0
  companions := h.companions

end Heap

/-! ## Moving an object -/

/-- The address that stands in the place of `a` once `source` has moved to `target`. -/
def Address.moved (a source target : Address) : Address :=
  if a = source then target else a

/-! References led elsewhere, each to where `f` says. -/

def Value.redirect (f : Address → Address) : Value → Value
  | .ref a => .ref (f a)
  | .small n => .small n

def Property.redirect (f : Address → Address) (p : Property) : Property :=
  { p with value := p.value.redirect f }

def Element.redirect (f : Address → Address) (e : Element) : Element :=
  { e with value := e.value.redirect f }

def Layout.redirect (f : Address → Address) (l : Layout) : Layout :=
  { l with
    properties := l.properties.map (·.redirect f)
    elements := l.elements.map (·.redirect f)
    prototype := l.prototype.map (·.redirect f) }

/-- Only a context's global object is an address; memory outside the heap does not move. -/
def Detail.redirect (f : Address → Address) : Detail → Detail
  | .context c => .context { c with globalObject := c.globalObject.map f }
  | d => d

/-- The object stays where it is. -/
def HeapObject.redirect (f : Address → Address) (o : HeapObject) : HeapObject :=
  { o with
    shape := o.shape.map f
    slots := o.slots.map (·.redirect f)
    layout := o.layout.map (·.redirect f)
    detail := o.detail.redirect f }

def Root.redirect (f : Address → Address) (r : Root) : Root :=
  { r with target := f r.target }

def Companion.redirect (f : Address → Address) (c : Companion) : Companion :=
  { c with wrappers := c.wrappers.map f }

namespace Heap

/-- The heap once the object at `source` is at `target` and every reference leads there. -/
def rehome (h : Heap) (o : HeapObject) (source target : Address) : Heap :=
  { h with
    objects :=
      ((h.objects.erase source).insert target { o with address := target }).map
        fun _ o => o.redirect (·.moved source target)
    keyed := by
      intro a x hx
      rw [Std.TreeMap.getElem?_map] at hx
      obtain ⟨y, hy, rfl⟩ := Option.map_eq_some_iff.mp hx
      show y.address = a
      rw [Std.TreeMap.getElem?_insert] at hy
      split at hy
      · next ha => cases hy; simpa using ha
      · rw [Std.TreeMap.getElem?_erase] at hy
        split at hy
        · cases hy
        · exact h.keyed a y hy
    order := h.order.map (·.map (·.moved source target))
    roots := h.roots.map fun r => { r with root := r.root.redirect (·.moved source target) }
    singletons :=
      if h.singletons.contains source then (h.singletons.erase source).insert target
      else h.singletons
    companions := h.companions.map (·.redirect (·.moved source target))
    traceNodes :=
      match h.traceNodes[source]? with
      | some t => (h.traceNodes.erase source).insert target t
      | none => h.traceNodes }

/-- Move an object. Gives the object's size, or nothing when there is no object to move or the new
place is taken. -/
def relocate (h : Heap) (source target : Address) : Option (Nat × Heap) :=
  if source = target ∨ h.objects.contains target then none
  else
    match h.objects[source]? with
    | none => none
    | some o => some (o.size, h.rehome o source target)

end Heap

end ManagedHeap
