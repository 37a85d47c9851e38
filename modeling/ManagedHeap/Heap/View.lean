import ManagedHeap.Heap.Companion
import ManagedHeap.Heap.Object
import ManagedHeap.Heap.Root
/-!
What a heap reports while it stands still. A capture sees nothing else of it.
-/
namespace ManagedHeap

/-- A heap at rest. -/
structure View where
  /-- The live objects, in the order in which they are visited. -/
  live : List HeapObject
  object? : Address → Option HeapObject
  /-- The strong root references. -/
  strongRoots : List Root
  /-- All root references, the strong ones among them in the same order. -/
  allRoots : List Root
  /-- Whether an object is a well-known constant that no edge should lead to. -/
  isSingleton : Address → Bool := fun _ => false
  /-- Position of an object in a trace of allocations. -/
  traceNode : Address → Nat := fun _ => 0
  companions : List Companion := []

namespace View

def isLive (v : View) (a : Address) : Bool := (v.object? a).isSome

/-- Whether a reference deserves an edge: its target lives, and is neither an oddball nor a
well-known constant. -/
def isEssential (v : View) (a : Address) : Bool :=
  match v.object? a with
  | some o => o.tag != .oddball && !v.isSingleton a
  | none => false

/-- The global object of a realm, found from the realm's outermost context. -/
def globalOf? (v : View) (context : Address) : Option Address := do
  let c ← v.object? context
  if c.tag = .nativeContext then
    let global ← v.object? (← c.globalObject?)
    if global.tag = .globalObject then some global.address else none
  else none

end View

end ManagedHeap
