import ManagedHeap.Graph.Basic
import ManagedHeap.Heap.Object
import Std.Data.TreeMap
/-!
The ledger of object numbers. It holds a row for every address that has a number; numbers are
handed out in increasing order and are never used twice. Moves keep the number, and a sweep drops
the rows that nothing has asked for since the sweep before.
-/
namespace ManagedHeap

/-- What the ledger knows of one number. -/
structure Row where
  id : ObjectId
  /-- Where the object is, unless another object has taken its place. -/
  address : Option Address
  size : Nat
  /-- Whether the object was asked for since the last sweep. -/
  isAccessed : Bool
  deriving DecidableEq, Repr, Inhabited

/-- A span of allocations between two moments at which statistics were taken, with the population
last reported for it. -/
structure Span where
  /-- The first number behind the span. -/
  bound : ObjectId
  count : Nat := 0
  size : Nat := 0
  /-- When the span was closed, in microseconds. -/
  time : Int
  deriving DecidableEq, Repr, Inhabited

/-- The largest size that a row or a span records. -/
def maxSize : Nat := wordLimit 32 - 1

structure Ledger where
  /-- The number due next. -/
  nextId : Nat := ObjectId.firstAvailable.raw
  /-- In the order of their numbers. Row 0 belongs to no object. -/
  rows : Array Row := #[⟨ObjectId.unknown, none, 0, true⟩]
  /-- The row of each address. -/
  slots : Std.TreeMap Address Nat := {}
  /-- The spans so far, the oldest first. -/
  spans : List Span := []
  deriving Inhabited

namespace Ledger

def empty : Ledger := {}

/-- How many objects have a number. -/
def size (l : Ledger) : Nat := l.slots.size

def isEmpty (l : Ledger) : Bool := l.slots.isEmpty

/-- The number handed out last. -/
def lastId (l : Ledger) : ObjectId := ⟨l.nextId - ObjectId.step⟩

/-- Number of the object at an address. -/
def find? (l : Ledger) (a : Address) : Option ObjectId :=
  (l.slots[a]?.bind fun i => l.rows[i]?).map (·.id)

/-- Append a row for an address that has none. -/
def append (l : Ledger) (a : Address) (size : Nat) (isAccessed : Bool) : Ledger :=
  { l with
    nextId := l.nextId + ObjectId.step
    rows := l.rows.push ⟨⟨l.nextId⟩, some a, size, isAccessed⟩
    slots := l.slots.insert a l.rows.size }

/-- Record the size and the use of the object at an address, with a fresh number if it has none
yet. -/
def record (l : Ledger) (a : Address) (size : Nat) (isAccessed : Bool) : ObjectId × Ledger :=
  match l.slots[a]? with
  | some i =>
    let l := { l with
      rows := l.rows.modify i fun r => { r with size := size, isAccessed := isAccessed } }
    ((l.find? a).getD ObjectId.unknown, l)
  | none => (⟨l.nextId⟩, l.append a size isAccessed)

/-- The number of the object at an address, fresh if it has none yet. The object counts as used. -/
def track (l : Ledger) (a : Address) (size : Nat) : ObjectId × Ledger :=
  l.record a size true

/-- Record the size of an object without counting it as used. -/
def resize (l : Ledger) (a : Address) (size : Nat) : Ledger :=
  (l.record a size false).2

/-- Take away the place of an object that has died. -/
def displace (l : Ledger) (i : Nat) : Ledger :=
  { l with rows := l.rows.modify i fun r => { r with address := none } }

/-- Forget the object at an address. -/
def forget (l : Ledger) (a : Address) : Ledger :=
  match l.slots[a]? with
  | some i => { l.displace i with slots := l.slots.erase a }
  | none => l

/-- The object at `source` is now at `target`, and its size is `size`. Tells whether it had a
number. Whatever had a number at `target` is dead. -/
def move (l : Ledger) (source target : Address) (size : Nat) : Bool × Ledger :=
  if source = target then (false, l)
  else
    match l.slots[source]? with
    | none => (false, l.forget target)
    | some i =>
      let l := { l with slots := l.slots.erase source }.forget target
      (true,
        { l with
          rows := l.rows.modify i fun r => { r with address := some target, size := size }
          slots := l.slots.insert target i })

/-- Keep a row that was used, as the next one, and drop any other. -/
def sweepRow (kept : Array Row × Std.TreeMap Address Nat) (r : Row) :
    Array Row × Std.TreeMap Address Nat :=
  match r.address with
  | some a =>
    if r.isAccessed then
      (kept.1.push { r with isAccessed := false }, kept.2.insert a kept.1.size)
    else (kept.1, kept.2.erase a)
  | none => kept

/-- Drop the rows of objects that were not used since the last sweep. The others count as unused
from here on. -/
def sweep (l : Ledger) : Ledger :=
  let (rows, slots) := (l.rows.toList.drop 1).foldl sweepRow (l.rows.extract 0 1, l.slots)
  { l with rows := rows, slots := slots }

/-- Track an object and the memory outside the heap that it owns. -/
def trackObject (l : Ledger) (o : HeapObject) : Ledger :=
  let l := (l.track o.address o.size).2
  match o.backingStore? with
  | some store => (l.track store.address (min store.byteLength maxSize)).2
  | none => l

/-- Track every live object and sweep the dead. -/
def refresh (l : Ledger) (live : List HeapObject) : Ledger :=
  (live.foldl trackObject l).sweep

/-- The moments at which statistics were taken, counted from the first of them. -/
def samples (l : Ledger) : List Sample :=
  match l.spans with
  | [] => []
  | first :: _ => l.spans.map fun s => ⟨s.time - first.time, s.bound⟩

/-- Forget all spans. -/
def forgetSpans (l : Ledger) : Ledger := { l with spans := [] }

end Ledger

end ManagedHeap
