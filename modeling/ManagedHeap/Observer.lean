import ManagedHeap.Capture.Basic
import ManagedHeap.Heap.Basic
import ManagedHeap.Ledger.Population
/-!
An observer stays with a heap over time. It keeps the ledger, so that objects have the same
numbers in all captures, and is told of every move.
-/
namespace ManagedHeap

structure Observer where
  ledger : Ledger := {}
  handlers : Handlers := Handlers.builtin
  settings : Settings := {}
  resolver : Option Resolver := none

namespace Observer

/-- An observer that has seen nothing yet. -/
def ofSettings (settings : Settings) : Except Failure Observer :=
  match settings.problem? with
  | some problem => .error (.settings problem)
  | none => .ok { settings := settings }

/-- What taking a snapshot came to. -/
structure Shot where
  /-- The graph, or nothing if the control stopped the capture. -/
  result : Except Failure (Option Graph)
  reports : List ProgressReport
  observer : Observer
  heap : Heap
  /-- What the survey could not do; there is no result then. -/
  fault : Option Survey.Fault

/-- Take a snapshot. When it is complete, numbers of objects that have died are dropped. -/
def snapshot (ob : Observer) (h : Heap) (control : Option Control) : Shot :=
  let capture : Capture :=
    { ledger := ob.ledger, handlers := ob.handlers, settings := ob.settings,
      control := control, resolver := ob.resolver }
  let (outcome, capture) := capture.run h.view
  let heap := h.quiesce capture.quiesced
  match outcome with
  | .error f =>
    ⟨.error f, capture.reports, { ob with ledger := capture.ledger }, heap, capture.fault⟩
  | .ok (.stopped _) =>
    ⟨.ok none, capture.reports, { ob with ledger := capture.ledger }, heap, capture.fault⟩
  | .ok .completed =>
    ⟨capture.take.map some, capture.reports, { ob with ledger := capture.ledger.sweep }, heap,
      capture.fault⟩

/-- An object has moved. Tells whether it had a number. -/
def moved (ob : Observer) (source target : Address) (size : Nat) : Bool × Observer :=
  let (wasTracked, ledger) := ob.ledger.move source target size
  (wasTracked, { ob with ledger := ledger })

/-- Number of the object at an address. -/
def idOf? (ob : Observer) (a : Address) : Option ObjectId := ob.ledger.find? a

/-- Where the live object with a number is. -/
def addressOf? (ob : Observer) (h : Heap) (id : ObjectId) : Option Address :=
  (h.live.map (·.address)).find? fun a => ob.ledger.find? a = some id

/-- Report the population to a sink at time `now`. -/
def report {σ : Type} (ob : Observer) (h : Heap) (now : Int) (k : Sink σ) (s : σ) :
    Report σ × Observer × Heap :=
  let r := ob.ledger.report h.live now k s
  (r, { ob with ledger := r.ledger }, h.quiesce 1)

/-- End the statistics. Numbers are kept. -/
def forgetSpans (ob : Observer) : Observer :=
  { ob with ledger := ob.ledger.forgetSpans }

end Observer

end ManagedHeap
