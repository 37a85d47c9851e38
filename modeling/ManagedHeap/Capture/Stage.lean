/-!
The stages of a capture.
-/
namespace ManagedHeap

/-- How far a capture has come. -/
inductive Stage where
  | idle
  /-- Global objects have their tags, and the heap is at rest. -/
  | rootsTagged
  | firstPass
  | secondPass
  /-- Edges are grouped by source. -/
  | grouped
  | done
  /-- Stopped by its control or by a failure. -/
  | aborted
  deriving DecidableEq, Repr, Inhabited

def Stage.label : Stage → String
  | .idle => "Idle"
  | .rootsTagged => "RootsTagged"
  | .firstPass => "Pass1Running"
  | .secondPass => "Pass2Running"
  | .grouped => "ChildrenFinalized"
  | .done => "Done"
  | .aborted => "Aborted"

end ManagedHeap
