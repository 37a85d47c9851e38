import ManagedHeap.Capture.Stage
import ManagedHeap.Settings
import ManagedHeap.Stream.Sink
/-!
The ways in which a capture, a report or the writing of a document can fail. Being stopped is not
one of them.
-/
namespace ManagedHeap

inductive Failure where
  | sink (e : SinkError)
  | nodeLimit (limit : Nat)
  /-- More room was asked for than can be addressed. -/
  | noRoom
  | wrongStage (expected found : Stage)
  | settings (problem : Settings.Problem)
  deriving DecidableEq, Repr

def Failure.message : Failure → String
  | .sink e => "Output sink failed: " ++ e.reason
  | .nodeLimit limit => "Snapshot exceeded the node limit of " ++ toString limit
  | .noRoom =>
    "Failed to reserve snapshot storage: memory allocation failed because the computed " ++
      "capacity exceeded the collection's maximum"
  | .wrongStage expected found =>
    "Invalid generator state: expected " ++ expected.label ++ ", found " ++ found.label
  | .settings problem => "Invalid configuration: " ++ problem.message

end ManagedHeap
