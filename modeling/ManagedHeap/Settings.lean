import ManagedHeap.Json.Record
import ManagedHeap.Text.Blank
/-!
Settings of captures and documents, read from a JSON text or from named variables. What is not
given has a default.
-/
namespace ManagedHeap

structure Settings where
  /-- Objects visited between two reports of progress. -/
  progressGranularity : Nat := 10000
  /-- How often the heap is brought to rest before a capture. -/
  quiescePasses : Nat := 2
  /-- The most nodes a snapshot may have. -/
  maxNodes : Nat := wordLimit 32 - 1
  /-- Names of strings are cut to so many characters. -/
  maxNameLength : Nat := 1024
  /-- Whether moves and changes of size are traced. -/
  traceObjects : Bool := false
  /-- Size of chunks for sinks that choose none. -/
  chunkSize : Nat := 10240
  deriving DecidableEq, Repr, Inhabited

namespace Settings

/-- Why settings cannot be used. -/
inductive Problem where
  | progressGranularity
  | chunkSize
  | maxNodes
  deriving DecidableEq, Repr

def Problem.message : Problem → String
  | .progressGranularity => "progress_granularity must be positive"
  | .chunkSize => "default_chunk_size must be positive"
  | .maxNodes => "max_nodes must be positive"

/-- The first problem of the settings, if they have one. -/
def problem? (s : Settings) : Option Problem :=
  if s.progressGranularity = 0 then some .progressGranularity
  else if s.chunkSize = 0 then some .chunkSize
  else if s.maxNodes = 0 then some .maxNodes
  else none

/-! ## From a JSON text -/

/-- Settings of which only some are given. -/
structure Given where
  progressGranularity : Option Nat := none
  quiescePasses : Option Nat := none
  maxNodes : Option Nat := none
  maxNameLength : Option Nat := none
  traceObjects : Option Bool := none
  chunkSize : Option Nat := none

def Given.fields (_depth : Nat) : List (Json.RecordField Given) :=
  [ { key := "progress_granularity", isSet := (·.progressGranularity.isSome)
      read := fun g cs => (Json.readNat 32 cs).map fun r =>
        ({ g with progressGranularity := some r.1 }, r.2) },
    { key := "quiesce_passes", isSet := (·.quiescePasses.isSome)
      read := fun g cs => (Json.readNat 32 cs).map fun r =>
        ({ g with quiescePasses := some r.1 }, r.2) },
    { key := "max_nodes", isSet := (·.maxNodes.isSome)
      read := fun g cs => (Json.readNat 32 cs).map fun r =>
        ({ g with maxNodes := some r.1 }, r.2) },
    { key := "max_name_length", isSet := (·.maxNameLength.isSome)
      read := fun g cs => (Json.readNat 64 cs).map fun r =>
        ({ g with maxNameLength := some r.1 }, r.2) },
    { key := "trace_objects", isSet := (·.traceObjects.isSome)
      read := fun g cs => (Json.readBool cs).map fun r =>
        ({ g with traceObjects := some r.1 }, r.2) },
    { key := "default_chunk_size", isSet := (·.chunkSize.isSome)
      read := fun g cs => (Json.readNat 64 cs).map fun r =>
        ({ g with chunkSize := some r.1 }, r.2) } ]

/-- The settings, with defaults for what is not given. -/
def ofGiven (g : Given) : Settings :=
  let d : Settings := {}
  { progressGranularity := g.progressGranularity.getD d.progressGranularity
    quiescePasses := g.quiescePasses.getD d.quiescePasses
    maxNodes := g.maxNodes.getD d.maxNodes
    maxNameLength := g.maxNameLength.getD d.maxNameLength
    traceObjects := g.traceObjects.getD d.traceObjects
    chunkSize := g.chunkSize.getD d.chunkSize }

def read (text : String) : Except Json.Refusal Settings :=
  (Json.readWhole (Json.readRecord Json.maxDepth Given.fields {}) text).map ofGiven

/-! ## From variables -/

/-- A decimal number of `bits` bits; a plus sign may come first. -/
def parseNat? (bits : Nat) (cs : List Char) : Option Nat :=
  let digits := match cs with
    | '+' :: cs => cs
    | cs => cs
  if digits ≠ [] ∧ digits.all Char.isDigit then
    let n := Json.digitsValue digits
    if n < wordLimit bits then some n else none
  else none

def parseBool? (cs : List Char) : Option Bool :=
  if cs = ['t', 'r', 'u', 'e'] then some true
  else if cs = ['f', 'a', 'l', 's', 'e'] then some false
  else none

/-- The settings that variables give. A value that cannot be read counts as not given. -/
def ofVariables (lookup : String → Option String) : Settings :=
  let given (name : String) := (lookup ("HEAP_SNAPSHOT_" ++ name)).map Text.trim
  ofGiven {
    progressGranularity := (given "PROGRESS_GRANULARITY").bind (parseNat? 32)
    quiescePasses := (given "QUIESCE_PASSES").bind (parseNat? 32)
    maxNodes := (given "MAX_NODES").bind (parseNat? 32)
    maxNameLength := (given "MAX_NAME_LENGTH").bind (parseNat? 64)
    traceObjects := (given "TRACE_OBJECTS").bind parseBool?
    chunkSize := (given "CHUNK_SIZE").bind (parseNat? 64) }

def toJson (s : Settings) : Json :=
  .obj [("progress_granularity", .nat s.progressGranularity),
    ("quiesce_passes", .nat s.quiescePasses), ("max_nodes", .nat s.maxNodes),
    ("max_name_length", .nat s.maxNameLength), ("trace_objects", .bool s.traceObjects),
    ("default_chunk_size", .nat s.chunkSize)]

end Settings

end ManagedHeap
