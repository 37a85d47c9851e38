import ManagedHeap.Digest
import ManagedHeap.Identity
/-!
Objects outside the managed heap that heap objects wrap. Their numbers are odd and come from
digests of what identifies them.
-/
namespace ManagedHeap

/-- An object outside the heap, listed under a group. -/
structure Companion where
  label : String
  group : String
  /-- The embedder's own identity of the object. -/
  hash : UInt64
  elementCount : Option Nat := none
  size : Option Nat := none
  wrappers : List Address := []
  deriving DecidableEq, Repr, Inhabited

/-- Digest of a label. -/
def labelDigest (label : String) : UInt64 := Digest.ofText label 0x68656170

/-- The eight bytes of a number, the lowest first. -/
def wordBytes (n : Nat) : List UInt8 :=
  (List.range 8).map fun i => (n >>> (8 * i)).toUInt8

namespace Companion

/-- The companion's number, the same for the same hash, label and number of elements. -/
def id (c : Companion) : ObjectId :=
  let hash := c.hash ^^^ labelDigest c.label
  ObjectId.ofDigest <|
    match c.elementCount with
    | some n => hash ^^^ Digest.xxh64 (wordBytes n) 0
    | none => hash

/-- Number of a group's node. Labels of groups are hashed under a seed of their own. -/
def groupId (label : String) : ObjectId := ObjectId.ofDigest (Digest.ofText label 0x67726f7570)

/-- Name of the companion's node. -/
def name (c : Companion) : String :=
  match c.elementCount with
  | some n => c.label ++ " / " ++ toString n ++ " entries"
  | none => c.label

end Companion

end ManagedHeap
