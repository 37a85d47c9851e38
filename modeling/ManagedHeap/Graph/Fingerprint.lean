import ManagedHeap.Digest
import ManagedHeap.Graph.Basic
import ManagedHeap.Json.Basic
/-!
A fingerprint of a graph that does not see in which order nodes and edges were added: nodes are
listed by number, kind and name, edges by the numbers of their ends, kind and label, both lists
are sorted, and their texts are hashed.
-/
namespace ManagedHeap

/-- Digest of a value: its compact text is hashed. -/
def Json.digest (v : Json) : UInt64 := Digest.ofText v.render 0

def Json.digestHex (v : Json) : String := Digest.hex v.digest

/-- What a fingerprint sees of a node. -/
structure NodeKey where
  id : Nat
  kind : Nat
  name : String
  deriving DecidableEq, Repr

/-- What a fingerprint sees of an edge. -/
structure EdgeKey where
  source : Nat
  kind : Nat
  label : String
  target : Nat
  deriving DecidableEq, Repr

namespace NodeKey

/-- By number, then kind, then name. -/
def le (a b : NodeKey) : Bool :=
  a.id < b.id ||
    (a.id == b.id && (a.kind < b.kind || (a.kind == b.kind && decide (a.name ≤ b.name))))

def toJson (k : NodeKey) : Json := .arr [.nat k.id, .nat k.kind, .str k.name]

end NodeKey

namespace EdgeKey

/-- By source, then kind, then label, then target. -/
def le (a b : EdgeKey) : Bool :=
  a.source < b.source ||
    (a.source == b.source &&
      (a.kind < b.kind ||
        (a.kind == b.kind &&
          (decide (a.label < b.label) || (a.label == b.label && decide (a.target ≤ b.target))))))

def toJson (k : EdgeKey) : Json :=
  .arr [.nat k.source, .nat k.kind, .str k.label, .nat k.target]

end EdgeKey

namespace Graph

def nodeKeys (g : Graph) : List NodeKey :=
  g.nodes.toList.map fun n => ⟨n.id.raw, n.kind.toCode, n.name⟩

/-- Number of the node at a position. -/
def idAt (g : Graph) (index : NodeIndex) : Nat :=
  (g.nodes[index]?.map (·.id.raw)).getD 0

def edgeKeys (g : Graph) : List EdgeKey :=
  g.edges.toList.map fun e => ⟨g.idAt e.source, e.kind.toCode, e.label.render, g.idAt e.target⟩

/-- The value whose text stands for the nodes. -/
def nodeRoll (g : Graph) : Json :=
  .arr ((g.nodeKeys.mergeSort NodeKey.le).map NodeKey.toJson)

/-- The value whose text stands for the edges. -/
def edgeRoll (g : Graph) : Json :=
  .arr ((g.edgeKeys.mergeSort EdgeKey.le).map EdgeKey.toJson)

/-- Add the size of one more node. What has been added so far must fit 64 bits at all times. -/
def addSize (size : Nat) (n : Node) : Except Fault Nat :=
  if size + n.selfSize < wordLimit 64 then .ok (size + n.selfSize) else .error .sizeOverflow

/-- Size of all nodes together. -/
def totalSize (g : Graph) : Except Fault Nat :=
  g.nodes.toList.foldlM addSize 0

end Graph

/-- The fingerprint of a graph. -/
structure Fingerprint where
  snapshotId : String
  nodeCount : Nat
  edgeCount : Nat
  totalSize : Nat
  nodeHash : String
  edgeHash : String
  /-- When the fingerprint was taken. -/
  computedAt : Int
  deriving DecidableEq, Repr

namespace Fingerprint

/-- Version of what the fingerprint covers. -/
def version : String := "heap_graph_v1"

/-- What the identifying digest is taken of. -/
def idValue (nodeCount edgeCount totalSize : Nat) (nodeHash edgeHash : String) : Json :=
  .obj [("node_count", .nat nodeCount), ("edge_count", .nat edgeCount),
    ("total_size", .nat totalSize), ("format_version", .str version),
    ("node_id_hash", .str nodeHash), ("edge_hash", .str edgeHash)]

/-- The fingerprint of a graph at the given time. The size of all nodes must fit 64 bits. -/
def compute (g : Graph) (now : Int) : Except Graph.Fault Fingerprint := do
  let totalSize ← g.totalSize
  let nodeHash := g.nodeRoll.digestHex
  let edgeHash := g.edgeRoll.digestHex
  .ok {
    snapshotId := (idValue g.nodeCount g.edgeCount totalSize nodeHash edgeHash).digestHex
    nodeCount := g.nodeCount
    edgeCount := g.edgeCount
    totalSize := totalSize
    nodeHash := nodeHash
    edgeHash := edgeHash
    computedAt := now }

def toJson (f : Fingerprint) : Json :=
  .obj [("snapshot_id", .str f.snapshotId), ("node_count", .nat f.nodeCount),
    ("edge_count", .nat f.edgeCount), ("total_size", .nat f.totalSize),
    ("format_version", .str version), ("node_id_hash", .str f.nodeHash),
    ("edge_hash", .str f.edgeHash), ("computed_at", .int f.computedAt)]

def render (f : Fingerprint) : String := f.toJson.render

/-- Whether a graph has the same fingerprint. -/
def matches? (f : Fingerprint) (g : Graph) : Except Graph.Fault Bool := do
  let other ← compute g f.computedAt
  .ok (f.snapshotId == other.snapshotId)

end Fingerprint

end ManagedHeap
