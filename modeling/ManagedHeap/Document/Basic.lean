import ManagedHeap.Graph.Kind
import ManagedHeap.Json.Basic
/-!
The snapshot document: nodes and edges as flat sequences of numbers, and a table of the strings
they refer to. A document may come from anywhere, so nothing in it need fit together; what can be
read off it is.
-/
namespace ManagedHeap

namespace Document

/-- Numbers per node. -/
def nodeWidth : Nat := 6

/-- Numbers per edge. -/
def edgeWidth : Nat := 3

/-- The string at position 0, whether it is used or not. -/
def placeholder : String := "<dummy>"

/-- The document's description of its own layout. -/
structure Meta where
  nodeFields : List String
  nodeTypes : List Json
  edgeFields : List String
  edgeTypes : List Json
  traceFunctionInfoFields : List String := []
  traceNodeFields : List String := []
  sampleFields : List String := []
  deriving BEq, Repr, Inhabited

structure Header where
  layout : Meta
  nodeCount : Nat
  edgeCount : Nat
  traceFunctionCount : Nat := 0
  deriving BEq, Repr, Inhabited

end Document

/-- A snapshot as it is written. -/
structure Document where
  header : Document.Header
  nodes : List Nat
  edges : List Nat
  traceFunctionInfos : List Nat := []
  traceTree : List Json := []
  samples : List Int := []
  strings : List String
  deriving BEq, Repr, Inhabited

namespace Document

/-- A node that was read off a document. -/
structure NodeRow where
  /-- Nothing for a code that no kind has. -/
  kind : Option NodeKind
  name : String
  id : Nat
  selfSize : Nat
  edgeCount : Nat
  traceNode : Nat
  deriving DecidableEq, Repr, Inhabited

/-- An edge that was read off a document. -/
structure EdgeRow where
  source : Nat
  kind : Option EdgeKind
  /-- The name, unless the kind is indexed. -/
  name : Option String
  /-- The index, if the kind is indexed. -/
  index : Option Nat
  target : Nat
  deriving DecidableEq, Repr, Inhabited

def string? (d : Document) (index : Nat) : Option String := d.strings[index]?

/-- The whole tuples of six numbers; a broken one at the end does not count. -/
def sixes : List Nat → List (Nat × Nat × Nat × Nat × Nat × Nat)
  | a :: b :: c :: d :: e :: f :: rest => (a, b, c, d, e, f) :: sixes rest
  | _ => []

/-- The whole tuples of three numbers. -/
def threes : List Nat → List (Nat × Nat × Nat)
  | a :: b :: c :: rest => (a, b, c) :: threes rest
  | _ => []

/-- The nodes in their order. A name that is not in the table is read as empty. -/
def nodeRows (d : Document) : List NodeRow :=
  (sixes d.nodes).map fun (kind, name, id, selfSize, edgeCount, traceNode) =>
    { kind := NodeKind.ofCode? kind
      name := (d.string? name).getD ""
      id := id
      selfSize := selfSize
      edgeCount := edgeCount
      traceNode := traceNode }

/-- One edge, given the node it leaves. -/
def edgeRow (d : Document) (source : Nat) (tuple : Nat × Nat × Nat) : EdgeRow :=
  let kind := EdgeKind.ofCode? tuple.1
  let isIndexed := (kind.map (·.isIndexed)).getD false
  { source := source
    kind := kind
    name := if isIndexed then none else d.string? tuple.2.1
    index := if isIndexed then some tuple.2.1 else none
    target := tuple.2.2 / nodeWidth }

/-- Deals the edges out to the nodes, each taking as many as its count says, while there are
any. -/
def dealEdges (d : Document) : Nat → List NodeRow → List (Nat × Nat × Nat) → List EdgeRow
  | _, [], _ => []
  | source, n :: ns, tuples =>
    (tuples.take n.edgeCount).map (d.edgeRow source) ++
      dealEdges d (source + 1) ns (tuples.drop n.edgeCount)

/-- The edges with the nodes they leave. -/
def edgeRows (d : Document) : List EdgeRow :=
  d.dealEdges 0 d.nodeRows (threes d.edges)

/-! ## As a JSON value -/

def textsJson (texts : List String) : Json := .arr (texts.map .str)

def natsJson (ns : List Nat) : Json := .arr (ns.map .nat)

def Meta.toJson (m : Meta) : Json :=
  .obj [("node_fields", textsJson m.nodeFields), ("node_types", .arr m.nodeTypes),
    ("edge_fields", textsJson m.edgeFields), ("edge_types", .arr m.edgeTypes),
    ("trace_function_info_fields", textsJson m.traceFunctionInfoFields),
    ("trace_node_fields", textsJson m.traceNodeFields),
    ("sample_fields", textsJson m.sampleFields)]

def Header.toJson (h : Header) : Json :=
  .obj [("meta", h.layout.toJson), ("node_count", .nat h.nodeCount),
    ("edge_count", .nat h.edgeCount), ("trace_function_count", .nat h.traceFunctionCount)]

def toJson (d : Document) : Json :=
  .obj [("snapshot", d.header.toJson), ("nodes", natsJson d.nodes), ("edges", natsJson d.edges),
    ("trace_function_infos", natsJson d.traceFunctionInfos), ("trace_tree", .arr d.traceTree),
    ("samples", .arr (d.samples.map .int)), ("strings", textsJson d.strings)]

end Document

end ManagedHeap
