import ManagedHeap.Graph.Kind
import ManagedHeap.Graph.Names
import ManagedHeap.Heap.Root
import ManagedHeap.Word
/-!
The graph of one snapshot: nodes in the order of their creation, edges between node positions,
and the names both use. Edges are added in any order and grouped by their source afterwards. The
first lookup by number fixes the set of nodes.
-/
namespace ManagedHeap

/-- Position of a node in its graph. -/
abbrev NodeIndex := Nat

/-- What distinguishes an edge among those of its source. -/
inductive Label where
  | name (text : String)
  | index (n : Nat)
  deriving DecidableEq, Repr, Inhabited

namespace Label

def isIndex : Label → Bool
  | .index _ => true
  | .name _ => false

def render : Label → String
  | .name text => text
  | .index n => toString n

def index? : Label → Option Nat
  | .index n => some n
  | .name _ => none

def name? : Label → Option String
  | .name text => some text
  | .index _ => none

end Label

/-- A reference from one node to another. -/
structure Edge where
  kind : EdgeKind
  label : Label
  source : NodeIndex
  target : NodeIndex
  deriving DecidableEq, Repr, Inhabited

/-- Indexed kinds carry an index and all others a name. -/
def Edge.isLabelled (e : Edge) : Bool :=
  e.kind.isIndexed == e.label.isIndex

/-- One node of a snapshot. -/
structure Node where
  kind : NodeKind
  name : String
  id : ObjectId
  selfSize : Nat
  /-- Position in a trace of allocations, 0 without one. -/
  traceNode : Nat := 0
  /-- Number of edges that leave the node. It is not cut: a graph is taken to have fewer than
  `wordLimit 32` edges, and a capture that draws more has a fault. -/
  childCount : Nat := 0
  /-- Where the node's edges begin once edges are grouped by source. -/
  childStart : Nat := 0
  deriving DecidableEq, Repr, Inhabited

/-- A moment at which statistics were taken: when, and the number due next at that time. -/
structure Sample where
  time : Int
  nextId : ObjectId
  deriving DecidableEq, Repr, Inhabited

/-- A use of a graph that its life cycle does not allow. -/
inductive Graph.Fault where
  | rootsNotFirst
  | nodesFixed
  | firstNotRoot
  | edgesGrouped
  | noTarget (target : NodeIndex)
  | noNode (count : Nat) (index : NodeIndex)
  | mislabelled (kind : EdgeKind) (label : Label)
  | edgesNotGrouped
  | rootNotSynthetic
  | sizeOverflow
  deriving DecidableEq, Repr

/-- The graph of one snapshot. -/
structure Graph where
  nodes : Array Node := #[]
  /-- In the order in which they were added. -/
  edges : Array Edge := #[]
  names : Names := {}
  /-- Positions of edges, grouped by source, once that was done. -/
  grouping : Option (Array Nat) := none
  /-- Positions of nodes in the order of their numbers, once a number was looked up. -/
  idOrder : Option (Array NodeIndex) := none
  samples : List Sample := []
  deriving DecidableEq, Repr, Inhabited

namespace Graph

def empty : Graph := {}

/-- Position of the synthetic root. -/
def rootIndex : NodeIndex := 0

/-- Position of the node that gathers the collector's roots. -/
def collectorIndex : NodeIndex := 1

/-- Position of a root category's node. -/
def categoryIndex (c : RootCategory) : NodeIndex := collectorIndex + 1 + c.ordinal

def collectorName : String := "(GC roots)"

def nodeCount (g : Graph) : Nat := g.nodes.size

def edgeCount (g : Graph) : Nat := g.edges.size

def isGrouped (g : Graph) : Bool := g.grouping.isSome

def node (g : Graph) (index : NodeIndex) : Except Fault Node :=
  match g.nodes[index]? with
  | some n => .ok n
  | none => .error (.noNode g.nodes.size index)

/-- Enter a name in the table. -/
def intern (g : Graph) (text : String) : Graph :=
  { g with names := g.names.insert text }

/-! ## Adding -/

/-- Append a node. Its name enters the table. -/
def pushNode (g : Graph) (n : Node) : Graph :=
  { g with nodes := g.nodes.push n, names := g.names.insert n.name }

/-- Append an edge and count it at its source. -/
def pushEdge (g : Graph) (e : Edge) : Graph :=
  { g with
    nodes := g.nodes.modify e.source fun n => { n with childCount := n.childCount + 1 }
    edges := g.edges.push e }

@[simp] theorem nodes_pushNode (g : Graph) (n : Node) :
    (g.pushNode n).nodes = g.nodes.push n := rfl

@[simp] theorem edges_pushNode (g : Graph) (n : Node) : (g.pushNode n).edges = g.edges := rfl

@[simp] theorem nodeCount_pushNode (g : Graph) (n : Node) :
    (g.pushNode n).nodeCount = g.nodeCount + 1 := by simp [nodeCount]

@[simp] theorem edges_pushEdge (g : Graph) (e : Edge) :
    (g.pushEdge e).edges = g.edges.push e := rfl

@[simp] theorem nodeCount_pushEdge (g : Graph) (e : Edge) :
    (g.pushEdge e).nodeCount = g.nodeCount := by simp [nodeCount, pushEdge]

/-- Append a node while the set of nodes is open. The first one must bear the root's number. -/
def addNode (g : Graph) (n : Node) : Except Fault Graph :=
  if g.idOrder.isSome then .error .nodesFixed
  else if g.nodes.isEmpty ∧ n.id ≠ ObjectId.root then .error .firstNotRoot
  else .ok (g.pushNode n)

/-- The end of an edge that is no node of the graph, if there is one. The target is looked at
first. -/
def missingEnd? (g : Graph) (source target : NodeIndex) : Option Fault :=
  if g.nodes.size ≤ target then some (.noTarget target)
  else if g.nodes.size ≤ source then some (.noNode g.nodes.size source)
  else none

theorem missingEnd?_eq_none {g : Graph} {source target : NodeIndex} :
    g.missingEnd? source target = none ↔ source < g.nodeCount ∧ target < g.nodeCount := by
  unfold missingEnd? nodeCount
  grind

/-- Append an edge between nodes of the graph, as long as edges are not grouped. -/
def addEdge (g : Graph) (e : Edge) : Except Fault Graph :=
  if g.isGrouped then .error .edgesGrouped
  else match g.missingEnd? e.source e.target with
    | some f => .error f
    | none => if e.isLabelled then .ok (g.pushEdge e) else .error (.mislabelled e.kind e.label)

/-- Name a node that has no name yet. -/
def nameIfEmpty (g : Graph) (index : NodeIndex) (name : String) : Graph :=
  match g.nodes[index]? with
  | some n =>
    if n.name = "" then
      { g with
        nodes := g.nodes.modify index fun n => { n with name := name }
        names := g.names.insert name }
    else g
  | none => g

@[simp] theorem edges_nameIfEmpty (g : Graph) (index : NodeIndex) (name : String) :
    (g.nameIfEmpty index name).edges = g.edges := by
  unfold nameIfEmpty
  split
  · split <;> rfl
  · rfl

@[simp] theorem nodeCount_nameIfEmpty (g : Graph) (index : NodeIndex) (name : String) :
    (g.nameIfEmpty index name).nodeCount = g.nodeCount := by
  unfold nameIfEmpty
  split
  · split <;> simp [nodeCount]
  · rfl

/-- `nameIfEmpty` for a position that must exist. -/
def nameIfEmptyAt (g : Graph) (index : NodeIndex) (name : String) : Except Fault Graph := do
  let _ ← g.node index
  .ok (g.nameIfEmpty index name)

def setSamples (g : Graph) (samples : List Sample) : Graph :=
  { g with samples := samples }

/-! ## Synthetic nodes -/

/-- The root, the collector's roots and one node for each root category, in this order. -/
def syntheticNodes : List Node :=
  { kind := .synthetic, name := "", id := ObjectId.root, selfSize := 0 } ::
  { kind := .synthetic, name := collectorName, id := ObjectId.collector, selfSize := 0 } ::
  RootCategory.all.map fun c =>
    { kind := .synthetic, name := c.label, id := c.id, selfSize := 0 }

/-- The graph that a capture starts from: the synthetic nodes and no edge. -/
def withRoots : Graph := syntheticNodes.foldl pushNode empty

/-- Add the synthetic nodes to a graph that has no node. -/
def addRoots (g : Graph) : Except Fault Graph :=
  if g.nodes.isEmpty then syntheticNodes.foldlM addNode g
  else .error .rootsNotFirst

/-! ## Grouping edges by source -/

/-- Lay the nodes' edges out one after the other: each node's edges begin where those of the node
before it end. -/
def layOut : Nat → List Node → List Node
  | _, [] => []
  | start, n :: ns => { n with childStart := start } :: layOut (start + n.childCount) ns

@[simp] theorem length_layOut (start : Nat) (ns : List Node) :
    (layOut start ns).length = ns.length := by
  induction ns generalizing start with
  | nil => rfl
  | cons n ns ih => simp [layOut, ih]

/-- Places edges into the layout, each at the next free place of its source. -/
structure Placement where
  /-- The next free place of each node. -/
  cursors : Array Nat
  places : Array Nat

def Placement.place (p : Placement) (edge : Nat) (source : NodeIndex) : Placement :=
  match p.cursors[source]? with
  | some place =>
    { cursors := p.cursors.modify source (· + 1), places := p.places.setIfInBounds place edge }
  | none => p

/-- Place the edges of a list, the first of which stands at position `edge` in the graph. -/
def placeAll : Nat → List Edge → Placement → Placement
  | _, [], p => p
  | edge, e :: es, p => placeAll (edge + 1) es (p.place edge e.source)

/-- Group the edges by source. Within a source they keep the order in which they were added. -/
def group (g : Graph) : Graph :=
  let nodes := (layOut 0 g.nodes.toList).toArray
  let start : Placement := ⟨nodes.map (·.childStart), Array.replicate g.edges.size 0⟩
  { g with nodes := nodes, grouping := some (placeAll 0 g.edges.toList start).places }

@[simp] theorem edges_group (g : Graph) : g.group.edges = g.edges := rfl

@[simp] theorem nodeCount_group (g : Graph) : g.group.nodeCount = g.nodeCount := by
  simp [nodeCount, group]

/-- The edges that leave a node, in the order in which they were added. -/
def children (g : Graph) (index : NodeIndex) : Except Fault (List Edge) :=
  match g.grouping with
  | none => .error .edgesNotGrouped
  | some places => do
    let n ← g.node index
    .ok ((List.range' n.childStart n.childCount).filterMap fun p =>
      places[p]?.bind fun e => g.edges[e]?)

/-! ## Lookup by number -/

/-- Positions of the nodes in the order of their numbers. -/
def sortIds (nodes : Array Node) : Array NodeIndex :=
  ((List.range nodes.size).mergeSort fun i j =>
    ((nodes[i]?.map (·.id.raw)).getD 0) ≤ ((nodes[j]?.map (·.id.raw)).getD 0)).toArray

/-- Binary search between `lo` and `hi` in a list of positions in the order of numbers. -/
def searchId (nodes : Array Node) (order : Array NodeIndex) (id : ObjectId) :
    Nat → Nat → Nat → Option NodeIndex
  | 0, _, _ => none
  | fuel + 1, lo, hi =>
    if lo < hi then
      let mid := (lo + hi) / 2
      match order[mid]? with
      | none => none
      | some index =>
        match nodes[index]? with
        | none => none
        | some n =>
          if n.id.raw < id.raw then searchId nodes order id fuel (mid + 1) hi
          else if id.raw < n.id.raw then searchId nodes order id fuel lo mid
          else some index
    else none

/-- The node with a number. No node can be added afterwards. -/
def lookup (g : Graph) (id : ObjectId) : Option NodeIndex × Graph :=
  let order := g.idOrder.getD (sortIds g.nodes)
  (searchId g.nodes order id order.size 0 order.size, { g with idOrder := some order })

/-! ## Room -/

/-- Bytes that one node takes. -/
def nodeBytes : Nat := 48

/-- Bytes that one edge takes. -/
def edgeBytes : Nat := 40

/-- Whether so many more nodes and edges can be addressed at all. -/
def hasRoom (g : Graph) (nodes edges : Nat) : Bool :=
  (g.nodes.size + nodes) * nodeBytes < wordLimit 63 &&
    (g.edges.size + edges) * edgeBytes < wordLimit 63

end Graph

/-- The wording of a fault. -/
def Graph.Fault.message : Graph.Fault → String
  | .rootsNotFirst => "synthetic roots must be added first"
  | .nodesFixed => "nodes added after the ID index was built"
  | .firstNotRoot => "the root must be the first node"
  | .edgesGrouped => "edge added after finalization"
  | .noTarget target => "dangling edge target " ++ toString target
  | .noNode count index =>
    "index out of bounds: the len is " ++ toString count ++ " but the index is " ++ toString index
  | .mislabelled kind label =>
    "assertion `left == right` failed: " ++ kind.label ++ " edge with label " ++ label.render ++
      "\n  left: " ++ toString kind.isIndexed ++ "\n right: " ++ toString label.isIndex
  | .edgesNotGrouped => "children read before finalization"
  | .rootNotSynthetic => "node 0 must be the synthetic root"
  | .sizeOverflow => "attempt to add with overflow"

end ManagedHeap
