import ManagedHeap.Document.Basic
import ManagedHeap.Graph.Basic
import ManagedHeap.Stream.Chunker
/-!
Writing a graph as a snapshot document, record by record. Names are written as positions in the
table of strings, which follows at the end; strings enter it in the order of their first use.
-/
namespace ManagedHeap.Document

/-- The layout description that every written document carries. -/
def writtenMeta : Json :=
  .ofMembers [
    ("node_fields",
      textsJson ["type", "name", "id", "self_size", "edge_count", "trace_node_id"]),
    ("node_types",
      .arr [textsJson (NodeKind.all.map (·.label)), .str "string", .str "number", .str "number",
        .str "number", .str "number"]),
    ("edge_fields", textsJson ["type", "name_or_index", "to_node"]),
    ("edge_types",
      .arr [textsJson (EdgeKind.all.map (·.label)), .str "string_or_number", .str "node"]),
    ("trace_function_info_fields",
      textsJson ["function_id", "name", "script_name", "script_id", "line", "column"]),
    ("trace_node_fields",
      textsJson ["id", "function_info_index", "count", "size", "children"]),
    ("sample_fields", textsJson ["timestamp_us", "last_assigned_id"])]

/-- Up to and with the bracket that opens the nodes. -/
def opening (g : Graph) : String :=
  "\x7b\"snapshot\":\x7b\"meta\":" ++ writtenMeta.render ++ ",\"node_count\":" ++
    toString g.nodeCount ++ ",\"edge_count\":" ++ toString g.edgeCount ++
    ",\"trace_function_count\":0\x7d,\n\"nodes\":["

def edgesOpening : String := "],\n\"edges\":["

def samplesOpening : String :=
  "],\n\"trace_function_infos\":[],\n\"trace_tree\":[],\n\"samples\":["

def stringsOpening : String := "],\n\"strings\":["

def closing : String := "]\x7d"

/-- What separates a record from the one before it. -/
def separator (first : Bool) : String := if first then "" else ","

def nodeLine (first : Bool) (name : Nat) (n : Node) : String :=
  separator first ++ toString n.kind.toCode ++ "," ++ toString name ++ "," ++
    toString n.id.raw ++ "," ++ toString n.selfSize ++ "," ++ toString n.childCount ++ "," ++
    toString n.traceNode ++ "\n"

/-- The records of nodes, and the strings once their names have entered. -/
def nodeLines : Bool → Names → List Node → List String × Names
  | _, strings, [] => ([], strings)
  | first, strings, n :: ns =>
    let (name, strings) := strings.enter n.name
    let (records, strings) := nodeLines false strings ns
    (nodeLine first name n :: records, strings)

/-- The number that stands for a label. -/
def enterLabel (strings : Names) : Label → Nat × Names
  | .index n => (n, strings)
  | .name text => strings.enter text

def edgeLine (first : Bool) (label : Nat) (e : Edge) : String :=
  separator first ++ toString e.kind.toCode ++ "," ++ toString label ++ "," ++
    toString (e.target * nodeWidth) ++ "\n"

/-- The records of edges, and the strings once their names have entered. -/
def edgeLines : Bool → Names → List Edge → List String × Names
  | _, strings, [] => ([], strings)
  | first, strings, e :: es =>
    let (label, strings) := enterLabel strings e.label
    let (records, strings) := edgeLines false strings es
    (edgeLine first label e :: records, strings)

def sampleLines : Bool → List Sample → List String
  | _, [] => []
  | first, s :: ss =>
    (separator first ++ toString s.time ++ "," ++ toString s.nextId.raw ++ "\n") ::
      sampleLines false ss

def stringLines : Bool → List String → List String
  | _, [] => []
  | first, s :: ss =>
    ((if first then "" else ",\n") ++ Json.quote s) :: stringLines false ss

/-- The strings before any node or edge was written. -/
def firstStrings : Names := Names.empty.insert placeholder

/-- The records of the nodes, and the strings they use. -/
def nodePart (g : Graph) : List String × Names :=
  nodeLines true firstStrings g.nodes.toList

/-- The edges in the order in which they are written: by source. -/
def edgesBySource (g : Graph) : Except Graph.Fault (List Edge) :=
  (List.range g.nodeCount).foldlM (fun es i => do .ok (es ++ (← g.children i))) []

/-- All records behind the one that opens the edges. -/
def tailLines (g : Graph) (strings : Names) (edges : List Edge) : List String :=
  let (records, strings) := edgeLines true strings edges
  records ++ samplesOpening :: sampleLines true g.samples ++
    stringsOpening :: stringLines true strings.toList ++ [closing]

/-- Why a graph cannot be written to a sink at all. -/
inductive Fault where
  | graph (f : Graph.Fault)
  | sink (f : Chunker.Fault)
  deriving DecidableEq, Repr

def Fault.message : Fault → String
  | .graph f => f.message
  | .sink f => f.message

/-- Write a graph through a chunker that has just been started. Its first node must be synthetic,
and its edges must be grouped by the time they are reached. -/
def writeTo {σ : Type} (g : Graph) (k : Sink σ) (c : Chunker σ) :
    Except Graph.Fault (Ending × σ) :=
  if g.nodes[0]?.any (·.kind != .synthetic) then .error .rootNotSynthetic
  else
    let (nodes, strings) := nodePart g
    let c := c.pushAll k (opening g :: nodes)
    if !nodes.isEmpty && !c.isRunning then .ok (c.finish k)
    else
      let c := c.push k edgesOpening
      match c.flow with
      | .failed _ => .ok (c.finish k)
      | _ => do
        let edges ← edgesBySource g
        .ok ((c.pushAll k (tailLines g strings edges)).finish k)

/-- Write a graph to a sink. A sink that nothing can be written to is refused before the graph is
looked at. -/
def write {σ : Type} (g : Graph) (k : Sink σ) (s : σ) : Except Fault (Ending × σ) :=
  match Chunker.start k s with
  | .error f => .error (.sink f)
  | .ok c => (writeTo g k c).mapError .graph

end ManagedHeap.Document
