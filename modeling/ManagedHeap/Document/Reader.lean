import ManagedHeap.Document.Basic
import ManagedHeap.Json.Record
/-!
Reading a snapshot document from its text.
-/
namespace ManagedHeap.Document

open Json (Reader Refusal RecordField)

/-- A field that a reader fills in. -/
def field {α β : Type} (key : String) (get : α → Option β) (set : α → β → α) (read : Reader β) :
    RecordField α where
  key := key
  isSet a := (get a).isSome
  read a cs := (read cs).map fun r => (set a r.1, r.2)

def readTexts (depth : Nat) : Reader (List String) :=
  Json.readArray depth fun _ => Json.readText

def readNats (depth : Nat) : Reader (List Nat) :=
  Json.readArray depth fun _ => Json.readNat 64

def readValues (depth : Nat) : Reader (List Json) :=
  Json.readArray depth Json.readValue

/-- A 64-bit number with sign. -/
def readSigned : Reader Int := Json.readInt (-(wordLimit 63 : Int)) ((wordLimit 63 : Int) - 1)

/-- A layout description of which only some is given. -/
structure GivenMeta where
  nodeFields : Option (List String) := none
  nodeTypes : Option (List Json) := none
  edgeFields : Option (List String) := none
  edgeTypes : Option (List Json) := none
  traceFunctionInfoFields : Option (List String) := none
  traceNodeFields : Option (List String) := none
  sampleFields : Option (List String) := none

def metaFields (depth : Nat) : List (RecordField GivenMeta) :=
  [ field "node_fields" (·.nodeFields) (fun m x => { m with nodeFields := some x })
      (readTexts depth),
    field "node_types" (·.nodeTypes) (fun m x => { m with nodeTypes := some x })
      (readValues depth),
    field "edge_fields" (·.edgeFields) (fun m x => { m with edgeFields := some x })
      (readTexts depth),
    field "edge_types" (·.edgeTypes) (fun m x => { m with edgeTypes := some x })
      (readValues depth),
    field "trace_function_info_fields" (·.traceFunctionInfoFields)
      (fun m x => { m with traceFunctionInfoFields := some x }) (readTexts depth),
    field "trace_node_fields" (·.traceNodeFields)
      (fun m x => { m with traceNodeFields := some x }) (readTexts depth),
    field "sample_fields" (·.sampleFields) (fun m x => { m with sampleFields := some x })
      (readTexts depth) ]

def GivenMeta.complete (m : GivenMeta) : Except Refusal Meta := do
  .ok {
    nodeFields := ← Json.required m.nodeFields
    nodeTypes := ← Json.required m.nodeTypes
    edgeFields := ← Json.required m.edgeFields
    edgeTypes := ← Json.required m.edgeTypes
    traceFunctionInfoFields := m.traceFunctionInfoFields.getD []
    traceNodeFields := m.traceNodeFields.getD []
    sampleFields := m.sampleFields.getD [] }

def readMeta (depth : Nat) (cs : List Char) : Except Refusal (Meta × List Char) := do
  let (m, rest) ← Json.readRecord depth metaFields {} cs
  .ok (← m.complete, rest)

/-- A header of which only some is given. -/
structure GivenHeader where
  layout : Option Meta := none
  nodeCount : Option Nat := none
  edgeCount : Option Nat := none
  traceFunctionCount : Option Nat := none

def headerFields (depth : Nat) : List (RecordField GivenHeader) :=
  [ field "meta" (·.layout) (fun h x => { h with layout := some x }) (readMeta depth),
    field "node_count" (·.nodeCount) (fun h x => { h with nodeCount := some x })
      (Json.readNat 64),
    field "edge_count" (·.edgeCount) (fun h x => { h with edgeCount := some x })
      (Json.readNat 64),
    field "trace_function_count" (·.traceFunctionCount)
      (fun h x => { h with traceFunctionCount := some x }) (Json.readNat 32) ]

def GivenHeader.complete (h : GivenHeader) : Except Refusal Header := do
  .ok {
    layout := ← Json.required h.layout
    nodeCount := ← Json.required h.nodeCount
    edgeCount := ← Json.required h.edgeCount
    traceFunctionCount := h.traceFunctionCount.getD 0 }

def readHeader (depth : Nat) (cs : List Char) : Except Refusal (Header × List Char) := do
  let (h, rest) ← Json.readRecord depth headerFields {} cs
  .ok (← h.complete, rest)

/-- A document of which only some is given. -/
structure Given where
  header : Option Header := none
  nodes : Option (List Nat) := none
  edges : Option (List Nat) := none
  traceFunctionInfos : Option (List Nat) := none
  traceTree : Option (List Json) := none
  samples : Option (List Int) := none
  strings : Option (List String) := none

def fields (depth : Nat) : List (RecordField Given) :=
  [ field "snapshot" (·.header) (fun d x => { d with header := some x }) (readHeader depth),
    field "nodes" (·.nodes) (fun d x => { d with nodes := some x }) (readNats depth),
    field "edges" (·.edges) (fun d x => { d with edges := some x }) (readNats depth),
    field "trace_function_infos" (·.traceFunctionInfos)
      (fun d x => { d with traceFunctionInfos := some x }) (readNats depth),
    field "trace_tree" (·.traceTree) (fun d x => { d with traceTree := some x })
      (readValues depth),
    field "samples" (·.samples) (fun d x => { d with samples := some x })
      (Json.readArray depth fun _ => readSigned),
    field "strings" (·.strings) (fun d x => { d with strings := some x }) (readTexts depth) ]

def Given.complete (d : Given) : Except Refusal Document := do
  .ok {
    header := ← Json.required d.header
    nodes := ← Json.required d.nodes
    edges := ← Json.required d.edges
    traceFunctionInfos := d.traceFunctionInfos.getD []
    traceTree := d.traceTree.getD []
    samples := d.samples.getD []
    strings := ← Json.required d.strings }

/-- The document that a text holds. -/
def read (text : String) : Except Refusal Document :=
  Json.readWhole (fun cs => do
    let (d, rest) ← Json.readRecord Json.maxDepth fields {} cs
    .ok (← d.complete, rest)) text

end ManagedHeap.Document
